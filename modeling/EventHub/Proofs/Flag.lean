import EventHub.Flag
set_option autoImplicit false

namespace EventHub.Flag

structure Counted (f : Flag) : Prop where
  raised : f.raisedCount = f.sources.countP Source.raised
  asynchronous : f.asyncCount = f.sources.countP Source.asynchronous

theorem counted_empty : Counted .empty := ⟨rfl, rfl⟩

theorem Counted.addSource {f : Flag} (hf : f.Counted) (asynchronous : Bool) :
    (f.addSource asynchronous).2.Counted where
  raised := by simp [Flag.addSource, List.countP_append, hf.raised]
  asynchronous := by
    cases asynchronous with
    | true => simp [Flag.addSource, List.countP_append, hf.asynchronous]
    | false => simp [Flag.addSource, List.countP_append, hf.asynchronous]

theorem countP_asynchronous_set {ss : List Source} {bit : Nat} {s : Source} (hs : ss[bit]? = some s)
    (raised : Bool) :
    (ss.set bit { s with raised := raised }).countP Source.asynchronous =
      ss.countP Source.asynchronous := by
  obtain ⟨hb, rfl⟩ := List.getElem?_eq_some_iff.1 hs
  have hle := List.boole_getElem_le_countP (p := Source.asynchronous) hb
  rw [List.countP_set hb]
  exact Nat.sub_add_cancel hle

theorem Counted.raise {f : Flag} (hf : f.Counted) (bit : Nat) : (f.raise bit).Counted := by
  unfold Flag.raise
  split
  · exact hf
  · rename_i s hs
    obtain ⟨hb, he⟩ := List.getElem?_eq_some_iff.1 hs
    split
    · exact hf
    · rename_i hr
      constructor
      · simp [List.countP_set hb, he, hr, hf.raised]
      · rw [hf.asynchronous]
        exact (countP_asynchronous_set hs true).symm

theorem Counted.clear {f : Flag} (hf : f.Counted) (bit : Nat) : (f.clear bit).Counted := by
  unfold Flag.clear
  split
  · exact hf
  · rename_i s hs
    obtain ⟨hb, he⟩ := List.getElem?_eq_some_iff.1 hs
    split
    · rename_i hr
      constructor
      · simp [List.countP_set hb, he, hr, hf.raised]
      · rw [hf.asynchronous]
        exact (countP_asynchronous_set hs false).symm
    · exact hf

/-- Only a flag with no bit raised lets anybody sleep. -/
theorem Counted.isBitRaised_eq_false {f : Flag} (hf : f.Counted) (h : f.isRaised = false) (bit : Nat) :
    f.isBitRaised bit = false := by
  have hz : f.sources.countP Source.raised = 0 := by
    rw [← hf.raised]
    simpa [isRaised] using h
  unfold isBitRaised
  cases hs : f.sources[bit]? with
  | none => rfl
  | some s =>
    have := List.countP_eq_zero.1 hz s (List.mem_of_getElem? hs)
    simpa using this

theorem Counted.isRaised_of_isBitRaised {f : Flag} (hf : f.Counted) {bit : Nat}
    (h : f.isBitRaised bit = true) : f.isRaised = true := by
  cases hr : f.isRaised with
  | true => rfl
  | false =>
    rw [hf.isBitRaised_eq_false hr bit] at h
    cases h

theorem Counted.isRaised_iff {f : Flag} (hf : f.Counted) : f.isRaised = true ↔ ∃ bit, f.isBitRaised bit = true := by
  constructor
  · intro h
    have hp : 0 < f.sources.countP Source.raised := by
      rw [← hf.raised]
      simpa [isRaised] using h
    obtain ⟨s, hs, hr⟩ := List.countP_pos_iff.1 hp
    obtain ⟨bit, hbit, rfl⟩ := List.getElem_of_mem hs
    exact ⟨bit, by rw [isBitRaised, List.getElem?_eq_getElem hbit]; exact hr⟩
  · rintro ⟨bit, h⟩
    exact hf.isRaised_of_isBitRaised h

theorem raise_of_not_isIssued {f : Flag} {bit : Nat} (h : f.isIssued bit = false) : f.raise bit = f := by
  have hn : f.sources[bit]? = none := by
    simpa [isIssued] using h
  simp [raise, hn]

theorem clear_empty (bit : Nat) : empty.clear bit = .empty := rfl

theorem clear_raise (f : Flag) (bit : Nat) : (f.raise bit).clear bit = f.clear bit := by
  cases hs : f.sources[bit]? with
  | none => rw [raise, hs]
  | some s =>
    obtain ⟨hb, he⟩ := List.getElem?_eq_some_iff.1 hs
    cases hr : s.raised with
    | true => simp only [raise, hs, hr, if_true]
    | false =>
      have hself : (f.sources.set bit ⟨s.asynchronous, true⟩)[bit]? = some ⟨s.asynchronous, true⟩ :=
        List.getElem?_set_self hb
      -- back in its place the source is as it was
      have hset : f.sources.set bit ⟨s.asynchronous, false⟩ = f.sources := by
        rw [← hr, ← he]
        exact List.set_getElem_self hb
      simp only [raise, clear, hs, hr, Bool.false_eq_true, if_false, hself, if_true, List.set_set, hset,
        Nat.add_sub_cancel]

theorem clear_clear (f : Flag) (bit : Nat) : (f.clear bit).clear bit = f.clear bit := by
  cases hs : f.sources[bit]? with
  | none => simp only [clear, hs]
  | some s =>
    obtain ⟨hb, -⟩ := List.getElem?_eq_some_iff.1 hs
    cases hr : s.raised with
    | false => simp only [clear, hs, hr, Bool.false_eq_true, if_false]
    | true =>
      have hself : (f.sources.set bit ⟨s.asynchronous, false⟩)[bit]? = some ⟨s.asynchronous, false⟩ :=
        List.getElem?_set_self hb
      simp only [clear, hs, hr, if_true, hself, Bool.false_eq_true, if_false]

theorem sources_clear_of_ne (f : Flag) {bit other : Nat} (h : other ≠ bit) :
    (f.clear bit).sources[other]? = f.sources[other]? := by
  unfold clear
  split
  · rfl
  · split
    · exact List.getElem?_set_ne (Ne.symm h)
    · rfl

theorem isRaised_addSource (f : Flag) (asynchronous : Bool) :
    (f.addSource asynchronous).2.isRaised = f.isRaised := rfl

theorem isRaised_clear {f : Flag} (h : f.isRaised = false) (bit : Nat) : (f.clear bit).isRaised = false := by
  unfold clear
  split
  · exact h
  · split
    · have hz : f.raisedCount = 0 := by simpa [isRaised] using h
      simp [isRaised, hz]
    · exact h

theorem isBitRaised_addSource (f : Flag) (asynchronous : Bool) (bit : Nat) :
    (f.addSource asynchronous).2.isBitRaised bit = f.isBitRaised bit := by
  unfold isBitRaised addSource
  by_cases hb : bit < f.sources.length
  · simp [List.getElem?_append_left hb]
  · rw [List.getElem?_append_right (Nat.le_of_not_lt hb), List.getElem?_eq_none (Nat.le_of_not_lt hb)]
    cases bit - f.sources.length with
    | zero => rfl
    | succ n => rfl

theorem isIssued_raise (f : Flag) (bit other : Nat) : (f.raise bit).isIssued other = f.isIssued other := by
  rw [isIssued, isIssued, length_raise]

theorem isIssued_clear (f : Flag) (bit other : Nat) : (f.clear bit).isIssued other = f.isIssued other := by
  rw [isIssued, isIssued, length_clear]

theorem isIssued_addSource {f : Flag} {bit : Nat} (h : f.isIssued bit = true) (asynchronous : Bool) :
    (f.addSource asynchronous).2.isIssued bit = true := by
  simp only [isIssued, addSource, List.length_append, List.length_singleton, decide_eq_true_eq] at h ⊢
  omega

theorem isIssued_addSource_self (f : Flag) (asynchronous : Bool) :
    f.isIssued (f.addSource asynchronous).1 = false ∧
      (f.addSource asynchronous).2.isIssued (f.addSource asynchronous).1 = true := by
  simp [isIssued, addSource]

theorem asyncCount_raise (f : Flag) (bit : Nat) : (f.raise bit).asyncCount = f.asyncCount := by
  unfold raise
  split
  · rfl
  · split <;> rfl

theorem asyncCount_clear (f : Flag) (bit : Nat) : (f.clear bit).asyncCount = f.asyncCount := by
  unfold clear
  split
  · rfl
  · split <;> rfl

theorem asyncCount_le_addSource (f : Flag) (asynchronous : Bool) :
    f.asyncCount ≤ (f.addSource asynchronous).2.asyncCount := by
  cases asynchronous with
  | true => exact Nat.le_succ _
  | false => exact Nat.le_refl _

end EventHub.Flag
