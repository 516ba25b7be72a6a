import EventHub.Proofs.Flag
import Mathlib.Data.List.Induction
set_option autoImplicit false

/-!
What a flag says of its past. Whatever is done to a flag, and however often or to whatever bit, its counts are those of
what was done to it: of the sources that were added, and of the bits that were raised last and not cleared.
-/
namespace EventHub.Flag

inductive Act where
  | addSource (asynchronous : Bool)
  | raise (bit : Nat)
  | clear (bit : Nat)
  deriving DecidableEq

def Act.on (f : Flag) : Act → Flag
  | .addSource asynchronous => (f.addSource asynchronous).2
  | .raise bit => f.raise bit
  | .clear bit => f.clear bit

def after (f : Flag) (acts : List Act) : Flag := acts.foldl Act.on f

def kinds : List Act → List Bool
  | [] => []
  | .addSource asynchronous :: acts => asynchronous :: kinds acts
  | .raise _ :: acts => kinds acts
  | .clear _ :: acts => kinds acts

def issues (f : Flag) : List Act → List Nat
  | [] => []
  | .addSource asynchronous :: acts => (f.addSource asynchronous).1 :: (f.addSource asynchronous).2.issues acts
  | .raise bit :: acts => (f.raise bit).issues acts
  | .clear bit :: acts => (f.clear bit).issues acts

/-- The bit was raised once it was issued, and not cleared since. -/
def LeftRaised (acts : List Act) (bit : Nat) : Prop :=
  ∃ before later, acts = before ++ .raise bit :: later ∧ bit < (kinds before).length ∧ .clear bit ∉ later

variable {f : Flag} {act : Act} {acts more : List Act} {bit : Nat}

theorem after_append (f : Flag) (acts more : List Act) : f.after (acts ++ more) = (f.after acts).after more :=
  List.foldl_append

theorem count_kinds (acts : List Act) : (kinds acts).count true = acts.count (.addSource true) := by
  induction acts with
  | nil => rfl
  | cons act acts ih =>
    cases act with
    | addSource asynchronous => cases asynchronous <;> simp [kinds, ih]
    | raise bit => simp [kinds, ih]
    | clear bit => simp [kinds, ih]

theorem map_asynchronous_set {ss : List Source} {s : Source} (hs : ss[bit]? = some s) (raised : Bool) :
    (ss.set bit { s with raised := raised }).map Source.asynchronous = ss.map Source.asynchronous := by
  obtain ⟨hb, rfl⟩ := List.getElem?_eq_some_iff.1 hs
  refine List.ext_getElem (by simp) fun i _ _ => ?_
  rw [List.getElem_map, List.getElem_map, List.getElem_set]
  split
  · rename_i h
    subst h
    rfl
  · rfl

theorem asynchronous_raise (f : Flag) (bit : Nat) :
    (f.raise bit).sources.map Source.asynchronous = f.sources.map Source.asynchronous := by
  unfold raise
  split
  · rfl
  · rename_i s hs
    split
    · rfl
    · exact map_asynchronous_set hs true

theorem asynchronous_clear (f : Flag) (bit : Nat) :
    (f.clear bit).sources.map Source.asynchronous = f.sources.map Source.asynchronous := by
  unfold clear
  split
  · rfl
  · rename_i s hs
    split
    · exact map_asynchronous_set hs false
    · rfl

theorem asynchronous_after (f : Flag) (acts : List Act) :
    (f.after acts).sources.map Source.asynchronous = f.sources.map Source.asynchronous ++ kinds acts := by
  induction acts generalizing f with
  | nil => exact (List.append_nil _).symm
  | cons act acts ih =>
    rw [after, List.foldl_cons, ← after, ih]
    cases act with
    | addSource asynchronous => simp [Act.on, addSource, kinds]
    | raise bit => rw [Act.on, asynchronous_raise, kinds]
    | clear bit => rw [Act.on, asynchronous_clear, kinds]

theorem length_after (f : Flag) (acts : List Act) :
    (f.after acts).sources.length = f.sources.length + (kinds acts).length := by
  simpa using congrArg List.length (asynchronous_after f acts)

theorem issues_eq (f : Flag) (acts : List Act) : f.issues acts = List.range' f.sources.length (kinds acts).length := by
  induction acts generalizing f with
  | nil => rfl
  | cons act acts ih =>
    cases act with
    | addSource asynchronous =>
      rw [issues, kinds, List.length_cons, List.range'_succ, ih]
      simp [addSource]
    | raise bit => rw [issues, kinds, ih, length_raise]
    | clear bit => rw [issues, kinds, ih, length_clear]

/-- Nobody else is given a bit that was issued before. -/
theorem not_mem_issues (hb : bit < f.sources.length) (more : List Act) : bit ∉ f.issues more := by
  rw [issues_eq, List.mem_range']
  rintro ⟨i, -, rfl⟩
  omega

theorem getElem?_after (hb : bit < f.sources.length) (more : List Act) :
    (f.after more).sources[bit]?.map Source.asynchronous = f.sources[bit]?.map Source.asynchronous := by
  rw [← List.getElem?_map, ← List.getElem?_map, asynchronous_after, List.getElem?_append_left (by simpa using hb)]

theorem Counted.on (hf : f.Counted) (act : Act) : (act.on f).Counted := by
  cases act with
  | addSource asynchronous => exact hf.addSource asynchronous
  | raise bit => exact hf.raise bit
  | clear bit => exact hf.clear bit

theorem Counted.after (hf : f.Counted) (acts : List Act) : (f.after acts).Counted := by
  induction acts generalizing f with
  | nil => exact hf
  | cons act acts ih => exact ih (hf.on act)

theorem isBitRaised_on : (act.on f).isBitRaised bit = true ↔
    act = .raise bit ∧ f.isIssued bit = true ∨ f.isBitRaised bit = true ∧ act ≠ .clear bit := by
  cases act with
  | addSource asynchronous => simp [Act.on, isBitRaised_addSource]
  | raise other =>
    rw [Act.on, isBitRaised_raise]
    by_cases ho : bit = other
    · subst ho
      simp only [beq_self_eq_true, Bool.true_and, Bool.or_eq_true, true_and, ne_eq, reduceCtorEq, not_false_eq_true,
        and_true]
      exact or_comm
    · simp [ho, Ne.symm ho]
  | clear other =>
    rw [Act.on, isBitRaised_clear]
    by_cases ho : bit = other
    · simp [ho]
    · simp [ho, Ne.symm ho]

theorem leftRaised_append_singleton : LeftRaised (acts ++ [act]) bit ↔
    act = .raise bit ∧ bit < (kinds acts).length ∨ LeftRaised acts bit ∧ act ≠ .clear bit := by
  constructor
  · rintro ⟨before, later, he, hb, hc⟩
    rcases List.eq_nil_or_concat later with rfl | ⟨later, last, rfl⟩
    · obtain ⟨rfl, h⟩ := List.append_inj' he rfl
      exact .inl ⟨List.singleton_inj.1 h, hb⟩
    · rw [List.concat_eq_append, ← List.cons_append, ← List.append_assoc] at he
      obtain ⟨rfl, h⟩ := List.append_inj' he rfl
      obtain rfl := List.singleton_inj.1 h
      rw [List.concat_eq_append, List.mem_append, not_or, List.mem_singleton] at hc
      exact .inr ⟨⟨before, later, rfl, hb, hc.1⟩, Ne.symm hc.2⟩
  · rintro (⟨rfl, hb⟩ | ⟨⟨before, later, rfl, hb, hc⟩, hn⟩)
    · exact ⟨acts, [], rfl, hb, List.not_mem_nil⟩
    · refine ⟨before, later ++ [act], by simp, hb, ?_⟩
      simp [hc, Ne.symm hn]

/-- A bit shows what was last done to it. -/
theorem isBitRaised_after : (empty.after acts).isBitRaised bit = true ↔ LeftRaised acts bit := by
  induction acts using List.reverseRecOn with
  | nil =>
    refine iff_of_false (by simp [after, isBitRaised, empty]) ?_
    rintro ⟨before, later, h, -⟩
    exact List.append_ne_nil_of_right_ne_nil before (List.cons_ne_nil _ _) h.symm
  | append_singleton acts act ih =>
    have hissued : (empty.after acts).isIssued bit = true ↔ bit < (kinds acts).length := by
      simp [isIssued, length_after, empty]
    rw [after_append, leftRaised_append_singleton, ← ih, ← hissued]
    exact isBitRaised_on

theorem raised_of_leftRaised_append (h : LeftRaised (acts ++ more) bit) : LeftRaised acts bit ∨ .raise bit ∈ more := by
  obtain ⟨before, later, he, hb, hc⟩ := h
  rcases List.append_eq_append_iff.1 he with ⟨between, rfl, rfl⟩ | ⟨between, rfl, hm⟩
  · exact .inr (List.mem_append_right between List.mem_cons_self)
  · cases between with
    | nil =>
      rw [List.nil_append] at hm
      exact .inr (hm ▸ List.mem_cons_self)
    | cons act between =>
      rw [List.cons_append] at hm
      obtain ⟨rfl, rfl⟩ := List.cons.inj hm
      exact .inl ⟨before, between, rfl, hb, fun h => hc (List.mem_append_left more h)⟩

def raisedBits (f : Flag) : List Nat := (List.range f.sources.length).filter fun bit => f.isBitRaised bit

theorem mem_raisedBits : bit ∈ f.raisedBits ↔ f.isBitRaised bit = true := by
  rw [raisedBits, List.mem_filter, List.mem_range, and_iff_right_iff_imp]
  intro h
  rw [isBitRaised] at h
  by_contra hn
  rw [List.getElem?_eq_none (Nat.le_of_not_lt hn)] at h
  cases h

theorem length_raisedBits (f : Flag) : f.raisedBits.length = f.sources.countP Source.raised := by
  have hall : f.sources = (List.range f.sources.length).map fun bit => f.sources[bit]?.getD ⟨false, false⟩ := by
    refine List.ext_getElem (by simp) fun bit hb _ => ?_
    simp [hb]
  rw [hall, List.countP_map, raisedBits, ← List.countP_eq_length_filter]
  refine List.countP_congr fun bit hb => ?_
  rw [List.mem_range] at hb
  simp [isBitRaised, hb]

theorem raise_of_le (h : f.sources.length ≤ bit) : f.raise bit = f :=
  raise_of_not_isIssued (by simpa [isIssued] using h)

theorem clear_of_le (h : f.sources.length ≤ bit) : f.clear bit = f := by
  rw [clear, List.getElem?_eq_none h]

theorem Counted.clear_raisedCount (hf : f.Counted) (bit : Nat) :
    (f.clear bit).raisedCount + (if f.isBitRaised bit then 1 else 0) = f.raisedCount := by
  unfold Flag.clear isBitRaised
  cases hs : f.sources[bit]? with
  | none => rfl
  | some s =>
    cases hr : s.raised with
    | false => simp [hr]
    | true =>
      have hpos : 0 < f.raisedCount := by
        rw [hf.raised]
        exact List.countP_pos_iff.2 ⟨s, List.mem_of_getElem? hs, hr⟩
      simp only [hr, if_true, Option.map_some, Option.getD_some]
      omega

theorem asyncCount_le_on (f : Flag) (act : Act) : f.asyncCount ≤ (act.on f).asyncCount := by
  cases act with
  | addSource asynchronous => exact asyncCount_le_addSource f asynchronous
  | raise bit => exact Nat.le_of_eq (asyncCount_raise f bit).symm
  | clear bit => exact Nat.le_of_eq (asyncCount_clear f bit).symm

theorem asyncCount_after_ne (hf : f.asyncCount ≠ 0) (acts : List Act) : (f.after acts).asyncCount ≠ 0 := by
  induction acts generalizing f with
  | nil => exact hf
  | cons act acts ih =>
    have hle := asyncCount_le_on f act
    exact ih (by omega)

theorem wait_eq_error_iff {e : FlagError} : f.wait = .error e ↔ f.isRaised = false ∧ f.asyncCount = 0 := by
  unfold wait
  cases hr : f.isRaised with
  | true => simp
  | false => by_cases ha : f.asyncCount = 0 <;> simp [ha]

theorem wait_eq_false_iff : f.wait = .ok false ↔ f.isRaised = false ∧ f.asyncCount ≠ 0 := by
  unfold wait
  cases hr : f.isRaised with
  | true => simp
  | false => by_cases ha : f.asyncCount = 0 <;> simp [ha]

theorem wait_eq_true_iff : f.wait = .ok true ↔ f.isRaised = true := by
  unfold wait
  cases hr : f.isRaised with
  | true => simp
  | false => by_cases ha : f.asyncCount = 0 <;> simp [ha]

def Refuses (f : Flag) : Prop := ∃ e, f.wait = .error e ∧ ErrorCode.code e = "FLAG_WOULD_BLOCK_FOREVER"

theorem refuses_iff : f.Refuses ↔ f.isRaised = false ∧ f.asyncCount = 0 := by
  constructor
  · rintro ⟨e, h, -⟩
    exact wait_eq_error_iff.1 h
  · exact fun h => ⟨.wouldBlockForever, wait_eq_error_iff.2 h, rfl⟩

/-- What is promised of a new flag to which all this was done. -/
structure Exact (acts : List Act) (f : Flag) : Prop where
  raised : ∃ bits : List Nat, bits.Nodup ∧ (∀ bit, bit ∈ bits ↔ LeftRaised acts bit) ∧ f.raisedCount = bits.length
  asynchronous : f.asyncCount = acts.count (.addSource true)
  shown : ∀ bit, f.isBitRaised bit = true ↔ LeftRaised acts bit
  cleared : ∀ bit, (f.clear bit).raisedCount + (if f.isBitRaised bit then 1 else 0) = f.raisedCount
  bounded : f.raisedCount ≤ f.sources.length ∧ f.asyncCount ≤ f.sources.length
  issued : empty.issues acts = List.range f.sources.length
  next : ∀ asynchronous, (f.addSource asynchronous).1 = f.sources.length
  kept : f.sources.map Source.asynchronous = kinds acts
  owned : ∀ more, ∀ bit < f.sources.length, bit ∉ f.issues more ∧
    (f.after more).sources[bit]?.map Source.asynchronous = f.sources[bit]?.map Source.asynchronous
  unissued : ∀ bit, (kinds acts).length ≤ bit → f.raise bit = f ∧ f.clear bit = f
  isRaised : f.isRaised = true ↔ ∃ bit, LeftRaised acts bit
  goesOn : f.wait = .ok true ↔ ∃ bit, LeftRaised acts bit
  sleeps : f.wait = .ok false ↔ (∀ bit, ¬LeftRaised acts bit) ∧ .addSource true ∈ acts
  refused : f.Refuses ↔ (∀ bit, ¬LeftRaised acts bit) ∧ .addSource true ∉ acts
  lasting : f.Refuses → ∀ more, .addSource true ∉ more → (∀ bit, .raise bit ∉ more) → (f.after more).Refuses
  trusted : .addSource true ∈ acts → ∀ more, ¬(f.after more).Refuses

theorem asyncCount_after (acts : List Act) : (empty.after acts).asyncCount = acts.count (.addSource true) := by
  have h := asynchronous_after empty acts
  rw [(counted_empty.after acts).asynchronous, ← count_kinds]
  have hk : kinds acts = (empty.after acts).sources.map Source.asynchronous := by simpa [empty] using h.symm
  rw [hk, List.count, List.countP_map]
  exact List.countP_congr fun s _ => by simp

theorem isRaised_after : (empty.after acts).isRaised = true ↔ ∃ bit, LeftRaised acts bit :=
  (counted_empty.after acts).isRaised_iff.trans (exists_congr fun _ => isBitRaised_after)

theorem isRaised_after_eq_false : (empty.after acts).isRaised = false ↔ ∀ bit, ¬LeftRaised acts bit := by
  rw [← Bool.not_eq_true, isRaised_after, not_exists]

theorem refuses_after :
    (empty.after acts).Refuses ↔ (∀ bit, ¬LeftRaised acts bit) ∧ .addSource true ∉ acts := by
  rw [refuses_iff, isRaised_after_eq_false, asyncCount_after, List.count_eq_zero]

theorem exact_after (acts : List Act) : Exact acts (empty.after acts) := by
  have hf := counted_empty.after acts
  have hlength : (empty.after acts).sources.length = (kinds acts).length := by simp [length_after, empty]
  refine
    { raised := ⟨(empty.after acts).raisedBits, List.nodup_range.filter _, fun bit => ?_, ?_⟩
      asynchronous := asyncCount_after acts
      shown := fun _ => isBitRaised_after
      cleared := hf.clear_raisedCount
      bounded := ⟨?_, ?_⟩
      issued := ?_
      next := fun _ => rfl
      kept := by simpa [empty] using asynchronous_after empty acts
      owned := fun more bit hb => ⟨not_mem_issues hb more, getElem?_after hb more⟩
      unissued := fun bit h => ⟨raise_of_le (hlength ▸ h), clear_of_le (hlength ▸ h)⟩
      isRaised := isRaised_after
      goesOn := wait_eq_true_iff.trans isRaised_after
      sleeps := ?_
      refused := refuses_after
      lasting := fun h more ha hr => ?_
      trusted := fun ha more h => ?_ }
  · rw [mem_raisedBits, isBitRaised_after]
  · rw [length_raisedBits, hf.raised]
  · rw [hf.raised]
    exact List.countP_le_length
  · rw [hf.asynchronous]
    exact List.countP_le_length
  · rw [issues_eq, hlength, List.range_eq_range']
    rfl
  · rw [wait_eq_false_iff, isRaised_after_eq_false, asyncCount_after, ne_eq, List.count_eq_zero, not_not]
  · rw [← after_append, refuses_after]
    rw [refuses_after] at h
    refine ⟨fun bit hb => ?_, fun hm => ?_⟩
    · rcases raised_of_leftRaised_append hb with hb | hb
      · exact h.1 bit hb
      · exact hr bit hb
    · exact (List.mem_append.1 hm).elim h.2 ha
  · rw [← after_append, refuses_after] at h
    exact h.2 (List.mem_append_left more ha)

/-- A flag whose counts are right has a past. -/
theorem Counted.exists_acts (hf : f.Counted) : ∃ acts, f = empty.after acts := by
  obtain ⟨sources, raisedCount, asyncCount⟩ := f
  obtain ⟨rfl, rfl⟩ : raisedCount = sources.countP Source.raised ∧ asyncCount = sources.countP Source.asynchronous :=
    ⟨hf.raised, hf.asynchronous⟩
  clear hf
  induction sources using List.reverseRecOn with
  | nil => exact ⟨[], rfl⟩
  | append_singleton sources s ih =>
    obtain ⟨acts, ha⟩ := ih
    obtain ⟨asynchronous, raised⟩ := s
    -- the last source was added, and then raised if it is
    refine ⟨acts ++ .addSource asynchronous :: if raised then [.raise sources.length] else [], ?_⟩
    rw [after_append, ← ha]
    cases raised <;> cases asynchronous <;> simp [Flag.after, Act.on, Flag.addSource, Flag.raise]

end EventHub.Flag
