import EventHub.Proofs.System.Outlet
import EventHub.Proofs.System.Wakeup
set_option autoImplicit false

namespace EventHub

inductive Holder where
  | hub (id : Nat)
  | channel (id : Nat)
  deriving DecidableEq

namespace System

variable {s t u : System} {touched : Option Binding} {late due : List Nat}

def holding (s : System) : Holder → Option Binding
  | .hub id => s.hubs[id]?.map fun h => ⟨h.2, h.1.bit⟩
  | .channel id => s.bindingOf id

theorem holding_hub {id : Nat} (h : id < s.hubs.length) :
    s.holding (.hub id) = some ⟨s.flagOfHub id, (s.hubAt id).bit⟩ := by
  rw [holding, hubs_getElem? h]
  rfl

/-- At most one has begun to hold a bit, and that was nobody's. -/
inductive MayAddHolder (s t : System) : Prop where
  | nobody (same : ∀ p, t.holding p = s.holding p)
  | one (p : Holder) (b : Binding) (new : t.holding p = some b) (was : s.holding p = none)
      (others : ∀ q, q ≠ p → t.holding q = s.holding q) (fresh : (s.flagAt b.flag).isIssued b.bit = false)
      (issued : (t.flagAt b.flag).isIssued b.bit = true)

/-- A step that changes no bit but one. A hub that is not late shows what is queued there if it did before. -/
structure TouchesOnly (s t : System) (touched : Option Binding) (late : List Nat) : Prop where
  mayAddHolder : s.MayAddHolder t
  issued : ∀ flag bit, (s.flagAt flag).isIssued bit = true → (t.flagAt flag).isIssued bit = true
  counted : ∀ flag, (s.flagAt flag).Counted → (t.flagAt flag).Counted
  coherent : ∀ id, (s.hubAt id).Coherent → (t.hubAt id).Coherent
  others : ∀ flag bit, touched ≠ some ⟨flag, bit⟩ →
    (t.flagAt flag).isBitRaised bit = (s.flagAt flag).isBitRaised bit
  signals : ∀ id < t.hubs.length, id ∉ late →
    (id < s.hubs.length → (s.hubAt id).Signals (s.flagAt (s.flagOfHub id))) →
      (t.hubAt id).Signals (t.flagAt (t.flagOfHub id))

theorem MayAddHolder.kept (h : s.MayAddHolder t) {p : Holder} {b : Binding} (hp : s.holding p = some b) :
    t.holding p = some b := by
  cases h with
  | nobody same => rw [same, hp]
  | one q c new was others =>
    have hq : p ≠ q := by
      rintro rfl
      rw [was] at hp
      cases hp
    rw [others p hq, hp]

/-- What holds between any two steps; hubs that are due have yet to show what is queued there. -/
structure BitInvariant (s : System) (due : List Nat) : Prop where
  issued : ∀ p b, s.holding p = some b → (s.flagAt b.flag).isIssued b.bit = true
  distinct : ∀ p q b, s.holding p = some b → s.holding q = some b → p = q
  counted : ∀ flag, (s.flagAt flag).Counted
  coherent : ∀ id, (s.hubAt id).Coherent
  signals : ∀ id < s.hubs.length, id ∉ due → (s.hubAt id).Signals (s.flagAt (s.flagOfHub id))

theorem bitInvariant_empty (files : FileSystem) : (empty files).BitInvariant [] where
  issued p b hb := by cases p <;> cases hb
  distinct p q b hb := by cases p <;> cases hb
  counted flag := Flag.counted_empty
  coherent id := Hub.coherent_of_cached_eq_none rfl
  signals id hid := by cases hid

theorem BitInvariant.touchesOnly (hs : s.BitInvariant due) (h : TouchesOnly s t touched late) :
    t.BitInvariant (late ++ due) where
  issued p b hb := by
    cases h.mayAddHolder with
    | nobody same => exact h.issued _ _ (hs.issued p b ((same p).symm.trans hb))
    | one q c new was others fresh issued =>
      by_cases hq : p = q
      · rw [hq, new] at hb
        cases hb
        exact issued
      · exact h.issued _ _ (hs.issued p b ((others p hq).symm.trans hb))
  distinct p q b hp hq := by
    cases h.mayAddHolder with
    | nobody same => exact hs.distinct p q b ((same p).symm.trans hp) ((same q).symm.trans hq)
    | one r c new was others fresh issued =>
      -- a bit that was held before was issued before, so it is not the new one
      have hne : ∀ x, x ≠ r → t.holding x = some b → b ≠ c := by
        rintro x hx hb rfl
        rw [hs.issued x b ((others x hx).symm.trans hb)] at fresh
        cases fresh
      by_cases hpr : p = r <;> by_cases hqr : q = r
      · rw [hpr, hqr]
      · rw [hpr, new] at hp
        cases hp
        exact absurd rfl (hne q hqr hq)
      · rw [hqr, new] at hq
        cases hq
        exact absurd rfl (hne p hpr hp)
      · exact hs.distinct p q b ((others p hpr).symm.trans hp) ((others q hqr).symm.trans hq)
  counted flag := h.counted flag (hs.counted flag)
  coherent id := h.coherent id (hs.coherent id)
  signals id hid hlate := by
    rw [List.mem_append, not_or] at hlate
    exact h.signals id hid hlate.1 fun hl => hs.signals id hl hlate.2

structure SameBits (s t : System) : Prop where
  flags : t.flags = s.flags
  hubs : t.hubs = s.hubs
  bindingOf : ∀ channel, t.bindingOf channel = s.bindingOf channel

theorem SameBits.refl (s : System) : SameBits s s := ⟨rfl, rfl, fun _ => rfl⟩

theorem SameKindsAndBindings.sameBits (h : SameKindsAndBindings s t) : SameBits s t := ⟨h.flags, h.hubs, h.bindingOf⟩

theorem SameButSleepers.sameBits (h : SameButSleepers s t) : SameBits s t :=
  ⟨h.flags, h.hubs, bindingOf_congr h.channels⟩

theorem SameBits.holding (h : SameBits s t) (p : Holder) : t.holding p = s.holding p := by
  cases p with
  | hub id => rw [System.holding, System.holding, h.hubs]
  | channel id => exact h.bindingOf id

theorem SameBits.signals (h : SameBits s t) (id : Nat) : (t.hubAt id).Signals (t.flagAt (t.flagOfHub id)) ↔
    (s.hubAt id).Signals (s.flagAt (s.flagOfHub id)) := by
  rw [hubAt_congr h.hubs, flagOfHub_congr h.hubs, flagAt_congr h.flags]

theorem SameBits.mayAddHolder (h : SameBits s t) : s.MayAddHolder t := .nobody h.holding

theorem TouchesOnly.andSameBits (h : TouchesOnly s t touched late) (k : SameBits t u) :
    TouchesOnly s u touched late where
  mayAddHolder := by
    cases h.mayAddHolder with
    | nobody same => exact .nobody fun p => (k.holding p).trans (same p)
    | one p b new was others fresh issued =>
      refine .one p b ((k.holding p).trans new) was (fun q hq => (k.holding q).trans (others q hq)) fresh ?_
      rw [flagAt_congr k.flags]
      exact issued
  issued flag bit hi := by
    rw [flagAt_congr k.flags]
    exact h.issued flag bit hi
  counted flag hf := by
    rw [flagAt_congr k.flags]
    exact h.counted flag hf
  coherent id hc := by
    rw [hubAt_congr k.hubs]
    exact h.coherent id hc
  others flag bit ht := by
    rw [flagAt_congr k.flags]
    exact h.others flag bit ht
  signals id hid hl hsig := (k.signals id).2 (h.signals id (k.hubs ▸ hid) hl hsig)

theorem touchesOnly_refl (s : System) (touched : Option Binding) : TouchesOnly s s touched late :=
  ⟨(SameBits.refl s).mayAddHolder, fun _ _ h => h, fun _ h => h, fun _ h => h, fun _ _ _ => rfl,
    fun _ hid _ hsig => hsig hid⟩

theorem SameBits.touchesOnly (h : SameBits s t) (touched : Option Binding) : TouchesOnly s t touched late :=
  (touchesOnly_refl s touched).andSameBits h

theorem SameBits.andTouchesOnly (k : SameBits s t) (h : TouchesOnly t u touched late) :
    TouchesOnly s u touched late where
  mayAddHolder := by
    cases h.mayAddHolder with
    | nobody same => exact .nobody fun p => (same p).trans (k.holding p)
    | one p b new was others fresh issued =>
      refine .one p b new ((k.holding p).symm.trans was) (fun q hq => (others q hq).trans (k.holding q)) ?_
        issued
      rw [← flagAt_congr k.flags]
      exact fresh
  issued flag bit hi := by
    rw [← flagAt_congr k.flags] at hi
    exact h.issued flag bit hi
  counted flag hf := by
    rw [← flagAt_congr k.flags] at hf
    exact h.counted flag hf
  coherent id hc := by
    rw [← hubAt_congr k.hubs] at hc
    exact h.coherent id hc
  others flag bit ht := by
    rw [← flagAt_congr k.flags]
    exact h.others flag bit ht
  signals id hid hl hsig := h.signals id hid hl fun ht => (k.signals id).2 (hsig (k.hubs ▸ ht))

theorem BitInvariant.andSameBits (hs : s.BitInvariant due) (h : SameBits s t) : t.BitInvariant due :=
  hs.touchesOnly (h.touchesOnly none : TouchesOnly s t none [])

/-- A flag is changed in a way that lets no bit go of a hub that is not late. -/
theorem touchesOnly_setFlag (flag : Nat) {f : Flag} (hh : t.hubs = s.hubs) (hc : t.channels = s.channels)
    (hf : ∀ other, t.flagAt other = if other = flag then f else s.flagAt other)
    (hn : (s.flagAt flag).Counted → f.Counted)
    (hi : ∀ bit, (s.flagAt flag).isIssued bit = true → f.isIssued bit = true)
    (ho : ∀ bit, touched ≠ some ⟨flag, bit⟩ → f.isBitRaised bit = (s.flagAt flag).isBitRaised bit)
    (hr : ∀ id < s.hubs.length, id ∉ late → s.flagOfHub id = flag →
      (s.flagAt flag).isBitRaised (s.hubAt id).bit = true → f.isBitRaised (s.hubAt id).bit = true) :
    TouchesOnly s t touched late where
  mayAddHolder := by
    refine .nobody fun p => ?_
    cases p with
    | hub id => rw [holding, holding, hh]
    | channel id => exact bindingOf_congr hc id
  issued other bit h := by
    rw [hf]
    split
    · rename_i he
      exact hi bit (he ▸ h)
    · exact h
  counted other h := by
    rw [hf]
    split
    · rename_i he
      exact hn (he ▸ h)
    · exact h
  coherent id h := by rw [hubAt_congr hh]; exact h
  others other bit ht := by
    rw [hf]
    split
    · rename_i he
      rw [he] at ht ⊢
      exact ho bit ht
    · rfl
  signals id hid hl hsig := by
    rw [hh] at hid
    rw [hubAt_congr hh, flagOfHub_congr hh, hf]
    split
    · rename_i he
      exact fun h => hr id hid hl he (he ▸ hsig hid h)
    · exact hsig hid

theorem touchesOnly_raise (s : System) (flag bit : Nat) :
    TouchesOnly s (s.raise flag bit) (some ⟨flag, bit⟩) late := by
  apply touchesOnly_setFlag flag (hubs_raise s flag bit) (channels_raise s flag bit) (flagAt_raise s flag bit)
    fun h => h.raise bit
  · intro other h
    rw [Flag.isIssued_raise]
    exact h
  · intro other ht
    have hne : other ≠ bit := fun he => ht (by rw [he])
    simp [Flag.isBitRaised_raise, hne]
  · intro id _ _ _ h
    rw [Flag.isBitRaised_raise, h, Bool.true_or]

theorem touchesOnly_clear_of_late {flag bit : Nat}
    (hu : ∀ id < s.hubs.length, id ∉ late → s.flagOfHub id = flag → (s.hubAt id).bit ≠ bit) :
    TouchesOnly s (s.clear flag bit) (some ⟨flag, bit⟩) late := by
  apply touchesOnly_setFlag flag (hubs_clear s flag bit) (channels_clear s flag bit) (flagAt_clear s flag bit)
    fun h => h.clear bit
  · intro other h
    rw [Flag.isIssued_clear]
    exact h
  · intro other ht
    have hne : other ≠ bit := fun he => ht (by rw [he])
    simp [Flag.isBitRaised_clear, hne]
  · intro id hid hl hf h
    simp [Flag.isBitRaised_clear, h, hu id hid hl hf]

theorem touchesOnly_clear {flag bit : Nat} (hu : s.Unowned flag bit) :
    TouchesOnly s (s.clear flag bit) (some ⟨flag, bit⟩) late :=
  touchesOnly_clear_of_late fun id hid _ => hu id hid

theorem touchesOnly_addFlag (s : System) (touched : Option Binding) : TouchesOnly s s.addFlag.2 touched late := by
  have hf : ∀ other, s.addFlag.2.flagAt other = if other = 0 then s.flagAt 0 else s.flagAt other := by
    intro other
    rw [flagAt_addFlag]
    split
    · rename_i he
      rw [he]
    · rfl
  exact touchesOnly_setFlag 0 rfl rfl hf (fun h => h) (fun _ h => h) (fun _ _ => rfl) fun _ _ _ _ h => h

theorem touchesOnly_addSource (s : System) {flag : Nat} (hl : flag < s.flags.length) (asynchronous : Bool)
    (touched : Option Binding) : TouchesOnly s (s.addSource flag asynchronous).2 touched late := by
  have hf : ∀ other, (s.addSource flag asynchronous).2.flagAt other =
      if other = flag then ((s.flagAt flag).addSource asynchronous).2 else s.flagAt other := by
    intro other
    simp [flagAt_addSource, hl]
  refine touchesOnly_setFlag flag rfl rfl hf (fun h => h.addSource asynchronous)
    (fun bit h => Flag.isIssued_addSource h asynchronous)
    (fun bit _ => Flag.isBitRaised_addSource _ asynchronous bit) ?_
  intro id _ _ _ h
  rw [Flag.isBitRaised_addSource]
  exact h

theorem sameBits_addSource (s : System) {flag : Nat} (hl : s.flags.length ≤ flag) (asynchronous : Bool) :
    SameBits s (s.addSource flag asynchronous).2 :=
  ⟨List.set_eq_of_length_le hl, rfl, fun _ => rfl⟩

theorem touchesOnly_addHub (s : System) (name : String) {flag : Nat} (hl : flag < s.flags.length)
    (touched : Option Binding) : TouchesOnly s (s.addHub name flag).2 touched late := by
  have ha := hubAdded_addHub s name hl
  have hflag := flagAt_addHub s name hl
  refine ⟨?_, ha.issued, ?_, ?_, ?_, ?_⟩
  · refine .one (.hub s.hubs.length) ⟨flag, (Hub.make name (s.flagAt flag)).1.bit⟩ ?_ ?_ ?_ ha.fresh ha.held
    · rw [holding_hub (by rw [ha.length]; omega), ha.last.1, ha.last.2]
    · simp [holding]
    · intro q hq
      cases q with
      | channel id => rfl
      | hub id =>
        have hne : id ≠ s.hubs.length := fun he => hq (by rw [he])
        rcases Nat.lt_or_gt_of_ne hne with hid | hid
        · rw [holding_hub hid, holding_hub (by rw [ha.length]; omega), (ha.old id hid).1, (ha.old id hid).2]
        · have hlen := ha.length
          rw [holding, holding, List.getElem?_eq_none (by omega), List.getElem?_eq_none (by omega)]
  · intro other h
    rw [hflag]
    split
    · rename_i he
      exact (he ▸ h).addSource true
    · exact h
  · intro id h
    rw [hubAt_addHub]
    split
    · exact Hub.coherent_of_cached_eq_none rfl
    · exact h
  · intro other bit _
    rw [hflag]
    split
    · rename_i he
      rw [he, Flag.isBitRaised_addSource]
    · rfl
  · intro id hid _ hsig
    rcases ha.cases hid with hid | rfl
    · rw [(ha.old id hid).1, (ha.old id hid).2, hflag]
      split
      · rename_i he
        intro h
        rw [Flag.isBitRaised_addSource]
        exact he ▸ hsig hid h
      · exact hsig hid
    · -- the new hub is running and empty, so it has nothing to show
      rw [ha.last.1]
      rintro (h | h)
      · exact absurd rfl h
      · cases h

section changeHub

variable {α : Type} {id : Nat} {absent : α} {change : Hub → Flag → α × Hub × Flag}

theorem holding_changeHub (hb : (change (s.hubAt id) (s.flagAt (s.flagOfHub id))).2.1.bit = (s.hubAt id).bit)
    (p : Holder) : (s.changeHub id absent change).2.holding p = s.holding p := by
  cases p with
  | channel c => exact bindingOf_congr (channels_changeHub s id absent change) c
  | hub other =>
    have hlen := length_hubs_changeHub s id absent change
    rcases Nat.lt_or_ge other s.hubs.length with hl | hl
    · rw [holding_hub hl, holding_hub (hlen ▸ hl), flagOfHub_changeHub, bit_changeHub hb]
    · rw [holding, holding, List.getElem?_eq_none hl, List.getElem?_eq_none (hlen ▸ hl)]

theorem isBitRaised_changeHub
    (ho : ∀ bit, touched ≠ some ⟨s.flagOfHub id, bit⟩ →
      (change (s.hubAt id) (s.flagAt (s.flagOfHub id))).2.2.isBitRaised bit =
        (s.flagAt (s.flagOfHub id)).isBitRaised bit) (flag bit : Nat) (h : touched ≠ some ⟨flag, bit⟩) :
    ((s.changeHub id absent change).2.flagAt flag).isBitRaised bit = (s.flagAt flag).isBitRaised bit :=
  flags_changeHub s id absent change
    (R := fun flag f f' => touched ≠ some ⟨flag, bit⟩ → f'.isBitRaised bit = f.isBitRaised bit)
    (fun _ _ _ => rfl) (ho bit) flag h

/-- The hub shows what the change lets it show. Another hub of its flag holds another bit, so it shows what it
showed. -/
theorem BitInvariant.signals_changeHub (hs : s.BitInvariant due) (hl : id < s.hubs.length)
    (ho : ∀ bit, touched ≠ some ⟨s.flagOfHub id, bit⟩ →
      (change (s.hubAt id) (s.flagAt (s.flagOfHub id))).2.2.isBitRaised bit =
        (s.flagAt (s.flagOfHub id)).isBitRaised bit)
    (ht : ∀ b, touched = some b → s.holding (.hub id) = some b)
    (own : (s.hubAt id).Signals (s.flagAt (s.flagOfHub id)) →
      (change (s.hubAt id) (s.flagAt (s.flagOfHub id))).2.1.Signals
        (change (s.hubAt id) (s.flagAt (s.flagOfHub id))).2.2 ∨ id ∈ late)
    {other : Nat} (there : other < s.hubs.length) (hlate : other ∉ late)
    (hsig : (s.hubAt other).Signals (s.flagAt (s.flagOfHub other))) :
    ((s.changeHub id absent change).2.hubAt other).Signals
      ((s.changeHub id absent change).2.flagAt (s.flagOfHub other)) := by
  have hflag := flagAt_changeHub s id absent change (s.flagOfHub other)
  rw [hubAt_changeHub_of_lt hl]
  by_cases he : other = id
  · rw [if_pos he]
    rw [he, if_pos ⟨hl, rfl, lt_of_isIssued (hs.issued _ _ (holding_hub hl))⟩] at hflag
    rw [he, hflag]
    exact (own (he ▸ hsig)).resolve_right (he ▸ hlate)
  · have hne : touched ≠ some ⟨s.flagOfHub other, (s.hubAt other).bit⟩ := fun h =>
      he (Holder.hub.inj (hs.distinct _ _ _ (holding_hub there) (ht _ h)))
    rw [if_neg he]
    intro h
    rw [isBitRaised_changeHub ho _ _ hne]
    exact hsig h

theorem BitInvariant.changeHub (hs : s.BitInvariant due) (absent : α)
    (hb : (change (s.hubAt id) (s.flagAt (s.flagOfHub id))).2.1.bit = (s.hubAt id).bit)
    (hc : (change (s.hubAt id) (s.flagAt (s.flagOfHub id))).2.1.Coherent)
    (hn : (s.flagAt (s.flagOfHub id)).Counted →
      (change (s.hubAt id) (s.flagAt (s.flagOfHub id))).2.2.Counted)
    (hi : ∀ bit, (change (s.hubAt id) (s.flagAt (s.flagOfHub id))).2.2.isIssued bit =
      (s.flagAt (s.flagOfHub id)).isIssued bit)
    (ho : ∀ bit, touched ≠ some ⟨s.flagOfHub id, bit⟩ →
      (change (s.hubAt id) (s.flagAt (s.flagOfHub id))).2.2.isBitRaised bit =
        (s.flagAt (s.flagOfHub id)).isBitRaised bit)
    (ht : ∀ b, touched = some b → s.holding (.hub id) = some b)
    (hsig : id ∉ late → (s.flagAt (s.flagOfHub id)).isIssued (s.hubAt id).bit = true →
      (s.hubAt id).Signals (s.flagAt (s.flagOfHub id)) →
        (change (s.hubAt id) (s.flagAt (s.flagOfHub id))).2.1.Signals
          (change (s.hubAt id) (s.flagAt (s.flagOfHub id))).2.2) :
    TouchesOnly s (s.changeHub id absent change).2 touched late := by
  rcases Nat.lt_or_ge id s.hubs.length with hl | hl
  · refine ⟨.nobody (holding_changeHub hb), fun flag bit h => (isIssued_changeHub hi flag bit).trans h, ?_, ?_,
      isBitRaised_changeHub ho, ?_⟩
    · exact flags_changeHub s id absent change (R := fun _ f f' => f.Counted → f'.Counted) (fun _ _ h => h) hn
    · exact hubs_changeHub s id absent change (R := fun h h' => h.Coherent → h'.Coherent) (fun _ h => h)
        fun _ => hc
    · intro other hid hlate hsig'
      rw [length_hubs_changeHub] at hid
      rw [flagOfHub_changeHub]
      refine hs.signals_changeHub hl ho ht (fun h => ?_) hid hlate (hsig' hid)
      by_cases hlate' : id ∈ late
      · exact .inr hlate'
      · exact .inl (hsig hlate' (hs.issued _ _ (holding_hub hl)) h)
  · rw [changeHub_of_le absent change hl]
    exact touchesOnly_refl s touched

theorem BitInvariant.changeHub_of_ownBitOnly (hs : s.BitInvariant due) (absent : α)
    (hf : Hub.OwnBitOnly (s.hubAt id) (s.flagAt (s.flagOfHub id))
      (change (s.hubAt id) (s.flagAt (s.flagOfHub id))).2.1
      (change (s.hubAt id) (s.flagAt (s.flagOfHub id))).2.2) :
    TouchesOnly s (s.changeHub id absent change).2 (s.holding (.hub id)) late := by
  rcases Nat.lt_or_ge id s.hubs.length with hl | hl
  · refine hs.changeHub absent hf.bit hf.coherent hf.counted hf.issued ?_ (fun _ h => h) fun _ => hf.signals
    intro bit hne
    refine hf.others bit fun he => hne ?_
    rw [holding_hub hl, he]
  · rw [changeHub_of_le absent change hl]
    exact touchesOnly_refl s _

end changeHub

theorem sameBits_wake (s : System) (point : WaitPoint) : SameBits s (s.wake point) := ⟨rfl, rfl, fun _ => rfl⟩

theorem BitInvariant.addSink (hs : s.BitInvariant due) (hub : Nat) (sink : Sink) (touched : Option Binding)
    (ht : ∀ b, touched = some b → s.holding (.hub hub) = some b) :
    TouchesOnly s (s.addSink hub sink).2 touched late :=
  hs.changeHub 0 rfl ((hs.coherent hub).addSink sink) (fun h => h) (fun _ => rfl) (fun _ _ => rfl) ht
    fun _ _ h => h

theorem BitInvariant.publish (hs : s.BitInvariant due) (hub : Nat) (e : Event) :
    TouchesOnly s (s.publish hub e).2 (s.holding (.hub hub)) late := by
  have h : TouchesOnly s (s.changeHub hub false fun h f => h.publish f e).2 _ late :=
    hs.changeHub_of_ownBitOnly false (Hub.ownBitOnly_publish (hs.coherent hub) _ e)
  rw [publish_eq]
  dsimp only
  split
  · exact (h.andSameBits (sameBits_wake _ _)).andSameBits (sameBits_wake _ _)
  · exact h

theorem BitInvariant.stop (hs : s.BitInvariant due) (hub : Nat) :
    TouchesOnly s (s.stop hub) (s.holding (.hub hub)) late := by
  have h : TouchesOnly s (s.changeHub hub false fun h f => (h.running, h.stop f)).2 _ late :=
    hs.changeHub_of_ownBitOnly false (Hub.ownBitOnly_stop (hs.coherent hub) _)
  rw [stop_eq]
  dsimp only
  split
  · exact (h.andSameBits (sameBits_wake _ _)).andSameBits (sameBits_wake _ _)
  · exact h

theorem touchesOnly_notify (s : System) (hub : Nat) :
    TouchesOnly s (s.notify hub) (s.holding (.hub hub)) late := by
  unfold System.notify
  split
  · exact touchesOnly_refl s _
  · rename_i h flag hh
    rw [holding, hh]
    exact touchesOnly_raise s flag h.bit

theorem BitInvariant.askHub (hs : s.BitInvariant due) (hub : Nat) (ask : Ask) (resumed : Bool) :
    TouchesOnly s (s.askHub hub ask resumed).2 (s.holding (.hub hub)) late := by
  have hc := hs.coherent hub
  have h : TouchesOnly s
      (s.changeHub hub (Hub.Pause.answer (.pending .closed), false) (askChange ask resumed)).2 _ late :=
    hs.changeHub_of_ownBitOnly _ ((Hub.dispatch_outcome hc (s.flagAt (s.flagOfHub hub)) ask resumed).ownBitOnly hc)
  rw [askHub_eq]
  dsimp only
  split
  · exact h.andSameBits (sameBits_wake _ _)
  · exact h

theorem sameBits_addChannel (s : System) (name : String) (kind : ChannelKind) :
    SameBits s (s.addChannel (.make name kind)).2 := ⟨rfl, rfl, bindingOf_addChannel s name kind⟩

theorem touchesOnly_attach (s : System) (channel : Nat) {flag : Nat} (hl : flag < s.flags.length)
    (asynchronous : Bool) (touched : Option Binding) :
    TouchesOnly s (s.attach channel flag asynchronous).2 touched late := by
  rcases attach_snd s channel flag asynchronous with he | ⟨c, hc, hb, he⟩
  · rw [he]
    exact touchesOnly_refl s touched
  · have ha : TouchesOnly s _ touched late := touchesOnly_addSource s hl asynchronous touched
    have hnew := Flag.isIssued_addSource_self (s.flagAt flag) asynchronous
    have hcl := (List.getElem?_eq_some_iff.1 hc).1
    rw [he]
    refine { ha with mayAddHolder := ?_ }
    refine .one (.channel channel) ⟨flag, (s.addSource flag asynchronous).1⟩ ?_ ?_ ?_ hnew.1 ?_
    · simp [holding, bindingOf, hcl]
    · simp [holding, bindingOf, hc, hb]
    · intro q hq
      cases q with
      | hub id => rfl
      | channel id =>
        have hne : channel ≠ id := fun he => hq (by rw [he])
        simp [holding, bindingOf, hne]
    · have hf := flagAt_addSource s flag asynchronous flag
      rw [if_pos ⟨rfl, hl⟩] at hf
      exact hf ▸ hnew.2

theorem BitInvariant.addHubChannel (hs : s.BitInvariant due) (name : String) {hub : Nat} (sink : Nat) (outlet : Outlet)
    (hl : hub < s.hubs.length) (touched : Option Binding) :
    TouchesOnly s (s.addHubChannel name hub sink outlet).2 touched late := by
  have hk := sameBits_addChannel s name (.ofHub hub sink outlet)
  have hi := hs.issued _ _ (holding_hub hl)
  rw [← flagAt_congr hk.flags, ← flagOfHub_congr hk.hubs] at hi
  exact hk.andTouchesOnly (touchesOnly_attach _ _ (lt_of_isIssued hi) false touched)

theorem BitInvariant.send (hs : s.BitInvariant due) {outlet : Outlet}
    (ht : ∀ id, outlet = .hub id → touched = s.holding (.hub id)) (e : Event) :
    TouchesOnly s (s.send outlet e).2 touched late := by
  cases outlet with
  | hub id =>
    rw [ht id rfl]
    exact hs.publish id e
  | collector id =>
    unfold System.send
    dsimp only
    split
    · exact touchesOnly_refl s touched
    · have h : ∀ collectors, SameBits s { s with collectors := collectors } := fun _ => ⟨rfl, rfl, fun _ => rfl⟩
      exact (h _).touchesOnly touched

end System
end EventHub
