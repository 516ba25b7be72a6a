import EventHub.Proofs.Hub.Outcome
import EventHub.Proofs.System.KindsAndBindings
set_option autoImplicit false

/-!
What holds of flags, hubs and bindings between any two operations: every bit has one holder, and a hub's
bit is raised while something is queued there and once the hub has stopped.
-/
namespace EventHub

namespace Hub

/-- Whoever has something to find, or nothing to wait for any more, is told by the hub's bit. -/
def Signals (h : Hub) (f : Flag) : Prop :=
  h.queue ≠ [] ∨ h.running = false → f.isBitRaised h.bit = true

/-- A change of a hub and its flag that touches no bit but the hub's own, and this one as it should. -/
structure OwnBitOnly (h : Hub) (f : Flag) (h' : Hub) (f' : Flag) : Prop where
  bit : h'.bit = h.bit
  coherent : h'.Coherent
  counted : f.Counted → f'.Counted
  issued : ∀ bit, f'.isIssued bit = f.isIssued bit
  others : ∀ bit, bit ≠ h.bit → f'.isBitRaised bit = f.isBitRaised bit
  signals : f.isIssued h.bit = true → h.Signals f → h'.Signals f'

theorem OwnBitOnly.of_flag_eq {h h' : Hub} {f : Flag} (hb : h'.bit = h.bit) (hc : h'.Coherent)
    (hs : h.Signals f → h'.Signals f) : OwnBitOnly h f h' f :=
  ⟨hb, hc, fun hf => hf, fun _ => rfl, fun _ _ => rfl, fun _ => hs⟩

theorem OwnBitOnly.of_raise {h h' : Hub} {f : Flag} (hb : h'.bit = h.bit) (hc : h'.Coherent) :
    OwnBitOnly h f h' (f.raise h.bit) where
  bit := hb
  coherent := hc
  counted hf := hf.raise h.bit
  issued bit := f.isIssued_raise h.bit bit
  others bit hne := by simp [Flag.isBitRaised_raise, hne]
  signals hi _ _ := by simp [Flag.isBitRaised_raise, hb, hi]

theorem ownBitOnly_addSink {h : Hub} (hc : h.Coherent) (f : Flag) (s : Sink) : OwnBitOnly h f (h.addSink s).2 f :=
  .of_flag_eq rfl (hc.addSink s) fun hs => hs

theorem ownBitOnly_publish {h : Hub} (hc : h.Coherent) (f : Flag) (e : Event) :
    OwnBitOnly h f (h.publish f e).2.1 (h.publish f e).2.2 := by
  have hp := hc.publish f e
  revert hp
  unfold Hub.publish
  split
  · exact .of_raise rfl
  · exact fun hp => .of_flag_eq rfl hp fun hs => hs

theorem ownBitOnly_stop {h : Hub} (hc : h.Coherent) (f : Flag) : OwnBitOnly h f (h.stop f).1 (h.stop f).2 := by
  have hp := hc.stop f
  revert hp
  unfold Hub.stop
  split
  · exact .of_raise rfl
  · exact fun hp => .of_flag_eq rfl hp fun hs => hs

theorem Finds.signals {h : Hub} {f : Flag} {lost rest : List Entry} {head : Entry} {sink : Nat}
    {canonical : Path} (hf : h.Finds lost head rest sink canonical) (hs : h.Signals f) :
    f.isBitRaised h.bit = true := by
  apply hs
  left
  rw [hf.queue]
  simp

/-- A call clears its hub's bit only when it leaves nothing queued. -/
theorem Outcome.ownBitOnly {h : Hub} {flag : Flag} {ask : Ask} {scanned woke : Bool} {p : Pause} {t : Turn}
    (hc : h.Coherent) (o : Outcome h flag ask scanned woke p t) : OwnBitOnly h flag t.hub t.flag := by
  have hc' := o.coherent hc
  cases o with
  | closed => exact .of_flag_eq rfl hc fun hs => hs
  | idle running =>
    refine ⟨rfl, hc', fun hf => hf.clear h.bit, fun bit => flag.isIssued_clear h.bit bit, ?_, ?_⟩
    · intro bit hne
      simp [Flag.isBitRaised_clear, hne]
    · rintro - - (hq | hr)
      · exact absurd rfl hq
      · rw [shed, running] at hr
        cases hr
  | taken lost head rest sink canonical found =>
    exact .of_flag_eq rfl hc' fun hs _ => found.signals hs
  | shown lost head rest sink canonical found =>
    exact .of_flag_eq rfl hc' fun hs _ => found.signals hs
  | held lost head rest sink canonical found =>
    exact .of_flag_eq rfl hc' fun hs _ => found.signals hs
  | sentAway lost head rest sink canonical found =>
    exact .of_flag_eq rfl hc' fun hs _ => found.signals hs

end Hub

namespace System

def Unowned (s : System) (flag bit : Nat) : Prop :=
  ∀ id < s.hubs.length, s.flagOfHub id = flag → (s.hubAt id).bit ≠ bit

/-- Every hub holds an issued bit of its own, and no channel holds a hub's. -/
structure Registered (s : System) : Prop where
  issued : ∀ id < s.hubs.length, (s.flagAt (s.flagOfHub id)).isIssued (s.hubAt id).bit = true
  distinct : ∀ i < s.hubs.length, ∀ j < s.hubs.length, s.flagOfHub i = s.flagOfHub j →
    (s.hubAt i).bit = (s.hubAt j).bit → i = j
  bound : ∀ (channel : Nat) (b : Binding), s.bindingOf channel = some b →
    (s.flagAt b.flag).isIssued b.bit = true ∧ s.Unowned b.flag b.bit

structure HubInvariant (s : System) : Prop extends Registered s where
  counted : ∀ flag, (s.flagAt flag).Counted
  coherent : ∀ id, (s.hubAt id).Coherent
  signals : ∀ id < s.hubs.length, (s.hubAt id).Signals (s.flagAt (s.flagOfHub id))

structure SamePlaces (s t : System) : Prop where
  length : t.hubs.length = s.hubs.length
  flagOfHub : ∀ id, t.flagOfHub id = s.flagOfHub id
  bit : ∀ id, (t.hubAt id).bit = (s.hubAt id).bit
  issued : ∀ flag bit, (s.flagAt flag).isIssued bit = true → (t.flagAt flag).isIssued bit = true
  bound : ∀ (channel : Nat) (b : Binding), t.bindingOf channel = some b → s.bindingOf channel = some b

theorem SamePlaces.unowned {s t : System} (h : SamePlaces s t) {flag bit : Nat}
    (hu : s.Unowned flag bit) : t.Unowned flag bit := by
  intro id hid hf
  rw [h.bit]
  exact hu id (h.length ▸ hid) (h.flagOfHub id ▸ hf)

theorem Registered.of_samePlaces {s t : System} (hs : s.Registered) (h : SamePlaces s t) :
    t.Registered where
  issued id hid := by
    rw [h.flagOfHub, h.bit]
    exact h.issued _ _ (hs.issued id (h.length ▸ hid))
  distinct i hi j hj hf hb := by
    rw [h.flagOfHub, h.flagOfHub] at hf
    rw [h.bit, h.bit] at hb
    exact hs.distinct i (h.length ▸ hi) j (h.length ▸ hj) hf hb
  bound channel b hb := by
    obtain ⟨hi, hu⟩ := hs.bound channel b (h.bound channel b hb)
    exact ⟨h.issued _ _ hi, h.unowned hu⟩

theorem lt_of_isIssued {s : System} {flag bit : Nat} (h : (s.flagAt flag).isIssued bit = true) :
    flag < s.flags.length := by
  rcases Nat.lt_or_ge flag s.flags.length with hl | hl
  · exact hl
  · rw [flagAt_of_le hl] at h
    cases h

theorem hubInvariant_empty (files : FileSystem) : (empty files).HubInvariant where
  issued id hid := by cases hid
  distinct i hi := by cases hi
  bound channel b hb := by simp [bindingOf, empty] at hb
  counted flag := Flag.counted_empty
  coherent id := Hub.coherent_of_cached_eq_none rfl
  signals id hid := by cases hid

theorem HubInvariant.congr {s t : System} (hs : s.HubInvariant) (hf : t.flags = s.flags) (hh : t.hubs = s.hubs)
    (hb : ∀ channel b, t.bindingOf channel = some b → s.bindingOf channel = some b) : t.HubInvariant where
  toRegistered := hs.toRegistered.of_samePlaces
    { length := by rw [hh]
      flagOfHub := flagOfHub_congr hh
      bit := fun id => by rw [hubAt_congr hh]
      issued := fun flag bit h => by rw [flagAt_congr hf]; exact h
      bound := hb }
  counted flag := by rw [flagAt_congr hf]; exact hs.counted flag
  coherent id := by rw [hubAt_congr hh]; exact hs.coherent id
  signals id hid := by
    rw [hubAt_congr hh, flagOfHub_congr hh, flagAt_congr hf]
    exact hs.signals id (hh ▸ hid)

theorem HubInvariant.setFlag {s t : System} (hs : s.HubInvariant) (flag : Nat) {f : Flag} (hh : t.hubs = s.hubs)
    (hc : t.channels = s.channels)
    (hf : ∀ other, t.flagAt other = if other = flag then f else s.flagAt other) (hn : f.Counted)
    (hi : ∀ bit, (s.flagAt flag).isIssued bit = true → f.isIssued bit = true)
    (hr : ∀ id < s.hubs.length, s.flagOfHub id = flag →
      (s.flagAt flag).isBitRaised (s.hubAt id).bit = true → f.isBitRaised (s.hubAt id).bit = true) :
    t.HubInvariant where
  toRegistered := hs.toRegistered.of_samePlaces
    { length := by rw [hh]
      flagOfHub := flagOfHub_congr hh
      bit := fun id => by rw [hubAt_congr hh]
      issued := fun other bit h => by
        rw [hf]
        split
        · rename_i ho
          exact hi bit (ho ▸ h)
        · exact h
      bound := fun channel b h => by
        rw [← bindingOf_congr hc]
        exact h }
  counted other := by
    rw [hf]
    split
    · exact hn
    · exact hs.counted other
  coherent id := by rw [hubAt_congr hh]; exact hs.coherent id
  signals id hid := by
    rw [hubAt_congr hh, flagOfHub_congr hh, hf]
    have hid' : id < s.hubs.length := hh ▸ hid
    split
    · rename_i ho
      intro h
      exact hr id hid' ho (ho ▸ hs.signals id hid' h)
    · exact hs.signals id hid'

theorem HubInvariant.raise {s : System} (hs : s.HubInvariant) (flag bit : Nat) : (s.raise flag bit).HubInvariant := by
  apply hs.setFlag flag (hubs_raise s flag bit) (channels_raise s flag bit) (flagAt_raise s flag bit)
    ((hs.counted flag).raise bit)
  · intro other h
    rw [Flag.isIssued_raise]
    exact h
  · intro id _ _ h
    rw [Flag.isBitRaised_raise, h, Bool.true_or]

theorem HubInvariant.clear {s : System} (hs : s.HubInvariant) {flag bit : Nat} (hu : s.Unowned flag bit) :
    (s.clear flag bit).HubInvariant := by
  apply hs.setFlag flag (hubs_clear s flag bit) (channels_clear s flag bit) (flagAt_clear s flag bit)
    ((hs.counted flag).clear bit)
  · intro other h
    rw [Flag.isIssued_clear]
    exact h
  · intro id hid hf h
    simp [Flag.isBitRaised_clear, h, hu id hid hf]

theorem HubInvariant.addFlag {s : System} (hs : s.HubInvariant) : s.addFlag.2.HubInvariant where
  toRegistered := hs.toRegistered.of_samePlaces
    { length := rfl
      flagOfHub := fun _ => rfl
      bit := fun _ => rfl
      issued := fun flag bit h => by rw [flagAt_addFlag]; exact h
      bound := fun _ _ h => h }
  counted flag := by rw [flagAt_addFlag]; exact hs.counted flag
  coherent := hs.coherent
  signals id hid := by
    rw [flagAt_addFlag]
    exact hs.signals id hid

theorem HubInvariant.addSource {s : System} (hs : s.HubInvariant) (flag : Nat) (asynchronous : Bool) :
    (s.addSource flag asynchronous).2.HubInvariant := by
  by_cases hl : flag < s.flags.length
  · have hf : ∀ other, (s.addSource flag asynchronous).2.flagAt other =
        if other = flag then ((s.flagAt flag).addSource asynchronous).2 else s.flagAt other := by
      intro other
      simp [flagAt_addSource, hl]
    apply hs.setFlag flag (hubs_addSource s flag asynchronous) (channels_addSource s flag asynchronous) hf
      ((hs.counted flag).addSource asynchronous)
    · intro bit h
      exact Flag.isIssued_addSource h asynchronous
    · intro id _ _ h
      rw [Flag.isBitRaised_addSource]
      exact h
  · have hf : (s.addSource flag asynchronous).2.flags = s.flags :=
      List.set_eq_of_length_le (Nat.le_of_not_lt hl)
    exact hs.congr hf rfl fun _ _ h => h

theorem bit_make (name : String) (f : Flag) :
    (Hub.make name f).1.bit = (f.addSource true).1 ∧ (Hub.make name f).2 = (f.addSource true).2 :=
  ⟨rfl, rfl⟩

theorem flagAt_addHub (s : System) (name : String) {flag : Nat} (hl : flag < s.flags.length) (other : Nat) :
    (s.addHub name flag).2.flagAt other =
      if other = flag then ((s.flagAt flag).addSource true).2 else s.flagAt other := by
  have h := flagAt_setFlag s flag (Hub.make name (s.flagAt flag)).2 other
  simp only [hl, and_true] at h
  exact h

structure HubAdded (s : System) (h : Hub) (flag : Nat) (t : System) : Prop where
  length : t.hubs.length = s.hubs.length + 1
  old : ∀ id < s.hubs.length, t.hubAt id = s.hubAt id ∧ t.flagOfHub id = s.flagOfHub id
  last : t.hubAt s.hubs.length = h ∧ t.flagOfHub s.hubs.length = flag
  fresh : (s.flagAt flag).isIssued h.bit = false
  held : (t.flagAt flag).isIssued h.bit = true
  issued : ∀ other bit, (s.flagAt other).isIssued bit = true → (t.flagAt other).isIssued bit = true
  bound : ∀ (channel : Nat) (b : Binding), t.bindingOf channel = some b → s.bindingOf channel = some b

theorem hubAdded_addHub (s : System) (name : String) {flag : Nat} (hl : flag < s.flags.length) :
    HubAdded s (Hub.make name (s.flagAt flag)).1 flag (s.addHub name flag).2 where
  length := length_hubs_addHub s name flag
  old id hid := by
    rw [hubAt_addHub, flagOfHub_addHub, if_neg (Nat.ne_of_lt hid), if_neg (Nat.ne_of_lt hid)]
    exact ⟨rfl, rfl⟩
  last := by
    rw [hubAt_addHub, flagOfHub_addHub, if_pos rfl, if_pos rfl]
    exact ⟨rfl, rfl⟩
  fresh := by
    rw [(bit_make name _).1]
    exact (Flag.isIssued_addSource_self _ true).1
  held := by
    rw [flagAt_addHub s name hl, if_pos rfl, (bit_make name _).1]
    exact (Flag.isIssued_addSource_self _ true).2
  issued other bit h := by
    rw [flagAt_addHub s name hl]
    split
    · rename_i ho
      exact Flag.isIssued_addSource (ho ▸ h) true
    · exact h
  bound _ _ h := h

theorem HubAdded.cases {s t : System} {h : Hub} {flag : Nat} (ha : HubAdded s h flag t) {id : Nat}
    (hid : id < t.hubs.length) : id < s.hubs.length ∨ id = s.hubs.length := by
  have hl := ha.length
  omega

theorem HubAdded.bit_ne {s t : System} {h : Hub} {flag : Nat} (ha : HubAdded s h flag t) {bit : Nat}
    (hi : (s.flagAt flag).isIssued bit = true) : bit ≠ h.bit := by
  rintro rfl
  rw [ha.fresh] at hi
  cases hi

theorem HubAdded.unowned {s t : System} {h : Hub} {flag : Nat} (ha : HubAdded s h flag t) {other bit : Nat}
    (hi : (s.flagAt other).isIssued bit = true) (hu : s.Unowned other bit) : t.Unowned other bit := by
  intro id hid hf
  rcases ha.cases hid with hid | rfl
  · rw [(ha.old id hid).1]
    exact hu id hid ((ha.old id hid).2 ▸ hf)
  · rw [ha.last.2] at hf
    rw [ha.last.1]
    exact (ha.bit_ne (hf ▸ hi)).symm

theorem Registered.of_hubAdded {s t : System} {h : Hub} {flag : Nat} (hs : s.Registered)
    (ha : HubAdded s h flag t) : t.Registered where
  issued id hid := by
    rcases ha.cases hid with hid | rfl
    · rw [(ha.old id hid).1, (ha.old id hid).2]
      exact ha.issued _ _ (hs.issued id hid)
    · rw [ha.last.1, ha.last.2]
      exact ha.held
  distinct i hi j hj hf hb := by
    -- two of the old hubs are as they were, and an old one cannot have the bit of the new one
    rcases ha.cases hi with hi | rfl <;> rcases ha.cases hj with hj | rfl
    · rw [(ha.old i hi).1, (ha.old j hj).1] at hb
      rw [(ha.old i hi).2, (ha.old j hj).2] at hf
      exact hs.distinct i hi j hj hf hb
    · rw [(ha.old i hi).1, ha.last.1] at hb
      rw [(ha.old i hi).2, ha.last.2] at hf
      exact absurd hb (ha.bit_ne (hf ▸ hs.issued i hi))
    · rw [(ha.old j hj).1, ha.last.1] at hb
      rw [(ha.old j hj).2, ha.last.2] at hf
      exact absurd hb.symm (ha.bit_ne (hf ▸ hs.issued j hj))
    · rfl
  bound channel b hb := by
    obtain ⟨hi, hu⟩ := hs.bound channel b (ha.bound channel b hb)
    exact ⟨ha.issued _ _ hi, ha.unowned hi hu⟩

theorem HubInvariant.addHub {s : System} (hs : s.HubInvariant) (name : String) {flag : Nat}
    (hl : flag < s.flags.length) : (s.addHub name flag).2.HubInvariant where
  toRegistered := hs.toRegistered.of_hubAdded (hubAdded_addHub s name hl)
  counted other := by
    rw [flagAt_addHub s name hl]
    split
    · exact (hs.counted flag).addSource true
    · exact hs.counted other
  coherent id := by
    rw [hubAt_addHub]
    split
    · exact Hub.coherent_of_cached_eq_none rfl
    · exact hs.coherent id
  signals id hid := by
    have ha := hubAdded_addHub s name hl
    rcases ha.cases hid with hid | rfl
    · rw [(ha.old id hid).1, (ha.old id hid).2, flagAt_addHub s name hl]
      split
      · rename_i ho
        intro h
        rw [Flag.isBitRaised_addSource]
        exact ho ▸ hs.signals id hid h
      · exact hs.signals id hid
    · -- the new hub is running and empty, so it has nothing to tell
      rw [ha.last.1]
      rintro (h | h)
      · exact absurd rfl h
      · cases h

section changeHub

variable {s : System} {α : Type} {id : Nat} {absent : α} {change : Hub → Flag → α × Hub × Flag}

theorem hubAt_changeHub_of_lt (hl : id < s.hubs.length) (other : Nat) :
    (s.changeHub id absent change).2.hubAt other =
      if other = id then (change (s.hubAt id) (s.flagAt (s.flagOfHub id))).2.1 else s.hubAt other := by
  have h := hubAt_changeHub s id absent change other
  simp only [hl, and_true] at h
  exact h

theorem HubInvariant.flagAt_changeHub_of_lt (hs : s.HubInvariant) (hl : id < s.hubs.length) (flag : Nat) :
    (s.changeHub id absent change).2.flagAt flag =
      if flag = s.flagOfHub id then (change (s.hubAt id) (s.flagAt (s.flagOfHub id))).2.2
      else s.flagAt flag := by
  have h := flagAt_changeHub s id absent change flag
  simp only [hl, lt_of_isIssued (hs.issued id hl), and_true, true_and] at h
  exact h

theorem bit_changeHub (hb : (change (s.hubAt id) (s.flagAt (s.flagOfHub id))).2.1.bit = (s.hubAt id).bit)
    (other : Nat) : ((s.changeHub id absent change).2.hubAt other).bit = (s.hubAt other).bit :=
  hubs_changeHub s id absent change (R := fun h h' => h'.bit = h.bit) (fun _ => rfl) hb other

theorem isIssued_changeHub
    (hi : ∀ bit, (change (s.hubAt id) (s.flagAt (s.flagOfHub id))).2.2.isIssued bit =
      (s.flagAt (s.flagOfHub id)).isIssued bit) (flag bit : Nat) :
    ((s.changeHub id absent change).2.flagAt flag).isIssued bit = (s.flagAt flag).isIssued bit :=
  flags_changeHub s id absent change (R := fun _ f f' => f'.isIssued bit = f.isIssued bit)
    (fun _ _ => rfl) (hi bit) flag

theorem samePlaces_changeHub (hb : (change (s.hubAt id) (s.flagAt (s.flagOfHub id))).2.1.bit = (s.hubAt id).bit)
    (hi : ∀ bit, (change (s.hubAt id) (s.flagAt (s.flagOfHub id))).2.2.isIssued bit =
      (s.flagAt (s.flagOfHub id)).isIssued bit) : SamePlaces s (s.changeHub id absent change).2 where
  length := length_hubs_changeHub s id absent change
  flagOfHub := flagOfHub_changeHub s id absent change
  bit := bit_changeHub hb
  issued flag bit h := (isIssued_changeHub hi flag bit).trans h
  bound channel b h := by
    rw [← bindingOf_congr (channels_changeHub s id absent change)]
    exact h

theorem HubInvariant.signals_changeHub (hs : s.HubInvariant) (hl : id < s.hubs.length)
    (hf : Hub.OwnBitOnly (s.hubAt id) (s.flagAt (s.flagOfHub id))
      (change (s.hubAt id) (s.flagAt (s.flagOfHub id))).2.1
      (change (s.hubAt id) (s.flagAt (s.flagOfHub id))).2.2) {other : Nat} (there : other < s.hubs.length) :
    ((s.changeHub id absent change).2.hubAt other).Signals
      ((s.changeHub id absent change).2.flagAt (s.flagOfHub other)) := by
  rw [hubAt_changeHub_of_lt hl, hs.flagAt_changeHub_of_lt hl]
  by_cases he : other = id
  · rw [if_pos he, he, if_pos rfl]
    exact hf.signals (hs.issued id hl) (hs.signals id hl)
  · rw [if_neg he]
    split
    · rename_i hfo
      -- another hub on the same flag has another bit
      have hne : (s.hubAt other).bit ≠ (s.hubAt id).bit :=
        fun hb => he (hs.distinct other there id hl hfo hb)
      intro h
      rw [hf.others _ hne, ← hfo]
      exact hs.signals other there h
    · exact hs.signals other there

theorem HubInvariant.changeHub (hs : s.HubInvariant) (id : Nat) (absent : α) (change : Hub → Flag → α × Hub × Flag)
    (hf : Hub.OwnBitOnly (s.hubAt id) (s.flagAt (s.flagOfHub id))
      (change (s.hubAt id) (s.flagAt (s.flagOfHub id))).2.1
      (change (s.hubAt id) (s.flagAt (s.flagOfHub id))).2.2) :
    (s.changeHub id absent change).2.HubInvariant := by
  rcases Nat.lt_or_ge id s.hubs.length with hl | hl
  · refine ⟨hs.toRegistered.of_samePlaces (samePlaces_changeHub hf.bit hf.issued), fun flag => ?_, fun other => ?_,
      fun other there => ?_⟩
    · exact flags_changeHub s id absent change (R := fun _ f f' => f.Counted → f'.Counted) (fun _ _ h => h)
        hf.counted flag (hs.counted flag)
    · exact hubs_changeHub s id absent change (R := fun h h' => h.Coherent → h'.Coherent) (fun _ h => h)
        (fun _ => hf.coherent) other (hs.coherent other)
    · rw [length_hubs_changeHub] at there
      rw [flagOfHub_changeHub]
      exact hs.signals_changeHub hl hf there
  · rw [changeHub_of_le absent change hl]
    exact hs

end changeHub

theorem HubInvariant.wake {s : System} (hs : s.HubInvariant) (b : WaitPoint) : (s.wake b).HubInvariant :=
  hs.congr rfl rfl fun _ _ h => h

theorem HubInvariant.addSink {s : System} (hs : s.HubInvariant) (hub : Nat) (sink : Sink) :
    (s.addSink hub sink).2.HubInvariant :=
  hs.changeHub hub 0 _ (Hub.ownBitOnly_addSink (hs.coherent hub) _ sink)

theorem HubInvariant.publish {s : System} (hs : s.HubInvariant) (hub : Nat) (e : Event) :
    (s.publish hub e).2.HubInvariant := by
  have h := hs.changeHub hub false (fun h f => h.publish f e) (Hub.ownBitOnly_publish (hs.coherent hub) _ e)
  rw [publish_eq]
  dsimp only
  split
  · exact (h.wake _).wake _
  · exact h

theorem HubInvariant.notify {s : System} (hs : s.HubInvariant) (hub : Nat) : (s.notify hub).HubInvariant := by
  unfold System.notify
  split
  · exact hs
  · exact hs.raise _ _

theorem HubInvariant.stop {s : System} (hs : s.HubInvariant) (hub : Nat) : (s.stop hub).HubInvariant := by
  have h := hs.changeHub hub false (fun h f => (h.running, h.stop f)) (Hub.ownBitOnly_stop (hs.coherent hub) _)
  rw [stop_eq]
  dsimp only
  split
  · exact (h.wake _).wake _
  · exact h

theorem HubInvariant.askHub {s : System} (hs : s.HubInvariant) (hub : Nat) (ask : Ask) (resumed : Bool) :
    (s.askHub hub ask resumed).2.HubInvariant := by
  have hc := hs.coherent hub
  have h := hs.changeHub hub (Hub.Pause.answer (.pending .closed), false) (askChange ask resumed)
    ((Hub.dispatch_outcome hc (s.flagAt (s.flagOfHub hub)) ask resumed).ownBitOnly hc)
  rw [askHub_eq]
  dsimp only
  split
  · exact h.wake _
  · exact h

theorem HubInvariant.of_sameKindsAndBindings {s t : System} (hs : s.HubInvariant) (h : SameKindsAndBindings s t) :
    t.HubInvariant :=
  hs.congr h.flags h.hubs fun channel b hb => by rw [← h.bindingOf]; exact hb

theorem HubInvariant.addChannel {s : System} (hs : s.HubInvariant) (name : String) (kind : ChannelKind) :
    (s.addChannel (.make name kind)).2.HubInvariant :=
  hs.congr rfl rfl fun channel b hb => by rw [← bindingOf_addChannel s name kind]; exact hb

theorem HubInvariant.attach {s : System} (hs : s.HubInvariant) (channel : Nat) {flag : Nat}
    (hl : flag < s.flags.length) (asynchronous : Bool) :
    (s.attach channel flag asynchronous).2.HubInvariant := by
  rcases attach_snd s channel flag asynchronous with he | ⟨c, hc, -, he⟩
  · rw [he]
    exact hs
  · have ho := hs.addSource flag asynchronous
    have hnew := Flag.isIssued_addSource_self (s.flagAt flag) asynchronous
    have hcl := (List.getElem?_eq_some_iff.1 hc).1
    rw [he]
    refine { ho with bound := ?_ }
    intro other b hb
    by_cases hch : other = channel
    · have hb' : b = ⟨flag, (s.addSource flag asynchronous).1⟩ := by
        simpa [bindingOf, hch, hcl, eq_comm] using hb
      subst hb'
      constructor
      · have hf := flagAt_addSource s flag asynchronous flag
        rw [if_pos ⟨rfl, hl⟩] at hf
        exact hf ▸ hnew.2
      · -- the hubs' bits were issued before
        intro id hid hfo hbit
        have hfo' : s.flagOfHub id = flag := hfo
        have hbit' : (s.hubAt id).bit = ((s.flagAt flag).addSource asynchronous).1 := hbit
        have hi := hs.issued id hid
        rw [hfo', hbit', hnew.1] at hi
        cases hi
    · refine ho.bound other b ?_
      simpa [bindingOf, Ne.symm hch] using hb

theorem HubInvariant.addHubChannel {s : System} (hs : s.HubInvariant) (name : String) {hub : Nat} (sink : Nat)
    (outlet : Outlet) (hl : hub < s.hubs.length) : (s.addHubChannel name hub sink outlet).2.HubInvariant :=
  (hs.addChannel name (.ofHub hub sink outlet)).attach _ (lt_of_isIssued (hs.issued hub hl)) false

theorem HubInvariant.raiseOwn {s : System} (hs : s.HubInvariant) (channel : Nat) :
    (s.raiseOwn channel).HubInvariant := by
  unfold System.raiseOwn
  split
  · exact hs
  · exact hs.raise _ _

theorem HubInvariant.clearOwn {s : System} (hs : s.HubInvariant) (channel : Nat) :
    (s.clearOwn channel).HubInvariant := by
  unfold System.clearOwn
  split
  · exact hs
  · rename_i b hb
    exact hs.clear (hs.bound channel b hb).2

theorem HubInvariant.send {s : System} (hs : s.HubInvariant) (outlet : Outlet) (e : Event) :
    (s.send outlet e).2.HubInvariant := by
  unfold System.send
  split
  · exact hs.publish _ e
  · split
    · exact hs
    · exact hs.congr rfl rfl fun _ _ h => h

end System
end EventHub
