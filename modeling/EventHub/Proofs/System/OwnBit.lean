import EventHub.Proofs.System.HeldBits
set_option autoImplicit false

/-!
A pending event shows on the flag. To publish is to put an event into a queue and then to raise the hub's
bit, and to stop a hub is to halt it and then to raise its bit; between the two halves anything may be done.
Even so a hub clears its bit only over an empty queue, so what is queued shows as soon as the publish that put
it there is over, and nobody else can take the bit away.
-/
namespace EventHub

namespace System

def bitOfCall (s : System) (c : Call) : Option Binding :=
  (s.askedBy c).bind fun q => s.holding (.hub q.1)

end System

def HubMove.bit? (s : System) : HubMove → Option Binding
  | .raise flag bit => some ⟨flag, bit⟩
  | .clear flag bit => some ⟨flag, bit⟩
  | .publish hub _ => s.holding (.hub hub)
  | .notify hub => s.holding (.hub hub)
  | .stop hub => s.holding (.hub hub)
  | .probe hub _ _ => s.holding (.hub hub)
  | .call c => s.bitOfCall c
  | .resume handle => (s.wokenUnder handle).bind fun p => s.bitOfCall p.call
  | _ => none

/-- A query of a hub's channel acts on the hub, a post on the hub that the channel's outlet leads to, and only
to raise or clear its own bit a channel touches a flag itself. -/
def Move.bit? (s : System) : Move → Option Binding
  | .onHubs m => m.bit? s
  | .hasEvent channel mask => s.bitOfCall (.fetchFrom channel mask .noWait)
  | .post channel _ =>
    match s.outletOf channel with
    | some (.hub id) => s.holding (.hub id)
    | _ => none
  | .raiseOwn channel => s.holding (.channel channel)
  | .clearOwn channel => s.holding (.channel channel)
  | _ => none

namespace System

variable {s t : System} {due late : List Nat}

theorem bitOfCall_askHub (s : System) (hub : Nat) (ask : Ask) :
    s.bitOfCall (.askHub hub ask) = s.holding (.hub hub) := rfl

theorem bitOfCall_fetchFrom {channel hub sink : Nat} {outlet : Outlet} {c : Channel}
    (hc : s.channels[channel]? = some c) (hk : c.kind = .ofHub hub sink outlet) (mask : Mask)
    (mode : WaitMode) : s.bitOfCall (.fetchFrom channel mask mode) = s.holding (.hub hub) := by
  have hkind := kindOf_of_getElem? hc
  rw [hk] at hkind
  simp [bitOfCall, askedBy, hkind]

theorem bitOfCall_congr (hh : t.hubs = s.hubs) (hc : t.channels = s.channels) (c : Call) :
    t.bitOfCall c = s.bitOfCall c := by
  cases c with
  | waitForFlag flag => rfl
  | waitOnChannel channel mode => rfl
  | askHub hub ask => rw [bitOfCall_askHub, bitOfCall_askHub, holding, holding, hh]
  | fetchFrom channel mask mode => simp only [bitOfCall, askedBy, kindOf_congr hc, holding, hh]

theorem sameBits_deliver (s : System) (channel : Nat) (fetch : Fetch) : SameBits s (s.deliver channel fetch).2 := by
  cases fetch with
  | pending st => exact .refl s
  | delivered e =>
    have h := sameKindsAndBindings_changeChannel s channel (fun c fs => c.recordFetch fs e)
      fun c fs => c.kindAndBinding_recordFetch fs e
    rw [deliver]
    split
    · rename_i heq
      rw [heq] at h
      exact h.sameBits
    · rename_i heq
      rw [heq] at h
      exact h.sameBits

theorem BitInvariant.advance (hs : s.BitInvariant due) (resumed : Bool) (c : Call) :
    TouchesOnly s (s.advance resumed c).2 (s.bitOfCall c) late := by
  cases c with
  | waitForFlag flag =>
    rw [System.advance]
    split <;> exact touchesOnly_refl s _
  | waitOnChannel channel mode =>
    rw [System.advance]
    split <;> exact touchesOnly_refl s _
  | askHub hub ask =>
    have h : TouchesOnly s _ _ late := hs.askHub hub ask resumed
    rw [System.advance]
    dsimp only
    split <;> exact h
  | fetchFrom channel mask mode =>
    rw [System.advance]
    split
    · exact touchesOnly_refl s _
    · rename_i c hc
      split
      · split
        · rename_i hub sink outlet hk
          have h : TouchesOnly s _ _ late := hs.askHub hub ⟨mask, mode, sink, true⟩ resumed
          rw [bitOfCall_fetchFrom hc hk]
          dsimp only
          split
          · exact h.andSameBits (sameBits_deliver _ channel _)
          · exact h
        · exact touchesOnly_refl s _
      · exact touchesOnly_refl s _

theorem BitInvariant.ran (hs : s.BitInvariant due) {c : Call} {reply : Option Reply} (h : Ran s c reply t) :
    TouchesOnly s t (s.bitOfCall c) late := by
  cases h with
  | stayed _ still => exact still.sameBits.touchesOnly _
  | went s' _ resumed before after =>
    have ha : TouchesOnly s' _ _ late := (hs.andSameBits before.sameBits).advance resumed c
    rw [bitOfCall_congr before.hubs before.channels] at ha
    exact before.sameBits.andTouchesOnly (ha.andSameBits after.sameBits)

theorem BitInvariant.stepOnHubs (hs : s.BitInvariant due) (m : HubMove) (ha : s.Allows (.onHubs m)) :
    TouchesOnly s (m.step s).2 (m.bit? s) late := by
  cases m with
  | makeFlag => exact touchesOnly_addFlag s none
  | addSource flag asynchronous =>
    rcases Nat.lt_or_ge flag s.flags.length with hl | hl
    · exact touchesOnly_addSource s hl asynchronous none
    · exact (sameBits_addSource s hl asynchronous).touchesOnly none
  | raise flag bit => exact touchesOnly_raise s flag bit
  | clear flag bit => exact touchesOnly_clear ha
  | makeHub name flag =>
    rw [HubMove.step]
    split
    · rename_i hl
      exact touchesOnly_addHub s name hl none
    · exact touchesOnly_refl s none
  | addSink hub sink => exact hs.addSink hub sink none fun _ h => by cases h
  | publish hub e => exact hs.publish hub e
  | notify hub => exact touchesOnly_notify s hub
  | stop hub => exact hs.stop hub
  | probe hub mask sink =>
    rw [HubMove.step, probe_snd]
    exact hs.askHub hub _ false
  | call c => exact hs.ran (ran_start s c)
  | resume handle =>
    rw [HubMove.step, HubMove.bit?]
    split
    · exact touchesOnly_refl s _
    · rename_i p hp
      rw [hp]
      exact hs.ran (ran_resume s p)

theorem touchesOnly_changeChannel (s : System) (id : Nat) {change : Channel → FileSystem → Channel.Outcome}
    (h : ∀ c fs, (change c fs).2.1.kindAndBinding = c.kindAndBinding) :
    TouchesOnly s (s.changeChannel id change).2 none late :=
  (sameKindsAndBindings_changeChannel s id change h).sameBits.touchesOnly none

theorem BitInvariant.post (hs : s.BitInvariant due) (channel : Nat) (e : Event) :
    TouchesOnly s (s.post channel e).2 ((Move.post channel e).bit? s) late := by
  have hk := (sameKindsAndBindings_changeChannel s channel (fun c fs => c.recordPost fs e)
    fun c fs => c.kindAndBinding_recordPost fs e).sameBits
  have ho := outletOf_recordPost s channel e channel
  rw [post_eq, Move.bit?]
  dsimp only
  split
  · rename_i outlet hr houtlet
    rw [houtlet] at ho
    rw [← ho]
    refine hk.andTouchesOnly ((hs.andSameBits hk).send ?_ e)
    rintro id rfl
    exact (hk.holding (.hub id)).symm
  · exact hk.touchesOnly _

theorem BitInvariant.hasEvent (hs : s.BitInvariant due) (channel : Nat) (mask : Mask) :
    TouchesOnly s (s.hasEvent channel mask).2 (s.bitOfCall (.fetchFrom channel mask .noWait)) late := by
  rw [System.hasEvent]
  split
  · exact touchesOnly_refl s _
  · rename_i c hc
    split
    · split
      · rename_i hub sink outlet hk
        rw [bitOfCall_fetchFrom hc hk, probe_snd]
        exact hs.askHub hub _ false
      · exact touchesOnly_refl s _
    · exact touchesOnly_refl s _

theorem BitInvariant.unowned (hs : s.BitInvariant due) {channel : Nat} {b : Binding}
    (hb : s.holding (.channel channel) = some b) : s.Unowned b.flag b.bit := by
  intro id hid hf hbit
  have hhub := holding_hub hid
  rw [hf, hbit] at hhub
  cases hs.distinct _ _ _ hhub hb

theorem BitInvariant.step (hs : s.BitInvariant due) (m : Move) (ha : s.Allows m) :
    TouchesOnly s (m.step s).2 (m.bit? s) late := by
  cases m with
  | onHubs m => exact hs.stepOnHubs m ha
  | makeCollector accepts =>
    exact (SameBits.mk rfl rfl fun _ => rfl : SameBits s (s.addCollector accepts).2).touchesOnly none
  | makeChannel name outlet => exact (sameBits_addChannel s name (.plain outlet)).touchesOnly none
  | makeBareChannel name => exact (sameBits_addChannel s name .bare).touchesOnly none
  | makeHubChannel name hub sink outlet =>
    rw [Move.step]
    split
    · rename_i hl
      exact hs.addHubChannel name sink outlet hl none
    · exact touchesOnly_refl s none
  | attach channel flag asynchronous =>
    rw [Move.step]
    split
    · rename_i hl
      exact touchesOnly_attach s channel hl asynchronous none
    · exact touchesOnly_refl s none
  | init channel config => exact touchesOnly_changeChannel s channel fun c fs => c.kindAndBinding_init fs config
  | close channel => exact touchesOnly_changeChannel s channel Channel.kindAndBinding_close
  | abort channel => exact touchesOnly_changeChannel s channel Channel.kindAndBinding_abort
  | flush channel => exact touchesOnly_changeChannel s channel Channel.kindAndBinding_flush
  | post channel e => exact hs.post channel e
  | hasEvent channel mask => exact hs.hasEvent channel mask
  | raiseOwn channel =>
    rw [Move.step, System.raiseOwn]
    split
    · exact touchesOnly_refl s _
    · rename_i b hb
      rw [Move.bit?, show s.holding (.channel channel) = some b from hb]
      exact touchesOnly_raise s b.flag b.bit
  | clearOwn channel =>
    rw [Move.step, System.clearOwn]
    split
    · exact touchesOnly_refl s _
    · rename_i b hb
      rw [Move.bit?, show s.holding (.channel channel) = some b from hb]
      exact touchesOnly_clear (hs.unowned hb)
  | disturb files => exact (SameBits.mk rfl rfl fun _ => rfl : SameBits s { s with files := files }).touchesOnly none

end System

namespace Hub

/-- The first half of a publish, by one who found the hub running; it may have been stopped since. -/
def put (h : Hub) (e : Event) : Hub :=
  { h with queue := h.queue ++ [⟨h.nextSeq, e⟩], nextSeq := h.nextSeq + 1 }

theorem Coherent.put {h : Hub} (hc : h.Coherent) (e : Event) : (h.put e).Coherent := by
  intro a ha
  obtain ⟨head, rest, hq, hs, hr⟩ := hc a ha
  exact ⟨head, rest ++ [⟨h.nextSeq, e⟩], by simp [Hub.put, hq], hs, hr⟩

def halt (h : Hub) : Hub := { h with running := false }

end Hub

namespace System

variable {s t : System} {due late : List Nat}

/-- Whoever sleeps on a hub's queue is woken with the first half of a change, whoever sleeps on its flag with
the second. -/
def changeQueue (s : System) (hub : Nat) (change : Hub → Hub) : System :=
  (s.changeHub hub () fun h f => ((), change h, f)).2.wake (.queue hub)

theorem BitInvariant.halves (hs : s.BitInvariant due) {hub : Nat} (hl : hub < s.hubs.length) {change : Hub → Hub}
    (hb : (change (s.hubAt hub)).bit = (s.hubAt hub).bit) {α : Type} {absent a : α}
    {w : Hub → Flag → α × Hub × Flag}
    (hw : w (s.hubAt hub) (s.flagAt (s.flagOfHub hub)) =
      (a, change (s.hubAt hub), (s.flagAt (s.flagOfHub hub)).raise (s.hubAt hub).bit)) :
    ((s.changeHub hub absent w).2.wake (.queue hub)).wake (.flag (s.flagOfHub hub)) =
      (s.changeQueue hub change).notify hub := by
  have hh : (s.changeQueue hub change).hubs[hub]? = some (change (s.hubAt hub), s.flagOfHub hub) := by
    rw [changeQueue, changeHub_of_lt _ _ hl]
    simp [wake, hl]
  have hf : (s.changeQueue hub change).flagAt (s.flagOfHub hub) = s.flagAt (s.flagOfHub hub) := by
    rw [changeQueue, flagAt_wake, flagAt_changeHub]
    simp
  have hi := hs.issued _ _ (holding_hub hl)
  rw [notify, hh]
  dsimp only
  rw [raise, hf, hb, if_pos hi, changeQueue, changeHub_of_lt _ _ hl, changeHub_of_lt _ _ hl, hw]
  simp [wake, setFlag, List.set_set]

theorem BitInvariant.publish_eq_halves (hs : s.BitInvariant due) {hub : Nat} (hl : hub < s.hubs.length) (e : Event) :
    (s.publish hub e).2 =
      if (s.hubAt hub).running then (s.changeQueue hub fun h => h.put e).notify hub else s := by
  rw [publish_eq]
  cases hr : (s.hubAt hub).running with
  | false =>
    have hw : (s.hubAt hub).publish (s.flagAt (s.flagOfHub hub)) e =
        (false, s.hubAt hub, s.flagAt (s.flagOfHub hub)) := by simp [Hub.publish, hr]
    rw [changeHub_of_same _ _ hl false hw]
    rfl
  | true =>
    have hw : (s.hubAt hub).publish (s.flagAt (s.flagOfHub hub)) e =
        (true, (s.hubAt hub).put e, (s.flagAt (s.flagOfHub hub)).raise (s.hubAt hub).bit) := by
      simp [Hub.publish, Hub.put, hr]
    have htaken : (s.changeHub hub false fun h f => h.publish f e).1 = true := by
      rw [changeHub_of_lt _ _ hl, hw]
    dsimp only
    rw [if_pos htaken, if_pos rfl, flagOfHub_changeHub]
    exact hs.halves hl rfl hw

theorem BitInvariant.stop_eq_halves (hs : s.BitInvariant due) {hub : Nat} (hl : hub < s.hubs.length) :
    s.stop hub = if (s.hubAt hub).running then (s.changeQueue hub Hub.halt).notify hub else s := by
  rw [stop_eq]
  cases hr : (s.hubAt hub).running with
  | false =>
    have hw : ((s.hubAt hub).running, (s.hubAt hub).stop (s.flagAt (s.flagOfHub hub))) =
        (false, s.hubAt hub, s.flagAt (s.flagOfHub hub)) := by simp [Hub.stop, hr]
    rw [changeHub_of_same _ (fun h f => (h.running, h.stop f)) hl false hw]
    rfl
  | true =>
    have hw : ((s.hubAt hub).running, (s.hubAt hub).stop (s.flagAt (s.flagOfHub hub))) =
        (true, (s.hubAt hub).halt, (s.flagAt (s.flagOfHub hub)).raise (s.hubAt hub).bit) := by
      simp [Hub.stop, Hub.halt, hr]
    have hrunning : (s.changeHub hub false fun h f => (h.running, h.stop f)).1 = true := by
      rw [changeHub_of_lt _ _ hl, hw]
    dsimp only
    rw [if_pos hrunning, if_pos rfl, flagOfHub_changeHub]
    exact hs.halves (w := fun h f => (h.running, h.stop f)) hl rfl hw

/-- Only the queue of the hub is changed, so no bit is; the hub is late in showing it. -/
theorem BitInvariant.changeQueue (hs : s.BitInvariant due) (hub : Nat) {change : Hub → Hub}
    (hb : (change (s.hubAt hub)).bit = (s.hubAt hub).bit) (hc : (change (s.hubAt hub)).Coherent) :
    TouchesOnly s (s.changeQueue hub change) none [hub] := by
  have h : TouchesOnly s (s.changeHub hub () fun h f => ((), change h, f)).2 none [hub] :=
    hs.changeHub () hb hc (fun h => h) (fun _ => rfl) (fun _ _ => rfl) (fun _ h => by cases h)
      fun h => absurd List.mem_cons_self h
  exact h.andSameBits (sameBits_wake _ _)

theorem BitInvariant.notify (hs : s.BitInvariant due) (hub : Nat) : (s.notify hub).BitInvariant (due.erase hub) := by
  have h : (s.notify hub).BitInvariant due :=
    hs.touchesOnly (touchesOnly_notify s hub : TouchesOnly s _ _ [])
  refine { h with signals := fun id hid hdue => ?_ }
  by_cases he : id = hub
  · subst he
    have hhubs : (s.notify id).hubs = s.hubs := by
      unfold System.notify
      split
      · rfl
      · exact hubs_raise s _ _
    rw [hhubs] at hid
    rw [hubAt_notify, flagOfHub_congr hhubs, System.notify, hubs_getElem? hid]
    intro _
    rw [flagAt_raise, if_pos rfl, Flag.isBitRaised_raise, hs.issued _ _ (holding_hub hid)]
    simp
  · exact h.signals id hid fun hd => hdue ((List.mem_erase_of_ne he).2 hd)

end System

inductive Piece where
  | whole (m : Move)
  | put (hub : Nat) (event : Event)
  | halt (hub : Nat)
  | tell (hub : Nat)

namespace Piece

def step (s : System) : Piece → System
  | whole m => (m.step s).2
  | put hub e => s.changeQueue hub fun h => h.put e
  | halt hub => s.changeQueue hub Hub.halt
  | tell hub => s.notify hub

def bit? (s : System) : Piece → Option Binding
  | whole m => m.bit? s
  | put _ _ => none
  | halt _ => none
  | tell hub => s.holding (.hub hub)

def due (before : List Nat) : Piece → List Nat
  | whole _ => before
  | put hub _ => hub :: before
  | halt hub => hub :: before
  | tell hub => before.erase hub

end Piece

namespace System

def Permits (s : System) : Piece → Prop
  | .whole m => s.Allows m
  | _ => True

/-- What can come about when whatever is done may come between the halves of whatever else is done, as long as
hubs alone clear their bits. -/
inductive Interleaved (files : FileSystem) : List Nat → System → Prop where
  | start : Interleaved files [] (empty files)
  | piece (due : List Nat) (s : System) (x : Piece) (before : Interleaved files due s)
      (permitted : s.Permits x) : Interleaved files (x.due due) (x.step s)

variable {files : FileSystem} {s : System} {due : List Nat}

theorem Reached.interleaved (h : Reached files s) : Interleaved files [] s := by
  induction h with
  | start => exact .start
  | move s m _ allowed ih => exact .piece [] s (.whole m) ih allowed

theorem BitInvariant.piece (hs : s.BitInvariant due) (x : Piece) (hp : s.Permits x) :
    (x.step s).BitInvariant (x.due due) ∧ ∃ late, TouchesOnly s (x.step s) (x.bit? s) late := by
  cases x with
  | whole m =>
    have h : TouchesOnly s _ _ [] := hs.step m hp
    exact ⟨hs.touchesOnly h, [], h⟩
  | put hub e =>
    have h : TouchesOnly s (s.changeQueue hub fun h => h.put e) none [hub] :=
      hs.changeQueue hub rfl ((hs.coherent hub).put e)
    exact ⟨hs.touchesOnly h, [hub], h⟩
  | halt hub =>
    have h : TouchesOnly s (s.changeQueue hub Hub.halt) none [hub] :=
      hs.changeQueue hub rfl (hs.coherent hub)
    exact ⟨hs.touchesOnly h, [hub], h⟩
  | tell hub => exact ⟨hs.notify hub, [], touchesOnly_notify s hub⟩

theorem Interleaved.bitInvariant (h : Interleaved files due s) : s.BitInvariant due := by
  induction h with
  | start => exact bitInvariant_empty files
  | piece due s x _ permitted ih => exact (ih.piece x permitted).1

/-- An event that is queued in this hub is seen by whoever looks at the hub's flag. -/
structure Shows (s : System) (hub : Nat) : Prop where
  raised : (s.flagAt (s.flagOfHub hub)).isBitRaised (s.hubAt hub).bit = true
  waiting : (s.start (.waitForFlag (s.flagOfHub hub))).2.1 = .returned .done
  channels : ∀ channel c b mask, s.channels[channel]? = some c → c.isOpen = true →
    (∀ other sink outlet, c.kind ≠ .ofHub other sink outlet) → c.binding = some b →
      b.flag = s.flagOfHub hub → (s.hasEvent channel mask).1 = .outOfSeq
  hubs : ∀ other < s.hubs.length, other ≠ hub → s.flagOfHub other = s.flagOfHub hub → ∀ mask sink,
    (s.probe other mask sink).1 ≠ .wait

theorem start_waitForFlag {flag : Nat} (h : (s.flagAt flag).isRaised = true) :
    (s.start (.waitForFlag flag)).2.1 = .returned .done := by
  have hw : (flagAt { s with handles := s.handles + 1 } flag).wait = .ok true := by
    rw [Flag.wait, show flagAt { s with handles := s.handles + 1 } flag = s.flagAt flag from rfl, h]
    rfl
  rw [(start_advance s (.waitForFlag flag)).1, advance, hw]

theorem hasEvent_of_isRaised {channel : Nat} {c : Channel} {b : Binding} {mask : Mask}
    (hc : s.channels[channel]? = some c) (ho : c.isOpen = true)
    (hk : ∀ other sink outlet, c.kind ≠ .ofHub other sink outlet) (hb : c.binding = some b)
    (h : (s.flagAt b.flag).isRaised = true) : (s.hasEvent channel mask).1 = .outOfSeq := by
  have hf : s.isFlagRaised c = true := by
    rw [isFlagRaised, hb]
    exact h
  rw [hasEvent, hc]
  dsimp only
  rw [if_pos ho]
  split
  · rename_i hub sink outlet hkind
    exact absurd hkind (hk hub sink outlet)
  · rw [hf]
    rfl

/-- A probe that finds nothing says so only if the flag is not raised without the hub's own bit. -/
theorem BitInvariant.probe_ne_wait (hs : s.BitInvariant due) {hub : Nat}
    (h : ((s.flagAt (s.flagOfHub hub)).clear (s.hubAt hub).bit).isRaised = true) (mask : Mask) (sink : Nat) :
    (s.probe hub mask sink).1 ≠ .wait := by
  have o := Hub.dispatch_outcome (hs.coherent hub) (s.flagAt (s.flagOfHub hub))
    ⟨mask, .noWait, sink, false⟩ false
  rw [probe_fst]
  generalize (s.hubAt hub).dispatch (s.flagAt (s.flagOfHub hub)) ⟨mask, .noWait, sink, false⟩ false = r at o
  obtain ⟨p, t⟩ := r
  cases o with
  | closed => simp [Fetch.status]
  | idle => simp [Fetch.status, h]
  | taken => simp [Fetch.status]
  | shown => simp [Fetch.status]
  | held => simp
  | sentAway => simp [Fetch.status]

theorem BitInvariant.shows (hs : s.BitInvariant due) {hub : Nat} (hl : hub < s.hubs.length) (hd : hub ∉ due)
    (hq : (s.hubAt hub).queue ≠ []) : s.Shows hub := by
  have hr := hs.signals hub hl hd (.inl hq)
  have hraised := (hs.counted _).isRaised_of_isBitRaised hr
  refine ⟨hr, start_waitForFlag hraised, ?_, ?_⟩
  · intro channel c b mask hc ho hk hb hf
    exact hasEvent_of_isRaised hc ho hk hb (by rw [hf, hraised])
  · intro other hother hne hf mask sink
    -- what the other hub clears is its own bit
    have hbit : (s.hubAt hub).bit ≠ (s.hubAt other).bit := by
      intro hb
      have h := holding_hub hother
      rw [hf, ← hb] at h
      exact hne (Holder.hub.inj (hs.distinct _ _ _ h (holding_hub hl)))
    have hleft : ((s.flagAt (s.flagOfHub other)).clear (s.hubAt other).bit).isBitRaised (s.hubAt hub).bit =
        true := by
      rw [Flag.isBitRaised_clear, hf, hr]
      simpa using hbit
    exact hs.probe_ne_wait (((hs.counted _).clear _).isRaised_of_isBitRaised hleft) mask sink

/-- Nobody shares a bit or loses it; a piece of work changes no bit but one, that of whoever it acts on; and
what is queued shows, unless a publish or a stop of the same hub is but half done. -/
structure BitLaws (s : System) (due : List Nat) : Prop where
  distinct : ∀ p q b, s.holding p = some b → s.holding q = some b → p = q
  kept : ∀ x, s.Permits x → ∀ p b, s.holding p = some b → (x.step s).holding p = some b
  own : ∀ x, s.Permits x → ∀ flag bit, x.bit? s ≠ some ⟨flag, bit⟩ →
    ((x.step s).flagAt flag).isBitRaised bit = (s.flagAt flag).isBitRaised bit
  shows : ∀ hub < s.hubs.length, hub ∉ due → (s.hubAt hub).queue ≠ [] → s.Shows hub

theorem pending_event_shows (h : Interleaved files due s) : s.BitLaws due where
  distinct := h.bitInvariant.distinct
  kept x hx p b hp := by
    obtain ⟨-, late, hc⟩ := h.bitInvariant.piece x hx
    exact hc.mayAddHolder.kept hp
  own x hx flag bit hne := by
    obtain ⟨-, late, hc⟩ := h.bitInvariant.piece x hx
    exact hc.others flag bit hne
  shows hub hl hd hq := h.bitInvariant.shows hl hd hq

theorem Interleaved.through (h : Interleaved files due s) (xs : List Piece)
    (hx : ∀ x ∈ xs, ∀ t : System, t.Permits x) :
    Interleaved files (xs.foldl (fun before x => x.due before) due) (xs.foldl Piece.step s) := by
  induction xs generalizing due s with
  | nil => exact h
  | cons x xs ih =>
    exact ih (h.piece due s x (hx x List.mem_cons_self s)) fun y hy => hx y (List.mem_cons_of_mem x hy)

def halfway : List Piece :=
  [.whole (.onHubs .makeFlag), .whole (.onHubs (.makeHub "left" 0)), .whole (.onHubs (.makeHub "right" 0)),
   .whole (.onHubs (.publish 0 anEvent)), .put 1 anEvent]

theorem pending_event_shows_halfway :
    (halfway.foldl Piece.step (empty .fresh)).BitLaws [1] ∧
      (halfway.foldl Piece.step (empty .fresh)).Shows 0 ∧
      ((halfway.foldl Piece.step (empty .fresh)).hubAt 1).queue ≠ [] ∧
      ((halfway.foldl Piece.step (empty .fresh)).flagAt 0).isBitRaised 1 = false := by
  have h : Interleaved .fresh [1] (halfway.foldl Piece.step (empty .fresh)) := by
    refine Interleaved.start.through halfway ?_
    intro x hx t
    simp only [halfway, List.mem_cons, List.not_mem_nil, or_false] at hx
    rcases hx with rfl | rfl | rfl | rfl | rfl <;> trivial
  have hr := pending_event_shows h
  refine ⟨hr, hr.shows 0 (by decide) (by decide) ?_, ?_, by decide⟩
  · exact List.cons_ne_nil _ _
  · exact List.cons_ne_nil _ _

end System
end EventHub
