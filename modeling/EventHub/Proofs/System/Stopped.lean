import EventHub.Proofs.Hub.Ahead
import EventHub.Proofs.System.Effect
import EventHub.Proofs.System.OwnBit
set_option autoImplicit false

/-!
A stop is final. Whatever is done afterwards, nothing is put into the hub or taken from it, whoever asks it is
told that it is closed, those among them who slept when it was stopped, and its bit stays raised until somebody
clears that very bit.
-/
namespace EventHub

namespace Hub

/-- The hub does not run, and nothing of it is different but that sinks may have joined. -/
structure Frozen (h h' : Hub) : Prop where
  running : h'.running = false
  bit : h'.bit = h.bit
  queue : h'.queue = h.queue
  nextSeq : h'.nextSeq = h.nextSeq
  cached : h'.cached = h.cached
  delivered : h'.delivered = h.delivered
  dropped : h'.dropped = h.dropped

theorem Frozen.trans {h h' h'' : Hub} (a : h.Frozen h') (b : h'.Frozen h'') : h.Frozen h'' where
  running := b.running
  bit := b.bit.trans a.bit
  queue := b.queue.trans a.queue
  nextSeq := b.nextSeq.trans a.nextSeq
  cached := b.cached.trans a.cached
  delivered := b.delivered.trans a.delivered
  dropped := b.dropped.trans a.dropped

theorem frozen_self {h : Hub} (hr : h.running = false) : h.Frozen h := ⟨hr, rfl, rfl, rfl, rfl, rfl, rfl⟩

theorem frozen_stop (h : Hub) (f : Flag) : h.Frozen (h.stop f).1 := by
  unfold Hub.stop
  split
  · exact ⟨rfl, rfl, rfl, rfl, rfl, rfl, rfl⟩
  · rename_i hr
    exact frozen_self (by simpa using hr)

/-- What is new in a hub that does not run: sinks that have joined, and behind the other entries those of publishers
who had found it running and come with their events only now. -/
structure OnlyAdded (h h' : Hub) (late : List Entry) : Prop where
  running : h'.running = false
  bit : h'.bit = h.bit
  queue : h'.queue = h.queue ++ late
  cached : h'.cached = h.cached
  delivered : h'.delivered = h.delivered
  dropped : h'.dropped = h.dropped

theorem Frozen.onlyAdded {h h' : Hub} (a : h.Frozen h') : h.OnlyAdded h' [] :=
  ⟨a.running, a.bit, a.queue.trans (List.append_nil _).symm, a.cached, a.delivered, a.dropped⟩

theorem OnlyAdded.trans {h h' h'' : Hub} {late later : List Entry} (a : h.OnlyAdded h' late)
    (b : h'.OnlyAdded h'' later) : h.OnlyAdded h'' (late ++ later) where
  running := b.running
  bit := b.bit.trans a.bit
  queue := by rw [b.queue, a.queue, List.append_assoc]
  cached := b.cached.trans a.cached
  delivered := b.delivered.trans a.delivered
  dropped := b.dropped.trans a.dropped

theorem publish_of_stopped {h : Hub} (hr : h.running = false) (f : Flag) (e : Event) :
    h.publish f e = (false, h, f) := by simp [Hub.publish, hr]

theorem stop_of_stopped {h : Hub} (hr : h.running = false) (f : Flag) : h.stop f = (h, f) := by
  simp [Hub.stop, hr]

end Hub

namespace System

variable {files : FileSystem} {s t : System} {due : List Nat} {hub : Nat}

theorem publish_of_stopped (hl : hub < s.hubs.length) (hr : (s.hubAt hub).running = false) (e : Event) :
    s.publish hub e = (false, s) := by
  have hc := Hub.publish_of_stopped hr (s.flagAt (s.flagOfHub hub)) e
  rw [publish_eq, changeHub_of_same _ _ hl false hc]
  rfl

theorem stop_of_stopped (hl : hub < s.hubs.length) (hr : (s.hubAt hub).running = false) : s.stop hub = s := by
  have hc : ((s.hubAt hub).running, (s.hubAt hub).stop (s.flagAt (s.flagOfHub hub))) =
      (false, s.hubAt hub, s.flagAt (s.flagOfHub hub)) := by rw [hr, Hub.stop_of_stopped hr]
  rw [stop_eq, changeHub_of_same _ (fun h f => (h.running, h.stop f)) hl false hc]
  rfl

theorem askHub_of_stopped (hl : hub < s.hubs.length) (hr : (s.hubAt hub).running = false) (ask : Ask)
    (resumed : Bool) : s.askHub hub ask resumed = (.answer (.pending .closed), s) := by
  have hc : askChange ask resumed (s.hubAt hub) (s.flagAt (s.flagOfHub hub)) =
      ((.answer (.pending .closed), false), s.hubAt hub, s.flagAt (s.flagOfHub hub)) := by
    rw [askChange, Hub.dispatch_of_stopped hr]
  rw [askHub_eq, changeHub_of_same _ _ hl _ hc]
  rfl

theorem probe_of_stopped (hl : hub < s.hubs.length) (hr : (s.hubAt hub).running = false) (mask : Mask)
    (sink : Nat) : s.probe hub mask sink = (.closed, s) := by
  rw [probe, askHub_of_stopped hl hr]
  rfl

theorem channel_of_askedBy {channel : Nat} {mask : Mask} {mode : WaitMode} {ask : Ask}
    (ha : s.askedBy (.fetchFrom channel mask mode) = some (hub, ask)) :
    ∃ c sink outlet, s.channels[channel]? = some c ∧ c.kind = .ofHub hub sink outlet ∧
      ask = ⟨mask, mode, sink, true⟩ := by
  rw [askedBy, kindOf] at ha
  cases hc : s.channels[channel]? with
  | none => simp [hc] at ha
  | some c =>
    cases hk : c.kind with
    | plain outlet => simp [hc, hk] at ha
    | bare => simp [hc, hk] at ha
    | ofHub id sink outlet =>
      simp only [hc, hk, Option.map_some, Option.some.injEq, Prod.mk.injEq] at ha
      obtain ⟨rfl, rfl⟩ := ha
      exact ⟨c, sink, outlet, rfl, hk, rfl⟩

/-- A call that asks a stopped hub returns where it stands, whether it has just been made or slept before. -/
theorem advance_of_stopped (hl : hub < s.hubs.length) (hr : (s.hubAt hub).running = false) {c : Call}
    {ask : Ask} (ha : s.askedBy c = some (hub, ask)) (resumed : Bool) :
    s.advance resumed c = (.returned (ask.reply (.pending .closed)), s) := by
  cases c with
  | waitForFlag flag => cases ha
  | waitOnChannel channel mode => cases ha
  | askHub id q =>
    cases ha
    rw [advance, askHub_of_stopped hl hr]
    rfl
  | fetchFrom channel mask mode =>
    obtain ⟨c, sink, outlet, hc, hk, rfl⟩ := channel_of_askedBy ha
    rw [advance, hc]
    simp only [hk, askHub_of_stopped hl hr]
    -- a closed channel says the same without asking
    split <;> rfl

/-- Whoever asks the hub is told that it is closed, and nothing in the system is any different for that. -/
structure Closed (s : System) (hub : Nat) : Prop where
  publish : ∀ e, s.publish hub e = (false, s)
  stop : s.stop hub = s
  probe : ∀ mask sink, s.probe hub mask sink = (.closed, s)
  hasEvent : ∀ channel mask ask, s.askedBy (.fetchFrom channel mask .noWait) = some (hub, ask) →
    s.hasEvent channel mask = (.closed, s)
  call : ∀ c ask, s.askedBy c = some (hub, ask) → s.start c =
    (s.handles, .returned (ask.reply (.pending .closed)), { s with handles := s.handles + 1 })
  resume : ∀ p ask, s.askedBy p.call = some (hub, ask) →
    (s.resume p).1 = if s.mayGoOn p then some (ask.reply (.pending .closed)) else none

theorem closed_of_stopped (hl : hub < s.hubs.length) (hr : (s.hubAt hub).running = false) : s.Closed hub where
  publish := publish_of_stopped hl hr
  stop := stop_of_stopped hl hr
  probe := probe_of_stopped hl hr
  hasEvent channel mask ask ha := by
    obtain ⟨c, sink, outlet, hc, hk, -⟩ := channel_of_askedBy ha
    rw [hasEvent, hc]
    simp only [hk, probe_of_stopped hl hr]
    split <;> rfl
  call c ask ha := by
    have h := advance_of_stopped (s := { s with handles := s.handles + 1 }) hl hr ha false
    rw [start, h]
  resume p ask ha := by
    have h := advance_of_stopped (s := s.replace { p with awake := false }) hl hr ha true
    rw [System.resume, h]
    split <;> rfl

theorem Becomes.frozen {m : Move} (hb : Becomes s m hub t) (hl : hub < s.hubs.length)
    (hr : (s.hubAt hub).running = false) : (s.hubAt hub).Frozen (t.hubAt hub) := by
  have hself := Hub.frozen_self hr
  cases hb with
  | kept _ _ hub =>
    rw [hub]
    exact hself
  | made _ new =>
    rw [new] at hl
    exact absurd hl (Nat.lt_irrefl _)
  | joined _ sink hub =>
    rw [hub]
    exact ⟨hr, rfl, rfl, rfl, rfl, rfl, rfl⟩
  | published _ e hub =>
    rw [hub, Hub.publish_of_stopped hr]
    exact hself
  | stopped _ _ hub =>
    rw [hub, Hub.stop_of_stopped hr]
    exact hself
  | asked _ ask resumed hub =>
    rw [hub, Hub.dispatch_of_stopped hr]
    exact hself

theorem frozen_ran (hl : hub < s.hubs.length) (hr : (s.hubAt hub).running = false) (ms : List Move) :
    (s.hubAt hub).Frozen ((s.ran ms).hubAt hub) := by
  induction ms generalizing s with
  | nil => exact Hub.frozen_self hr
  | cons m ms ih =>
    have h := (becomes_step s m hub).frozen hl hr
    exact h.trans (ih (Nat.lt_of_lt_of_le hl (length_hubs_step s m)) h.running)

theorem exists_clear_of_not_allows {m : Move} (h : ¬ s.Allows m) :
    ∃ flag bit, m = .onHubs (.clear flag bit) := by
  unfold Allows at h
  split at h
  · rename_i flag bit
    exact ⟨flag, bit, rfl⟩
  · exact absurd trivial h

/-- Also when a hub's bit is cleared from outside no other bit is touched; hubs are late in showing that. -/
theorem BitInvariant.stepOfAny (hs : s.BitInvariant due) (m : Move) :
    TouchesOnly s (m.step s).2 (m.bit? s) (List.range s.hubs.length) := by
  by_cases ha : s.Allows m
  · exact hs.step m ha
  · obtain ⟨flag, bit, rfl⟩ := exists_clear_of_not_allows ha
    exact touchesOnly_clear_of_late fun id hid hlate => absurd (List.mem_range.2 hid) hlate

theorem Possible.bitInvariant (h : Possible files s) : ∃ due, s.BitInvariant due := by
  induction h with
  | start => exact ⟨[], bitInvariant_empty files⟩
  | move s m _ ih =>
    obtain ⟨due, hs⟩ := ih
    exact ⟨_, hs.touchesOnly (hs.stepOfAny m)⟩

theorem BitInvariant.place_step (hs : s.BitInvariant due) (hl : hub < s.hubs.length) (m : Move) :
    (m.step s).2.flagOfHub hub = s.flagOfHub hub ∧ ((m.step s).2.hubAt hub).bit = (s.hubAt hub).bit := by
  have hk := (hs.stepOfAny m).mayAddHolder.kept (holding_hub hl)
  rw [holding_hub (Nat.lt_of_lt_of_le hl (length_hubs_step s m)), Option.some.injEq, Binding.mk.injEq] at hk
  exact hk

def OwnBitRaised (s : System) (hub : Nat) : Prop :=
  (s.flagAt (s.flagOfHub hub)).isBitRaised (s.hubAt hub).bit = true

def clearOwnBit (s : System) (hub : Nat) : Move := .onHubs (.clear (s.flagOfHub hub) (s.hubAt hub).bit)

theorem BitInvariant.clearOwnBit_step (hs : s.BitInvariant due) (hl : hub < s.hubs.length) (m : Move) :
    (m.step s).2.clearOwnBit hub = s.clearOwnBit hub := by
  obtain ⟨hflag, hbit⟩ := hs.place_step hl m
  rw [clearOwnBit, hflag, hbit]
  rfl

/-- A stopped hub shows that it is stopped, so no move but one lets go of its bit. -/
theorem BitInvariant.raised_step (hs : s.BitInvariant due) (hl : hub < s.hubs.length)
    (hr : (s.hubAt hub).running = false) {m : Move} (hm : m ≠ s.clearOwnBit hub) (h : s.OwnBitRaised hub) :
    (m.step s).2.OwnBitRaised hub := by
  by_cases ha : s.Allows m
  · have hc : TouchesOnly s (m.step s).2 (m.bit? s) [] := hs.step m ha
    have hl' := Nat.lt_of_lt_of_le hl (length_hubs_step s m)
    exact hc.signals hub hl' List.not_mem_nil (fun _ _ => h) (.inr ((becomes_step s m hub).frozen hl hr).running)
  · obtain ⟨hflag, hbit⟩ := hs.place_step hl m
    have hc := hs.stepOfAny m
    obtain ⟨flag, bit, rfl⟩ := exists_clear_of_not_allows ha
    rw [OwnBitRaised, hflag, hbit, hc.others]
    · exact h
    · intro he
      cases he
      exact hm rfl

theorem BitInvariant.raised_ran (hs : s.BitInvariant due) (hl : hub < s.hubs.length)
    (hr : (s.hubAt hub).running = false)
    (ms : List Move) (hm : s.clearOwnBit hub ∉ ms) (h : s.OwnBitRaised hub) : (s.ran ms).OwnBitRaised hub := by
  induction ms generalizing s due with
  | nil => exact h
  | cons m ms ih =>
    rw [List.mem_cons, not_or] at hm
    refine ih (hs.touchesOnly (hs.stepOfAny m)) (Nat.lt_of_lt_of_le hl (length_hubs_step s m))
      ((becomes_step s m hub).frozen hl hr).running ?_ (hs.raised_step hl hr (Ne.symm hm.1) h)
    rw [hs.clearOwnBit_step hl]
    exact hm.2

theorem BitInvariant.clearOwnBit_ran (hs : s.BitInvariant due) (hl : hub < s.hubs.length) (ms : List Move) :
    (s.ran ms).clearOwnBit hub = s.clearOwnBit hub := by
  induction ms generalizing s due with
  | nil => rfl
  | cons m ms ih =>
    have hnext := ih (hs.touchesOnly (hs.stepOfAny m)) (Nat.lt_of_lt_of_le hl (length_hubs_step s m))
    exact hnext.trans (hs.clearOwnBit_step hl m)

theorem BitInvariant.raised_stop (hs : s.BitInvariant due) (hr : (s.hubAt hub).running = true) :
    (s.stop hub).OwnBitRaised hub := by
  have hl := lt_of_running hr
  have hi := hs.issued _ _ (holding_hub hl)
  obtain ⟨hflag, hbit⟩ := hs.place_step hl (.onHubs (.stop hub))
  have hf := flagAt_changeHub s hub false (fun h f => (h.running, h.stop f)) (s.flagOfHub hub)
  rw [if_pos ⟨hl, rfl, lt_of_isIssued hi⟩] at hf
  have hstop : (s.stop hub).flagAt (s.flagOfHub hub) =
      (s.flagAt (s.flagOfHub hub)).raise (s.hubAt hub).bit := by
    have hw : ((s.hubAt hub).stop (s.flagAt (s.flagOfHub hub))).2 =
        (s.flagAt (s.flagOfHub hub)).raise (s.hubAt hub).bit := by simp [Hub.stop, hr]
    rw [← hw, ← hf, stop_eq]
    dsimp only
    split <;> rfl
  rw [OwnBitRaised, show (s.stop hub).flagOfHub hub = _ from hflag, show ((s.stop hub).hubAt hub).bit = _ from hbit,
    hstop, Flag.isBitRaised_raise, hi]
  simp

theorem hubAt_changeQueue (s : System) (hub : Nat) (change : Hub → Hub) (id : Nat) :
    (s.changeQueue hub change).hubAt id =
      if id = hub ∧ hub < s.hubs.length then change (s.hubAt hub) else s.hubAt id :=
  hubAt_changeHub s hub () (fun h f => ((), change h, f)) id

theorem length_hubs_piece (s : System) (x : Piece) : s.hubs.length ≤ (x.step s).hubs.length := by
  cases x with
  | whole m => exact length_hubs_step s m
  | put hub e => exact Nat.le_of_eq (length_hubs_changeHub s hub () fun h f => ((), h.put e, f)).symm
  | halt hub => exact Nat.le_of_eq (length_hubs_changeHub s hub () fun h f => ((), h.halt, f)).symm
  | tell hub => exact length_hubs_step s (.onHubs (.notify hub))

theorem onlyAdded_piece (hl : hub < s.hubs.length) (hr : (s.hubAt hub).running = false) (x : Piece) :
    ∃ late, (s.hubAt hub).OnlyAdded ((x.step s).hubAt hub) late := by
  have hself := (Hub.frozen_self hr).onlyAdded
  cases x with
  | whole m => exact ⟨[], ((becomes_step s m hub).frozen hl hr).onlyAdded⟩
  | put id e =>
    rw [Piece.step, hubAt_changeQueue]
    split
    · rename_i h
      obtain ⟨rfl, -⟩ := h
      exact ⟨[⟨(s.hubAt hub).nextSeq, e⟩], hr, rfl, rfl, rfl, rfl, rfl⟩
    · exact ⟨[], hself⟩
  | halt id =>
    rw [Piece.step, hubAt_changeQueue]
    split
    · rename_i h
      obtain ⟨rfl, -⟩ := h
      exact ⟨[], rfl, rfl, hself.queue, rfl, rfl, rfl⟩
    · exact ⟨[], hself⟩
  | tell id =>
    rw [Piece.step, hubAt_notify]
    exact ⟨[], hself⟩

/-- An event that is put into a hub after the stop, by one who had found it running before, stays there for good:
nobody is given it and nobody is told anything but that the hub is closed. -/
theorem late_events_stay (hl : hub < s.hubs.length) (hr : (s.hubAt hub).running = false) (xs : List Piece) :
    (xs.foldl Piece.step s).Closed hub ∧
      ∃ late, (s.hubAt hub).OnlyAdded ((xs.foldl Piece.step s).hubAt hub) late := by
  induction xs generalizing s with
  | nil => exact ⟨closed_of_stopped hl hr, [], (Hub.frozen_self hr).onlyAdded⟩
  | cons x xs ih =>
    obtain ⟨late, ha⟩ := onlyAdded_piece hl hr x
    obtain ⟨hclosed, later, hb⟩ := ih (Nat.lt_of_lt_of_le hl (length_hubs_piece s x)) ha.running
    exact ⟨hclosed, late ++ later, ha.trans hb⟩

/-- What can be said of a hub once it was stopped and other things were done. -/
structure Stopped (s : System) (hub : Nat) (later : List Move) (t : System) : Prop where
  frozen : (s.hubAt hub).Frozen (t.hubAt hub)
  closed : t.Closed hub
  raised : (s.hubAt hub).running = true → s.clearOwnBit hub ∉ later → t.OwnBitRaised hub
  keeps : ∀ m, m ≠ s.clearOwnBit hub → t.OwnBitRaised hub → (m.step t).2.OwnBitRaised hub

/-- Whatever was done before, with whatever is queued and whoever sleeps. Moves are whole, so each publish is over
before the stop or begins after it. One that was past its look at the hub when the stop came is none of them; what
becomes of its event is said by `late_events_stay`. -/
theorem stop_is_final (possible : Possible files s) (made : hub < s.hubs.length) (later : List Move) :
    s.Stopped hub later ((s.stop hub).ran later) := by
  have hstop : Possible files (s.stop hub) := .move s (.onHubs (.stop hub)) possible
  obtain ⟨due, hs⟩ := possible.bitInvariant
  obtain ⟨due', ht⟩ := hstop.bitInvariant
  obtain ⟨due'', hu⟩ := (hstop.ran later).bitInvariant
  have hl : hub < (s.stop hub).hubs.length := by rwa [length_hubs_stop]
  have hl' := Nat.lt_of_lt_of_le hl (length_hubs_ran (s.stop hub) later)
  have hplace : (s.stop hub).clearOwnBit hub = s.clearOwnBit hub :=
    hs.clearOwnBit_step made (.onHubs (.stop hub))
  have hfirst : (s.hubAt hub).Frozen ((s.stop hub).hubAt hub) := by
    rw [hubAt_stop, if_pos rfl]
    exact Hub.frozen_stop _ _
  have hrest := frozen_ran hl hfirst.running later
  refine ⟨hfirst.trans hrest, closed_of_stopped hl' hrest.running, ?_, ?_⟩
  · intro hr hm
    rw [← hplace] at hm
    exact ht.raised_ran hl hfirst.running later hm (hs.raised_stop hr)
  · intro m hm h
    rw [← hplace, ← ht.clearOwnBit_ran hl later] at hm
    exact hu.raised_step hl' hrest.running hm h

def overSleepers : List Move :=
  [.onHubs .makeFlag, .onHubs (.makeHub "left" 0), .onHubs (.makeHub "right" 0), .onHubs (.addSink 0 ⟨some⟩),
   .onHubs (.call (.askHub 0 ⟨.any, .block, 1, true⟩)), .onHubs (.call (.askHub 0 ⟨.any, .wait, 0, false⟩)),
   .onHubs (.publish 0 anEvent), .onHubs (.probe 0 .any 0)]

def afterwards : List Move :=
  [.onHubs (.resume 0), .onHubs (.publish 0 anEvent), .onHubs (.probe 1 .any 0)]

theorem stop_is_final_overSleepers :
    let s := (empty .fresh).ran overSleepers
    let t := (s.stop 0).ran afterwards
    s.sleepers.map Sleeper.awake = [true, true] ∧ (s.hubAt 0).queue.length = 1 ∧
      (s.hubAt 0).cached.isSome = true ∧ s.Stopped 0 afterwards t ∧ t.OwnBitRaised 0 ∧
      t.sleepers.map (fun p => (t.resume p).1) = [some (.status .closed)] := by
  intro s t
  have h : s.Stopped 0 afterwards t := stop_is_final (Possible.start.ran overSleepers) (by decide) afterwards
  refine ⟨by decide, by decide, by decide, h, h.raised (by decide) ?_, ?_⟩
  · simp [afterwards, clearOwnBit]
  · have hs : t.sleepers = [⟨1, .askHub 0 ⟨.any, .wait, 0, false⟩, .flag 0, true⟩] := rfl
    rw [hs, List.map_singleton, h.closed.resume _ _ rfl]
    rfl

end System
end EventHub
