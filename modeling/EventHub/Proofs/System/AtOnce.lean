import EventHub.Proofs.Hub.AtOnce
import EventHub.Proofs.Hub.Look
import EventHub.Proofs.System.Probing
import EventHub.Proofs.System.Stopped
import EventHub.Proofs.System.SleepingCalls
set_option autoImplicit false

namespace EventHub.System

/-- What can come about by any pieces of work at all, one after the other. -/
inductive Attained (files : FileSystem) : System → Prop where
  | start : Attained files (empty files)
  | piece (s : System) (x : Piece) (before : Attained files s) : Attained files (x.step s)

/-- What a call did that asked a hub without waiting: it acted on the hub and the flag as `Hub.AtOnce` says, on
nothing else, and nobody fell asleep or went on for good. -/
structure Answered (s : System) (hub : Nat) (ask : Ask) (fetch : Fetch) (t : System) : Prop where
  answer : (s.hubAt hub).AtOnce (s.flagAt (s.flagOfHub hub)) ask fetch (t.hubAt hub) (t.flagAt (s.flagOfHub hub))
  closed : (s.hubAt hub).running = false → t = { s with handles := t.handles }
  hubs : ∀ other ≠ hub, t.hubAt other = s.hubAt other
  flags : ∀ flag ≠ s.flagOfHub hub, t.flagAt flag = s.flagAt flag
  places : ∀ id, t.flagOfHub id = s.flagOfHub id
  sameOutsideHubs : s.SameOutsideHubs t
  sleepingCalls : t.sleepingCalls = s.sleepingCalls

variable {files : FileSystem} {s t : System} {due : List Nat} {hub : Nat} {ask : Ask} {fetch : Fetch}

/-- A bit that is cleared from outside leaves a hub late in showing what it has, and so does a half publish. -/
theorem Attained.bitInvariant (h : Attained files s) : ∃ due, s.BitInvariant due := by
  induction h with
  | start => exact ⟨[], bitInvariant_empty files⟩
  | piece s x _ ih =>
    obtain ⟨due, hs⟩ := ih
    cases x with
    | whole m => exact ⟨_, hs.touchesOnly (hs.stepOfAny m)⟩
    | put hub e => exact ⟨_, (hs.piece (.put hub e) trivial).1⟩
    | halt hub => exact ⟨_, (hs.piece (.halt hub) trivial).1⟩
    | tell hub => exact ⟨_, (hs.piece (.tell hub) trivial).1⟩

theorem Attained.through (h : Attained files s) (xs : List Piece) : Attained files (xs.foldl Piece.step s) := by
  induction xs generalizing s with
  | nil => exact h
  | cons x xs ih => exact ih (h.piece s x)

theorem Attained.after (h : Attained files s) (ms : List HubMove) : Attained files (s.after ms) := by
  induction ms generalizing s with
  | nil => exact h
  | cons m ms ih => exact ih (h.piece s (.whole (.onHubs m)))

theorem BitInvariant.askHub_answered (hs : s.BitInvariant due) (made : hub < s.hubs.length) (ask : Ask)
    (hm : ask.mode = .noWait) :
    ∃ fetch, ((s.hubAt hub).dispatch (s.flagAt (s.flagOfHub hub)) ask false).1 = .answer fetch ∧
      (s.askHub hub ask false).1 = .answer fetch ∧ s.Answered hub ask fetch (s.askHub hub ask false).2 := by
  obtain ⟨fetch, hp, ha⟩ := Hub.dispatch_atOnce (hs.coherent hub) (hs.counted (s.flagOfHub hub)) hm
  have hplaces := flagOfHub_askHub s hub ask false
  have hboth := hubAndFlag_askHub hs.coherent made ask false
  rw [hubAndFlag, hplaces] at hboth
  obtain ⟨hhub, hflag⟩ := Prod.mk.inj hboth
  refine ⟨fetch, hp, (askHub_fst s hub ask false).trans hp, ?_, ?_, ?_, ?_, hplaces,
    sameOutsideHubs_askHub s hub ask false, (sameSleepingCalls_askHub s hub ask false).sleepingCalls⟩
  · rw [hhub, hflag]
    exact ha
  · intro hr
    rw [askHub_of_stopped made hr]
  · intro other ho
    rw [hubAt_askHub, if_neg ho]
  · intro flag hf
    rw [flagAt_askHub, if_neg fun h => hf h.2.1]

theorem start_of_answer (ha : (askHub { s with handles := s.handles + 1 } hub ask false).1 = .answer fetch) :
    s.start (.askHub hub ask) =
      (s.handles, .returned (ask.reply fetch), (askHub { s with handles := s.handles + 1 } hub ask false).2) := by
  rw [start, advance]
  generalize askHub { s with handles := s.handles + 1 } hub ask false = r at ha
  obtain ⟨p, t⟩ := r
  cases ha
  rfl

theorem probe_of_answer {mask : Mask} {sink : Nat}
    (ha : (s.askHub hub ⟨mask, .noWait, sink, false⟩ false).1 = .answer fetch) :
    s.probe hub mask sink = (fetch.status, (s.askHub hub ⟨mask, .noWait, sink, false⟩ false).2) := by
  rw [probe]
  generalize s.askHub hub ⟨mask, .noWait, sink, false⟩ false = r at ha
  obtain ⟨p, t⟩ := r
  cases ha
  rfl

/-- Whoever asks a hub without waiting is answered as `Hub.AtOnce` says, and alike whether for the event, for
what a fetch would find, or with a probe. -/
theorem noWait_answered (attained : Attained files s) (made : hub < s.hubs.length) (mask : Mask) (sink : Nat) :
    ∃ fetch,
      (∀ take, ∃ t,
        s.start (.askHub hub ⟨mask, .noWait, sink, take⟩) =
            (s.handles, .returned (Ask.reply ⟨mask, .noWait, sink, take⟩ fetch), t) ∧
          s.Answered hub ⟨mask, .noWait, sink, take⟩ fetch t) ∧
      ∃ t, s.probe hub mask sink = (fetch.status, t) ∧ s.Answered hub ⟨mask, .noWait, sink, false⟩ fetch t := by
  obtain ⟨due, hs⟩ := attained.bitInvariant
  have hs' : BitInvariant { s with handles := s.handles + 1 } due := hs.andSameBits ⟨rfl, rfl, fun _ => rfl⟩
  obtain ⟨fetch, htake, -, -⟩ := hs.askHub_answered made ⟨mask, .noWait, sink, true⟩ rfl
  -- who looks finds what one who takes would find
  have hfound : ∀ take, ((s.hubAt hub).dispatch (s.flagAt (s.flagOfHub hub)) ⟨mask, .noWait, sink, take⟩ false).1 =
      .answer fetch := by
    intro take
    cases take with
    | true => exact htake
    | false =>
      have hlook := Hub.dispatch_look (s.hubAt hub) (s.flagAt (s.flagOfHub hub))
        (show (⟨mask, .noWait, sink, true⟩ : Ask).take = true from rfl) false
      exact hlook.1.trans htake
  refine ⟨fetch, fun take => ?_, ?_⟩
  · obtain ⟨fetch', hp, ha, hanswered⟩ := hs'.askHub_answered made ⟨mask, .noWait, sink, take⟩ rfl
    cases hp.symm.trans (hfound take)
    refine ⟨_, start_of_answer ha, hanswered.answer, hanswered.closed, hanswered.hubs, hanswered.flags,
      hanswered.places, ?_, hanswered.sleepingCalls⟩
    exact ⟨hanswered.sameOutsideHubs.files, hanswered.sameOutsideHubs.channels, hanswered.sameOutsideHubs.collectors⟩
  · obtain ⟨fetch', hp, ha, hanswered⟩ := hs.askHub_answered made ⟨mask, .noWait, sink, false⟩ rfl
    cases hp.symm.trans (hfound false)
    exact ⟨_, probe_of_answer ha, hanswered⟩

/-- A hub with one consumer. The event in front is nobody's, and the one for the consumer is put behind it by a
publish that has not yet raised the hub's bit. -/
def halfPublished : List Piece :=
  [.whole (.onHubs .makeFlag), .whole (.onHubs (.makeHub "h" 0)),
   .whole (.onHubs (.addSink 0 (.ofMask ofFirst none))),
   .whole (.onHubs (.publish 0 (.named ⟨"x.y", by decide⟩))), .whole (.onHubs (.clear 0 0)),
   .put 0 (.named ⟨"a.c", by decide⟩)]

theorem noWait_answered_halfPublished :
    let s := halfPublished.foldl Piece.step (empty .fresh)
    (s.flagAt 0).isRaised = false ∧ (s.hubAt 0).nobodys.length = 1 ∧ (s.hubAt 0).claimed.length = 1 ∧
      ∃ fetch, fetch.status = .success ∧ (s.probe 0 ofFirst 0).1 = fetch.status ∧
        ∀ take, ∃ t,
          s.start (.askHub 0 ⟨ofFirst, .noWait, 0, take⟩) =
              (s.handles, .returned (Ask.reply ⟨ofFirst, .noWait, 0, take⟩ fetch), t) ∧
            s.Answered 0 ⟨ofFirst, .noWait, 0, take⟩ fetch t := by
  intro s
  have hs : Attained .fresh s := Attained.start.through halfPublished
  obtain ⟨fetch, hcalls, t, hprobe, -⟩ := noWait_answered hs (show 0 < s.hubs.length by decide) ofFirst 0
  have hfst : (s.probe 0 ofFirst 0).1 = fetch.status := congrArg Prod.fst hprobe
  refine ⟨by decide, by decide, by decide, fetch, ?_, hfst, hcalls⟩
  rw [← hfst]
  decide

end EventHub.System
