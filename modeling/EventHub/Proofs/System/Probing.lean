import EventHub.Proofs.Hub.Ahead
import EventHub.Proofs.System.Effect
set_option autoImplicit false

/-!
Probes are not seen by those who fetch. A probe may throw away events that belong to nobody, remember whose
the head is and clear the hub's bit of the flag; whoever comes later would have done the same.
-/
namespace EventHub

inductive Use where
  | publish (e : Event)
  | get (mask : Mask) (sink : Nat)
  | notify
  | stop
  | probe (mask : Mask) (sink : Nat)

def Use.move (hub : Nat) : Use → HubMove
  | .publish e => .publish hub e
  | .get mask sink => .call (.askHub hub ⟨mask, .noWait, sink, true⟩)
  | .notify => .notify hub
  | .stop => .stop hub
  | .probe mask sink => .probe hub mask sink

def Use.isProbe : Use → Bool
  | .probe _ _ => true
  | _ => false

def Note.isProbe : Note → Bool
  | .returned (.askHub _ ask) _ => !ask.take
  | _ => false

namespace System

def hubAndFlag (s : System) (id : Nat) : Hub × Flag := (s.hubAt id, s.flagAt (s.flagOfHub id))

/-- On a flag that is not there nothing is ever raised. -/
theorem hubAndFlag_changeHub {α : Type} {s : System} {id : Nat} (made : id < s.hubs.length) (absent : α)
    (change : Hub → Flag → α × Hub × Flag) (he : (change (s.hubAt id) .empty).2.2 = .empty) :
    (s.changeHub id absent change).2.hubAndFlag id = (change (s.hubAt id) (s.flagAt (s.flagOfHub id))).2 := by
  rw [hubAndFlag, hubAt_changeHub, flagOfHub_changeHub, flagAt_changeHub, if_pos ⟨rfl, made⟩]
  rcases Nat.lt_or_ge (s.flagOfHub id) s.flags.length with hl | hl
  · rw [if_pos ⟨made, rfl, hl⟩]
  · rw [if_neg (fun h => absurd h.2.2 (Nat.not_lt.2 hl)), flagAt_of_le hl]
    exact Prod.ext rfl he.symm

theorem hubAndFlag_publish {s : System} {id : Nat} (made : id < s.hubs.length) (e : Event) :
    (s.publish id e).2.hubAndFlag id = ((s.hubAt id).publish (s.flagAt (s.flagOfHub id)) e).2 := by
  have h := hubAndFlag_changeHub made false (fun h f => h.publish f e) (by
    unfold Hub.publish
    split <;> rfl)
  rw [publish_eq]
  dsimp only
  split <;> exact h

theorem hubAndFlag_notify {s : System} {id : Nat} (made : id < s.hubs.length) :
    (s.notify id).hubAndFlag id = (s.hubAt id, (s.flagAt (s.flagOfHub id)).raise (s.hubAt id).bit) := by
  rw [notify, hubs_getElem? made]
  dsimp only
  rw [hubAndFlag, hubAt_raise, flagOfHub_congr (hubs_raise s _ _), flagAt_raise, if_pos rfl]

theorem hubAndFlag_stop {s : System} {id : Nat} (made : id < s.hubs.length) :
    (s.stop id).hubAndFlag id = (s.hubAt id).stop (s.flagAt (s.flagOfHub id)) := by
  have h := hubAndFlag_changeHub made false (fun h f => (h.running, h.stop f)) (by
    unfold Hub.stop
    split <;> rfl)
  rw [stop_eq]
  dsimp only
  split <;> exact h

theorem hubAndFlag_askHub {s : System} {id : Nat} (hs : s.Coherent) (made : id < s.hubs.length) (ask : Ask)
    (resumed : Bool) :
    (s.askHub id ask resumed).2.hubAndFlag id =
      (((s.hubAt id).dispatch (s.flagAt (s.flagOfHub id)) ask resumed).2.hub,
       ((s.hubAt id).dispatch (s.flagAt (s.flagOfHub id)) ask resumed).2.flag) := by
  have h := hubAndFlag_changeHub made (Hub.Pause.answer (.pending .closed), false) (askChange ask resumed) (by
    have ho := Hub.dispatch_outcome (hs id) .empty ask resumed
    rw [askChange]
    generalize ((s.hubAt id).dispatch .empty ask resumed).1 = p at ho
    generalize ((s.hubAt id).dispatch .empty ask resumed).2 = t at ho
    cases ho <;> rfl)
  rw [askHub_eq]
  dsimp only
  split <;> exact h

theorem hubAndFlag_start {s : System} {id : Nat} (hs : s.Coherent) (made : id < s.hubs.length) (ask : Ask) :
    (s.start (.askHub id ask)).2.2.hubAndFlag id =
      (((s.hubAt id).dispatch (s.flagAt (s.flagOfHub id)) ask false).2.hub,
       ((s.hubAt id).dispatch (s.flagAt (s.flagOfHub id)) ask false).2.flag) := by
  have hs' : Coherent { s with handles := s.handles + 1 } := hs.of_hubs rfl
  have h := hubAndFlag_askHub hs' made ask false
  have ha : (advance { s with handles := s.handles + 1 } false (.askHub id ask)).2 =
      (askHub { s with handles := s.handles + 1 } id ask false).2 := by
    rw [advance]
    dsimp only
    split <;> rfl
  rw [← ha] at h
  rw [start]
  split
  · rename_i heq
    rw [heq] at h
    exact h
  · rename_i heq
    rw [heq] at h
    exact h

def pauseReply? (ask : Ask) : Hub.Pause → Option Reply
  | .answer fetch => some (ask.reply fetch)
  | _ => none

theorem reply?_start (s : System) (hub : Nat) (ask : Ask) :
    (s.start (.askHub hub ask)).2.1.reply? =
      pauseReply? ask ((s.hubAt hub).dispatch (s.flagAt (s.flagOfHub hub)) ask false).1 := by
  have hp : (askHub { s with handles := s.handles + 1 } hub ask false).1 =
      ((s.hubAt hub).dispatch (s.flagAt (s.flagOfHub hub)) ask false).1 := askHub_fst _ hub ask false
  have ha : (advance { s with handles := s.handles + 1 } false (.askHub hub ask)).1.reply? =
      pauseReply? ask (askHub { s with handles := s.handles + 1 } hub ask false).1 := by
    rw [advance]
    dsimp only
    cases (askHub { s with handles := s.handles + 1 } hub ask false).1 <;> rfl
  rw [← hp, ← ha, start]
  split
  · rename_i heq
    rw [heq]
  · rename_i heq
    rw [heq]

/-- In `t` the hub is rid of some events that it still has in `s`, and that belong to nobody. -/
def Ahead (s : System) (id : Nat) (t : System) : Prop :=
  ∃ lost, Hub.Ahead (s.hubAndFlag id).1 (s.hubAndFlag id).2 (t.hubAndFlag id).1 (t.hubAndFlag id).2 lost

theorem Ahead.refl (s : System) (id : Nat) : s.Ahead id s := ⟨[], .refl _ _⟩

theorem Ahead.step {s t : System} {id : Nat} (a : s.Ahead id t) (hs : s.Coherent) (ht : t.Coherent)
    (hm : id < s.hubs.length) (hm' : id < t.hubs.length) {u : Use} (hu : u.isProbe = false) :
    ((u.move id).step t).1 = ((u.move id).step s).1 ∧
      ((u.move id).step s).2.Ahead id ((u.move id).step t).2 := by
  obtain ⟨lost, a⟩ := a
  cases u with
  | publish e =>
    obtain ⟨hp, ha⟩ := a.publish e
    refine ⟨?_, lost, ?_⟩
    · rw [Use.move, HubMove.step, HubMove.step, publish_fst, publish_fst]
      exact congrArg (Note.published id e) hp
    · rw [Use.move, HubMove.step, HubMove.step, hubAndFlag_publish hm, hubAndFlag_publish hm']
      exact ha
  | get mask sink =>
    obtain ⟨hp, ha⟩ := a.ask (hs id) (ht id) ⟨mask, .noWait, sink, true⟩ Hub.noWait_patient
    constructor
    · rw [Use.move, HubMove.step, HubMove.step, reply?_start, reply?_start]
      exact congrArg (fun p => Note.ofCall _ (pauseReply? _ p)) hp
    · rw [Use.move, HubMove.step, HubMove.step, Ahead, hubAndFlag_start hs hm, hubAndFlag_start ht hm']
      exact ha
  | notify =>
    refine ⟨rfl, lost, ?_⟩
    rw [Use.move, HubMove.step, HubMove.step, hubAndFlag_notify hm, hubAndFlag_notify hm']
    exact a.raise
  | stop =>
    refine ⟨rfl, lost, ?_⟩
    rw [Use.move, HubMove.step, HubMove.step, hubAndFlag_stop hm, hubAndFlag_stop hm']
    exact a.stop
  | probe => cases hu

theorem Ahead.probe {s t : System} {id : Nat} (a : s.Ahead id t) (ht : t.Coherent) (hm' : id < t.hubs.length)
    (mask : Mask) (sink : Nat) : s.Ahead id (t.probe id mask sink).2 := by
  obtain ⟨lost, a⟩ := a
  rw [Ahead, probe_snd, hubAndFlag_askHub ht hm']
  exact a.peek rfl (Hub.dispatch_outcome (ht id) _ _ _)

theorem Ahead.probe_fst {s t : System} {id : Nat} (a : s.Ahead id t) (hs : s.Coherent) (ht : t.Coherent)
    (mask : Mask) (sink : Nat) : (t.probe id mask sink).1 = (s.probe id mask sink).1 := by
  obtain ⟨lost, a⟩ := a
  have hp := (a.ask (hs id) (ht id) ⟨mask, .noWait, sink, false⟩ Hub.noWait_patient).1
  rw [System.probe_fst, System.probe_fst]
  exact congrArg (fun p : Hub.Pause => match p with | .answer fetch => fetch.status | _ => .error) hp

theorem isProbe_note (s : System) (id : Nat) (u : Use) :
    ((u.move id).step s).1.isProbe = u.isProbe := by
  cases u with
  | get mask sink =>
    rw [Use.move, HubMove.step]
    cases (s.start (.askHub id ⟨mask, .noWait, sink, true⟩)).2.1.reply? <;> rfl
  | _ => rfl

theorem Ahead.run {files : FileSystem} {s t : System} {id : Nat} (a : s.Ahead id t) (hs : Possible files s)
    (ht : Possible files t) (hm : id < s.hubs.length) (hm' : id < t.hubs.length) (us : List Use) :
    (t.notes (us.map (Use.move id))).filter (fun n => !n.isProbe) =
        s.notes ((us.filter fun u => !u.isProbe).map (Use.move id)) ∧
      (s.after ((us.filter fun u => !u.isProbe).map (Use.move id))).Ahead id (t.after (us.map (Use.move id))) := by
  induction us generalizing s t with
  | nil => exact ⟨rfl, a⟩
  | cons u us ih =>
    have ht' : Possible files ((u.move id).step t).2 := .move t (.onHubs (u.move id)) ht
    have hl' := Nat.lt_of_lt_of_le hm' (length_hubs_step t (.onHubs (u.move id)))
    rw [List.map_cons, notes, List.filter_cons, isProbe_note]
    cases hu : u.isProbe with
    | true =>
      have ha : s.Ahead id ((u.move id).step t).2 := by
        cases u with
        | probe mask sink => exact a.probe ht.coherentAndIdle.coherent hm' mask sink
        | _ => cases hu
      rw [List.filter_cons_of_neg (by simp [hu])]
      exact ih ha hs ht' hm hl'
    | false =>
      obtain ⟨hn, ha⟩ := a.step hs.coherentAndIdle.coherent ht.coherentAndIdle.coherent hm hm' hu
      have hl := Nat.lt_of_lt_of_le hm (length_hubs_step s (.onHubs (u.move id)))
      obtain ⟨hns, has⟩ := ih ha (.move s (.onHubs (u.move id)) hs) ht' hl hl'
      rw [List.filter_cons_of_pos (by simp [hu]), List.map_cons, notes, hn]
      exact ⟨congrArg (List.cons _) hns, has⟩

theorem sameRules_step {s : System} {id : Nat} (hs : s.Coherent) (made : id < s.hubs.length) {u : Use}
    (hu : u ≠ .stop) : Hub.SameRules (s.hubAt id) (((u.move id).step s).2.hubAt id) := by
  cases u with
  | publish e =>
    rw [Use.move, HubMove.step, hubAt_publish, if_pos rfl]
    exact Hub.sameRules_publish _ _ e
  | get mask sink =>
    have h : ((s.start (.askHub id ⟨mask, .noWait, sink, true⟩)).2.2).hubAt id = _ :=
      congrArg Prod.fst (hubAndFlag_start hs made ⟨mask, .noWait, sink, true⟩)
    rw [Use.move, HubMove.step, h]
    exact (Hub.dispatch_outcome (hs id) _ _ false).sameRules
  | notify =>
    rw [Use.move, HubMove.step, hubAt_notify]
    exact .refl _
  | stop => exact absurd rfl hu
  | probe mask sink =>
    rw [Use.move, HubMove.step, probe_snd, hubAt_askHub, if_pos rfl]
    exact (Hub.dispatch_outcome (hs id) _ _ false).sameRules

theorem sameRules_run {files : FileSystem} {s : System} {id : Nat} (hs : Possible files s)
    (made : id < s.hubs.length) {us : List Use} (hu : Use.stop ∉ us) :
    Possible files (s.after (us.map (Use.move id))) ∧
      Hub.SameRules (s.hubAt id) ((s.after (us.map (Use.move id))).hubAt id) := by
  induction us generalizing s with
  | nil => exact ⟨hs, .refl _⟩
  | cons u us ih =>
    rw [List.mem_cons, not_or] at hu
    obtain ⟨hne, hu⟩ := hu
    have hl := Nat.lt_of_lt_of_le made (length_hubs_step s (.onHubs (u.move id)))
    obtain ⟨hp, hr⟩ := ih (.move s (.onHubs (u.move id)) hs) hl hu
    exact ⟨hp, (sameRules_step hs.coherentAndIdle.coherent made (Ne.symm hne)).trans hr⟩

/-- Nobody who fetches from a hub can tell whether it was probed: the answers are the same, and the queues
differ by what belongs to nobody and was thrown away a little earlier. A probe that is made again answers
as before until the queue or the flag has changed or the hub was stopped. -/
theorem probing_unseen {files : FileSystem} {s : System} (hs : Possible files s) (id : Nat)
    (made : id < s.hubs.length) :
    (∀ us : List Use,
      let plain := (us.filter fun u => !u.isProbe).map (Use.move id)
      let probed := us.map (Use.move id)
      (s.notes probed).filter (fun n => !n.isProbe) = s.notes plain ∧
        ∃ lost, ((s.after plain).hubAt id).queue = lost ++ ((s.after probed).hubAt id).queue ∧
          ((s.after plain).hubAt id).Refuses lost ∧
          ((s.after probed).hubAt id).dropped = ((s.after plain).hubAt id).dropped + lost.length ∧
          ((s.after probed).hubAt id).delivered = ((s.after plain).hubAt id).delivered) ∧
    ∀ (mask : Mask) (sink : Nat) (us : List Use), Use.stop ∉ us →
      let asked := (s.probe id mask sink).2
      let later := asked.after (us.map (Use.move id))
      (later.hubAt id).queue = (asked.hubAt id).queue →
      later.flagAt (later.flagOfHub id) = asked.flagAt (asked.flagOfHub id) →
      (later.probe id mask sink).1 = (s.probe id mask sink).1 := by
  constructor
  · intro us plain probed
    obtain ⟨hn, lost, a⟩ := (Ahead.refl s id).run hs hs made made us
    exact ⟨hn, lost, a.queue, a.refused, a.dropped, a.delivered⟩
  · intro mask sink us hu asked later hq hf
    have hp : Possible files asked := .move s (.onHubs (.probe id mask sink)) hs
    have hl : id < asked.hubs.length :=
      Nat.lt_of_lt_of_le made (length_hubs_step s (.onHubs (.probe id mask sink)))
    obtain ⟨hp', hr⟩ := sameRules_run hp hl hu
    -- the first probe left the hub ahead of where it was, and then nothing changed that matters
    have hasked :=
      ((Ahead.refl s id).probe hs.coherentAndIdle.coherent made mask sink).probe_fst hs.coherentAndIdle.coherent
      hp.coherentAndIdle.coherent mask sink
    have hlater := Hub.Coherent.dispatch_fst_eq (hp.coherentAndIdle.coherent id) (hp'.coherentAndIdle.coherent id) hr hq
      (asked.flagAt (asked.flagOfHub id)) ⟨mask, .noWait, sink, false⟩ Hub.noWait_patient
    rw [← hasked, probe_fst, probe_fst, hf]
    exact congrArg (fun p : Hub.Pause => match p with | .answer fetch => fetch.status | _ => .error) hlater

def ofFirst : Mask := ⟨"a.*", [.literal ['a'], .one]⟩

def behindNobodys : System :=
  (empty .fresh).ran
    [.onHubs .makeFlag, .onHubs (.makeHub "h" 0), .onHubs (.addSink 0 (.ofMask ofFirst none)),
     .onHubs (.publish 0 (.named ⟨"x", by decide⟩)), .onHubs (.publish 0 (.named ⟨"a.b", by decide⟩))]

theorem probing_unseen_behindNobodys :
    ((behindNobodys.after [.probe 0 .any 1]).hubAt 0).dropped = 1 ∧
      (behindNobodys.notes [.probe 0 .any 1, .call (.askHub 0 ⟨ofFirst, .noWait, 0, true⟩), .probe 0 .any 1]).filter
          (fun n => !n.isProbe) =
        behindNobodys.notes [.call (.askHub 0 ⟨ofFirst, .noWait, 0, true⟩)] ∧
      (((behindNobodys.probe 0 ofFirst 0).2.after [.notify 0, .probe 0 .any 1]).probe 0 ofFirst 0).1 =
        (behindNobodys.probe 0 ofFirst 0).1 := by
  have h := probing_unseen (possible_ran .fresh _ : Possible .fresh behindNobodys) 0 (by decide)
  refine ⟨by decide, (h.1 [.probe .any 1, .get ofFirst 0, .probe .any 1]).1, ?_⟩
  exact h.2 ofFirst 0 [.notify, .probe .any 1] (by simp) rfl rfl

def oneEvent : System :=
  (empty .fresh).ran
    [.onHubs .makeFlag, .onHubs (.makeHub "h" 0), .onHubs (.addSink 0 (.ofMask ofFirst none)),
     .onHubs (.publish 0 (.named ⟨"a.b", by decide⟩))]

/-- A stop changes the answer though it leaves the queue, and a flag on which the hub's bit is raised. -/
theorem stop_changes_probe :
    ((oneEvent.probe 0 ofFirst 0).2.stop 0).hubAt 0 =
        { (oneEvent.probe 0 ofFirst 0).2.hubAt 0 with running := false } ∧
      ((oneEvent.probe 0 ofFirst 0).2.stop 0).flags = (oneEvent.probe 0 ofFirst 0).2.flags ∧
      (oneEvent.probe 0 ofFirst 0).1 = .success ∧
      ((oneEvent.probe 0 ofFirst 0).2.stop 0 |>.probe 0 ofFirst 0).1 = .closed := by
  refine ⟨rfl, rfl, rfl, rfl⟩

end System
end EventHub
