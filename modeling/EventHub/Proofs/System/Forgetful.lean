import EventHub.Proofs.System.Effect
import EventHub.Proofs.System.SleepingCalls
set_option autoImplicit false

/-!
Systems whose hubs remember nobody. As long as nobody insists on an own event, such a system goes step by
step with one whose hubs remember the owner of their head: what hubs remember saves work, and is otherwise
not to be seen.
-/
namespace EventHub

/-- A call that takes no for an answer. -/
def Call.Patient : Call → Prop
  | .askHub _ ask => ask.mode ≠ .block
  | .fetchFrom _ _ mode => mode ≠ .block
  | _ => True

def HubMove.Patient : HubMove → Prop
  | .call c => c.Patient
  | _ => True

namespace System

def Patient (s : System) : Prop := ∀ p ∈ s.sleepers, p.call.Patient

theorem Patient.step {s : System} (hs : s.Patient) {m : HubMove} (hm : m.Patient) : (m.step s).2.Patient := by
  intro p hp
  rcases (sleepersStep_step s (.onHubs m)).joined p.handleAndCall (List.mem_map_of_mem hp) with h | ⟨h, -⟩
  · obtain ⟨q, hq, he⟩ := List.mem_map.1 h
    have hc : q.call = p.call := congrArg Prod.snd he
    exact hc ▸ hs q hq
  · cases h
    exact hm

def forgetful (s : System) : System := { s with hubs := s.hubs.map fun p => (p.1.forgetful, p.2) }

namespace Forgetful

def askHub (s : System) (hub : Nat) (ask : Ask) : Hub.Pause × System :=
  let ((pause, woke), s) := s.changeHub hub (.answer (.pending .closed), false) fun h f => h.scan ask f
  (pause, if woke then s.wake (.queue hub) else s)

def probe (s : System) (hub : Nat) (mask : Mask) (sink : Nat) : Status × System :=
  match askHub s hub ⟨mask, .noWait, sink, false⟩ with
  | (.answer fetch, s) => (fetch.status, s)
  | (_, s) => (.error, s)

/-- There is nothing to tell a call that was resumed from one that starts. -/
def advance (s : System) : Call → Progress × System
  | .askHub hub ask =>
    let (pause, s) := askHub s hub ask
    match s.pausePoint hub pause with
    | .inl fetch => (.returned (if ask.take then .fetched fetch else .status fetch.status), s)
    | .inr point => (.asleep point, s)
  | .fetchFrom channel mask mode =>
    match s.channels[channel]? with
    | none => (.returned (.fetched (.pending .closed)), s)
    | some c =>
      if c.isOpen then
        match c.kind with
        | .ofHub hub sink _ =>
          let (pause, s) := askHub s hub ⟨mask, mode, sink, true⟩
          match s.pausePoint hub pause with
          | .inl fetch => s.deliver channel fetch
          | .inr point => (.asleep point, s)
        | _ => (asFetch (s.waitOnFlag c mode), s)
      else (.returned (.fetched (.pending .closed)), s)
  | c => s.advance false c

def start (s : System) (call : Call) : Progress × System :=
  match advance { s with handles := s.handles + 1 } call with
  | (.returned r, t) => (.returned r, t)
  | (.asleep point, t) => (.asleep point, { t with sleepers := t.sleepers ++ [⟨s.handles, call, point, false⟩] })

def resume (s : System) (p : Sleeper) : Option Reply × System :=
  if s.mayGoOn p then
    match advance (s.replace { p with awake := false }) p.call with
    | (.returned r, s) => (some r, s.without p.handle)
    | (.asleep point, s) => (none, s.replace { p with point := point, awake := false })
  else (none, s.replace { p with awake := false })

def step (s : System) : HubMove → Note × System
  | .probe hub mask sink =>
    (.returned (.askHub hub ⟨mask, .noWait, sink, false⟩) (.status (probe s hub mask sink).1),
     (probe s hub mask sink).2)
  | .call c => (.ofCall c (start s c).1.reply?, (start s c).2)
  | .resume handle =>
    match s.wokenUnder handle with
    | none => (.quiet, s)
    | some p => (.ofCall p.call (resume s p).1, (resume s p).2)
  | m => m.step s

def after (s : System) : List HubMove → System
  | [] => s
  | m :: ms => after (step s m).2 ms

def notes (s : System) : List HubMove → List Note
  | [] => []
  | m :: ms => (step s m).1 :: notes (step s m).2 ms

end Forgetful

theorem forgetful_raise (s : System) (flag bit : Nat) :
    s.forgetful.raise flag bit = (s.raise flag bit).forgetful := by
  rw [raise, raise]
  split
  · rename_i h
    rw [if_pos (show (s.flagAt flag).isIssued bit = true from h)]
    rfl
  · rename_i h
    rw [if_neg (show ¬ (s.flagAt flag).isIssued bit = true from h)]

theorem flagOfHub_forgetful (s : System) (id : Nat) : s.forgetful.flagOfHub id = s.flagOfHub id := by
  rw [flagOfHub, flagOfHub, forgetful, List.getElem?_map]
  cases s.hubs[id]? <;> rfl

theorem pausePoint_forgetful (s : System) (hub : Nat) (p : Hub.Pause) :
    s.forgetful.pausePoint hub p = s.pausePoint hub p := by
  cases p with
  | onFlag => rw [pausePoint, pausePoint, flagOfHub_forgetful]
  | _ => rfl

/-- A change of a hub that does the same to a hub which remembers and one which does not. -/
theorem changeHub_forgetful {α : Type} (s : System) (id : Nat) (absent : α)
    (change change' : Hub → Flag → α × Hub × Flag)
    (h : ∀ f, change' (s.hubAt id).forgetful f =
      ((change (s.hubAt id) f).1, (change (s.hubAt id) f).2.1.forgetful, (change (s.hubAt id) f).2.2)) :
    s.forgetful.changeHub id absent change' =
      ((s.changeHub id absent change).1, (s.changeHub id absent change).2.forgetful) := by
  rw [changeHub, changeHub]
  rcases Nat.lt_or_ge id s.hubs.length with hl | hl
  · rw [show s.forgetful.hubs[id]? = some ((s.hubAt id).forgetful, s.flagOfHub id) by
      rw [forgetful, List.getElem?_map, hubs_getElem? hl]; rfl, hubs_getElem? hl]
    dsimp only
    rw [show s.forgetful.flagAt (s.flagOfHub id) = s.flagAt (s.flagOfHub id) from rfl, h]
    refine congrArg (Prod.mk _) ?_
    simp only [forgetful, setFlag, List.map_set]
  · rw [show s.forgetful.hubs[id]? = none by
      rw [forgetful, List.getElem?_map, List.getElem?_eq_none hl]; rfl, List.getElem?_eq_none hl]

theorem addHub_forgetful (s : System) (name : String) (flag : Nat) :
    (s.forgetful.addHub name flag).2 = (s.addHub name flag).2.forgetful := by
  simp only [addHub, forgetful, setFlag, List.map_append]
  rfl

theorem addSink_forgetful (s : System) (hub : Nat) (sink : Sink) :
    (s.forgetful.addSink hub sink).2 = (s.addSink hub sink).2.forgetful :=
  congrArg Prod.snd (changeHub_forgetful s hub 0
    (fun h f => ((h.addSink sink).1, (h.addSink sink).2, f))
    (fun h f => ((h.addSink sink).1, (h.addSink sink).2, f)) fun _ => rfl)

theorem publish_forgetful (s : System) (hub : Nat) (e : Event) :
    s.forgetful.publish hub e = ((s.publish hub e).1, (s.publish hub e).2.forgetful) := by
  have h := changeHub_forgetful s hub false (fun h f => h.publish f e) (fun h f => h.publish f e) fun f => by
      unfold Hub.publish
      cases hr : (s.hubAt hub).running <;> simp [Hub.forgetful, hr]
  rw [publish_eq, publish_eq, h]
  dsimp only
  split
  · rw [flagOfHub_forgetful]
    rfl
  · rfl

theorem notify_forgetful (s : System) (hub : Nat) : s.forgetful.notify hub = (s.notify hub).forgetful := by
  rw [notify, notify, show s.forgetful.hubs[hub]? = s.hubs[hub]?.map fun p => (p.1.forgetful, p.2) from
    List.getElem?_map]
  cases s.hubs[hub]? with
  | none => rfl
  | some p => exact forgetful_raise s p.2 p.1.bit

theorem stop_forgetful (s : System) (hub : Nat) : s.forgetful.stop hub = (s.stop hub).forgetful := by
  have h := changeHub_forgetful s hub false (fun h f => (h.running, h.stop f))
    (fun h f => (h.running, h.stop f)) fun f => by
      unfold Hub.stop
      cases hr : (s.hubAt hub).running <;> simp [Hub.forgetful, hr]
  rw [stop_eq, stop_eq, h]
  dsimp only
  split
  · rw [flagOfHub_forgetful]
    rfl
  · rfl

theorem askHub_forgetful {s : System} (hs : s.Coherent) (hub : Nat) {ask : Ask}
    (patient : ask.mode ≠ .block) (resumed : Bool) :
    Forgetful.askHub s.forgetful hub ask =
      ((s.askHub hub ask resumed).1, (s.askHub hub ask resumed).2.forgetful) := by
  have h := changeHub_forgetful s hub (Hub.Pause.answer (.pending .closed), false)
    (askChange ask resumed) (fun h f => h.scan ask f) fun f => (hs hub).scan_eq f patient resumed
  rw [Forgetful.askHub, h, askHub_eq]
  dsimp only
  split <;> rfl

theorem probe_forgetful {s : System} (hs : s.Coherent) (hub : Nat) (mask : Mask) (sink : Nat) :
    Forgetful.probe s.forgetful hub mask sink =
      ((s.probe hub mask sink).1, (s.probe hub mask sink).2.forgetful) := by
  have hm : (⟨mask, .noWait, sink, false⟩ : Ask).mode ≠ .block := Hub.noWait_patient
  rw [Forgetful.probe, askHub_forgetful hs hub hm false, probe]
  generalize s.askHub hub ⟨mask, .noWait, sink, false⟩ false = r
  obtain ⟨p, t⟩ := r
  cases p <;> rfl

theorem deliver_forgetful (s : System) (channel : Nat) (fetch : Fetch) :
    s.forgetful.deliver channel fetch =
      ((s.deliver channel fetch).1, (s.deliver channel fetch).2.forgetful) := by
  cases fetch with
  | pending st => rfl
  | delivered e =>
    have h : s.forgetful.changeChannel channel (fun c fs => c.recordFetch fs e) =
        ((s.changeChannel channel fun c fs => c.recordFetch fs e).1,
         (s.changeChannel channel fun c fs => c.recordFetch fs e).2.forgetful) := by
      rw [changeChannel, changeChannel, show s.forgetful.channels = s.channels from rfl]
      cases s.channels[channel]? <;> rfl
    rw [deliver, deliver, h]
    generalize (s.changeChannel channel fun c fs => c.recordFetch fs e) = r
    obtain ⟨r, t⟩ := r
    cases r <;> rfl

theorem advance_forgetful {s : System} (hs : s.Coherent) {c : Call} (patient : c.Patient) (resumed : Bool) :
    Forgetful.advance s.forgetful c = ((s.advance resumed c).1, (s.advance resumed c).2.forgetful) := by
  cases c with
  | waitForFlag flag =>
    simp only [Forgetful.advance, advance, show s.forgetful.flagAt flag = s.flagAt flag from rfl]
    cases (s.flagAt flag).wait with
    | error e => rfl
    | ok raised => cases raised <;> rfl
  | askHub hub ask =>
    simp only [Forgetful.advance, advance, askHub_forgetful hs hub patient resumed, pausePoint_forgetful]
    cases (s.askHub hub ask resumed).2.pausePoint hub (s.askHub hub ask resumed).1 <;> rfl
  | fetchFrom channel mask mode =>
    simp only [Forgetful.advance, advance, show s.forgetful.channels = s.channels from rfl]
    cases s.channels[channel]? with
    | none => rfl
    | some c =>
      dsimp only
      cases c.isOpen with
      | false => rfl
      | true =>
        cases c.kind with
        | ofHub hub sink outlet =>
          have hm : (⟨mask, mode, sink, true⟩ : Ask).mode ≠ .block := patient
          simp only [if_true, askHub_forgetful hs hub hm resumed, pausePoint_forgetful]
          cases (s.askHub hub ⟨mask, mode, sink, true⟩ resumed).2.pausePoint hub
              (s.askHub hub ⟨mask, mode, sink, true⟩ resumed).1 with
          | inl fetch => exact deliver_forgetful _ channel fetch
          | inr point => rfl
        | _ => rfl
  | waitOnChannel channel mode =>
    simp only [Forgetful.advance, advance, show s.forgetful.channels = s.channels from rfl]
    cases s.channels[channel]? <;> rfl

theorem start_forgetful {s : System} (hs : s.Coherent) {c : Call} (patient : c.Patient) :
    Forgetful.start s.forgetful c = ((s.start c).2.1, (s.start c).2.2.forgetful) := by
  have hs' : Coherent { s with handles := s.handles + 1 } := hs.of_hubs rfl
  have h := advance_forgetful hs' patient false
  rw [Forgetful.start, show { s.forgetful with handles := s.forgetful.handles + 1 } =
    forgetful { s with handles := s.handles + 1 } from rfl, h, start]
  generalize advance { s with handles := s.handles + 1 } false c = r
  obtain ⟨p, t⟩ := r
  cases p <;> rfl

theorem resume_forgetful {s : System} (hs : s.Coherent) {p : Sleeper} (patient : p.call.Patient) :
    Forgetful.resume s.forgetful p = ((s.resume p).1, (s.resume p).2.forgetful) := by
  have hs' : Coherent (s.replace { p with awake := false }) := hs.of_hubs rfl
  have h := advance_forgetful hs' patient true
  have hg : s.forgetful.mayGoOn p = s.mayGoOn p := rfl
  rw [Forgetful.resume, show s.forgetful.replace { p with awake := false } =
    (s.replace { p with awake := false }).forgetful from rfl, h, hg, resume]
  split
  · generalize (s.replace { p with awake := false }).advance true p.call = r
    obtain ⟨q, t⟩ := r
    cases q <;> rfl
  · rfl

theorem step_forgetful {s : System} (hs : s.Coherent) (sleep : s.Patient) {m : HubMove} (patient : m.Patient) :
    Forgetful.step s.forgetful m = ((m.step s).1, (m.step s).2.forgetful) := by
  cases m with
  | makeFlag => rfl
  | addSource flag asynchronous => rfl
  | raise flag bit => exact congrArg (Prod.mk _) (forgetful_raise s flag bit)
  | clear flag bit => rfl
  | makeHub name flag =>
    show (Note.quiet, if flag < s.flags.length then (s.forgetful.addHub name flag).2 else s.forgetful) = _
    rw [addHub_forgetful, HubMove.step]
    split <;> rfl
  | addSink hub sink => exact congrArg (Prod.mk _) (addSink_forgetful s hub sink)
  | publish hub e =>
    exact congrArg (fun p : Bool × System => (Note.published hub e p.1, p.2)) (publish_forgetful s hub e)
  | notify hub => exact congrArg (Prod.mk _) (notify_forgetful s hub)
  | stop hub => exact congrArg (Prod.mk _) (stop_forgetful s hub)
  | probe hub mask sink =>
    rw [Forgetful.step, probe_forgetful hs]
    rfl
  | call c =>
    rw [Forgetful.step, start_forgetful hs patient]
    rfl
  | resume handle =>
    rw [Forgetful.step, HubMove.step, show s.forgetful.wokenUnder handle = s.wokenUnder handle from rfl]
    cases hp : s.wokenUnder handle with
    | none => rfl
    | some p =>
      dsimp only
      rw [resume_forgetful hs (sleep p (List.mem_of_find?_eq_some hp))]

theorem run_forgetful {files : FileSystem} {s : System} (hs : Possible files s) (sleep : s.Patient)
    {ms : List HubMove} (patient : ∀ m ∈ ms, m.Patient) :
    Forgetful.notes s.forgetful ms = s.notes ms ∧ Forgetful.after s.forgetful ms = (s.after ms).forgetful := by
  induction ms generalizing s with
  | nil => exact ⟨rfl, rfl⟩
  | cons m ms ih =>
    have hm : m.Patient := patient m List.mem_cons_self
    have h := step_forgetful hs.coherentAndIdle.coherent sleep hm
    obtain ⟨hn, ha⟩ := ih (.move s (.onHubs m) hs) (sleep.step hm)
      fun m hm => patient m (List.mem_cons_of_mem _ hm)
    rw [Forgetful.notes, Forgetful.after, h]
    exact ⟨congrArg (List.cons _) hn, ha⟩

/-- What a hub remembers is what it would find out: the owner of its head, whatever was done before. So
there is never anything stale to forget, entries are numbered as they came, and one who insists on no own
event cannot tell the system from one whose hubs remember nobody. -/
theorem memory_sound_and_unseen {files : FileSystem} {s : System} (hs : Possible files s) :
    (∀ id,
      (∀ a, (s.hubAt id).cached = some a → ∃ head rest,
        (s.hubAt id).queue = head :: rest ∧ a.seq = head.seq ∧
          (s.hubAt id).route head.event.id = some (a.sink, a.canonical)) ∧
      (∀ flag ask scanned t,
        Relation.ReflTransGen (fun a b => Hub.turn ask a = .again b) ⟨s.hubAt id, flag, scanned, false⟩ t →
          t.hub.forgetStale = t.hub) ∧
      (s.hubAt id).Numbered) ∧
    ∀ ms : List HubMove, s.Patient → (∀ m ∈ ms, m.Patient) →
      Forgetful.notes s.forgetful ms = s.notes ms ∧
        Forgetful.after s.forgetful ms = (s.after ms).forgetful := by
  constructor
  · intro id
    have hc := hs.coherentAndIdle.coherent id
    exact ⟨hc, fun flag ask scanned t => hc.forgetStale_eq_of_turns, hs.numbered id⟩
  · intro ms sleep patient
    exact run_forgetful hs sleep patient

/-- A hub that remembers the owner of its head, as another consumer asked for it. -/
def reminded : System :=
  (empty .fresh).ran
    [.onHubs .makeFlag, .onHubs (.makeHub "h" 0), .onHubs (.addSink 0 ⟨some⟩),
     .onHubs (.publish 0 anEvent), .onHubs (.probe 0 .any 1)]

def fetchTwice : List HubMove :=
  [.addSink 0 ⟨some⟩, .call (.askHub 0 ⟨.any, .noWait, 0, true⟩), .call (.askHub 0 ⟨.any, .wait, 0, true⟩),
   .publish 0 ⟨⟨"b", by decide⟩, none, .data, none⟩, .probe 0 .any 1, .resume 1]

theorem memory_sound_and_unseen_byOwner :
    (reminded.hubAt 0).cached = some ⟨0, 0, ⟨"a", by decide⟩⟩ ∧
      ((reminded.after fetchTwice).hubAt 0).delivered = 2 ∧
      Forgetful.notes reminded.forgetful fetchTwice = reminded.notes fetchTwice ∧
      Forgetful.after reminded.forgetful fetchTwice = (reminded.after fetchTwice).forgetful := by
  have hs : Possible .fresh reminded := possible_ran .fresh _
  refine ⟨by decide, by decide, (memory_sound_and_unseen hs).2 fetchTwice ?_ ?_⟩
  · intro p hp
    cases hp
  · intro m hm
    simp only [fetchTwice, List.mem_cons, List.not_mem_nil, or_false] at hm
    rcases hm with rfl | rfl | rfl | rfl | rfl | rfl
    · trivial
    · exact Hub.noWait_patient
    · exact (by decide : WaitMode.wait ≠ .block)
    · trivial
    · trivial
    · trivial

end System
end EventHub
