import EventHub.Proofs.Demo.Threads
set_option autoImplicit false

/-!
Whole demonstrations. Whoever has a turn when, no run gets stuck, and all that come to an end give the same
summary. Of the events that belong to nobody the last is still queued then, since nobody asks any more.
-/
namespace EventHub.Demo

/-- The producer has nothing left to do, and all consumers have what they waited for. -/
structure Stage.Complete (t : Stage) : Prop where
  posted : t.tasks = []
  joined : t.participants.length = consumers.length
  finished : ∀ p ∈ t.participants, p.consumer.finished = true

/-- A participant has something to do in its turn: it is not done, and if it sleeps it was woken and goes on. -/
structure Participant.MayRun (s : System) (p : Participant) : Prop where
  unfinished : p.consumer.finished = false
  awake : ∀ handle, p.asleep = some handle → ∃ q, s.wokenUnder handle = some q ∧ s.mayGoOn q = true

section

variable {files : FileSystem} {config : Config} {events done gone : Nat} {t : Stage}

theorem Going.tasks_eq_nil_iff (g : Going files events t done gone) :
    t.tasks = [] ↔ 3 * events + 6 ≤ done := by
  rw [g.tasks, List.drop_eq_nil_iff, length_tasks]

theorem next_lt {index : Nat} (hi : index < 2) (hb : gone ≤ 3 * events - 1) (hu : taken index gone < events) :
    next gone (3 * events) < 3 * events := by
  have h : next gone (3 * events) ≤ 3 * events - 1 := next_le hi hb hu
  omega

/-- The owner of what is next can go on, however it got where it is. -/
theorem Going.owner_mayRun (g : Going files events t done gone) (hd : 3 * events + 6 ≤ done)
    (there : next gone (3 * events) < 3 * events) :
    ∃ p, t.participants[next gone (3 * events) % 3]? = some p ∧ p.MayRun t.system := by
  have hi := next_own there
  have hl : next gone (3 * events) % 3 < t.participants.length := by
    rw [g.joined, joinedBy_of_le (by omega)]
    exact hi
  refine ⟨_, List.getElem?_eq_getElem hl, ?_⟩
  obtain ⟨hconsumer, hchannel, hasleep⟩ := g.follows _ _ (List.getElem?_eq_getElem hl)
  have hu : taken (next gone (3 * events) % 3) gone < events := by
    obtain ⟨-, hround⟩ := taken_of_own (Eq.refl (next gone (3 * events) % 3))
    rw [taken_next hi] at hround
    omega
  constructor
  · rw [hconsumer]
    exact decide_eq_false (Nat.not_le_of_lt hu)
  · intro handle ha
    have handleAndCall := hasleep handle ha
    have hserved := g.served
    have hready := g.ready
    rw [postedBy_of_le (Nat.le_of_succ_le hd)] at hserved hready
    obtain ⟨q, hq⟩ := woken_of_own g.reached.sound hserved hready hi hchannel there rfl handleAndCall
    have hmem := List.mem_of_find?_eq_some hq
    have hcall : q.call = fetch (next gone (3 * events) % 3) := by
      have h := (distinct_of_reached g.reached).inj q.handleAndCall (List.mem_map_of_mem hmem) _ handleAndCall
        (System.handle_of_wokenUnder hq)
      exact congrArg Prod.snd h
    exact ⟨q, hq, mayGoOn_of_fetch g.reached.sound hchannel hmem hcall⟩

theorem Going.complete_iff (g : Going files events t done gone) :
    t.Complete ↔ 3 * events + 6 ≤ done ∧ gone = 3 * events - 1 := by
  constructor
  · rintro ⟨posted, joined, finished⟩
    have hl : 1 < t.participants.length := by
      rw [joined]
      decide
    have hf := finished _ (List.getElem_mem hl)
    rw [(g.follows 1 _ (List.getElem?_eq_getElem hl)).consumer] at hf
    have htaken : events ≤ taken 1 gone := of_decide_eq_true hf
    have hb := g.bound
    unfold taken at htaken
    exact ⟨g.tasks_eq_nil_iff.1 posted, by omega⟩
  · rintro ⟨hd, hg⟩
    refine ⟨g.tasks_eq_nil_iff.2 hd, ?_, ?_⟩
    · rw [g.joined, joinedBy_of_le (by omega)]
      rfl
    · intro p hp
      obtain ⟨index, hp⟩ := List.getElem?_of_mem hp
      have hi := g.lt_two hp
      rw [(g.follows index p hp).consumer]
      apply decide_eq_true
      unfold taken
      omega

/-- What every run comes to: each consumer has the events of its kind in order, and of those that belong to
nobody all but the last were dropped. -/
def outcome (events : Nat) : Summary where
  received :=
    [("alpha", (List.range events).map fun i => "a." ++ toString i),
     ("beta", (List.range events).map fun i => "b." ++ toString i)]
  delivered := 2 * events
  dropped := events - 1
  queued := if events = 0 then 0 else 1

theorem Going.consumers_eq (g : Going files events t done gone) (h : joinedBy done = 2) :
    t.participants.map Participant.consumer = [consumerAt events gone 0, consumerAt events gone 1] := by
  match hpq : t.participants, g.joined.trans h with
  | [p, q], _ =>
    have hp := (g.follows 0 p (congrArg (·[0]?) hpq)).consumer
    have hq := (g.follows 1 q (congrArg (·[1]?) hpq)).consumer
    rw [List.map_cons, List.map_cons, List.map_nil, hp, hq]

theorem idsOf_zero (count : Nat) : idsOf 0 count = (List.range count).map fun i => "a." ++ toString i := by
  have h : "a" ++ "." = "a." := by decide
  simp only [idsOf, idAt, lead, h]

theorem idsOf_one (count : Nat) : idsOf 1 count = (List.range count).map fun i => "b." ++ toString i := by
  have h : "b" ++ "." = "b." := by decide
  simp only [idsOf, idAt, lead, h]

theorem Going.summary_eq (g : Going files events t done gone) (h : t.Complete) :
    t.summary = .ok (outcome events) := by
  obtain ⟨hd, hg⟩ := g.complete_iff.1 h
  have hserved := g.served
  rw [postedBy_of_le (Nat.le_of_succ_le hd)] at hserved
  have hqueue := congrArg List.length hserved.queue
  rw [List.length_map, List.length_map, List.length_range'] at hqueue
  have hdelivered := hserved.delivered
  have hdropped := hserved.dropped
  have htaken : taken 0 gone = events ∧ taken 1 gone = events := by
    unfold taken
    omega
  have hnone : [consumerAt events gone 0, consumerAt events gone 1].findSome? Consumer.failure = none := rfl
  rw [Stage.summary, g.fine]
  dsimp only
  rw [g.consumers_eq (joinedBy_of_le (by omega)), g.hub, summaryOf, hnone, System.hubs_getElem? g.there]
  have hreceived : [consumerAt events gone 0, consumerAt events gone 1].map (fun c => (c.name, c.ids.reverse)) =
      [("alpha", idsOf 0 events), ("beta", idsOf 1 events)] := by
    simp only [List.map_cons, List.map_nil, consumerAt, htaken.1, htaken.2, List.reverse_reverse, nameOf]
  have hlength : (t.system.hubAt 0).queue.length = if events = 0 then 0 else 1 := by
    split
    · omega
    · omega
  dsimp only
  rw [hreceived, idsOf_zero, idsOf_one, hlength, show (t.system.hubAt 0).delivered = 2 * events by omega,
    show (t.system.hubAt 0).dropped = events - 1 by omega]
  rfl

theorem Going.exists_complete (g : Going files events t done gone) (noLogs : NoLogs config) :
    ∃ rest, (t.turns config none events rest).Complete := by
  -- every turn of the producer does a task, and after them every turn of the next owner takes an event
  generalize hm : 3 * events + 6 - done + (3 * events - 1 - gone) = m
  induction m using Nat.strongRecOn generalizing t done gone with
  | ind m ih =>
    rcases Nat.lt_or_ge done (3 * events + 6) with hd | hd
    · obtain ⟨rest, h⟩ := ih _ (by omega) (g.work noLogs hd) rfl
      exact ⟨.producer :: rest, h⟩
    · rcases Nat.lt_or_ge gone (3 * events - 1) with hg | hg
      · have there : next gone (3 * events) < 3 * events := by
          unfold next
          split
          · omega
          · omega
        obtain ⟨gone', g', own⟩ := g.consumer config (next gone (3 * events) % 3)
        rw [postedBy_of_le (Nat.le_of_succ_le hd)] at own
        have hgone := own there rfl
        have hle := le_next gone (3 * events)
        obtain ⟨rest, h⟩ := ih _ (by omega) g' rfl
        exact ⟨.consumer (next gone (3 * events) % 3) :: rest, h⟩
      · exact ⟨[], g.complete_iff.2 ⟨hd, Nat.le_antisymm g.bound hg⟩⟩

theorem turns_append (t : Stage) (before after : List Turn) :
    t.turns config none events (before ++ after) =
      (t.turns config none events before).turns config none events after := List.foldl_append

theorem Going.works (g : Going files events t done gone) (noLogs : NoLogs config) (count : Nat)
    (h : done + count ≤ 3 * events + 6) :
    Going files events (t.turns config none events (List.replicate count .producer)) (done + count) gone := by
  induction count generalizing t done with
  | zero => exact g
  | succ count ih =>
    have h' := ih (g.work noLogs (by omega)) (by omega)
    rw [Nat.add_right_comm] at h'
    exact h'

theorem Going.round {count : Nat} (g : Going files events t (3 * count + 5) (3 * count - 1)) (noLogs : NoLogs config)
    (h : count < events) :
    Going files events
      (t.turns config none events
        (List.replicate leads.length .producer ++ (List.range consumers.length).map .consumer))
      (3 * (count + 1) + 5) (3 * (count + 1) - 1) := by
  have hposted : postedBy events (3 * count + 5 + 3) = 3 * count + 3 :=
    postedBy_place (show 3 * count + 3 ≤ 3 * events by omega)
  have hfirst : next (3 * count - 1) (3 * count + 3) = 3 * count := by
    unfold next
    split
    · omega
    · omega
  have hsecond : next (3 * count + 1) (3 * count + 3) = 3 * count + 1 := by
    unfold next
    rw [if_neg (by omega)]
  rw [turns_append]
  have g₁ := g.works noLogs 3 (by omega)
  obtain ⟨_, g₂, own⟩ := g₁.consumer config 0
  rw [hposted, hfirst] at own
  obtain rfl := own (by omega) (by omega)
  obtain ⟨_, g₃, own⟩ := g₂.consumer config 1
  rw [hposted, hsecond] at own
  obtain rfl := own (by omega) (by omega)
  exact g₃

theorem Going.rounds (g : Going files events t 5 0) (noLogs : NoLogs config) {count : Nat} (h : count ≤ events) :
    Going files events
      (t.turns config none events
        ((List.range count).flatMap fun _ =>
          List.replicate leads.length .producer ++ (List.range consumers.length).map .consumer))
      (3 * count + 5) (3 * count - 1) := by
  induction count with
  | zero => exact g
  | succ count ih =>
    rw [List.range_succ, List.flatMap_append, List.flatMap_singleton, turns_append]
    exact (ih (by omega)).round noLogs h

theorem going_schedule (noLogs : NoLogs config) (events : Nat) (files : FileSystem) :
    Going files events ((opening events files).turns config none events (schedule events)) (3 * events + 6)
      (3 * events - 1) := by
  have g := ((going_opening events files).works noLogs 5 (by omega)).rounds noLogs (Nat.le_refl events)
  rw [schedule, turns_append, turns_append]
  exact g.work noLogs (by omega)

theorem perform_eq (noLogs : NoLogs config) (events : Nat) (files : FileSystem) :
    (perform config events none files).1 = .ok (outcome events) := by
  have g := going_schedule noLogs events files
  exact g.summary_eq (g.complete_iff.2 ⟨Nat.le_refl _, rfl⟩)

/-- Whoever has a turn when: once the producer is done and while a consumer waits, one of them has something to
do; a run that has come to its end gives the one summary; and from wherever a run is it can come to its end. -/
theorem every_schedule_agrees (noLogs : NoLogs config) (events : Nat) (files : FileSystem) (order : List Turn) :
    let t := (opening events files).turns config none events order
    (t.tasks = [] → (∃ p ∈ t.participants, p.consumer.finished = false) →
      ∃ p ∈ t.participants, p.MayRun t.system) ∧
    (t.Complete → t.summary = .ok (outcome events)) ∧
    ∃ rest, (t.turns config none events rest).Complete := by
  intro t
  obtain ⟨done, gone, g⟩ := (going_opening events files).turns noLogs order
  refine ⟨?_, g.summary_eq, g.exists_complete noLogs⟩
  rintro hposted ⟨p, hp, hf⟩
  obtain ⟨index, hp⟩ := List.getElem?_of_mem hp
  rw [(g.follows index p hp).consumer] at hf
  have hu : taken index gone < events := Nat.lt_of_not_le (of_decide_eq_false hf)
  obtain ⟨q, hq, hrun⟩ := g.owner_mayRun (g.tasks_eq_nil_iff.1 hposted) (next_lt (g.lt_two hp) g.bound hu)
  exact ⟨q, List.mem_of_getElem? hq, hrun⟩

theorem noLogs_standard : NoLogs .standard := ⟨fun _ _ => ⟨rfl, rfl⟩, rfl, rfl⟩

theorem every_schedule_agrees_inTwoRounds :
    (∃ p ∈ ((opening 2 .fresh).turns .standard none 2 (List.replicate 12 .producer)).participants,
      p.MayRun ((opening 2 .fresh).turns .standard none 2 (List.replicate 12 .producer)).system) ∧
    ((opening 2 .fresh).turns .standard none 2 (schedule 2)).summary =
      .ok ⟨[("alpha", ["a.0", "a.1"]), ("beta", ["b.0", "b.1"])], 4, 1, 1⟩ := by
  constructor
  · have g := (going_opening 2 .fresh).works noLogs_standard 12 (by omega)
    refine (every_schedule_agrees noLogs_standard 2 .fresh (List.replicate 12 .producer)).1
      (g.tasks_eq_nil_iff.2 (Nat.le_refl 12)) ?_
    have hl : 0 < ((opening 2 .fresh).turns .standard none 2 (List.replicate 12 .producer)).participants.length := by
      rw [g.joined]
      decide
    refine ⟨_, List.getElem_mem hl, ?_⟩
    rw [(g.follows 0 _ (List.getElem?_eq_getElem hl)).consumer]
    rfl
  · have g := going_schedule noLogs_standard 2 .fresh
    exact (every_schedule_agrees noLogs_standard 2 .fresh (schedule 2)).2.1 (g.complete_iff.2 ⟨Nat.le_refl _, rfl⟩)

end

end EventHub.Demo
