import EventHub.Proofs.Demo.Producer
set_option autoImplicit false

namespace EventHub.Demo

structure Going (files : FileSystem) (events : Nat) (t : Stage) (done gone : Nat) : Prop where
  reached : System.Reached files t.system
  there : 0 < t.system.hubs.length
  hub : t.hub = 0
  fine : t.failure = none
  tasks : t.tasks = (tasks events).drop done
  served : Served (t.system.hubAt 0) gone (postedBy events done)
  sink : ∀ index, index < 2 → done = 2 * index + 1 → t.sink = index
  sinks : (t.system.hubAt 0).sinks = (List.range (sinksBy done)).map sinkOf
  bound : gone ≤ 3 * events - 1
  channels : t.system.channels.length = joinedBy done + if 4 < done then 1 else 0
  joined : t.participants.length = joinedBy done
  follows : ∀ index p, t.participants[index]? = some p → Follows events gone t.system index p
  producer : 4 < done →
    t.producer = 2 ∧ t.system.RecordsNothing 2 (.plain (some (.hub 0))) (decide (done < 3 * events + 6))

section

variable {files : FileSystem} {config : Config} {events done gone : Nat} {t : Stage}

theorem Going.ready (g : Going files events t done gone) : Ready (t.system.hubAt 0) (postedBy events done) := by
  rcases Nat.lt_or_ge done 3 with h | h
  · exact .inl (postedBy_eq_zero events (by omega))
  · right
    rw [g.sinks, sinksBy_of_le h]
    rfl

theorem Going.lt_of_getElem? (g : Going files events t done gone) {index : Nat} {p : Participant}
    (hp : t.participants[index]? = some p) : index < joinedBy done :=
  g.joined ▸ (List.getElem?_eq_some_iff.1 hp).1

theorem Going.lt_two (g : Going files events t done gone) {index : Nat} {p : Participant}
    (hp : t.participants[index]? = some p) : index < 2 :=
  Nat.lt_of_lt_of_le (g.lt_of_getElem? hp) (joinedBy_le done)

theorem Going.follows_of_grown (g : Going files events t done gone) {first : Nat} (hf : joinedBy done ≤ first)
    {s : System} (h : Grown files first t.system s) {index : Nat} {p : Participant}
    (hp : t.participants[index]? = some p) : Follows events gone s index p :=
  (g.follows index p hp).stays (h.stays index (Nat.lt_of_lt_of_le (g.lt_of_getElem? hp) hf))
    (fun _ ht => h.sleepingCalls _ ht) rfl

theorem turn_of_task {directory : Option FileName} {task : Task} {rest : List Task} (hf : t.failure = none)
    (ht : t.tasks = task :: rest) :
    t.turn config directory events .producer =
      { t with tasks := rest }.work config directory events task := by
  obtain ⟨system, hub, producer, tasks, participants, failure⟩ := t
  subst hf ht
  rfl

theorem Going.addSink {index : Nat} (g : Going files events t (2 * index) gone) (hi : index < 2) :
    Going files events
      ({ t with tasks := (Demo.tasks events).drop (2 * index + 1) }.work config none events
        (.addSink (below (lead index)))) (2 * index + 1) gone := by
  obtain ⟨hbefore, hafter⟩ := sinksBy_addSink hi
  obtain ⟨hcount, hcount', -⟩ := joinedBy_join hi
  have hold := g.sinks
  have hserved := g.served
  have hchannels := g.channels
  have hjoined := g.joined
  rw [hbefore] at hold
  rw [postedBy_eq_zero events (by omega)] at hserved
  rw [hcount, if_neg (by omega)] at hchannels
  rw [hcount] at hjoined
  have hid : (t.system.addSink 0 (sinkOf index)).1 = index := by
    rw [System.addSink, System.changeHub_of_lt _ _ g.there]
    show (t.system.hubAt 0).sinks.length = index
    rw [hold, List.length_map, List.length_range]
  have hhub := t.system.hubAt_addSink 0 (sinkOf index) 0
  rw [if_pos ⟨rfl, g.there⟩] at hhub
  have hsame : (t.system.addSink 0 (sinkOf index)).2.channels = t.system.channels :=
    System.channels_changeHub _ _ _ _
  have hgrown : Grown files 3 t.system (t.system.addSink 0 (sinkOf index)).2 :=
    grown_step g.reached 3 (m := .onHubs (.addSink 0 (sinkOf index))) trivial nofun (fun _ h => h) (fun _ h => h)
  rw [Stage.work, g.hub, show Sink.ofMask (below (lead index)) none = sinkOf index from rfl]
  generalize t.system.addSink 0 (sinkOf index) = r at hid hhub hsame hgrown
  obtain ⟨sink, s⟩ := r
  refine ⟨hgrown.reached, Nat.lt_of_lt_of_le g.there hgrown.hubs, rfl, g.fine, rfl, ?_, ?_, ?_, g.bound, ?_, ?_,
    fun other p hp => g.follows_of_grown ?_ hgrown hp, fun hd => by omega⟩
  · rw [postedBy_eq_zero events (by omega)]
    exact hhub ▸ hserved.addSink _
  · intro other _ ho
    exact hid.trans (by omega)
  · rw [hafter, List.range_succ, List.map_append, ← hold]
    exact congrArg Hub.sinks hhub
  · rw [hcount', if_neg (by omega)]
    exact (congrArg List.length hsame).trans hchannels
  · rw [hcount']
    exact hjoined
  · exact Nat.le_trans (joinedBy_le _) (by omega)

theorem Going.join {index : Nat} (g : Going files events t (2 * index + 1) gone) (noLogs : NoLogs config)
    (hi : index < 2) :
    Going files events
      ({ t with tasks := (Demo.tasks events).drop (2 * index + 2) }.work config none events
        (.join (nameOf index) (below (lead index)))) (2 * index + 2) gone := by
  obtain ⟨-, hcount, hcount'⟩ := joinedBy_join hi
  have hsinks : sinksBy (2 * index + 2) = sinksBy (2 * index + 1) := by
    unfold sinksBy
    omega
  have hserved := g.served
  have hchannels := g.channels
  have hjoined := g.joined
  rw [postedBy_eq_zero events (by omega)] at hserved
  rw [hcount, if_neg (by omega)] at hchannels
  rw [hcount] at hjoined
  obtain rfl : gone = 0 := Nat.le_zero.1 hserved.le
  obtain ⟨⟨isOpen, made⟩, c, hc, follows⟩ :=
    joined_join noLogs g.reached g.there hi hchannels
  rw [Stage.work, g.hub, g.sink index hi rfl]
  generalize Demo.join config none events 0 index t.system (nameOf index) (below (lead index)) = r at *
  obtain ⟨result, s⟩ := r
  obtain rfl : result = .ok c := hc
  have hkept := System.hubAt_congr made.hubs 0
  refine ⟨made.grown.reached, Nat.lt_of_lt_of_le g.there made.grown.hubs, rfl, g.fine, rfl, ?_,
    fun other _ ho => by omega, ?_, g.bound, ?_, ?_, ?_, fun hd => by omega⟩
  · rw [postedBy_eq_zero events (by omega)]
    exact hkept ▸ hserved
  · rw [hsinks]
    exact (congrArg Hub.sinks hkept).trans g.sinks
  · rw [hcount', if_neg (by omega)]
    exact made.length
  · rw [hcount']
    exact List.length_append.trans (congrArg (· + 1) hjoined)
  · intro other p hp
    have hp' : (t.participants ++ [⟨c, none⟩])[other]? = some p := hp
    rcases Nat.lt_or_ge other index with ho | ho
    · rw [List.getElem?_append_left (hjoined.symm ▸ ho)] at hp'
      exact g.follows_of_grown (Nat.le_of_eq hcount) made.grown hp'
    · rw [List.getElem?_append_right (hjoined.symm ▸ ho), hjoined] at hp'
      obtain ⟨hl, hnew⟩ := List.getElem?_eq_some_iff.1 hp'
      obtain rfl : other = index := by
        rw [List.length_singleton] at hl
        omega
      rw [List.getElem_singleton] at hnew
      exact hnew ▸ follows

theorem Going.open (g : Going files events t 4 gone) (noLogs : NoLogs config) :
    Going files events ({ t with tasks := (Demo.tasks events).drop 5 }.work config none events .open) 5 gone := by
  have hchannels : t.system.channels.length = 2 := g.channels
  have hmade := made_addChannel g.reached hchannels "producer" (some (.hub 0))
  have hinit := hmade.recordsNothing.init noLogs.producer
  have hopen := hmade.beside (beside_init _ 2 (config.forChannel "producer")) hinit.2
  have hid : (t.system.addChannel (.make "producer" (.plain (some (.hub 0))))).1 = 2 := hchannels
  rw [Stage.work, g.hub]
  dsimp only [channelConfig]
  rw [hid]
  generalize (t.system.addChannel (.make "producer" (.plain (some (.hub 0))))).2.changeChannel 2
    (fun c fs => c.init fs (config.forChannel "producer")) = r at hinit hopen ⊢
  obtain ⟨result, s⟩ := r
  obtain ⟨rfl, -⟩ := hinit
  have hkept := System.hubAt_congr hopen.hubs 0
  refine ⟨hopen.grown.reached, hopen.hubs ▸ g.there, rfl, g.fine, rfl, ?_, fun _ _ hd => by omega, ?_, g.bound,
    hopen.length, g.joined, fun index p hp => g.follows_of_grown (Nat.le_refl 2) hopen.grown hp,
    fun _ => ⟨rfl, ?_⟩⟩
  · have hs : Served (t.system.hubAt 0) gone (postedBy events 5) := g.served
    rw [← hkept] at hs
    exact hs
  · have hs : (t.system.hubAt 0).sinks = (List.range (sinksBy 5)).map sinkOf := g.sinks
    rw [← hkept] at hs
    exact hs
  · rw [decide_eq_true (by omega)]
    exact hopen.recordsNothing

theorem Going.after_opening (g : Going files events t done gone) (h : 4 < done) :
    (t.system.hubAt 0).sinks = (List.range 2).map sinkOf ∧ t.system.channels.length = 3 ∧
      t.participants.length = 2 := by
  have hsinks := g.sinks
  have hchannels := g.channels
  have hjoined := g.joined
  rw [sinksBy_of_le (by omega)] at hsinks
  rw [joinedBy_of_le (by omega), if_pos h] at hchannels
  rw [joinedBy_of_le (by omega)] at hjoined
  exact ⟨hsinks, hchannels, hjoined⟩

theorem Going.post {place : Nat} (g : Going files events t (place + 5) gone) (hp : place < 3 * events) :
    Going files events
      ({ t with tasks := (Demo.tasks events).drop (place + 6) }.work config none events (.post (eventAt place)))
      (place + 6) gone := by
  obtain ⟨hproducer, hnothing⟩ := g.producer (by omega)
  rw [decide_eq_true (by omega)] at hnothing
  obtain ⟨hsinks, hchannels, hjoined⟩ := g.after_opening (by omega)
  have hserved := g.served
  rw [postedBy_place (Nat.le_of_lt hp)] at hserved
  have hgrown := grown_step g.reached 3 (m := .onHubs (.publish 0 (eventAt place))) trivial nofun (fun _ h => h)
    (fun _ h => h)
  have hhub := t.system.hubAt_publish 0 (eventAt place) 0
  rw [if_pos rfl] at hhub
  have hpost : t.system.post 2 (eventAt place) = (.ok (), (t.system.publish 0 (eventAt place)).2) :=
    hnothing.post (eventAt place)
  rw [Stage.work, hproducer, hpost]
  refine ⟨hgrown.reached, Nat.lt_of_lt_of_le g.there hgrown.hubs, g.hub, g.fine, rfl, ?_, fun _ _ hd => by omega, ?_,
    g.bound, ?_, ?_,
    fun index p hp => g.follows_of_grown (Nat.le_trans (joinedBy_le _) (by omega)) hgrown hp, fun _ => ⟨rfl, ?_⟩⟩
  · rw [postedBy_place (show place + 1 ≤ 3 * events from hp)]
    exact hhub ▸ hserved.publish _
  · rw [sinksBy_of_le (by omega)]
    exact (congrArg Hub.sinks hhub).trans ((sinks_publish _ _ _).trans hsinks)
  · rw [joinedBy_of_le (by omega), if_pos (by omega)]
    exact (congrArg List.length (t.system.channels_publish 0 (eventAt place))).trans hchannels
  · rw [joinedBy_of_le (by omega)]
    exact hjoined
  · rw [decide_eq_true (by omega)]
    exact hnothing.stays (hgrown.stays 2 (by omega))

theorem Going.close (g : Going files events t (3 * events + 5) gone) :
    Going files events
      ({ t with tasks := (Demo.tasks events).drop (3 * events + 6) }.work config none events .close)
      (3 * events + 6) gone := by
  obtain ⟨hproducer, hnothing⟩ := g.producer (by omega)
  obtain ⟨hok, hclosed⟩ := hnothing.close
  have hbeside := beside_close t.system 2
  obtain ⟨hsinks, hchannels, hjoined⟩ := g.after_opening (by omega)
  have hserved := g.served
  rw [postedBy_of_le (Nat.le_refl _)] at hserved
  rw [Stage.work, hproducer]
  generalize t.system.changeChannel 2 Channel.close = r at hok hclosed hbeside
  obtain ⟨result, s⟩ := r
  obtain rfl : result = .ok () := hok
  have hkept := System.hubAt_congr hbeside.hubs 0
  have hgrown := hbeside.grown g.reached (Nat.le_refl 2)
  refine ⟨hgrown.reached, hbeside.hubs ▸ g.there, g.hub, g.fine, rfl, ?_, fun _ _ hd => by omega, ?_, g.bound, ?_, ?_,
    fun index p hp => g.follows_of_grown (joinedBy_le _) hgrown hp, fun _ => ⟨rfl, ?_⟩⟩
  · rw [postedBy_of_le (Nat.le_succ _)]
    exact hkept ▸ hserved
  · rw [sinksBy_of_le (by omega)]
    exact (congrArg Hub.sinks hkept).trans hsinks
  · rw [joinedBy_of_le (by omega), if_pos (by omega)]
    exact hbeside.length.trans hchannels
  · rw [joinedBy_of_le (by omega)]
    exact hjoined
  · rw [decide_eq_false (by omega)]
    exact hclosed

theorem Going.work (g : Going files events t done gone) (noLogs : NoLogs config)
    (hd : done < 3 * events + 6) :
    Going files events (t.turn config none events .producer) (done + 1) gone := by
  have hl : done < (Demo.tasks events).length := by
    rw [length_tasks]
    exact hd
  have hat := at_of_getElem? (List.getElem?_eq_getElem hl)
  rw [turn_of_task g.fine (g.tasks.trans (List.drop_eq_getElem_cons hl))]
  generalize (Demo.tasks events)[done] = task at hat
  cases hat with
  | addSink index hi => exact g.addSink hi
  | join index hi => exact g.join noLogs hi
  | «open» => exact g.open noLogs
  | post place hp => exact g.post hp
  | close => exact g.close

theorem next_own {gone posted : Nat} (h : next gone posted < posted) : next gone posted % 3 < 2 := by
  unfold next at h ⊢
  split
  · omega
  · rename_i hn
    rw [if_neg hn] at h
    omega

theorem turn_of_participant {directory : Option FileName} {index : Nat} {p : Participant}
    (hf : t.failure = none) (hp : t.participants[index]? = some p) :
    t.turn config directory events (.consumer index) =
      { t with
        system := (p.ask events t.system).2
        participants := t.participants.set index (p.ask events t.system).1 } := by
  obtain ⟨system, hub, producer, tasks, participants, failure⟩ := t
  subst hf
  dsimp only at hp
  rw [Stage.turn]
  dsimp only
  rw [hp]

theorem Going.attend {gone' index : Nat} {p : Participant} {r : Participant × System}
    (g : Going files events t done gone) (hp : t.participants[index]? = some p)
    (a : Attended files events (postedBy events done) gone index t.system gone' r) :
    Going files events { t with system := r.2, participants := t.participants.set index r.1 } done gone' where
  reached := a.led.reached
  there := a.led.hubs ▸ g.there
  hub := g.hub
  fine := g.fine
  tasks := g.tasks
  served := a.led.served
  sink := g.sink
  sinks := a.led.sinks.trans g.sinks
  bound := a.bound
  channels := a.led.channels.trans g.channels
  joined := List.length_set.trans g.joined
  follows other q hq := by
    by_cases ho : other = index
    · subst ho
      rw [List.getElem?_set_self (List.getElem?_eq_some_iff.1 hp).1] at hq
      cases hq
      exact a.follows
    · rw [List.getElem?_set_ne (Ne.symm ho)] at hq
      have hl := g.lt_two hq
      exact (g.follows other q hq).stays (a.led.stays other ho)
        (fun handle ht => a.led.sleepingCalls other handle ho ht)
        (a.taken other hl ho)
  producer hd := by
    obtain ⟨hproducer, hnothing⟩ := g.producer hd
    have hl := g.lt_two hp
    exact ⟨hproducer, hnothing.stays (a.led.stays 2 (Nat.ne_of_gt hl))⟩

/-- A consumer has a turn. If what is next is its own it has it then. -/
theorem Going.consumer (g : Going files events t done gone) (config : Config) (index : Nat) :
    ∃ gone', Going files events (t.turn config none events (.consumer index)) done gone' ∧
      (next gone (postedBy events done) < postedBy events done →
        next gone (postedBy events done) % 3 = index → gone' = next gone (postedBy events done) + 1) := by
  cases hp : t.participants[index]? with
  | none =>
    have hstay : t.turn config none events (.consumer index) = t := by
      rw [Stage.turn, g.fine, hp]
    rw [hstay]
    refine ⟨gone, g, fun there own => ?_⟩
    have hk := next_own there
    have hl := List.getElem?_eq_none_iff.1 hp
    rcases Nat.lt_or_ge done 4 with hd | hd
    · rw [postedBy_eq_zero events (by omega)] at there
      exact absurd there (Nat.not_lt_zero _)
    · rw [g.joined, joinedBy_of_le hd] at hl
      omega
  | some p =>
    have hi := g.lt_two hp
    obtain ⟨gone', a⟩ := attended_ask g.reached g.served g.ready (postedBy_le events done) g.bound hi
      (g.follows index p hp)
    rw [turn_of_participant g.fine hp]
    exact ⟨gone', g.attend hp a, a.own⟩

theorem going_opening (events : Nat) (files : FileSystem) : Going files events (opening events files) 0 0 where
  reached := by
    have h := System.Reached.move (.empty files) (.onHubs .makeFlag) .start trivial
    exact .move _ (.onHubs (.makeHub "demo" 0)) h trivial
  there := Nat.zero_lt_one
  hub := rfl
  fine := rfl
  tasks := rfl
  served := by
    rw [postedBy_eq_zero events (by omega)]
    exact ⟨rfl, Nat.le_refl 0, rfl, rfl, rfl⟩
  sink index _ hd := absurd hd (by omega)
  sinks := rfl
  bound := Nat.zero_le _
  channels := rfl
  joined := rfl
  follows _ _ hp := by cases hp
  producer hd := absurd hd (by omega)

theorem Going.turns (g : Going files events t done gone) (noLogs : NoLogs config) (order : List Turn) :
    ∃ done' gone', Going files events (t.turns config none events order) done' gone' := by
  induction order generalizing t done gone with
  | nil => exact ⟨done, gone, g⟩
  | cons turn order ih =>
    cases turn with
    | consumer index =>
      obtain ⟨gone', g', -⟩ := g.consumer config index
      exact ih g'
    | producer =>
      rcases Nat.lt_or_ge done (3 * events + 6) with hd | hd
      · exact ih (g.work noLogs hd)
      · have hstay : t.turn config none events .producer = t := by
          rw [Stage.turn, g.fine, g.tasks, List.drop_eq_nil_of_le (length_tasks events ▸ hd)]
        rw [Stage.turns, List.foldl_cons, hstay]
        exact ih g

end

end EventHub.Demo
