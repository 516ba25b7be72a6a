import EventHub.Proofs.Demo.Consumer
import EventHub.Proofs.System.Effect
set_option autoImplicit false

namespace EventHub.Demo

inductive At (events : Nat) : Nat → Task → Prop where
  | addSink (index : Nat) (hi : index < 2) : At events (2 * index) (.addSink (below (lead index)))
  | join (index : Nat) (hi : index < 2) : At events (2 * index + 1) (.join (nameOf index) (below (lead index)))
  | open : At events 4 .open
  | post (place : Nat) (hp : place < 3 * events) : At events (place + 5) (.post (eventAt place))
  | close : At events (3 * events + 5) .close

theorem tasks_eq (events : Nat) :
    tasks events =
      .addSink (below "a") :: .join "alpha" (below "a") :: .addSink (below "b") :: .join "beta" (below "b") ::
        .open :: ((List.range (3 * events)).map (fun place => .post (eventAt place)) ++ [.close]) := by
  rw [tasks, script_eq, List.map_map]
  rfl

theorem at_of_getElem? {events done : Nat} {task : Task} (h : (tasks events)[done]? = some task) :
    At events done task := by
  rw [tasks_eq] at h
  match done with
  | 0 =>
    cases h
    exact .addSink 0 (by omega)
  | 1 =>
    cases h
    exact .join 0 (by omega)
  | 2 =>
    cases h
    exact .addSink 1 (by omega)
  | 3 =>
    cases h
    exact .join 1 (by omega)
  | 4 =>
    cases h
    exact .open
  | done + 5 =>
    simp only [List.getElem?_cons_succ] at h
    rcases Nat.lt_trichotomy done (3 * events) with hl | rfl | hl
    · rw [List.getElem?_append_left (by simpa using hl)] at h
      simp only [List.getElem?_map, List.getElem?_range hl, Option.map_some, Option.some.injEq] at h
      rw [← h]
      exact .post done hl
    · rw [List.getElem?_append_right (by simp)] at h
      simp only [List.length_map, List.length_range, Nat.sub_self, List.getElem?_cons_zero,
        Option.some.injEq] at h
      rw [← h]
      exact .close
    · rw [List.getElem?_eq_none (by simp; omega)] at h
      cases h

theorem length_tasks (events : Nat) : (tasks events).length = 3 * events + 6 := by
  rw [tasks_eq]
  simp

def postedBy (events done : Nat) : Nat := min (done - 5) (3 * events)

def sinksBy (done : Nat) : Nat := min ((done + 1) / 2) 2

def joinedBy (done : Nat) : Nat := min (done / 2) 2

theorem postedBy_le (events done : Nat) : postedBy events done ≤ 3 * events := Nat.min_le_right _ _

theorem postedBy_eq_zero {done : Nat} (events : Nat) (h : done ≤ 5) : postedBy events done = 0 := by
  rw [postedBy, Nat.sub_eq_zero_of_le h, Nat.zero_min]

theorem postedBy_place {events place : Nat} (h : place ≤ 3 * events) : postedBy events (place + 5) = place :=
  Nat.min_eq_left h

theorem postedBy_of_le {events done : Nat} (h : 3 * events + 5 ≤ done) : postedBy events done = 3 * events :=
  Nat.min_eq_right (Nat.le_sub_of_add_le h)

theorem sinksBy_of_le {done : Nat} (h : 3 ≤ done) : sinksBy done = 2 :=
  Nat.min_eq_right (by omega)

theorem sinksBy_addSink {index : Nat} (hi : index < 2) :
    sinksBy (2 * index) = index ∧ sinksBy (2 * index + 1) = index + 1 := by
  unfold sinksBy
  omega

theorem joinedBy_le (done : Nat) : joinedBy done ≤ 2 := Nat.min_le_right _ _

theorem joinedBy_of_le {done : Nat} (h : 4 ≤ done) : joinedBy done = 2 :=
  Nat.min_eq_right (by omega)

theorem joinedBy_join {index : Nat} (hi : index < 2) :
    joinedBy (2 * index) = index ∧ joinedBy (2 * index + 1) = index ∧ joinedBy (2 * index + 2) = index + 1 := by
  unfold joinedBy
  omega

/-- A move on other channels than the first ones. -/
structure Grown (files : FileSystem) (first : Nat) (s t : System) : Prop where
  reached : System.Reached files t
  hubs : s.hubs.length ≤ t.hubs.length
  sleepingCalls : ∀ k ∈ s.sleepingCalls, k ∈ t.sleepingCalls
  stays : ∀ other, other < first → System.SameChannel other s t

theorem Grown.trans {files : FileSystem} {first : Nat} {s t u : System} (h : Grown files first s t)
    (k : Grown files first t u) : Grown files first s u where
  reached := k.reached
  hubs := Nat.le_trans h.hubs k.hubs
  sleepingCalls p hp := k.sleepingCalls p (h.sleepingCalls p hp)
  stays other ho := (h.stays other ho).trans (k.stays other ho)

theorem Beside.grown {files : FileSystem} {first channel : Nat} {s t : System} (b : Beside channel s t)
    (hr : System.Reached files s) (hf : first ≤ channel) : Grown files first s t where
  reached := b.reached files hr
  hubs := Nat.le_of_eq (congrArg List.length b.hubs).symm
  sleepingCalls _ hp := b.sleepingCalls.symm ▸ hp
  stays other ho := b.stays other (Nat.ne_of_lt (Nat.lt_of_lt_of_le ho hf))

theorem grown_step {files : FileSystem} {s : System} (hr : System.Reached files s) (first : Nat) {m : Move}
    (ha : s.Allows m) (awake : ∀ handle, m ≠ .onHubs (.resume handle))
    (leavesChannel : ∀ other, ¬ m.OpensOrCloses other)
    (unused : ∀ other, ¬ m.UsesRecordings s other) : Grown files first s (m.step s).2 where
  reached := .move s m hr ha
  hubs := System.length_hubs_step s m
  sleepingCalls k hk := (System.sleepersStep_step s m).kept k hk (awake k.1)
  stays other _ := (System.leavesChannel_step (leavesChannel other) (unused other)).stays

theorem Follows.stays {events gone gone' index : Nat} {s t : System} {p : Participant}
    (f : Follows events gone s index p) (hs : System.SameChannel index s t)
    (ht : ∀ handle, (handle, fetch index) ∈ s.sleepingCalls → (handle, fetch index) ∈ t.sleepingCalls)
    (hg : taken index gone' = taken index gone) : Follows events gone' t index p where
  consumer := f.consumer.trans (consumerAt_congr hg).symm
  channel := by
    rw [hg]
    exact f.channel.stays hs
  asleep handle ha := ht handle (f.asleep handle ha)

structure NoLogs (config : Config) : Prop where
  joined : ∀ index, index < 2 → (config.forChannel (nameOf index)).NoLogs
  producer : (config.forChannel "producer").NoLogs

section

variable {files : FileSystem} {config : Config} {events : Nat} {s : System}

structure Made (files : FileSystem) (id : Nat) (kind : ChannelKind) (isOpen : Bool) (s t : System) : Prop where
  grown : Grown files id s t
  hubs : t.hubs = s.hubs
  length : t.channels.length = id + 1
  recordsNothing : t.RecordsNothing id kind isOpen

theorem Made.beside {id : Nat} {kind : ChannelKind} {isOpen isOpen' : Bool} {t u : System}
    (m : Made files id kind isOpen s t) (b : Beside id t u) (h : u.RecordsNothing id kind isOpen') :
    Made files id kind isOpen' s u where
  grown := m.grown.trans (b.grown m.grown.reached (Nat.le_refl id))
  hubs := b.hubs.trans m.hubs
  length := b.length.trans m.length
  recordsNothing := h

theorem recordsNothing_addChannel (s : System) (name : String) (kind : ChannelKind) :
    (s.addChannel (.make name kind)).2.RecordsNothing s.channels.length kind false :=
  ⟨.make name kind, List.getElem?_concat_length, rfl, rfl, rfl⟩

theorem made_addChannel (hr : System.Reached files s) {id : Nat} (hid : s.channels.length = id) (name : String)
    (outlet : Option Outlet) :
    Made files id (.plain outlet) false s (s.addChannel (.make name (.plain outlet))).2 where
  grown := grown_step hr id (m := .makeChannel name outlet) trivial nofun (fun _ h => h) (fun _ h => h)
  hubs := rfl
  length := List.length_append.trans (congrArg (· + 1) hid)
  recordsNothing := hid ▸ recordsNothing_addChannel s name _

theorem made_addHubChannel (hr : System.Reached files s) {hub : Nat} (there : hub < s.hubs.length) {id : Nat}
    (hid : s.channels.length = id) (name : String) (sink : Nat) (outlet : Outlet) :
    Made files id (.ofHub hub sink outlet) false s (s.addHubChannel name hub sink outlet).2 where
  grown := by
    have h := grown_step hr id (m := .makeHubChannel name hub sink outlet) trivial nofun
      (fun _ h => h) (fun _ h => h)
    rw [Move.step, if_pos there] at h
    exact h
  hubs := System.hubs_attach _ _ _ false
  length := by
    have hl : (s.addChannel (.make name (.ofHub hub sink outlet))).2.channels.length = id + 1 :=
      List.length_append.trans (congrArg (· + 1) hid)
    rw [System.addHubChannel]
    rcases System.attach_snd (s.addChannel (.make name (.ofHub hub sink outlet))).2 s.channels.length
      (s.flagOfHub hub) false with h | ⟨c, -, -, h⟩
    · exact (congrArg (fun t => t.channels.length) h).trans hl
    · exact (congrArg (fun t => t.channels.length) h).trans (List.length_set.trans hl)
  recordsNothing := hid ▸ (recordsNothing_addChannel s name _).stays (System.sameChannel_attach _ _ _ _ false)

theorem join_eq (name : String) (mask : Mask) (hub sink : Nat) :
    join config none events hub sink s name mask =
      let made := s.addHubChannel name hub sink (.hub hub)
      let opened := made.2.changeChannel made.1 fun c fs => c.init fs (config.forChannel name)
      match opened.1 with
      | .error e => (.error e, opened.2)
      | .ok () =>
        let settled := finishIfDone events opened.2 ⟨name, made.1, mask, [], false, none⟩
        (.ok settled.1, settled.2) := by
  simp only [join, channelConfig]
  generalize s.addHubChannel name hub sink (.hub hub) = made
  obtain ⟨channel, s⟩ := made
  dsimp only
  generalize s.changeChannel channel (fun c fs => c.init fs (config.forChannel name)) = opened
  obtain ⟨e | u, s⟩ := opened
  · rfl
  · rfl

/-- A consumer has joined with its channel, before anything was posted. -/
structure Joined (files : FileSystem) (events index : Nat) (s : System)
    (r : Except ChannelError Consumer × System) : Prop where
  made : ∃ isOpen, Made files index (.ofHub 0 index (.hub 0)) isOpen s r.2
  follows : ∃ c, r.1 = .ok c ∧ Follows events 0 r.2 index ⟨c, none⟩

theorem joined_join (noLogs : NoLogs config) (hr : System.Reached files s) (there : 0 < s.hubs.length)
    {index : Nat} (hi : index < 2) (channels : s.channels.length = index) :
    Joined files events index s (join config none events 0 index s (nameOf index) (below (lead index))) := by
  have hmade := made_addHubChannel hr there channels (nameOf index) index (.hub 0)
  rw [join_eq]
  dsimp only
  rw [show (s.addHubChannel (nameOf index) 0 index (.hub 0)).1 = index from channels]
  generalize (s.addHubChannel (nameOf index) 0 index (.hub 0)).2 = t at hmade ⊢
  have hinit := hmade.recordsNothing.init (noLogs.joined index hi)
  have hopen := hmade.beside (beside_init t index (config.forChannel (nameOf index))) hinit.2
  generalize t.changeChannel index (fun c fs => c.init fs (config.forChannel (nameOf index))) = r at hinit hopen ⊢
  obtain ⟨e, u⟩ := r
  obtain ⟨rfl, hnothing⟩ := hinit
  have hnew : (⟨nameOf index, index, below (lead index), [], false, none⟩ : Consumer) =
      { consumerAt events 0 index with finished := false } := by
    have htaken : taken index 0 = 0 := by
      unfold taken
      omega
    simp only [consumerAt, htaken, idsOf, List.range_zero, List.map_nil, List.reverse_nil]
  obtain ⟨hconsumer, hnothing', hbeside⟩ := finishIfDone_spec hnew hnothing
  exact ⟨⟨_, hopen.beside hbeside hnothing'⟩, _, rfl, hconsumer, hnothing', fun _ he => by cases he⟩

end

end EventHub.Demo
