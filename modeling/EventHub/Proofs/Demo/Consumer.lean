import EventHub.Proofs.Demo.Question
set_option autoImplicit false

namespace EventHub.Demo

def taken (kind gone : Nat) : Nat := (gone + 2 - kind) / 3

theorem taken_of_own {kind gone : Nat} (h : gone % 3 = kind) :
    taken kind (gone + 1) = taken kind gone + 1 ∧ taken kind gone = gone / 3 := by
  unfold taken
  omega

theorem taken_of_other {kind gone : Nat} (hk : kind < 2) (h : gone % 3 ≠ kind) :
    taken kind (gone + 1) = taken kind gone := by
  unfold taken
  omega

theorem taken_next {kind : Nat} (hk : kind < 2) (gone posted : Nat) :
    taken kind (next gone posted) = taken kind gone := by
  unfold next
  split
  · exact taken_of_other hk (by omega)
  · rfl

theorem le_next (gone posted : Nat) : gone ≤ next gone posted := by
  unfold next
  split
  · exact Nat.le_succ gone
  · exact Nat.le_refl gone

def nameOf : Nat → String
  | 0 => "alpha"
  | _ => "beta"

def idsOf (kind count : Nat) : List String := (List.range count).map fun round => (idAt kind round).text

theorem idsOf_succ (kind count : Nat) :
    (idsOf kind (count + 1)).reverse = (idAt kind count).text :: (idsOf kind count).reverse := by
  rw [idsOf, List.range_succ, List.map_append, List.reverse_append]
  rfl

def consumerAt (events gone index : Nat) : Consumer where
  name := nameOf index
  channel := index
  mask := below (lead index)
  ids := (idsOf index (taken index gone)).reverse
  finished := decide (events ≤ taken index gone)
  failure := none

theorem length_ids (events gone index : Nat) : (consumerAt events gone index).ids.length = taken index gone := by
  simp [consumerAt, idsOf]

theorem consumerAt_congr {events gone gone' index : Nat} (h : taken index gone' = taken index gone) :
    consumerAt events gone' index = consumerAt events gone index := by
  rw [consumerAt, consumerAt, h]

/-- A participant is as far as the hub is, and if it sleeps then in its own question. -/
structure Follows (events gone : Nat) (s : System) (index : Nat) (p : Participant) : Prop where
  consumer : p.consumer = consumerAt events gone index
  channel : s.RecordsNothing index (.ofHub 0 index (.hub 0)) (decide (taken index gone < events))
  asleep : ∀ handle, p.asleep = some handle → (handle, fetch index) ∈ s.sleepingCalls

/-- Nothing happened but to one channel. -/
structure Beside (channel : Nat) (s t : System) : Prop where
  reached : ∀ files, System.Reached files s → System.Reached files t
  hubs : t.hubs = s.hubs
  length : t.channels.length = s.channels.length
  sleepingCalls : t.sleepingCalls = s.sleepingCalls
  stays : ∀ other, other ≠ channel → System.SameChannel other s t

theorem Beside.refl (channel : Nat) (s : System) : Beside channel s s :=
  ⟨fun _ h => h, rfl, rfl, rfl, fun _ _ => System.sameChannel_of_channels rfl⟩

theorem beside_changeChannel (s : System) (channel : Nat)
    (change : Channel → FileSystem → Channel.Outcome)
    (hr : ∀ files, System.Reached files s → System.Reached files (s.changeChannel channel change).2) :
    Beside channel s (s.changeChannel channel change).2 := by
  refine ⟨hr, System.hubs_changeChannel s channel change, ?_,
    (System.sameSleepingCalls_changeChannel s channel change).sleepingCalls,
    fun other ho => System.sameChannel_changeChannel (Ne.symm ho) s change⟩
  unfold System.changeChannel
  split
  · rfl
  · exact List.length_set

theorem beside_close (s : System) (channel : Nat) :
    Beside channel s (s.changeChannel channel Channel.close).2 :=
  beside_changeChannel s channel _ fun _ hr => .move s (.close channel) hr trivial

theorem beside_init (s : System) (channel : Nat) (config : ChannelConfig) :
    Beside channel s (s.changeChannel channel fun c fs => c.init fs config).2 :=
  beside_changeChannel s channel _ fun _ hr => .move s (.init channel config) hr trivial

theorem finishIfDone_spec {events gone index : Nat} {s : System} {c : Consumer} {kind : ChannelKind}
    (hc : c = { consumerAt events gone index with finished := false }) (channel : s.RecordsNothing index kind true) :
    (finishIfDone events s c).1 = consumerAt events gone index ∧
      (finishIfDone events s c).2.RecordsNothing index kind (decide (taken index gone < events)) ∧
      Beside index s (finishIfDone events s c).2 := by
  have hl : c.ids.length = taken index gone := by
    rw [hc]
    exact length_ids events gone index
  have hchannel : c.channel = index := by
    rw [hc]
    rfl
  rw [finishIfDone, hl]
  by_cases h : taken index gone < events
  · have hf : consumerAt events gone index = { consumerAt events gone index with finished := false } := by
      simp [consumerAt, h]
    rw [if_pos h, decide_eq_true h, hc]
    exact ⟨hf.symm, channel, .refl index s⟩
  · have hf : consumerAt events gone index = { consumerAt events gone index with finished := true } := by
      simp [consumerAt, Nat.le_of_not_lt h]
    obtain ⟨hok, hclosed⟩ := channel.close
    have hb := beside_close s index
    rw [if_neg h, decide_eq_false h, finish, hchannel]
    generalize s.changeChannel index Channel.close = r at hok hclosed hb
    obtain ⟨e | u, t⟩ := r
    · cases hok
    · refine ⟨?_, hclosed, hb⟩
      rw [hf, hc]
      rfl

def told (events : Nat) (c : Consumer) (asleep : Option Nat) (s : System) : Option Reply → Participant × System
  | none => (⟨c, asleep⟩, s)
  | some r => (⟨(receive events s c r).1, none⟩, (receive events s c r).2)

theorem ask_of_awake {events : Nat} {s : System} {p : Participant} (hf : p.consumer.finished = false)
    (ha : p.asleep = none) :
    p.ask events s =
      told events p.consumer (some s.handles)
        (s.start (.fetchFrom p.consumer.channel p.consumer.mask .block)).2.2
        (s.start (.fetchFrom p.consumer.channel p.consumer.mask .block)).2.1.reply? := by
  rw [Participant.ask, hf, ha]
  dsimp only
  have hh : (s.start (.fetchFrom p.consumer.channel p.consumer.mask .block)).1 = s.handles := by
    rw [System.start]
    split <;> rfl
  generalize s.start (.fetchFrom p.consumer.channel p.consumer.mask .block) = r at hh
  obtain ⟨handle, progress, t⟩ := r
  cases hh
  cases progress with
  | returned r => rfl
  | asleep point => rfl

theorem ask_of_woken {events : Nat} {s : System} {p : Participant} (hf : p.consumer.finished = false)
    {handle : Nat} (ha : p.asleep = some handle) {q : Sleeper} (hw : s.wokenUnder handle = some q) :
    p.ask events s = told events p.consumer (some handle) (s.resume q).2 (s.resume q).1 := by
  obtain ⟨c, asleep⟩ := p
  subst ha
  have hf' : c.finished = false := hf
  rw [Participant.ask]
  dsimp only
  rw [hf', hw]
  dsimp only
  generalize s.resume q = r
  obtain ⟨reply, t⟩ := r
  cases reply with
  | none => rfl
  | some r => rfl

/-- The hub has come to another place, and beside it nothing happened but to one consumer. -/
structure Led (files : FileSystem) (posted index : Nat) (s : System) (gone : Nat) (t : System) : Prop where
  reached : System.Reached files t
  hubs : t.hubs.length = s.hubs.length
  channels : t.channels.length = s.channels.length
  sinks : (t.hubAt 0).sinks = (s.hubAt 0).sinks
  served : Served (t.hubAt 0) gone posted
  stays : ∀ other, other ≠ index → System.SameChannel other s t
  sleepingCalls : ∀ other handle, other ≠ index → (handle, fetch other) ∈ s.sleepingCalls →
    (handle, fetch other) ∈ t.sleepingCalls

theorem Led.beside {files : FileSystem} {posted index gone : Nat} {s t u : System}
    (l : Led files posted index s gone t) (b : Beside index t u) : Led files posted index s gone u where
  reached := b.reached files l.reached
  hubs := (congrArg List.length b.hubs).trans l.hubs
  channels := b.length.trans l.channels
  sinks := (congrArg Hub.sinks (System.hubAt_congr b.hubs 0)).trans l.sinks
  served := by
    rw [System.hubAt_congr b.hubs]
    exact l.served
  stays other ho := (l.stays other ho).trans (b.stays other ho)
  sleepingCalls other handle ho ht := b.sleepingCalls.symm ▸ l.sleepingCalls other handle ho ht

/-- What a turn of a consumer leaves behind. When its own event is the next it has taken it. -/
structure Attended (files : FileSystem) (events posted gone index : Nat) (s : System) (gone' : Nat)
    (r : Participant × System) : Prop where
  led : Led files posted index s gone' r.2
  follows : Follows events gone' r.2 index r.1
  bound : gone' ≤ 3 * events - 1
  taken : ∀ other, other < 2 → other ≠ index → taken other gone' = taken other gone
  own : next gone posted < posted → next gone posted % 3 = index → gone' = next gone posted + 1

section

variable {files : FileSystem} {events posted gone index : Nat} {s t : System}

theorem next_le (hi : index < 2) (hb : gone ≤ 3 * events - 1) (hu : taken index gone < events) :
    next gone posted ≤ 3 * events - 1 := by
  unfold next
  unfold taken at hu
  split
  · omega
  · exact hb

theorem attended_of_nothing (hi : index < 2) (hb : gone ≤ 3 * events - 1) (hu : taken index gone < events)
    (channel : t.RecordsNothing index (.ofHub 0 index (.hub 0)) true)
    (led : Led files posted index s (next gone posted) t)
    (nothing : ¬ (next gone posted < posted ∧ next gone posted % 3 = index)) {asleep : Option Nat}
    (ha : ∀ handle, asleep = some handle → (handle, fetch index) ∈ t.sleepingCalls) :
    Attended files events posted gone index s (next gone posted) (⟨consumerAt events gone index, asleep⟩, t) where
  led := led
  follows := by
    have hn := taken_next hi gone posted
    refine ⟨(consumerAt_congr hn).symm, ?_, ha⟩
    rw [hn, decide_eq_true hu]
    exact channel
  bound := next_le hi hb hu
  taken other ho _ := taken_next ho gone posted
  own there own := absurd ⟨there, own⟩ nothing

theorem attended_of_event (hi : index < 2) (hu : taken index gone < events)
    (channel : t.RecordsNothing index (.ofHub 0 index (.hub 0)) true)
    (led : Led files posted index s (next gone posted + 1) t) (own : next gone posted % 3 = index) {c : Consumer}
    (hc : c = consumerAt events gone index) :
    Attended files events posted gone index s (next gone posted + 1)
      (⟨(receive events t c (.fetched (.delivered (eventAt (next gone posted))))).1, none⟩,
       (receive events t c (.fetched (.delivered (eventAt (next gone posted))))).2) := by
  obtain ⟨hmore, hround⟩ := taken_of_own own
  rw [taken_next hi] at hmore hround
  have hnew : { c with ids := (eventAt (next gone posted)).id.text :: c.ids } =
      { consumerAt events (next gone posted + 1) index with finished := false } := by
    subst hc
    have hf : decide (events ≤ taken index gone) = false := decide_eq_false (Nat.not_le_of_lt hu)
    simp only [consumerAt, hf, hmore, idsOf_succ]
    rw [hround, eventAt, own]
  obtain ⟨hconsumer, hchannel, hbeside⟩ := finishIfDone_spec hnew channel
  have hother : ∀ other, other < 2 → other ≠ index →
      taken other (next gone posted + 1) = taken other gone := by
    intro other ho hne
    rw [taken_of_other ho (by omega), taken_next ho]
  have hbound : next gone posted + 1 ≤ 3 * events - 1 := by omega
  exact ⟨led.beside hbeside, ⟨hconsumer, hchannel, fun _ he => by cases he⟩, hbound, hother, fun _ _ => rfl⟩

theorem attended_told (hi : index < 2) (hb : gone ≤ 3 * events - 1) (hu : taken index gone < events)
    (channel : t.RecordsNothing index (.ofHub 0 index (.hub 0)) true)
    {reply : Option Reply} {gone' : Nat} (answer : Answered gone posted index reply gone')
    (led : Led files posted index s gone' t) {handle : Nat}
    (asleep : reply = none → (handle, fetch index) ∈ t.sleepingCalls) :
    Attended files events posted gone index s gone'
      (told events (consumerAt events gone index) (some handle) t reply) := by
  cases answer with
  | got there own => exact attended_of_event hi hu channel led own rfl
  | sentAway nothing => exact attended_of_nothing hi hb hu channel led nothing fun _ he => by cases he
  | slept nothing =>
    refine attended_of_nothing hi hb hu channel led nothing fun h he => ?_
    cases he
    exact asleep rfl

theorem Moved.led (m : Moved s posted gone t) (reached : System.Reached files t)
    (sleepingCalls : ∀ other handle, other ≠ index → (handle, fetch other) ∈ s.sleepingCalls →
      (handle, fetch other) ∈ t.sleepingCalls) : Led files posted index s gone t where
  reached := reached
  hubs := m.length
  channels := congrArg List.length m.channels
  sinks := m.sinks
  served := m.served
  stays _ _ := System.sameChannel_of_channels m.channels
  sleepingCalls := sleepingCalls

theorem attended_start (hr : System.Reached files s) (served : Served (s.hubAt 0) gone posted)
    (ready : Ready (s.hubAt 0) posted) (hi : index < 2) (hb : gone ≤ 3 * events - 1)
    (hu : taken index gone < events) (channel : s.RecordsNothing index (.ofHub 0 index (.hub 0)) true) :
    ∃ gone', Attended files events posted gone index s gone'
      (told events (consumerAt events gone index) (some s.handles) (s.start (fetch index)).2.2
        (s.start (fetch index)).2.1.reply?) := by
  obtain ⟨gone', answer, moved⟩ := answered_start hr.sound.hubInvariant.coherent served ready hi channel
  obtain ⟨-, ht⟩ := System.sleepingCalls_start s (fetch index)
  have hkept : ∀ k ∈ s.sleepingCalls, k ∈ (s.start (fetch index)).2.2.sleepingCalls := by
    intro k hk
    rcases ht with ⟨-, ht⟩ | ⟨-, ht⟩
    · rw [ht]
      exact hk
    · rw [ht]
      exact List.mem_append_left _ hk
  have hreached : System.Reached files (s.start (fetch index)).2.2 :=
    .move s (.onHubs (.call (fetch index))) hr trivial
  have hled : Led files posted index s gone' (s.start (fetch index)).2.2 :=
    moved.led hreached fun _ _ _ hm => hkept _ hm
  refine ⟨gone', attended_told hi hb hu (channel.stays (System.sameChannel_of_channels moved.channels)) answer hled ?_⟩
  intro hnone
  rcases ht with ⟨⟨r, hp⟩, -⟩ | ⟨-, ht⟩
  · rw [hp] at hnone
    cases hnone
  · rw [ht]
    exact List.mem_append_right _ List.mem_cons_self

theorem attended_resume (hr : System.Reached files s) (served : Served (s.hubAt 0) gone posted)
    (ready : Ready (s.hubAt 0) posted) (hi : index < 2) (hb : gone ≤ 3 * events - 1)
    (hu : taken index gone < events) (channel : s.RecordsNothing index (.ofHub 0 index (.hub 0)) true)
    {handle : Nat} (handleAndCall : (handle, fetch index) ∈ s.sleepingCalls) {p : Sleeper}
    (hw : s.wokenUnder handle = some p) :
    ∃ gone', Attended files events posted gone index s gone'
      (told events (consumerAt events gone index) (some handle) (s.resume p).2 (s.resume p).1) := by
  have hp := List.mem_of_find?_eq_some hw
  have hh := System.handle_of_wokenUnder hw
  have hd := distinct_of_reached hr
  have hsleeping : p.handleAndCall = (handle, fetch index) :=
    hd.inj p.handleAndCall (List.mem_map_of_mem hp) _ handleAndCall hh
  have hc : p.call = fetch index := congrArg Prod.snd hsleeping
  obtain ⟨gone', answer, moved⟩ := answered_resume hr.sound.hubInvariant.coherent served ready hi channel hc
    (mayGoOn_of_fetch hr.sound channel hp hc)
  have hreached : System.Reached files (s.resume p).2 := by
    have h := System.Reached.move s (.onHubs (.resume handle)) hr trivial
    rw [Move.step, HubMove.step, hw] at h
    exact h
  have hothers : ∀ other handle, other ≠ index → (handle, fetch other) ∈ s.sleepingCalls →
      (handle, fetch other) ∈ (s.resume p).2.sleepingCalls := by
    intro other handle' ho hm
    refine System.mem_sleepingCalls_resume hm fun he => ?_
    have heq := hd.inj _ hm p.handleAndCall (List.mem_map_of_mem hp) he
    rw [hsleeping] at heq
    exact absurd (fetch_inj (congrArg Prod.snd heq)) ho
  refine ⟨gone', attended_told hi hb hu (channel.stays (System.sameChannel_of_channels moved.channels)) answer
    (moved.led hreached hothers) fun hnone => ?_⟩
  exact System.mem_sleepingCalls_resume handleAndCall fun _ => ⟨hsleeping.symm, hnone⟩

theorem attended_of_stay (hr : System.Reached files s) (served : Served (s.hubAt 0) gone posted)
    (hb : gone ≤ 3 * events - 1) {p : Participant} (f : Follows events gone s index p)
    (nothing : ¬ (next gone posted < posted ∧ next gone posted % 3 = index)) :
    Attended files events posted gone index s gone (p, s) where
  led := Moved.led ⟨rfl, rfl, rfl, served⟩ hr fun _ _ _ hm => hm
  follows := f
  bound := hb
  taken _ _ _ := rfl
  own there own := absurd ⟨there, own⟩ nothing

/-- Whatever a consumer finds in its turn, the hub and the consumer are as far as each other afterwards. -/
theorem attended_ask (hr : System.Reached files s) (served : Served (s.hubAt 0) gone posted)
    (ready : Ready (s.hubAt 0) posted) (hp : posted ≤ 3 * events) (hb : gone ≤ 3 * events - 1) (hi : index < 2)
    {p : Participant} (f : Follows events gone s index p) :
    ∃ gone', Attended files events posted gone index s gone' (p.ask events s) := by
  obtain ⟨hconsumer, channel, asleep⟩ := f
  by_cases hu : taken index gone < events
  · have hf : p.consumer.finished = false := by
      rw [hconsumer]
      exact decide_eq_false (Nat.not_le_of_lt hu)
    rw [decide_eq_true hu] at channel
    cases ha : p.asleep with
    | none =>
      rw [ask_of_awake hf ha, hconsumer]
      exact attended_start hr served ready hi hb hu channel
    | some handle =>
      have handleAndCall := asleep handle ha
      cases hw : s.wokenUnder handle with
      | some q =>
        rw [ask_of_woken hf ha hw, hconsumer]
        exact attended_resume hr served ready hi hb hu channel handleAndCall hw
      | none =>
        have hstay : p.ask events s = (p, s) := by
          rw [Participant.ask, hf, ha]
          dsimp only
          rw [hw]
          rfl
        rw [hstay]
        refine ⟨gone, attended_of_stay hr served hb ⟨hconsumer, decide_eq_true hu ▸ channel, asleep⟩ ?_⟩
        rintro ⟨there, own⟩
        obtain ⟨q, hq⟩ := woken_of_own hr.sound served ready hi channel there own handleAndCall
        rw [hw] at hq
        cases hq
  · have hstay : p.ask events s = (p, s) := by
      have hf : p.consumer.finished = true := by
        rw [hconsumer]
        exact decide_eq_true (Nat.le_of_not_lt hu)
      rw [Participant.ask, if_pos hf]
    rw [hstay]
    refine ⟨gone, attended_of_stay hr served hb ⟨hconsumer, channel, asleep⟩ ?_⟩
    rintro ⟨there, own⟩
    obtain ⟨-, hround⟩ := taken_of_own own
    rw [taken_next hi] at hround
    omega

end

end EventHub.Demo
