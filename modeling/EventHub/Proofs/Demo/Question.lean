import EventHub.Proofs.Demo.Served
import EventHub.Proofs.System.WithoutLogs
import EventHub.Proofs.System.SleepingCalls
import EventHub.Proofs.System.Wakeup
set_option autoImplicit false

namespace EventHub.Demo

theorem sinks_of_outcome {h : Hub} {flag : Flag} {ask : Ask} {scanned woke : Bool} {p : Hub.Pause}
    {t : Hub.Turn} (o : Hub.Outcome h flag ask scanned woke p t) : t.hub.sinks = h.sinks := by
  cases o <;> rfl

theorem sinks_publish (h : Hub) (flag : Flag) (e : Event) : (h.publish flag e).2.1.sinks = h.sinks := by
  unfold Hub.publish
  split <;> rfl

def fetch (index : Nat) : Call := .fetchFrom index (below (lead index)) .block

theorem fetch_inj {index other : Nat} (h : fetch other = fetch index) : other = index := by
  injection h

theorem distinct_of_reached {files : FileSystem} {s : System} (h : System.Reached files s) : s.Distinct := by
  induction h with
  | start => exact System.distinct_empty files
  | move s m _ _ ih => exact ih.step m

/-- What a consumer's question comes to, and the place that the hub has come to with it. A consumer gets the
event at that place if it is its own. -/
inductive Answered (gone posted index : Nat) : Option Reply → Nat → Prop where
  | got (there : next gone posted < posted) (own : next gone posted % 3 = index) :
      Answered gone posted index (some (.fetched (.delivered (eventAt (next gone posted)))))
        (next gone posted + 1)
  | sentAway (nothing : ¬ (next gone posted < posted ∧ next gone posted % 3 = index)) :
      Answered gone posted index (some (.fetched (.pending .outOfSeq))) (next gone posted)
  | slept (nothing : ¬ (next gone posted < posted ∧ next gone posted % 3 = index)) :
      Answered gone posted index none (next gone posted)

/-- The hub has come to another place, and everything else is as it was. -/
structure Moved (s : System) (posted gone : Nat) (t : System) : Prop where
  channels : t.channels = s.channels
  length : t.hubs.length = s.hubs.length
  sinks : (t.hubAt 0).sinks = (s.hubAt 0).sinks
  served : Served (t.hubAt 0) gone posted

theorem Moved.sameButSleepers {s s' t t' : System} {posted gone : Nat} (m : Moved s' posted gone t')
    (before : System.SameButSleepers s s') (after : System.SameButSleepers t' t) : Moved s posted gone t where
  channels := after.channels.trans (m.channels.trans before.channels)
  length := by rw [after.hubs, m.length, before.hubs]
  sinks := by rw [System.hubAt_congr after.hubs, m.sinks, System.hubAt_congr before.hubs]
  served := by
    rw [System.hubAt_congr after.hubs]
    exact m.served

section

variable {s : System} {gone posted index : Nat}

theorem answered_advance (hs : s.Coherent) (served : Served (s.hubAt 0) gone posted)
    (ready : Ready (s.hubAt 0) posted) (hi : index < 2)
    (channel : s.RecordsNothing index (.ofHub 0 index (.hub 0)) true) (resumed : Bool) :
    ∃ gone', Answered gone posted index (s.advance resumed (fetch index)).1.reply? gone' ∧
      Moved s posted gone' (s.advance resumed (fetch index)).2 := by
  obtain ⟨hreply, hafter⟩ := channel.advance_fetchFrom (below (lead index)) .block resumed
  change (s.advance resumed (fetch index)).1.reply? = (s.askHub 0 (question index) resumed).1.reply? at hreply
  change (s.advance resumed (fetch index)).2 = (s.askHub 0 (question index) resumed).2 at hafter
  rw [hreply, hafter, System.askHub_fst]
  have o := Hub.dispatch_outcome (hs 0) (s.flagAt (s.flagOfHub 0)) (question index) resumed
  have hmoved : ∀ {gone'}, Served ((s.hubAt 0).dispatch (s.flagAt (s.flagOfHub 0)) (question index) resumed).2.hub
      gone' posted → Moved s posted gone' (s.askHub 0 (question index) resumed).2 := by
    intro gone' h
    refine ⟨s.channels_askHub 0 _ _, s.length_hubs_askHub 0 _ _, ?_, ?_⟩
    · rw [System.hubAt_askHub, if_pos rfl, sinks_of_outcome o]
    · rw [System.hubAt_askHub, if_pos rfl]
      exact h
  have a := served.asked ready hi o
  generalize (s.hubAt 0).dispatch (s.flagAt (s.flagOfHub 0)) (question index) resumed = d at hmoved a ⊢
  obtain ⟨pause, turn⟩ := d
  cases a with
  | got there own served => exact ⟨_, .got there own, hmoved served⟩
  | slept nothing served => exact ⟨_, .slept nothing, hmoved served⟩
  | sentAway nothing served => exact ⟨_, .sentAway nothing, hmoved served⟩

theorem answered_start (hs : s.Coherent) (served : Served (s.hubAt 0) gone posted)
    (ready : Ready (s.hubAt 0) posted) (hi : index < 2)
    (channel : s.RecordsNothing index (.ofHub 0 index (.hub 0)) true) :
    ∃ gone', Answered gone posted index (s.start (fetch index)).2.1.reply? gone' ∧
      Moved s posted gone' (s.start (fetch index)).2.2 := by
  have hs' : System.Coherent { s with handles := s.handles + 1 } := hs.of_hubs rfl
  obtain ⟨gone', ha, hm⟩ := answered_advance hs' served ready hi channel false
  obtain ⟨hp, hafter⟩ := System.start_advance s (fetch index)
  rw [hp]
  exact ⟨gone', ha, hm.sameButSleepers ⟨⟨rfl, rfl, rfl⟩, rfl, rfl⟩ hafter⟩

theorem answered_resume (hs : s.Coherent) (served : Served (s.hubAt 0) gone posted)
    (ready : Ready (s.hubAt 0) posted) (hi : index < 2)
    (channel : s.RecordsNothing index (.ofHub 0 index (.hub 0)) true) {p : Sleeper} (hc : p.call = fetch index)
    (hm : s.mayGoOn p = true) :
    ∃ gone', Answered gone posted index (s.resume p).1 gone' ∧ Moved s posted gone' (s.resume p).2 := by
  have hs' : (s.replace { p with awake := false }).Coherent := hs.of_hubs rfl
  obtain ⟨gone', ha, hmoved⟩ := answered_advance hs' served ready hi channel true
  obtain ⟨hp, hafter⟩ := System.resume_advance hm
  rw [← hc] at ha hmoved
  rw [hp]
  exact ⟨gone', ha, hmoved.sameButSleepers ⟨⟨rfl, rfl, rfl⟩, rfl, rfl⟩ hafter⟩

theorem askedBy_fetch {isOpen : Bool} (channel : s.RecordsNothing index (.ofHub 0 index (.hub 0)) isOpen) :
    s.askedBy (fetch index) = some (0, question index) := by
  obtain ⟨c, hc, hk, -⟩ := channel
  simp only [fetch, System.askedBy, System.kindOf, hc, Option.map_some, hk]
  rfl

theorem point_of_fetch {isOpen : Bool} (channel : s.RecordsNothing index (.ofHub 0 index (.hub 0)) isOpen)
    {point : WaitPoint} (hb : s.SleepsOn (fetch index) point) : point = .queue 0 := by
  obtain ⟨-, ⟨-, h⟩ | ⟨h, -⟩⟩ := hb.of_asks (askedBy_fetch channel)
  · exact h
  · cases h

/-- A consumer sleeps on the queue, so it goes on when it was woken, whatever its flag says. -/
theorem mayGoOn_of_fetch (sound : s.Sound) {isOpen : Bool}
    (channel : s.RecordsNothing index (.ofHub 0 index (.hub 0)) isOpen) {p : Sleeper} (hp : p ∈ s.sleepers)
    (hc : p.call = fetch index) : s.mayGoOn p = true := by
  have hb := (sound.wokenOrNoNews p hp).1
  rw [hc] at hb
  rw [System.mayGoOn, point_of_fetch channel hb]

theorem not_hasNothingFor_of_own (hs : s.Coherent) (served : Served (s.hubAt 0) gone posted)
    (ready : Ready (s.hubAt 0) posted) (hi : index < 2) (there : next gone posted < posted)
    (own : next gone posted % 3 = index) : ¬ (s.hubAt 0).HasNothingFor (question index) := by
  intro hb
  have hgone : gone < posted := by
    unfold next at there
    split at there
    · omega
    · exact there
  have hsinks : (s.hubAt 0).sinks = [sinkOf 0, sinkOf 1] := by
    rcases ready with hz | h
    · omega
    · exact h
  cases hq : (s.hubAt 0).queue with
  | nil =>
    have hl := congrArg List.length served.queue
    rw [hq, List.map_nil, List.length_nil, List.length_map, List.length_range'] at hl
    omega
  | cons head rest =>
    -- the head has an owner, so it is the event at this very place, and the consumer's own
    obtain ⟨sink, canonical, ho, hu⟩ := hb.unwanted (hs 0) hq
    obtain ⟨-, -, hhead, -⟩ := served.split (hq.trans (List.nil_append _).symm)
    rw [List.length_nil, Nat.add_zero] at hhead
    rw [← Hub.route_eq_some_iff, hhead, route_eventAt hsinks] at ho
    split at ho
    · rename_i hk
      have hkind : gone % 3 = index := by
        unfold next at own
        split at own
        · omega
        · exact own
      cases ho
      rcases hu with hu | hu
      · exact hu hkind
      · rw [question, eventAt, accepts_below, decide_eq_false_iff_not, lead_inj hi] at hu
        exact hu hkind
    · cases ho

theorem woken_of_own (sound : s.Sound) (served : Served (s.hubAt 0) gone posted)
    (ready : Ready (s.hubAt 0) posted) (hi : index < 2) {isOpen : Bool}
    (channel : s.RecordsNothing index (.ofHub 0 index (.hub 0)) isOpen) (there : next gone posted < posted)
    (own : next gone posted % 3 = index) {handle : Nat} (ht : (handle, fetch index) ∈ s.sleepingCalls) :
    ∃ p, s.wokenUnder handle = some p := by
  obtain ⟨p, hp, he⟩ := List.mem_map.1 ht
  obtain ⟨hb, hr⟩ := sound.wokenOrNoNews p hp
  have hh : p.handle = handle := congrArg Prod.fst he
  have hc : p.call = fetch index := congrArg Prod.snd he
  rw [hc] at hb hr
  have hawake : p.awake = true := by
    rcases hr with ha | hr
    · exact ha
    · rw [point_of_fetch channel hb] at hr
      exact absurd (hr _ (askedBy_fetch channel))
        (not_hasNothingFor_of_own sound.hubInvariant.coherent served ready hi there own)
  cases hw : s.wokenUnder handle with
  | some q => exact ⟨q, rfl⟩
  | none =>
    have hn := List.find?_eq_none.1 hw p hp
    simp [hh, hawake] at hn

end

end EventHub.Demo
