import EventHub.Proofs.System.Effect
import EventHub.Proofs.System.SleepingCalls
set_option autoImplicit false

/-!
Calls that insist on an own event. Such a call sleeps on behind an event that is another's, however often
it is woken and whoever else asks meanwhile. It is sent away only by an owner whom the hub remembered before
the call had looked at the queue itself.
-/
namespace EventHub

theorem Ask.reply_inj_outOfSeq {ask : Ask} {fetch : Fetch}
    (h : ask.reply fetch = ask.reply (.pending .outOfSeq)) : fetch = .pending .outOfSeq := by
  unfold Ask.reply at h
  split at h
  · cases h
    rfl
  · cases fetch with
    | delivered e => cases h
    | pending st =>
      cases h
      rfl

namespace Hub

/-- The head is known to be somebody's who is not meant by the question. -/
structure CachesForeignHead (h : Hub) (ask : Ask) (a : Assignment) (head : Entry) (rest : List Entry) : Prop where
  running : h.running = true
  cached : h.cached = some a
  queue : h.queue = head :: rest
  valid : a.seq = head.seq
  unwanted : ¬ ask.Wants a.sink a.canonical

theorem Coherent.dispatch_of_cachesForeignHead {h : Hub} {ask : Ask} {a : Assignment} {head : Entry}
    {rest : List Entry} (hc : h.Coherent) (hw : h.CachesForeignHead ask a head rest) (flag : Flag) :
    h.dispatch flag ask false = (.answer (.pending .outOfSeq), ⟨h, flag, true, false⟩) := by
  obtain ⟨head', rest', hq, hs, ho⟩ := hc a hw.cached
  rw [hw.queue] at hq
  cases hq
  have ha : (⟨head.seq, a.sink, a.canonical⟩ : Assignment) = a := by rw [← hs]
  have hh : { h with cached := some a } = h := by rw [← hw.cached]
  have hu : ¬ (a.sink = ask.sink ∧ ask.mask.accepts a.canonical = true) := hw.unwanted
  have ht : turn ask ⟨h, flag, false, false⟩ =
      .pause (.answer (.pending .outOfSeq)) ⟨h, flag, true, false⟩ := by
    rw [turn_of_owner hc hw.running hw.queue ho, ha, hh, answerHead, if_neg hu,
      if_neg (by rw [hw.cached]; simp)]
  rw [Hub.dispatch, turns, ht]
  rfl

/-- What one who insists is told, if anything: to come back, only when it had not looked before. -/
theorem Outcome.answersBlock {h : Hub} {flag : Flag} {ask : Ask} {scanned woke : Bool} {fetch : Fetch} {t : Turn}
    (hc : h.Coherent) (insists : ask.mode = .block)
    (o : Outcome h flag ask scanned woke (.answer fetch) t) :
    (fetch = .pending .outOfSeq ∧ scanned = false ∧ ∃ a head rest, h.CachesForeignHead ask a head rest) ∨
      (∃ lost head rest canonical, h.Finds lost head rest ask.sink canonical ∧
        ask.mask.accepts canonical = true ∧ fetch = .delivered { head.event with id := canonical }) ∨
      (fetch = .pending .closed ∧ h.running = false) := by
  generalize hp : Pause.answer fetch = p at o
  cases o with
  | closed stopped =>
    cases hp
    exact .inr (.inr ⟨rfl, stopped⟩)
  | idle =>
    -- with nothing queued one who insists falls asleep
    simp [idlePause, insists] at hp
  | taken lost head rest sink canonical found wanted =>
    cases hp
    obtain ⟨rfl, hm⟩ := wanted
    exact .inr (.inl ⟨lost, head, rest, canonical, found, hm, rfl⟩)
  | shown lost head rest sink canonical found wanted =>
    cases hp
    obtain ⟨rfl, hm⟩ := wanted
    exact .inr (.inl ⟨lost, head, rest, canonical, found, hm, rfl⟩)
  | held => cases hp
  | sentAway lost head rest sink canonical found unwanted yields =>
    cases hp
    obtain ⟨hcached, hscanned⟩ := yields insists
    obtain ⟨a, ha⟩ := Option.ne_none_iff_exists'.1 hcached
    obtain ⟨head', rest', hq, hs, ho⟩ := hc a ha
    -- the remembered head is the one that was found, so nothing stood before it
    have hlost : lost = [] := by
      cases lost with
      | nil => rfl
      | cons e lost =>
        have hq' := found.queue
        rw [hq] at hq'
        cases hq'
        have he := found.refused head' List.mem_cons_self
        rw [ho] at he
        cases he
    have hq' := found.queue
    rw [hlost, hq] at hq'
    cases hq'
    have howner := found.owner
    rw [ho] at howner
    cases howner
    exact .inl ⟨rfl, hscanned, a, head, rest, found.running, ha, hq, hs, unwanted⟩

end Hub

namespace System

theorem askHub_of_cachesForeignHead {s : System} {hub : Nat} {ask : Ask} {a : Assignment} {head : Entry}
    {rest : List Entry} (hc : (s.hubAt hub).Coherent) (hw : (s.hubAt hub).CachesForeignHead ask a head rest) :
    s.askHub hub ask false = (.answer (.pending .outOfSeq), s) := by
  have h := changeHub_of_same (Hub.Pause.answer (.pending .closed), false) (askChange ask false)
    (lt_of_running hw.running) (.answer (.pending .outOfSeq), false) (by
      rw [askChange, hc.dispatch_of_cachesForeignHead hw])
  rw [askHub_eq, h]
  rfl

theorem start_of_cachesForeignHead {s : System} {hub : Nat} {ask : Ask} {a : Assignment} {head : Entry}
    {rest : List Entry} (hc : (s.hubAt hub).Coherent) (hw : (s.hubAt hub).CachesForeignHead ask a head rest) :
    s.start (.askHub hub ask) =
      (s.handles, .returned (ask.reply (.pending .outOfSeq)), { s with handles := s.handles + 1 }) := by
  have h := askHub_of_cachesForeignHead (s := { s with handles := s.handles + 1 }) hc hw
  rw [start, advance, h]
  rfl

/-- What a call on a hub may answer that looks at the queue now, for the first time or again. -/
inductive MayAnswer (s : System) (hub : Nat) (ask : Ask) (resumed : Bool) : Reply → Prop where
  | sentAway (a : Assignment) (head : Entry) (rest : List Entry) (first : resumed = false)
      (cachesForeignHead : (s.hubAt hub).CachesForeignHead ask a head rest) :
      MayAnswer s hub ask resumed (ask.reply (.pending .outOfSeq))
  | event (lost : List Entry) (head : Entry) (rest : List Entry) (canonical : Path)
      (found : (s.hubAt hub).Finds lost head rest ask.sink canonical)
      (matched : ask.mask.accepts canonical = true) :
      MayAnswer s hub ask resumed (ask.reply (.delivered { head.event with id := canonical }))
  | closed (stopped : (s.hubAt hub).running = false) :
      MayAnswer s hub ask resumed (ask.reply (.pending .closed))

theorem mayAnswer_advance {s : System} (hs : s.Coherent) {hub : Nat} {ask : Ask}
    (insists : ask.mode = .block) {resumed : Bool} {r : Reply}
    (hr : (s.advance resumed (.askHub hub ask)).1 = .returned r) : s.MayAnswer hub ask resumed r := by
  have ho := Hub.dispatch_outcome (hs hub) (s.flagAt (s.flagOfHub hub)) ask resumed
  rw [← askHub_fst] at ho
  rw [advance] at hr
  dsimp only at hr
  cases hp : (s.askHub hub ask resumed).1 with
  | onQueue =>
    rw [hp] at hr
    cases hr
  | onFlag =>
    rw [hp] at hr
    cases hr
  | answer fetch =>
    rw [hp] at hr ho
    cases hr
    rcases ho.answersBlock (hs hub) insists with
      ⟨rfl, hf, a, head, rest, hw⟩ | ⟨lost, head, rest, canonical, hf, hm, rfl⟩ | ⟨rfl, hst⟩
    · exact .sentAway a head rest hf hw
    · exact .event lost head rest canonical hf hm
    · exact .closed hst

theorem MayAnswer.congr {s t : System} {hub : Nat} {ask : Ask} {resumed : Bool} {r : Reply}
    (h : s.MayAnswer hub ask resumed r) (hh : t.hubs = s.hubs) : t.MayAnswer hub ask resumed r := by
  have he := hubAt_congr hh hub
  cases h with
  | sentAway a head rest first cachesForeignHead => exact .sentAway a head rest first (he ▸ cachesForeignHead)
  | event lost head rest canonical found matched =>
    exact .event lost head rest canonical (he ▸ found) matched
  | closed stopped => exact .closed (he ▸ stopped)

theorem MayAnswer.cachesForeignHead {s : System} {hub : Nat} {ask : Ask} {resumed : Bool} {r : Reply}
    (h : s.MayAnswer hub ask resumed r) (hr : r = ask.reply (.pending .outOfSeq)) :
    resumed = false ∧ ∃ a head rest, (s.hubAt hub).CachesForeignHead ask a head rest := by
  cases h with
  | sentAway a head rest first cachesForeignHead => exact ⟨first, a, head, rest, cachesForeignHead⟩
  | event lost head rest canonical => cases Ask.reply_inj_outOfSeq hr
  | closed => cases Ask.reply_inj_outOfSeq hr

/-- A call that is made in the state `s` and answers `r`: at once, or when it is resumed in the state `u`
after these moves, with whatever wakings in between after which it slept on. -/
inductive Answers (s : System) (c : Call) (r : Reply) : List Move → System → Prop where
  | atOnce (returned : (s.start c).2.1 = .returned r) : Answers s c r [] s
  | resumed (ms : List Move) (point : WaitPoint) (p : Sleeper) (slept : (s.start c).2.1 = .asleep point)
      (woken : ((s.start c).2.2.ran ms).wokenUnder s.handles = some p)
      (returned : (((s.start c).2.2.ran ms).resume p).1 = some r) :
      Answers s c r ms ((s.start c).2.2.ran ms)

theorem resume_returned {s : System} {p : Sleeper} {r : Reply} (hr : (s.resume p).1 = some r) :
    ((s.replace { p with awake := false }).advance true p.call).1 = .returned r := by
  cases hm : s.mayGoOn p with
  | true =>
    rw [(resume_advance hm).1] at hr
    cases ha : ((s.replace { p with awake := false }).advance true p.call).1 with
    | returned r' =>
      rw [ha] at hr
      cases hr
      rfl
    | asleep point =>
      rw [ha] at hr
      cases hr
  | false =>
    rw [resume, if_neg (by simp [hm])] at hr
    cases hr

theorem sleepersStep_ran (s : System) (ms : List Move) :
    s.handles ≤ (s.ran ms).handles ∧ ∀ k ∈ (s.ran ms).sleepingCalls, k ∈ s.sleepingCalls ∨ s.handles ≤ k.1 := by
  induction ms generalizing s with
  | nil => exact ⟨Nat.le_refl _, fun k hk => .inl hk⟩
  | cons m ms ih =>
    obtain ⟨hg, hj, -⟩ := sleepersStep_step s m
    obtain ⟨hg', hj'⟩ := ih (m.step s).2
    refine ⟨Nat.le_trans hg hg', fun k hk => ?_⟩
    rcases hj' k hk with h | h
    · rcases hj k h with h | ⟨-, h⟩
      · exact .inl h
      · exact .inr (Nat.le_of_eq h.symm)
    · exact .inr (Nat.le_trans hg h)

theorem Distinct.ran {s : System} (hs : s.Distinct) (ms : List Move) : (s.ran ms).Distinct := by
  induction ms generalizing s with
  | nil => exact hs
  | cons m ms ih => exact ih (hs.step m)

/-- The sleeper under the handle of a call is that call, whatever is done while it sleeps. -/
theorem call_of_wokenUnder {files : FileSystem} {before ms : List Move} {c : Call} {p : Sleeper}
    (woken : (((((empty files).ran before).start c).2.2).ran ms).wokenUnder ((empty files).ran before).handles
      = some p) : p.call = c := by
  have hp := handle_of_wokenUnder woken
  obtain ⟨hh, ht⟩ := sleepingCalls_start ((empty files).ran before) c
  have hold := ((distinct_empty files).ran before).below p.handleAndCall
  rcases (sleepersStep_ran _ ms).2 p.handleAndCall (List.mem_map_of_mem (List.mem_of_find?_eq_some woken)) with h | h
  · rcases ht with ⟨-, ht⟩ | ⟨-, ht⟩
    · rw [ht] at h
      have hlt := hold h
      rw [Sleeper.handleAndCall, hp] at hlt
      exact absurd hlt (Nat.lt_irrefl _)
    · rw [ht] at h
      rcases List.mem_append.1 h with h | h
      · have hlt := hold h
        rw [Sleeper.handleAndCall, hp] at hlt
        exact absurd hlt (Nat.lt_irrefl _)
      · exact congrArg Prod.snd (List.mem_singleton.1 h)
  · rw [hh, Sleeper.handleAndCall, hp] at h
    omega

theorem Answers.mayAnswer {files : FileSystem} {before ms : List Move} {hub : Nat} {ask : Ask} {r : Reply}
    {u : System} (insists : ask.mode = .block)
    (ha : ((empty files).ran before).Answers (.askHub hub ask) r ms u) :
    (u = (empty files).ran before ∧ u.MayAnswer hub ask false r) ∨ u.MayAnswer hub ask true r := by
  have hs := possible_ran files before
  cases ha with
  | atOnce returned =>
    have hc : Coherent { (empty files).ran before with handles := ((empty files).ran before).handles + 1 } :=
      hs.coherentAndIdle.coherent.of_hubs rfl
    exact .inl ⟨rfl, (mayAnswer_advance hc insists ((start_advance _ _).1.symm.trans returned)).congr rfl⟩
  | resumed _ point p slept woken returned =>
    have hu : Possible files (((empty files).ran before).start (.askHub hub ask)).2.2 :=
      .move _ (.onHubs (.call (.askHub hub ask))) hs
    have hr := resume_returned returned
    rw [call_of_wokenUnder woken] at hr
    refine .inr ((mayAnswer_advance ?_ insists hr).congr rfl)
    exact (hu.ran ms).coherentAndIdle.coherent.of_hubs rfl

theorem Answers.stop_mem {files : FileSystem} {before ms : List Move} {hub : Nat} {ask : Ask} {r : Reply}
    {u : System} (made : hub < ((empty files).ran before).hubs.length)
    (ha : ((empty files).ran before).Answers (.askHub hub ask) r ms u)
    (stopped : (u.hubAt hub).running = false) : .onHubs (.stop hub) ∈ before ++ ms := by
  cases ha with
  | atOnce =>
    rw [List.append_nil]
    exact stop_mem_of_not_running files before hub made stopped
  | resumed =>
    -- the call is a move as well, but none that stops a hub
    have hran : ((((empty files).ran before).start (.askHub hub ask)).2.2).ran ms =
        (empty files).ran (before ++ .onHubs (.call (.askHub hub ask)) :: ms) := by
      rw [ran_append]
      rfl
    have there : hub < ((empty files).ran (before ++ .onHubs (.call (.askHub hub ask)) :: ms)).hubs.length := by
      rw [ran_append]
      exact Nat.lt_of_lt_of_le made (length_hubs_ran _ _)
    rw [hran] at stopped
    have hm := stop_mem_of_not_running files _ hub there stopped
    rcases List.mem_append.1 hm with hm | hm
    · exact List.mem_append_left _ hm
    · rcases List.mem_cons.1 hm with hm | hm
      · cases hm
      · exact List.mem_append_right _ hm

/-- One who insists on an own event is told to come back just if the hub remembered another owner of its
head when the call was made, and then nothing has changed. Whatever else is done until the call returns, it
brings the event at the head for which it asked, or finds that the hub was stopped. -/
theorem insistent_call (files : FileSystem) (before : List Move) (hub : Nat) (ask : Ask)
    (insists : ask.mode = .block) (made : hub < ((empty files).ran before).hubs.length) :
    (∀ a head rest, (((empty files).ran before).hubAt hub).CachesForeignHead ask a head rest →
      ((empty files).ran before).start (.askHub hub ask) =
        (((empty files).ran before).handles, .returned (ask.reply (.pending .outOfSeq)),
         { (empty files).ran before with handles := ((empty files).ran before).handles + 1 })) ∧
    ∀ r ms u, ((empty files).ran before).Answers (.askHub hub ask) r ms u →
      (r = ask.reply (.pending .outOfSeq) ↔
        ∃ a head rest, (((empty files).ran before).hubAt hub).CachesForeignHead ask a head rest) ∧
      (r ≠ ask.reply (.pending .outOfSeq) →
        (∃ lost head rest canonical, (u.hubAt hub).Finds lost head rest ask.sink canonical ∧
          ask.mask.accepts canonical = true ∧ r = ask.reply (.delivered { head.event with id := canonical })) ∨
        (r = ask.reply (.pending .closed) ∧ (u.hubAt hub).running = false ∧
          .onHubs (.stop hub) ∈ before ++ ms)) := by
  have hc := (possible_ran files before).coherentAndIdle.coherent hub
  refine ⟨fun a head rest hw => start_of_cachesForeignHead hc hw, fun r ms u ha => ⟨⟨?_, ?_⟩, ?_⟩⟩
  · intro hr
    rcases ha.mayAnswer insists with ⟨rfl, h⟩ | h
    · exact (h.cachesForeignHead hr).2
    · cases (h.cachesForeignHead hr).1
  · rintro ⟨a, head, rest, hw⟩
    have hst := start_of_cachesForeignHead hc hw
    cases ha with
    | atOnce returned =>
      rw [hst] at returned
      cases returned
      rfl
    | resumed _ point p slept =>
      rw [hst] at slept
      cases slept
  · intro hr
    have hend : ∀ {resumed : Bool}, u.MayAnswer hub ask resumed r →
        (∃ lost head rest canonical, (u.hubAt hub).Finds lost head rest ask.sink canonical ∧
          ask.mask.accepts canonical = true ∧ r = ask.reply (.delivered { head.event with id := canonical })) ∨
        (r = ask.reply (.pending .closed) ∧ (u.hubAt hub).running = false ∧
          .onHubs (.stop hub) ∈ before ++ ms) := by
      intro resumed h
      cases h with
      | sentAway => exact absurd rfl hr
      | event lost head rest canonical found matched =>
        exact .inl ⟨lost, head, rest, canonical, found, matched, rfl⟩
      | closed stopped => exact .inr ⟨rfl, stopped, ha.stop_mem made stopped⟩
    rcases ha.mayAnswer insists with ⟨-, h⟩ | h
    · exact hend h
    · exact hend h

def forTheOther : List Move :=
  [.onHubs .makeFlag, .onHubs (.makeHub "h" 0), .onHubs (.addSink 0 ⟨some⟩), .onHubs (.publish 0 anEvent)]

def whileAsleep : List Move := [.onHubs (.probe 0 .any 1), .onHubs (.publish 0 anEvent), .onHubs (.resume 0),
  .onHubs (.stop 0)]

theorem insistent_call_ofSecond :
    (((empty .fresh).ran (forTheOther ++ [.onHubs (.probe 0 .any 1)])).start
        (.askHub 0 ⟨.any, .block, 1, true⟩)).2.1 = .returned (.fetched (.pending .outOfSeq)) ∧
      ∃ u, ((empty .fresh).ran forTheOther).Answers (.askHub 0 ⟨.any, .block, 1, true⟩)
          (.fetched (.pending .closed)) whileAsleep u ∧ (u.hubAt 0).running = false := by
  constructor
  · have h := (insistent_call .fresh (forTheOther ++ [.onHubs (.probe 0 .any 1)]) 0
      ⟨.any, .block, 1, true⟩ rfl (by decide)).1 ⟨0, 0, anEvent.id⟩ ⟨0, anEvent⟩ []
      ⟨by decide, by decide, rfl, rfl, fun hw => by cases hw.1⟩
    rw [h]
    rfl
  · have ha : ((empty .fresh).ran forTheOther).Answers (.askHub 0 ⟨.any, .block, 1, true⟩)
        (.fetched (.pending .closed)) whileAsleep _ :=
      .resumed whileAsleep (.queue 0) ⟨0, .askHub 0 ⟨.any, .block, 1, true⟩, .queue 0, true⟩ rfl rfl rfl
    have h := (insistent_call .fresh forTheOther 0 ⟨.any, .block, 1, true⟩ rfl (by decide)).2 _ _ _ ha
    rcases h.2 nofun with ⟨_, _, _, _, _, _, he⟩ | ⟨-, hr, -⟩
    · cases he
    · exact ⟨_, ha, hr⟩

end System
end EventHub
