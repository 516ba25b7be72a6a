import EventHub.Proofs.System.AsyncSources
import EventHub.Proofs.System.BlockCalls
set_option autoImplicit false

/-!
Calls that wait for anything. Whatever is raised on the flag of their hub wakes them all, but one that finds nothing
queued for anybody clears the hub's own bit before it looks at the flag again, and sleeps on if no other is raised.
So a notification of the hub itself is lost on them, and so is an event that nobody takes or that another takes first.
-/
namespace EventHub

/-- An answer to a call that waits for anything: an event, that something else happened, or the end. -/
def Fetch.IsNews (fetch : Fetch) : Prop := fetch.status ∈ [.success, .outOfSeq, .closed]

namespace Hub

/-- There is nothing for anybody in this hub, and no news on the flag but the hub's own. -/
structure NoNewsForAnyone (h : Hub) (f : Flag) : Prop where
  running : h.running = true
  refused : h.Refuses h.queue
  alone : ∀ bit, bit ≠ h.bit → f.isBitRaised bit = false

theorem Finds.not_noNewsForAnyone {h : Hub} {f : Flag} {lost rest : List Entry} {head : Entry} {sink : Nat}
    {canonical : Path} (found : h.Finds lost head rest sink canonical) : ¬ h.NoNewsForAnyone f := by
  intro hi
  have hr := hi.refused head (by rw [found.queue]; simp)
  rw [found.owner] at hr
  cases hr

theorem alone_iff {h : Hub} {f : Flag} (hf : f.Counted) :
    (f.clear h.bit).isRaised = false ↔ ∀ bit, bit ≠ h.bit → f.isBitRaised bit = false := by
  constructor
  · intro hn bit hne
    have hb := (hf.clear h.bit).isBitRaised_eq_false hn bit
    rwa [Flag.isBitRaised_clear, show (bit != h.bit) = true by simpa using hne, Bool.and_true] at hb
  · intro ha
    cases hr : (f.clear h.bit).isRaised with
    | false => rfl
    | true =>
      obtain ⟨bit, hbit⟩ := (hf.clear h.bit).isRaised_iff.1 hr
      rw [Flag.isBitRaised_clear, Bool.and_eq_true, bne_iff_ne] at hbit
      rw [ha bit hbit.2] at hbit
      cases hbit.1

/-- The ends of a call that waits for anything: it has news, or there is none for anyone and it sleeps on the flag. -/
theorem Outcome.waits {h : Hub} {flag : Flag} {ask : Ask} {scanned woke : Bool} {p : Pause} {t : Turn}
    (wait : ask.mode = .wait) (hf : flag.Counted) (asyncSourced : flag.asyncCount ≠ 0)
    (o : Outcome h flag ask scanned woke p t) :
    (h.NoNewsForAnyone flag ∧ p = .onFlag) ∨ ¬ h.NoNewsForAnyone flag ∧ ∃ fetch, p = .answer fetch ∧ fetch.IsNews := by
  cases o with
  | closed stopped =>
    refine .inr ⟨fun hi => ?_, _, rfl, by simp [Fetch.IsNews, Fetch.status]⟩
    rw [hi.running] at stopped
    cases stopped
  | idle running refused =>
    rw [wait, idlePause, Flag.asyncCount_clear, if_neg asyncSourced]
    cases hr : (flag.clear h.bit).isRaised with
    | false => exact .inl ⟨⟨running, refused, (alone_iff hf).1 hr⟩, rfl⟩
    | true =>
      refine .inr ⟨fun hi => ?_, _, rfl, by simp [Fetch.IsNews, Fetch.status]⟩
      rw [(alone_iff hf).2 hi.alone] at hr
      cases hr
  | taken lost head rest sink canonical found =>
    exact .inr ⟨found.not_noNewsForAnyone, _, rfl, by simp [Fetch.IsNews, Fetch.status]⟩
  | shown lost head rest sink canonical found =>
    exact .inr ⟨found.not_noNewsForAnyone, _, rfl, by simp [Fetch.IsNews, Fetch.status]⟩
  | held lost head rest sink canonical found unwanted insists =>
    rw [wait] at insists
    cases insists
  | sentAway lost head rest sink canonical found =>
    exact .inr ⟨found.not_noNewsForAnyone, _, rfl, by simp [Fetch.IsNews, Fetch.status]⟩

theorem Outcome.lowers {h : Hub} {flag : Flag} {ask : Ask} {scanned woke : Bool} {p : Pause} {t : Turn}
    (o : Outcome h flag ask scanned woke p t) {bit : Nat} (hb : flag.isBitRaised bit = false) :
    t.flag.isBitRaised bit = false := by
  cases o with
  | idle => simp [Flag.isBitRaised_clear, hb]
  | _ => exact hb

/-- To ask a hub without news for anyone brings none. -/
theorem Outcome.noNewsForAnyone {h : Hub} {flag : Flag} {ask : Ask} {scanned woke : Bool} {p : Pause} {t : Turn}
    (o : Outcome h flag ask scanned woke p t) (hi : h.NoNewsForAnyone flag) : t.hub.NoNewsForAnyone t.flag := by
  have halone : ∀ bit, bit ≠ h.bit → t.flag.isBitRaised bit = false := fun bit hne => o.lowers (hi.alone bit hne)
  cases o with
  | closed => exact hi
  | idle => exact ⟨hi.running, fun e he => absurd he List.not_mem_nil, halone⟩
  | taken lost head rest sink canonical found => exact absurd hi found.not_noNewsForAnyone
  | shown lost head rest sink canonical found => exact absurd hi found.not_noNewsForAnyone
  | held lost head rest sink canonical found => exact absurd hi found.not_noNewsForAnyone
  | sentAway lost head rest sink canonical found => exact absurd hi found.not_noNewsForAnyone

end Hub

namespace System

variable {files : FileSystem} {s : System} {hub : Nat} {ask : Ask} {p : Sleeper}

theorem Reached.possible (h : Reached files s) : Possible files s := by
  induction h with
  | start => exact .start
  | move s m _ _ ih => exact .move s m ih

theorem Possible.distinct (h : Possible files s) : s.Distinct := by
  induction h with
  | start => exact distinct_empty files
  | move s m _ ih => exact ih.step m

theorem Sound.point_of_wait (hs : s.Sound) (hp : p ∈ s.sleepers) (hc : p.call = .askHub hub ask)
    (wait : ask.mode = .wait) : hub < s.hubs.length ∧ p.point = .flag (s.flagOfHub hub) := by
  have ha : s.askedBy p.call = some (hub, ask) := by rw [hc]; rfl
  rcases (hs.wokenOrNoNews p hp).1.of_asks ha with ⟨hl, ⟨hm, -⟩ | ⟨-, hb⟩⟩
  · rw [wait] at hm
    cases hm
  · exact ⟨hl, hb⟩

theorem HubInvariant.noNewsForAnyone_of_not_isRaised (hs : s.HubInvariant) (hl : hub < s.hubs.length)
    (hf : (s.flagAt (s.flagOfHub hub)).isRaised = false) :
    (s.hubAt hub).NoNewsForAnyone (s.flagAt (s.flagOfHub hub)) := by
  obtain ⟨hq, hr⟩ := hs.idle_of_not_isRaised hl hf
  refine ⟨hr, ?_, fun bit _ => (hs.counted _).isBitRaised_eq_false hf bit⟩
  rw [hq]
  exact fun e he => by cases he

/-- One who was woken sleeps on if there is no news for anyone, and otherwise returns with news. -/
theorem Reached.resume_wait (h : Reached files s) (hp : p ∈ s.sleepers) (hc : p.call = .askHub hub ask)
    (wait : ask.mode = .wait) :
    ((s.hubAt hub).NoNewsForAnyone (s.flagAt (s.flagOfHub hub)) ∧ (s.resume p).1 = none) ∨
      ¬ (s.hubAt hub).NoNewsForAnyone (s.flagAt (s.flagOfHub hub)) ∧
        ∃ fetch, (s.resume p).1 = some (ask.reply fetch) ∧ fetch.IsNews := by
  have hs := h.sound
  obtain ⟨hl, hb⟩ := hs.point_of_wait hp hc wait
  have hmay : s.mayGoOn p = (s.flagAt (s.flagOfHub hub)).isRaised := by rw [mayGoOn, hb]
  cases hr : (s.flagAt (s.flagOfHub hub)).isRaised with
  | false =>
    refine .inl ⟨hs.hubInvariant.noNewsForAnyone_of_not_isRaised hl hr, ?_⟩
    rw [resume, if_neg (by rw [hmay, hr]; simp)]
  | true =>
    have o := Hub.dispatch_outcome (hs.hubInvariant.coherent hub) (s.flagAt (s.flagOfHub hub)) ask true
    have hadvance : (s.resume p).1 =
        ((s.replace { p with awake := false }).advance true (.askHub hub ask)).1.reply? := by
      rw [(resume_advance (hmay.trans hr)).1, hc]
    have hpause : ((s.replace { p with awake := false }).askHub hub ask true).1 =
        ((s.hubAt hub).dispatch (s.flagAt (s.flagOfHub hub)) ask true).1 := askHub_fst _ hub ask true
    rw [hadvance, advance]
    dsimp only
    rw [hpause]
    rcases o.waits wait (hs.hubInvariant.counted _) (h.possible.asyncSourced hub hl) with ⟨hi, he⟩ | ⟨hi, fetch, he, hn⟩
    · rw [he]
      exact .inl ⟨hi, rfl⟩
    · rw [he]
      exact .inr ⟨hi, fetch, rfl, hn⟩

def resumeAll (s : System) (handles : List Nat) : System := s.after (handles.map .resume)

theorem Reached.resumeAll (h : Reached files s) (handles : List Nat) : Reached files (s.resumeAll handles) := by
  refine h.after _ fun m hm t => ?_
  obtain ⟨handle, -, rfl⟩ := List.mem_map.1 hm
  trivial

theorem mem_sleepingCalls_of_resumeAll {handles : List Nat} {k : Nat × Call}
    (hk : k ∈ (s.resumeAll handles).sleepingCalls) :
    k ∈ s.sleepingCalls := by
  induction handles generalizing s with
  | nil => exact hk
  | cons handle handles ih =>
    rcases (sleepersStep_step s (.onHubs (.resume handle))).joined k (ih hk) with h | ⟨h, -⟩
    · exact h
    · cases h

/-- What becomes of one who waits for anything: its call returns with news when it goes on, or it still sleeps. -/
inductive ReturnsOrSleeps (s : System) (p : Sleeper) (ask : Ask) (handles : List Nat) : Prop where
  | returns (before after : List Nat) (q : Sleeper) (fetch : Fetch) (split : handles = before ++ p.handle :: after)
      (woken : (s.resumeAll before).wokenUnder p.handle = some q) (call : q.call = p.call)
      (returned : ((s.resumeAll before).resume q).1 = some (ask.reply fetch)) (news : fetch.IsNews)
      (gone : p.handleAndCall ∉ (s.resumeAll handles).sleepingCalls)
  | sleeps (there : p.handleAndCall ∈ (s.resumeAll handles).sleepingCalls)

/-- If a call is no longer among those that sleep, it was the one that went on. -/
theorem Reached.returns_resume (h : Reached files s) (hp : p ∈ s.sleepers) (hc : p.call = .askHub hub ask)
    (wait : ask.mode = .wait) {handle : Nat}
    (hgone : p.handleAndCall ∉ ((HubMove.resume handle).step s).2.sleepingCalls) :
    handle = p.handle ∧ ∃ q fetch, s.wokenUnder p.handle = some q ∧ q.call = p.call ∧
      (s.resume q).1 = some (ask.reply fetch) ∧ fetch.IsNews := by
  have ht : p.handleAndCall ∈ s.sleepingCalls := List.mem_map_of_mem hp
  have hhandle : handle = p.handle := by
    by_contra hne
    refine hgone ((sleepersStep_step s (.onHubs (.resume handle))).kept _ ht fun he => hne ?_)
    cases he
    rfl
  subst hhandle
  rw [HubMove.step] at hgone
  cases hw : s.wokenUnder p.handle with
  | none =>
    rw [hw] at hgone
    exact absurd ht hgone
  | some q =>
    rw [hw] at hgone
    have hq : q ∈ s.sleepers := List.mem_of_find?_eq_some hw
    have hsleeping : q.handleAndCall = p.handleAndCall :=
      h.possible.distinct.inj _ (List.mem_map_of_mem hq) _ ht (handle_of_wokenUnder hw)
    have hcall : q.call = p.call := congrArg Prod.snd hsleeping
    refine ⟨rfl, q, ?_⟩
    rcases h.resume_wait hq (hcall.trans hc) wait with ⟨-, hn⟩ | ⟨-, fetch, hr, hn⟩
    · exact absurd (mem_sleepingCalls_resume ht fun _ => ⟨hsleeping.symm, hn⟩) hgone
    · exact ⟨fetch, rfl, hcall, hr, hn⟩

theorem Reached.returnsOrSleeps (h : Reached files s) (hp : p ∈ s.sleepers) (hc : p.call = .askHub hub ask)
    (wait : ask.mode = .wait) (handles : List Nat) : s.ReturnsOrSleeps p ask handles := by
  induction handles generalizing s p with
  | nil => exact .sleeps (List.mem_map_of_mem hp)
  | cons handle handles ih =>
    have hnext : Reached files ((HubMove.resume handle).step s).2 := .move s (.onHubs (.resume handle)) h trivial
    by_cases ht : p.handleAndCall ∈ ((HubMove.resume handle).step s).2.sleepingCalls
    · obtain ⟨p', hp', hsleeping⟩ := List.mem_map.1 ht
      have hcall : p'.call = p.call := congrArg Prod.snd hsleeping
      have hhandle : p'.handle = p.handle := congrArg Prod.fst hsleeping
      cases ih hnext hp' (hcall.trans hc) with
      | returns before after q fetch split woken call returned news gone =>
        rw [hhandle] at split woken
        rw [hsleeping] at gone
        refine .returns (handle :: before) after q fetch ?_ woken (call.trans hcall) returned news gone
        rw [split]
        rfl
      | sleeps there =>
        rw [hsleeping] at there
        exact .sleeps there
    · obtain ⟨rfl, q, fetch, woken, call, returned, news⟩ := h.returns_resume hp hc wait ht
      exact .returns [] handles q fetch rfl woken call returned news fun hk => ht (mem_sleepingCalls_of_resumeAll hk)

theorem Reached.unowned_resume (h : Reached files s) {flag bit : Nat} (hu : s.Unowned flag bit) (handle : Nat) :
    ((HubMove.resume handle).step s).2.Unowned flag bit ∧
      (((HubMove.resume handle).step s).2.flagAt flag).isBitRaised bit = (s.flagAt flag).isBitRaised bit := by
  obtain ⟨due, ht⟩ := h.possible.bitInvariant
  have hlength : ((HubMove.resume handle).step s).2.hubs.length = s.hubs.length := by
    rw [HubMove.step]
    split
    · rfl
    · exact ((ran_resume s _).mayAsk 0).length
  constructor
  · intro id hid
    rw [hlength] at hid
    obtain ⟨hflag, hbit⟩ := ht.place_step hid (.onHubs (.resume handle))
    rw [show ((HubMove.resume handle).step s).2.flagOfHub id = s.flagOfHub id from hflag,
      show (((HubMove.resume handle).step s).2.hubAt id).bit = (s.hubAt id).bit from hbit]
    exact hu id hid
  · have htouches : TouchesOnly s _ _ [] := ht.stepOnHubs (.resume handle) trivial
    refine htouches.others flag bit fun hb => ?_
    -- the bit that a call may clear is a hub's
    obtain ⟨q, -, hq⟩ := Option.bind_eq_some_iff.1 hb
    obtain ⟨asked, -, hheld⟩ := Option.bind_eq_some_iff.1 hq
    obtain ⟨entry, he, hpair⟩ := Option.map_eq_some_iff.1 hheld
    obtain ⟨hl, -⟩ := List.getElem?_eq_some_iff.1 he
    rw [hubs_getElem? hl] at he
    cases he
    cases hpair
    exact hu asked.1 hl rfl rfl

theorem Reached.raised_resumeAll (h : Reached files s) {flag bit : Nat} (hu : s.Unowned flag bit)
    (hr : (s.flagAt flag).isBitRaised bit = true) (handles : List Nat) :
    ((s.resumeAll handles).flagAt flag).isBitRaised bit = true := by
  induction handles generalizing s with
  | nil => exact hr
  | cons handle handles ih =>
    obtain ⟨hu', hb⟩ := h.unowned_resume hu handle
    exact ih (.move s (.onHubs (.resume handle)) h trivial) hu' (hb.trans hr)

theorem resumeAll_eq_ran (s : System) (handles : List Nat) :
    s.resumeAll handles = s.ran (handles.map fun handle => .onHubs (.resume handle)) := by
  induction handles generalizing s with
  | nil => rfl
  | cons handle handles ih => exact ih _

theorem Possible.flagOfHub_ran (h : Possible files s) (hl : hub < s.hubs.length) (ms : List Move) :
    (s.ran ms).flagOfHub hub = s.flagOfHub hub := by
  induction ms generalizing s with
  | nil => rfl
  | cons m ms ih =>
    obtain ⟨due, ht⟩ := h.bitInvariant
    exact (ih (.move s m h) (Nat.lt_of_lt_of_le hl (length_hubs_step s m))).trans (ht.place_step hl m).1

def NoNewsAt (s : System) (hub : Nat) : Prop := (s.hubAt hub).NoNewsForAnyone (s.flagAt (s.flagOfHub hub))

theorem NoNewsAt.congr {t : System} (h : s.NoNewsAt hub) (hf : t.flags = s.flags) (hh : t.hubs = s.hubs) :
    t.NoNewsAt hub := by
  rw [NoNewsAt, hubAt_congr hh, flagOfHub_congr hh, flagAt_congr hf]
  exact h

theorem NoNewsAt.askHub (hi : s.NoNewsAt hub) (hs : s.Coherent) (other : Nat) (question : Ask) (resumed : Bool) :
    (s.askHub other question resumed).2.NoNewsAt hub := by
  rw [NoNewsAt] at hi ⊢
  have o := Hub.dispatch_outcome (hs other) (s.flagAt (s.flagOfHub other)) question resumed
  rw [flagOfHub_askHub, hubAt_askHub, flagAt_askHub]
  by_cases he : hub = other
  · subst he
    have hl := lt_of_running hi.running
    rw [if_pos rfl]
    split
    · exact o.noNewsForAnyone hi
    · rename_i hn
      -- a hub on a flag that is not there is on one without bits
      have hflag : s.flagAt (s.flagOfHub hub) = .empty :=
        flagAt_of_le (Nat.le_of_not_lt fun hlt => hn ⟨hl, rfl, hlt⟩)
      have hi' := o.noNewsForAnyone hi
      refine ⟨hi'.running, hi'.refused, fun bit _ => ?_⟩
      rw [hflag]
      rfl
  · rw [if_neg he]
    split
    · rename_i hf
      rw [hf.2.1] at hi
      exact ⟨hi.running, hi.refused, fun bit hne => o.lowers (hi.alone bit hne)⟩
    · exact hi

theorem NoNewsAt.deliver (hi : s.NoNewsAt hub) (channel : Nat) (fetch : Fetch) :
    (s.deliver channel fetch).2.NoNewsAt hub := by
  have h := sameBits_deliver s channel fetch
  exact hi.congr h.flags h.hubs

theorem NoNewsAt.advance (hi : s.NoNewsAt hub) (hs : s.Coherent) (resumed : Bool) (c : Call) :
    (s.advance resumed c).2.NoNewsAt hub := by
  cases c with
  | waitForFlag flag =>
    rw [System.advance]
    split <;> exact hi
  | askHub other question =>
    have h := hi.askHub hs other question resumed
    rw [System.advance]
    dsimp only
    split <;> exact h
  | fetchFrom channel mask mode =>
    rw [System.advance]
    split
    · exact hi
    · split
      · split
        · rename_i other sink outlet _
          have h := hi.askHub hs other ⟨mask, mode, sink, true⟩ resumed
          dsimp only
          split
          · exact h.deliver channel _
          · exact h
        · exact hi
      · exact hi
  | waitOnChannel channel mode =>
    rw [System.advance]
    split <;> exact hi

theorem NoNewsAt.ran {c : Call} {reply : Option Reply} {t : System} (hi : s.NoNewsAt hub) (hs : s.Coherent)
    (h : Ran s c reply t) : t.NoNewsAt hub := by
  cases h with
  | stayed _ still => exact hi.congr still.flags still.hubs
  | went s' _ resumed before after =>
    have hb := hi.congr before.flags before.hubs
    exact (hb.advance (hs.of_hubs before.hubs) resumed c).congr after.flags after.hubs

theorem NoNewsAt.resume (hi : s.NoNewsAt hub) (hs : s.Coherent) (handle : Nat) :
    ((HubMove.resume handle).step s).2.NoNewsAt hub := by
  rw [HubMove.step]
  split
  · exact hi
  · exact hi.ran hs (ran_resume s _)

theorem NoNewsAt.notify (hi : s.NoNewsAt hub) : (s.notify hub).NoNewsAt hub := by
  have hl := lt_of_running hi.running
  have hhubs : (s.notify hub).hubs = s.hubs := by
    unfold System.notify
    split
    · rfl
    · exact hubs_raise s _ _
  rw [NoNewsAt, hubAt_notify, flagOfHub_congr hhubs, System.notify, hubs_getElem? hl]
  dsimp only
  rw [flagAt_raise, if_pos rfl]
  refine ⟨hi.running, hi.refused, fun bit hne => ?_⟩
  rw [Flag.isBitRaised_raise, hi.alone bit hne]
  simp [hne]

/-- As long as there is no news nobody who waits for anything returns, whoever else goes on. -/
theorem Reached.sleeps_of_noNewsAt (h : Reached files s) (hi : s.NoNewsAt hub) (hp : p ∈ s.sleepers)
    (hc : p.call = .askHub hub ask) (wait : ask.mode = .wait) (handles : List Nat) :
    p.handleAndCall ∈ (s.resumeAll handles).sleepingCalls := by
  induction handles generalizing s p with
  | nil => exact List.mem_map_of_mem hp
  | cons handle handles ih =>
    have ht : p.handleAndCall ∈ ((HubMove.resume handle).step s).2.sleepingCalls := by
      by_contra hgone
      obtain ⟨-, q, fetch, hw, hcall, hr, -⟩ := h.returns_resume hp hc wait hgone
      rcases h.resume_wait (List.mem_of_find?_eq_some hw) (hcall.trans hc) wait with ⟨-, hn⟩ | ⟨hn, -⟩
      · rw [hr] at hn
        cases hn
      · exact hn hi
    obtain ⟨p', hp', hsleeping⟩ := List.mem_map.1 ht
    have hcall : p'.call = .askHub hub ask := (congrArg Prod.snd hsleeping).trans hc
    have hnext : Reached files ((HubMove.resume handle).step s).2 := .move s (.onHubs (.resume handle)) h trivial
    have hlast := ih hnext (hi.resume h.possible.coherentAndIdle.coherent handle) hp' hcall
    rw [hsleeping] at hlast
    exact hlast

def NobodyAwake (s : System) : Prop := ∀ p ∈ s.sleepers, p.awake = false

structure WaitLaws (s : System) (hub : Nat) (ask : Ask) (p : Sleeper) : Prop where
  woken : (s.flagAt (s.flagOfHub hub)).isRaised = true → p.awake = true
  stays : (s.resume p).1 = none ↔ s.NoNewsAt hub
  returnsOrSleeps : ∀ handles, s.ReturnsOrSleeps p ask handles
  idle : ∀ handles, (s.resumeAll handles).NobodyAwake → p.handleAndCall ∈ (s.resumeAll handles).sleepingCalls →
    ((s.resumeAll handles).hubAt hub).running = true ∧ ((s.resumeAll handles).hubAt hub).queue = [] ∧
      ∀ bit, ((s.resumeAll handles).flagAt (s.flagOfHub hub)).isBitRaised bit = false
  lasting : ∀ handles, (s.resumeAll handles).NobodyAwake → ∀ bit, s.Unowned (s.flagOfHub hub) bit →
    (s.flagAt (s.flagOfHub hub)).isBitRaised bit = true → p.handleAndCall ∉ (s.resumeAll handles).sleepingCalls
  stopped : (s.hubAt hub).running = false → ∀ handles, (s.resumeAll handles).NobodyAwake →
    p.handleAndCall ∉ (s.resumeAll handles).sleepingCalls
  ignores : p.awake = false → ∀ handles, p.handleAndCall ∈ ((s.notify hub).resumeAll handles).sleepingCalls

/-- Whatever is raised on the flag of a hub wakes all who wait on it for anything. Whoever goes on returns with news,
unless nothing is queued for anybody and no bit but the hub's own is raised; then it sleeps on. So once nobody is left
to go on, whoever still sleeps does so on a running hub with an empty queue and a flag without news. A bit that no hub
holds makes all of them return, and so does a stop; a notification of the hub, when nothing else happens, none. -/
theorem waiting_calls (h : Reached files s) (hp : p ∈ s.sleepers) (hc : p.call = .askHub hub ask)
    (wait : ask.mode = .wait) : s.WaitLaws hub ask p := by
  have hs := h.sound
  obtain ⟨hl, hb⟩ := hs.point_of_wait hp hc wait
  have hplace (handles : List Nat) : (s.resumeAll handles).flagOfHub hub = s.flagOfHub hub := by
    rw [resumeAll_eq_ran]
    exact h.possible.flagOfHub_ran hl _
  have hidle (handles : List Nat) (quiet : (s.resumeAll handles).NobodyAwake)
      (ht : p.handleAndCall ∈ (s.resumeAll handles).sleepingCalls) :
      ((s.resumeAll handles).hubAt hub).running = true ∧ ((s.resumeAll handles).hubAt hub).queue = [] ∧
        ∀ bit, ((s.resumeAll handles).flagAt (s.flagOfHub hub)).isBitRaised bit = false := by
    obtain ⟨q, hq, hsleeping⟩ := List.mem_map.1 ht
    have hcall : q.call = .askHub hub ask := (congrArg Prod.snd hsleeping).trans hc
    have ha : (s.resumeAll handles).askedBy q.call = some (hub, ask) := by rw [hcall]; rfl
    have hright := no_lost_wakeup (h.resumeAll handles) quiet q hq
    obtain ⟨-, hpoint⟩ := (h.resumeAll handles).sound.point_of_wait hq hcall wait
    rw [hplace] at hpoint
    exact ⟨hright.running hub ask ha, hright.nothing hub ask ha wait, hright.clear _ hpoint⟩
  have hnews : p.awake = true ∨ (s.flagAt (s.flagOfHub hub)).isRaised = false := by
    have hr := (hs.wokenOrNoNews p hp).2
    rw [hb] at hr
    exact hr
  refine ⟨fun hr => ?_, ?_, h.returnsOrSleeps hp hc wait, hidle, fun handles quiet bit hu hr ht => ?_,
    fun hr handles quiet ht => ?_, fun hawake handles => ?_⟩
  · rcases hnews with ha | hn
    · exact ha
    · rw [hr] at hn
      cases hn
  · rcases h.resume_wait hp hc wait with ⟨hi, hn⟩ | ⟨hi, fetch, hr, -⟩
    · exact iff_of_true hn hi
    · exact iff_of_false (by rw [hr]; exact Option.some_ne_none _) hi
  · have hclear := (hidle handles quiet ht).2.2 bit
    rw [h.raised_resumeAll hu hr handles] at hclear
    cases hclear
  · have hrun := (hidle handles quiet ht).1
    rw [resumeAll_eq_ran, (frozen_ran hl hr _).running] at hrun
    cases hrun
  · rcases hnews with ha | hn
    · rw [hawake] at ha
      cases ha
    · -- the notification raises the one bit that whoever goes on clears first
      have hi : (s.notify hub).NoNewsAt hub := NoNewsAt.notify (hs.hubInvariant.noNewsForAnyone_of_not_isRaised hl hn)
      have ht : p.handleAndCall ∈ (s.notify hub).sleepingCalls := by
        rw [(sameSleepingCalls_of_basicSteps (basicSteps_notify s hub)).sleepingCalls]
        exact List.mem_map_of_mem hp
      obtain ⟨q, hq, hsleeping⟩ := List.mem_map.1 ht
      have hcall : q.call = .askHub hub ask := (congrArg Prod.snd hsleeping).trans hc
      rw [← hsleeping]
      exact (Reached.move s (.onHubs (.notify hub)) h trivial).sleeps_of_noNewsAt hi hq hcall wait handles

def beforeNews : List HubMove :=
  [.makeFlag, .addSource 0 true, .makeHub "h" 0, .addSink 0 ⟨some⟩, .call (.askHub 0 ⟨.any, .wait, 0, true⟩)]

def waiter (awake : Bool) : Sleeper := ⟨0, .askHub 0 ⟨.any, .wait, 0, true⟩, .flag 0, awake⟩

/-- The hub's own notification leaves the call asleep; the bit of the other source lets it return. -/
theorem waiting_calls_notified :
    let s := (empty .fresh).after beforeNews
    s.sleepers = [waiter false] ∧ (s.notify 0).sleepers = [waiter true] ∧
      ((s.notify 0).resumeAll [0]).sleepers = [waiter false] ∧
      (∀ handles, (waiter false).handleAndCall ∈ ((s.notify 0).resumeAll handles).sleepingCalls) ∧
      (s.raise 0 0).WaitLaws 0 ⟨.any, .wait, 0, true⟩ (waiter true) ∧ ((s.raise 0 0).resumeAll [0]).sleepers = [] := by
  intro s
  have h : Reached .fresh s := by
    refine Reached.start.after beforeNews fun m hm t => ?_
    simp only [beforeNews, List.mem_cons, List.not_mem_nil, or_false] at hm
    rcases hm with rfl | rfl | rfl | rfl | rfl <;> trivial
  have hw : s.WaitLaws 0 ⟨.any, .wait, 0, true⟩ (waiter false) := waiting_calls h List.mem_cons_self rfl rfl
  have hraised : Reached .fresh (s.raise 0 0) := .move s (.onHubs (.raise 0 0)) h trivial
  exact ⟨rfl, rfl, rfl, hw.ignores rfl, waiting_calls hraised List.mem_cons_self rfl rfl, rfl⟩

end System
end EventHub
