import EventHub.Proofs.Hub.Rounds
import EventHub.Proofs.System.FlagWaits
set_option autoImplicit false

namespace EventHub

inductive Reply.IsError : Reply → Prop where
  | status : IsError (.status .error)
  | fetched : IsError (.fetched (.pending .error))

namespace System

variable {files : FileSystem} {s : System} {hub : Nat} {r : Reply}

/-- What is promised of the loop of the calls on a hub: its rounds drop an entry each until one pauses, whatever
others do in between, and a call ends as the last of its rounds says. -/
structure LoopLaws (s : System) (hub : Nat) : Prop where
  source : ∃ source ∈ (s.flagAt (s.flagOfHub hub)).sources, source.asynchronous = true
  rounds : ∀ ask scanned woke (ms : List Hub.Interference), (s.hubAt hub).queue.length < ms.length → ∃ p u,
    Hub.Ends (Hub.rounds ask ms ⟨s.hubAt hub, s.flagAt (s.flagOfHub hub), scanned, woke⟩)
      (s.hubAt hub).queue.length p u
  asked : ∀ ask resumed, ∃ u,
    Hub.Ends (Hub.rounds ask (List.replicate ((s.hubAt hub).queue.length + 1) .nothing)
        ⟨s.hubAt hub, s.flagAt (s.flagOfHub hub), resumed, false⟩)
      (s.hubAt hub).queue.length (s.askHub hub ask resumed).1 u

/-- What is promised of the replies in a system: none of them reports an error of a hub. -/
structure NoErrorReplies (s : System) : Prop where
  start : ∀ c r, (s.start c).2.1 = .returned r → ¬r.IsError
  resume : ∀ p ∈ s.sleepers, ∀ r, (s.resume p).1 = some r → ¬r.IsError
  probe : ∀ hub mask sink, (s.probe hub mask sink).1 ≠ .error
  hasEvent : ∀ channel mask, (s.hasEvent channel mask).1 ≠ .error

theorem AsyncSourced.askHub_ne (hs : s.AsyncSourced) (hub : Nat) (ask : Ask) (resumed : Bool) :
    (s.askHub hub ask resumed).1 ≠ .answer (.pending .error) := by
  rcases Nat.lt_or_ge hub s.hubs.length with hl | hl
  · rw [askHub_fst]
    exact (Hub.dispatch_rounds (hs.hubs hub hl) ask resumed).sound
  · rw [askHub_of_le hl]
    nofun

theorem status_ne_error {fetch : Fetch} (h : fetch ≠ .pending .error) : fetch.status ≠ .error := by
  cases fetch with
  | delivered e => nofun
  | pending st =>
    intro he
    exact h (congrArg Fetch.pending he)

theorem not_isError_reply {ask : Ask} {fetch : Fetch} (h : fetch ≠ .pending .error) : ¬(ask.reply fetch).IsError := by
  unfold Ask.reply
  split
  · intro he
    cases he
    exact h rfl
  · intro he
    have hs := status_ne_error h
    revert he
    generalize fetch.status = st at hs
    intro he
    cases he
    exact hs rfl

theorem not_isError_deliver {channel : Nat} {fetch : Fetch} (h : fetch ≠ .pending .error)
    (hr : (s.deliver channel fetch).1 = .returned r) : ¬r.IsError := by
  have hfetched : ¬(Reply.fetched fetch).IsError := @not_isError_reply ⟨.any, .noWait, 0, true⟩ fetch h
  unfold deliver at hr
  split at hr
  · cases hr
    exact hfetched
  · split at hr
    · cases hr
      nofun
    · cases hr
      exact hfetched

theorem not_isError_waitOnFlag {c : Channel} {mode : WaitMode} (hr : s.waitOnFlag c mode = .returned r) :
    ¬r.IsError := by
  unfold waitOnFlag at hr
  split at hr
  · cases hr
    nofun
  · cases hr
    nofun
  · split at hr
    · cases hr
      nofun
    · split at hr
      · cases hr
        nofun
      · cases hr
      · cases hr
        nofun

theorem not_isError_asFetch {p : Progress} (hp : ∀ r, p = .returned r → ¬r.IsError) (hr : asFetch p = .returned r) :
    ¬r.IsError := by
  unfold asFetch at hr
  split at hr
  · rename_i st
    cases hr
    intro he
    cases he
    exact hp _ rfl .status
  · exact hp r hr

theorem AsyncSourced.not_isError_advance (hs : s.AsyncSourced) {resumed : Bool} {c : Call}
    (hr : (s.advance resumed c).1 = .returned r) : ¬r.IsError := by
  cases c with
  | waitForFlag flag =>
    rw [System.advance] at hr
    split at hr
    · cases hr
      rintro ⟨⟩
    · cases hr
    · cases hr
      rintro ⟨⟩
  | askHub hub ask =>
    have hne := hs.askHub_ne hub ask resumed
    rw [System.advance] at hr
    dsimp only at hr
    revert hr hne
    cases (s.askHub hub ask resumed).1 with
    | answer fetch =>
      intro hr hne
      cases hr
      exact not_isError_reply fun h => hne (congrArg Hub.Pause.answer h)
    | onQueue => rintro ⟨⟩
    | onFlag => rintro ⟨⟩
  | fetchFrom channel mask mode =>
    rw [System.advance] at hr
    split at hr
    · cases hr
      rintro ⟨⟩
    · split at hr
      · split at hr
        · rename_i hub sink outlet _
          have hne := hs.askHub_ne hub ⟨mask, mode, sink, true⟩ resumed
          dsimp only at hr
          revert hr hne
          cases (s.askHub hub ⟨mask, mode, sink, true⟩ resumed).1 with
          | answer fetch =>
            intro hr hne
            exact not_isError_deliver (fun h => hne (congrArg Hub.Pause.answer h)) hr
          | onQueue => rintro ⟨⟩
          | onFlag => rintro ⟨⟩
        · exact not_isError_asFetch (fun _ h => not_isError_waitOnFlag h) hr
      · cases hr
        rintro ⟨⟩
  | waitOnChannel channel mode =>
    rw [System.advance] at hr
    split at hr
    · cases hr
      rintro ⟨⟩
    · exact not_isError_waitOnFlag hr

theorem Attained.probe_ne (h : Attained files s) (hub : Nat) (mask : Mask) (sink : Nat) :
    (s.probe hub mask sink).1 ≠ .error := by
  rcases Nat.lt_or_ge hub s.hubs.length with hl | hl
  · obtain ⟨due, hs⟩ := h.bitInvariant
    obtain ⟨fetch, -, ha, -⟩ := hs.askHub_answered hl ⟨mask, .noWait, sink, false⟩ rfl
    have hne := h.asyncSourced.askHub_ne hub ⟨mask, .noWait, sink, false⟩ false
    rw [probe_of_answer ha]
    exact status_ne_error fun he => hne (ha.trans (congrArg Hub.Pause.answer he))
  · rw [probe, askHub_of_le hl]
    rintro ⟨⟩

theorem Attained.hasEvent_ne (h : Attained files s) (channel : Nat) (mask : Mask) :
    (s.hasEvent channel mask).1 ≠ .error := by
  rw [hasEvent]
  split
  · rintro ⟨⟩
  · split
    · split
      · exact h.probe_ne _ mask _
      · dsimp only
        split
        · rintro ⟨⟩
        · rintro ⟨⟩
    · rintro ⟨⟩

theorem Attained.loopLaws (h : Attained files s) (hl : hub < s.hubs.length) : s.LoopLaws hub where
  source := by
    obtain ⟨due, hs⟩ := h.bitInvariant
    have ha := h.asyncSourced.hubs hub hl
    rw [(hs.counted _).asynchronous] at ha
    exact List.countP_pos_iff.1 (Nat.pos_of_ne_zero ha)
  rounds ask scanned woke ms hm := Hub.rounds_end ask ms _ (h.asyncSourced.hubs hub hl) hm
  asked ask resumed := by
    rw [askHub_fst]
    exact ⟨_, Hub.dispatch_rounds (h.asyncSourced.hubs hub hl) ask resumed⟩

theorem Attained.noErrorReplies (h : Attained files s) : s.NoErrorReplies where
  start c r hr := by
    have hs : AsyncSourced { s with handles := s.handles + 1 } := ⟨h.asyncSourced.hubs, h.asyncSourced.sleepers⟩
    rw [(start_advance s c).1] at hr
    exact hs.not_isError_advance hr
  resume p hp r hr := by
    have hs : (s.replace { p with awake := false }).AsyncSourced :=
      h.asyncSourced.replace fun flag hn => h.asyncSourced.sleepers p hp flag hn
    cases hm : s.mayGoOn p with
    | false =>
      rw [System.resume, if_neg (by simp [hm])] at hr
      cases hr
    | true =>
      rw [(resume_advance hm).1] at hr
      have hreturned : ((s.replace { p with awake := false }).advance true p.call).1 = .returned r := by
        cases hadvance : ((s.replace { p with awake := false }).advance true p.call).1 with
        | asleep point =>
          rw [hadvance] at hr
          cases hr
        | returned r' =>
          rw [hadvance] at hr
          cases hr
          rfl
      exact hs.not_isError_advance hreturned
  probe := h.probe_ne
  hasEvent := h.hasEvent_ne

/-- Wherever a call on a hub starts or goes on, its loop has come to a pause after one round more than entries are
queued, without a round that finds no head and without being refused by the flag; and no call reports an error of a
hub. -/
theorem hubs_never_fault :
    ∀ files s, Attained files s → (∀ hub < s.hubs.length, s.LoopLaws hub) ∧ s.NoErrorReplies :=
  fun _ _ h => ⟨fun _ hl => h.loopLaws hl, h.noErrorReplies⟩

def forFirst : Ask := ⟨ofFirst, .wait, 0, true⟩

def wokenOver : List Piece :=
  [.whole (.onHubs .makeFlag), .whole (.onHubs (.makeHub "h" 0)),
   .whole (.onHubs (.addSink 0 (.ofMask ofFirst none))), .whole (.onHubs (.call (.askHub 0 forFirst))),
   .whole (.onHubs (.publish 0 (.named ⟨"z.y", by decide⟩))),
   .whole (.onHubs (.publish 0 (.named ⟨"a.d", by decide⟩)))]

/-- A source joins the flag and the hub's own bit is taken away; then a sink joins; then the hub is stopped. -/
def interfered : List Hub.Interference :=
  [⟨[], false, [.addSource false, .clear 0], []⟩, ⟨[.ofMask .any none], false, [], []⟩,
   ⟨[], true, [.raise 1], [.clear 1]⟩]

theorem hubs_never_fault_wokenOver :
    let s := wokenOver.foldl Piece.step (empty .fresh)
    let t : Hub.Turn := ⟨s.hubAt 0, s.flagAt 0, true, false⟩
    (s.hubAt 0).queue.length = 2 ∧ (Hub.rounds forFirst interfered t).length = 2 ∧
      (∃ p u, Hub.Ends (Hub.rounds forFirst interfered t) 2 p u) ∧
      ∃ p ∈ s.sleepers, p.point = .flag 0 ∧ ∃ r, (s.resume p).1 = some r ∧ ¬r.IsError := by
  intro s t
  have hs : Attained .fresh s := Attained.start.through wokenOver
  obtain ⟨hhubs, hreplies⟩ := hubs_never_fault .fresh s hs
  have hrounds := (hhubs 0 (by decide)).rounds forFirst true false interfered (by decide)
  have hp : (⟨0, .askHub 0 forFirst, .flag 0, true⟩ : Sleeper) ∈ s.sleepers := List.mem_singleton.2 rfl
  have hr : (s.resume ⟨0, .askHub 0 forFirst, .flag 0, true⟩).1 =
      some (.fetched (.delivered (.named ⟨"a.d", by decide⟩))) := rfl
  exact ⟨by decide, by decide, hrounds, _, hp, rfl, _, hr, hreplies.resume _ hp _ hr⟩

end System
end EventHub
