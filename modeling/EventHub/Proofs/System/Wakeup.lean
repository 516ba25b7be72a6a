import EventHub.Proofs.System.WakesAffected
import EventHub.Proofs.System.Moves
set_option autoImplicit false

/-!
No wake-up is lost. Every move keeps all sleepers safe, so once nobody who was woken is left, those who
sleep have nothing to do.
-/
namespace EventHub

theorem Flag.isRaised_of_wait {f : Flag} (h : f.wait = .ok false) : f.isRaised = false := by
  unfold wait at h
  cases hr : f.isRaised with
  | true => simp [hr] at h
  | false => rfl

namespace System

theorem HubInvariant.maySleep_askHub {s : System} (hs : s.HubInvariant) (hub : Nat) (ask : Ask) (resumed : Bool) :
    (s.askHub hub ask resumed).1.MaySleep ask ((s.askHub hub ask resumed).2.hubAt hub)
        ((s.askHub hub ask resumed).2.flagAt (s.flagOfHub hub)) ∧
      ((∃ fetch, (s.askHub hub ask resumed).1 = .answer fetch) ∨ hub < s.hubs.length) := by
  rcases Nat.lt_or_ge hub s.hubs.length with hl | hl
  · have hflag := flagAt_askHub s hub ask resumed (s.flagOfHub hub)
    rw [if_pos ⟨hl, rfl, lt_of_isIssued (hs.issued hub hl)⟩] at hflag
    refine ⟨?_, .inr hl⟩
    rw [askHub_fst, hubAt_askHub, if_pos rfl, hflag]
    exact (Hub.dispatch_outcome (hs.coherent hub) (s.flagAt (s.flagOfHub hub)) ask resumed).maySleep
  · rw [askHub_of_le hl]
    exact ⟨trivial, .inl ⟨_, rfl⟩⟩

/-- What a call comes to: everything is in order, nobody was forgotten, and if the call goes to sleep it may
do so. -/
structure Advanced (s : System) (c : Call) (p : Progress) (t : System) : Prop where
  hubInvariant : t.HubInvariant
  wakesAffected : WakesAffected s t
  asleep : ∀ point, p = .asleep point → t.SleepsOn c point ∧ t.NoNewsFor c point

theorem Advanced.returned {s t : System} {c : Call} {r : Reply} (ho : t.HubInvariant) (hc : WakesAffected s t) :
    Advanced s c (.returned r) t := ⟨ho, hc, fun point h => by cases h⟩

theorem WakesAffected.askedBy_eq {s t : System} (h : WakesAffected s t) {c : Call} {q : Nat × Ask}
    (ha : s.askedBy c = some q) : t.askedBy c = some q := by
  obtain ⟨woken, hsp, -⟩ := h
  exact hsp.askedBy_eq ha

theorem HubInvariant.advanced_askHub {s : System} (hs : s.HubInvariant) {c : Call} {hub : Nat} {ask : Ask}
    (ha : s.askedBy c = some (hub, ask)) (resumed : Bool) :
    match (s.askHub hub ask resumed).2.pausePoint hub (s.askHub hub ask resumed).1 with
    | .inl _ => True
    | .inr point => Advanced s c (.asleep point) (s.askHub hub ask resumed).2 := by
  have ho := hs.askHub hub ask resumed
  have hc := hs.wakesAffected_askHub hub ask resumed
  obtain ⟨hm, hl⟩ := hs.maySleep_askHub hub ask resumed
  have ha' := hc.askedBy_eq ha
  rw [← flagOfHub_askHub s hub ask resumed] at hm
  rw [← length_hubs_askHub s hub ask resumed] at hl
  revert hm hl
  cases (s.askHub hub ask resumed).1 with
  | answer fetch => exact fun _ _ => trivial
  | onQueue =>
    rintro ⟨hm, hb⟩ (⟨fetch, hl⟩ | hl)
    · cases hl
    · refine ⟨ho, hc, fun point h => ?_⟩
      cases h
      refine ⟨.forOwn c hub ask hl ha' hm, fun other h => ?_⟩
      rw [ha'] at h
      cases h
      exact hb
  | onFlag =>
    rintro ⟨hm, -, hr⟩ (⟨fetch, hl⟩ | hl)
    · cases hl
    · refine ⟨ho, hc, fun point h => ?_⟩
      cases h
      exact ⟨.forAny c hub ask hl ha' hm, hr⟩

theorem HubInvariant.advanced_waitOnFlag {s : System} (hs : s.HubInvariant) {c : Call} {channel : Nat} {ch : Channel}
    (hch : s.channels[channel]? = some ch) (mode : WaitMode)
    (hc : (∃ mask mode, c = .fetchFrom channel mask mode) ∨ ∃ mode, c = .waitOnChannel channel mode)
    (ha : s.askedBy c = none) : Advanced s c (s.waitOnFlag ch mode) s := by
  unfold waitOnFlag
  split
  · exact .returned hs (.refl s)
  · exact .returned hs (.refl s)
  · split
    · exact .returned hs (.refl s)
    · rename_i b hb
      split
      · exact .returned hs (.refl s)
      · rename_i hw
        refine ⟨hs, .refl s, fun point h => ?_⟩
        cases h
        exact ⟨.forChannel c channel b hc ha (by simp [bindingOf, hch, hb]), Flag.isRaised_of_wait hw⟩
      · exact .returned hs (.refl s)

theorem Advanced.asFetch {s t : System} {c : Call} {p : Progress} (h : Advanced s c p t) :
    Advanced s c (asFetch p) t := by
  unfold System.asFetch
  split
  · exact .returned h.hubInvariant h.wakesAffected
  · exact h

theorem HubInvariant.advanced_deliver {s t : System} {c : Call} (ht : t.HubInvariant) (hc : WakesAffected s t)
    (channel : Nat)
    (fetch : Fetch) : Advanced s c (t.deliver channel fetch).1 (t.deliver channel fetch).2 := by
  cases fetch with
  | pending st => exact .returned ht hc
  | delivered e =>
    have hsame := sameKindsAndBindings_changeChannel t channel (fun ch fs => ch.recordFetch fs e)
      fun ch fs => ch.kindAndBinding_recordFetch fs e
    rw [deliver]
    split
    · rename_i heq
      rw [heq] at hsame
      exact .returned (ht.of_sameKindsAndBindings hsame) (hc.trans hsame.wakesAffected)
    · rename_i heq
      rw [heq] at hsame
      exact .returned (ht.of_sameKindsAndBindings hsame) (hc.trans hsame.wakesAffected)

theorem HubInvariant.advanced_waitForFlag {s : System} (hs : s.HubInvariant) (resumed : Bool) (flag : Nat) :
    Advanced s (.waitForFlag flag) (s.advance resumed (.waitForFlag flag)).1
      (s.advance resumed (.waitForFlag flag)).2 := by
  rw [System.advance]
  split
  · exact .returned hs (.refl s)
  · rename_i hw
    refine ⟨hs, .refl s, fun point h => ?_⟩
    cases h
    exact ⟨.forFlag flag, Flag.isRaised_of_wait hw⟩
  · exact .returned hs (.refl s)

theorem HubInvariant.advanced_fetchFrom {s : System} (hs : s.HubInvariant) (resumed : Bool) (channel : Nat)
    (mask : Mask) (mode : WaitMode) :
    Advanced s (.fetchFrom channel mask mode) (s.advance resumed (.fetchFrom channel mask mode)).1
      (s.advance resumed (.fetchFrom channel mask mode)).2 := by
  rw [System.advance]
  split
  · exact .returned hs (.refl s)
  · rename_i ch hch
    have hk := kindOf_of_getElem? hch
    split
    · split
      · rename_i hub sink outlet hkind
        rw [hkind] at hk
        have ha : s.askedBy (.fetchFrom channel mask mode) = some (hub, ⟨mask, mode, sink, true⟩) := by
          simp only [askedBy, hk]
        have h := hs.advanced_askHub ha resumed
        dsimp only
        split
        · exact (hs.askHub hub _ resumed).advanced_deliver (hs.wakesAffected_askHub hub _ resumed) channel _
        · rename_i heq
          rw [heq] at h
          exact h
      · rename_i hkind
        have ha : s.askedBy (.fetchFrom channel mask mode) = none := by
          simp only [askedBy, hk]
          split
          · rename_i heq
            exact absurd (Option.some.inj heq) (hkind _ _ _)
          · rfl
        exact (hs.advanced_waitOnFlag hch mode (.inl ⟨mask, mode, rfl⟩) ha).asFetch
    · exact .returned hs (.refl s)

theorem HubInvariant.advance {s : System} (hs : s.HubInvariant) (resumed : Bool) (c : Call) :
    Advanced s c (s.advance resumed c).1 (s.advance resumed c).2 := by
  cases c with
  | waitForFlag flag => exact hs.advanced_waitForFlag resumed flag
  | askHub hub ask =>
    have h := hs.advanced_askHub (c := .askHub hub ask) rfl resumed
    rw [System.advance]
    dsimp only
    split
    · exact .returned (hs.askHub hub ask resumed) (hs.wakesAffected_askHub hub ask resumed)
    · rename_i heq
      rw [heq] at h
      exact h
  | fetchFrom channel mask mode => exact hs.advanced_fetchFrom resumed channel mask mode
  | waitOnChannel channel mode =>
    rw [System.advance]
    split
    · exact .returned hs (.refl s)
    · rename_i ch hch
      exact hs.advanced_waitOnFlag hch mode (.inr ⟨mode, rfl⟩) rfl

/-- Everything is in order, and every sleeper was woken or has no news. -/
structure Sound (s : System) : Prop where
  hubInvariant : s.HubInvariant
  wokenOrNoNews : ∀ p ∈ s.sleepers, s.WokenOrNoNews p

theorem sound_empty (files : FileSystem) : (empty files).Sound :=
  ⟨hubInvariant_empty files, fun p hp => by cases hp⟩

theorem Sound.of_wakesAffected {s t : System} (hs : s.Sound) (ho : t.HubInvariant) (hc : WakesAffected s t) :
    t.Sound where
  hubInvariant := ho
  wokenOrNoNews p hp := hc.wokenOrNoNews (fun _ => True) (fun p hp _ => hs.wokenOrNoNews p hp) p hp trivial

theorem WokenOrNoNews.withSleepers {s : System} {p : Sleeper} (hp : s.WokenOrNoNews p) (sleepers : List Sleeper)
    (handles : Nat) : WokenOrNoNews { s with sleepers := sleepers, handles := handles } p := by
  have h : AffectsOnly s { s with sleepers := sleepers, handles := handles } fun _ => false :=
    .of_eq _ rfl rfl fun _ _ h => h
  exact h.wokenOrNoNews hp

theorem Sound.start {s : System} (hs : s.Sound) (c : Call) : (s.start c).2.2.Sound := by
  have hs' : Sound { s with handles := s.handles + 1 } :=
    hs.of_wakesAffected (hs.hubInvariant.congr rfl rfl fun _ _ h => h) (wakesAffected_of_eq rfl rfl rfl rfl)
  have ha := hs'.hubInvariant.advance false c
  have hwoken := hs'.of_wakesAffected ha.hubInvariant ha.wakesAffected
  rw [System.start]
  split
  · rename_i heq
    rw [heq] at hwoken
    exact hwoken
  · rename_i point t heq
    rw [heq] at hwoken ha
    refine ⟨hwoken.hubInvariant.congr rfl rfl fun _ _ h => h, fun p hp => ?_⟩
    rcases List.mem_append.1 hp with hp | hp
    · exact (hwoken.wokenOrNoNews p hp).withSleepers _ _
    · rw [List.mem_singleton.1 hp]
      obtain ⟨hb, hr⟩ := ha.asleep point rfl
      have hnew : t.WokenOrNoNews ⟨s.handles, c, point, false⟩ := ⟨hb, .inr hr⟩
      exact hnew.withSleepers _ _

theorem mem_replace {s : System} {p q : Sleeper} (hq : q ∈ (s.replace p).sleepers) :
    q = p ∨ q ∈ s.sleepers ∧ q.handle ≠ p.handle := by
  obtain ⟨r, hr, rfl⟩ := List.mem_map.1 hq
  split
  · exact .inl rfl
  · rename_i hne
    exact .inr ⟨hr, hne⟩

theorem Sound.resume {s : System} (hs : s.Sound) {p : Sleeper} (hp : p ∈ s.sleepers) :
    (s.resume p).2.Sound := by
  obtain ⟨hb, -⟩ := hs.wokenOrNoNews p hp
  -- the sleeper that goes on is neither woken nor without news meanwhile, so the invariant is kept for the others
  have horderly : (s.replace { p with awake := false }).HubInvariant :=
    hs.hubInvariant.congr rfl rfl fun _ _ h => h
  have hothers : ∀ q ∈ (s.replace { p with awake := false }).sleepers, q.handle ≠ p.handle →
      (s.replace { p with awake := false }).WokenOrNoNews q := by
    intro q hq hne
    rcases mem_replace hq with rfl | ⟨hq, -⟩
    · exact absurd rfl hne
    · exact (hs.wokenOrNoNews q hq).withSleepers _ _
  have ha := horderly.advance true p.call
  have hwoken := ha.wakesAffected.wokenOrNoNews (· ≠ p.handle) hothers
  rw [System.resume]
  split
  · split
    · rename_i heq
      rw [heq] at ha hwoken
      refine ⟨ha.hubInvariant.congr rfl rfl fun _ _ h => h, fun q hq => ?_⟩
      obtain ⟨hq, hne⟩ := List.mem_filter.1 hq
      exact (hwoken q hq (by simpa using hne)).withSleepers _ _
    · rename_i point t heq
      rw [heq] at ha hwoken
      refine ⟨ha.hubInvariant.congr rfl rfl fun _ _ h => h, fun q hq => ?_⟩
      rcases mem_replace hq with rfl | ⟨hq, hne⟩
      · obtain ⟨hb, hr⟩ := ha.asleep point rfl
        have hnew : t.WokenOrNoNews { p with point := point, awake := false } := ⟨hb, .inr hr⟩
        exact hnew.withSleepers _ _
      · exact (hwoken q hq hne).withSleepers _ _
  · rename_i hstay
    refine ⟨horderly, fun q hq => ?_⟩
    rcases mem_replace hq with rfl | ⟨hq, -⟩
    · -- only a sleeper on a flag that is not raised any more stays
      have hnew : s.WokenOrNoNews { p with awake := false } := by
        refine ⟨hb, .inr ?_⟩
        unfold mayGoOn at hstay
        cases hpoint : p.point with
        | queue hub => simp [hpoint] at hstay
        | flag flag => simpa [hpoint, NoNewsFor] using hstay
      exact hnew.withSleepers _ _
    · exact (hs.wokenOrNoNews q hq).withSleepers _ _

/-- A bit may be cleared from outside if it is not a hub's. -/
def Allows (s : System) : Move → Prop
  | .onHubs (.clear flag bit) => s.Unowned flag bit
  | _ => True

theorem Sound.stepOnHubs {s : System} (hs : s.Sound) (m : HubMove) (ha : s.Allows (.onHubs m)) :
    (m.step s).2.Sound := by
  have ho := hs.hubInvariant
  cases m with
  | makeFlag => exact hs.of_wakesAffected ho.addFlag (wakesAffected_addFlag s)
  | addSource flag asynchronous =>
    exact hs.of_wakesAffected (ho.addSource flag asynchronous)
      ((affectsOnly_addSource s flag asynchronous).wakesAffected rfl)
  | raise flag bit => exact hs.of_wakesAffected (ho.raise flag bit) (wakesAffected_raise s flag bit)
  | clear flag bit => exact hs.of_wakesAffected (ho.clear ha) (wakesAffected_clear s flag bit)
  | makeHub name flag =>
    rw [HubMove.step]
    split
    · rename_i hl
      exact hs.of_wakesAffected (ho.addHub name hl) (wakesAffected_addHub s name flag)
    · exact hs
  | addSink hub sink => exact hs.of_wakesAffected (ho.addSink hub sink) (wakesAffected_addSink s hub sink)
  | publish hub e => exact hs.of_wakesAffected (ho.publish hub e) (wakesAffected_publish s hub e)
  | notify hub => exact hs.of_wakesAffected (ho.notify hub) (wakesAffected_notify s hub)
  | stop hub => exact hs.of_wakesAffected (ho.stop hub) (wakesAffected_stop s hub)
  | probe hub mask sink =>
    rw [HubMove.step, probe_snd]
    exact hs.of_wakesAffected (ho.askHub hub _ false) (ho.wakesAffected_askHub hub _ false)
  | call c => exact hs.start c
  | resume handle =>
    rw [HubMove.step]
    split
    · exact hs
    · rename_i p hp
      exact hs.resume (List.mem_of_find?_eq_some hp)

theorem Sound.changeChannel {s : System} (hs : s.Sound) (id : Nat)
    (change : Channel → FileSystem → Except ChannelError Unit × Channel × FileSystem)
    (h : ∀ c fs, (change c fs).2.1.kindAndBinding = c.kindAndBinding) : (s.changeChannel id change).2.Sound := by
  have hsame := sameKindsAndBindings_changeChannel s id change h
  exact hs.of_wakesAffected (hs.hubInvariant.of_sameKindsAndBindings hsame) hsame.wakesAffected

theorem Sound.post {s : System} (hs : s.Sound) (channel : Nat) (e : Event) :
    (s.post channel e).2.Sound := by
  have h := hs.changeChannel channel (fun c fs => c.recordPost fs e) fun c fs => c.kindAndBinding_recordPost fs e
  rw [System.post]
  split
  · rename_i heq
    rw [heq] at h
    exact h
  · rename_i heq
    rw [heq] at h
    split
    · exact h
    · exact h.of_wakesAffected (h.hubInvariant.send _ e) (wakesAffected_send _ _ e)

theorem Sound.hasEvent {s : System} (hs : s.Sound) (channel : Nat) (mask : Mask) :
    (s.hasEvent channel mask).2.Sound := by
  rw [System.hasEvent]
  split
  · exact hs
  · split
    · split
      · rw [probe_snd]
        exact hs.of_wakesAffected (hs.hubInvariant.askHub _ _ false) (hs.hubInvariant.wakesAffected_askHub _ _ false)
      · exact hs
    · exact hs

theorem Sound.step {s : System} (hs : s.Sound) (m : Move) (ha : s.Allows m) : (m.step s).2.Sound := by
  have ho := hs.hubInvariant
  cases m with
  | onHubs m => exact hs.stepOnHubs m ha
  | makeCollector accepts =>
    exact hs.of_wakesAffected (ho.congr rfl rfl fun _ _ h => h) (wakesAffected_of_eq rfl rfl rfl rfl)
  | makeChannel name outlet =>
    exact hs.of_wakesAffected (ho.addChannel name (.plain outlet)) (wakesAffected_addChannel s name (.plain outlet))
  | makeBareChannel name => exact hs.of_wakesAffected (ho.addChannel name .bare) (wakesAffected_addChannel s name .bare)
  | makeHubChannel name hub sink outlet =>
    rw [Move.step]
    split
    · rename_i hl
      exact hs.of_wakesAffected (ho.addHubChannel name sink outlet hl)
        (wakesAffected_addHubChannel s name hub sink outlet)
    · exact hs
  | attach channel flag asynchronous =>
    rw [Move.step]
    split
    · rename_i hl
      exact hs.of_wakesAffected (ho.attach channel hl asynchronous) (wakesAffected_attach s channel flag asynchronous)
    · exact hs
  | init channel config =>
    exact hs.changeChannel channel (fun c fs => c.init fs config) fun c fs => c.kindAndBinding_init fs config
  | close channel => exact hs.changeChannel channel Channel.close Channel.kindAndBinding_close
  | abort channel => exact hs.changeChannel channel Channel.abort Channel.kindAndBinding_abort
  | flush channel => exact hs.changeChannel channel Channel.flush Channel.kindAndBinding_flush
  | post channel e => exact hs.post channel e
  | hasEvent channel mask => exact hs.hasEvent channel mask
  | raiseOwn channel => exact hs.of_wakesAffected (ho.raiseOwn channel) (wakesAffected_raiseOwn s channel)
  | clearOwn channel => exact hs.of_wakesAffected (ho.clearOwn channel) (wakesAffected_clearOwn s channel)
  | disturb files => exact hs.of_wakesAffected (ho.congr rfl rfl fun _ _ h => h) (wakesAffected_of_eq rfl rfl rfl rfl)

/-- What can come about in any order of moves, as long as hubs alone clear their bits. -/
inductive Reached (files : FileSystem) : System → Prop where
  | start : Reached files (empty files)
  | move (s : System) (m : Move) (reached : Reached files s) (allowed : s.Allows m) :
      Reached files (m.step s).2

theorem Reached.sound {files : FileSystem} {s : System} (h : Reached files s) : s.Sound := by
  induction h with
  | start => exact sound_empty files
  | move s m _ allowed ih => exact ih.step m allowed

theorem Reached.after {files : FileSystem} {s : System} (h : Reached files s) (ms : List HubMove)
    (hm : ∀ m ∈ ms, ∀ t : System, t.Allows (.onHubs m)) : Reached files (s.after ms) := by
  induction ms generalizing s with
  | nil => exact h
  | cons m ms ih =>
    exact ih (.move s (.onHubs m) h (hm m List.mem_cons_self s)) fun n hn => hm n (List.mem_cons_of_mem m hn)

/-- A sleeper that there is nothing to do for. The hub that it asks is running; if it insists on its own
event the head is another's; and on the flag that it sleeps on there is no news, so nothing is queued in a
hub whose next event it waits for. -/
structure RightlyAsleep (s : System) (p : Sleeper) : Prop where
  point : s.SleepsOn p.call p.point
  running : ∀ hub ask, s.askedBy p.call = some (hub, ask) → (s.hubAt hub).running = true
  unwanted : ∀ hub ask, s.askedBy p.call = some (hub, ask) → ask.mode = .block →
    ∀ head rest, (s.hubAt hub).queue = head :: rest → ∃ sink canonical,
      IsOwner (s.hubAt hub).sinks head.event.id sink canonical ∧
        (sink ≠ ask.sink ∨ ask.mask.accepts canonical = false)
  clear : ∀ flag, p.point = .flag flag → ∀ bit, (s.flagAt flag).isBitRaised bit = false
  nothing : ∀ hub ask, s.askedBy p.call = some (hub, ask) → ask.mode = .wait → (s.hubAt hub).queue = []

/-- The wait point of a sleeper says which of the two kinds of question its call asks. -/
theorem SleepsOn.of_asks {s : System} {c : Call} {point : WaitPoint} (h : s.SleepsOn c point) {hub : Nat} {ask : Ask}
    (ha : s.askedBy c = some (hub, ask)) :
    hub < s.hubs.length ∧
      (ask.mode = .block ∧ point = .queue hub ∨ ask.mode = .wait ∧ point = .flag (s.flagOfHub hub)) := by
  cases h with
  | forOwn _ hub' ask' there asks insists =>
    rw [asks] at ha
    cases ha
    exact ⟨there, .inl ⟨insists, rfl⟩⟩
  | forAny _ hub' ask' there asks waits =>
    rw [asks] at ha
    cases ha
    exact ⟨there, .inr ⟨waits, rfl⟩⟩
  | forFlag => cases ha
  | forChannel _ channel b inside asksNone =>
    rw [asksNone] at ha
    cases ha

theorem HubInvariant.idle_of_not_isRaised {s : System} (hs : s.HubInvariant) {hub : Nat} (hl : hub < s.hubs.length)
    (hf : (s.flagAt (s.flagOfHub hub)).isRaised = false) :
    (s.hubAt hub).queue = [] ∧ (s.hubAt hub).running = true := by
  have hbit := (hs.counted _).isBitRaised_eq_false hf (s.hubAt hub).bit
  have hsig := hs.signals hub hl
  constructor
  · cases hq : (s.hubAt hub).queue with
    | nil => rfl
    | cons e es =>
      rw [hsig (.inl (by simp [hq]))] at hbit
      cases hbit
  · cases hr : (s.hubAt hub).running with
    | true => rfl
    | false =>
      rw [hsig (.inr hr)] at hbit
      cases hbit

/-- A call that sleeps when nobody is left to go on has nothing to do, whatever was done before. -/
theorem no_lost_wakeup {files : FileSystem} {s : System} (h : Reached files s)
    (quiet : ∀ p ∈ s.sleepers, p.awake = false) : ∀ p ∈ s.sleepers, s.RightlyAsleep p := by
  intro p hp
  have hs := h.sound.hubInvariant
  obtain ⟨hpoint, hrest⟩ := h.sound.wokenOrNoNews p hp
  have hr : s.NoNewsFor p.call p.point := by
    rcases hrest with ha | hr
    · rw [quiet p hp] at ha
      cases ha
    · exact hr
  refine ⟨hpoint, ?_, ?_, ?_, ?_⟩
  · intro hub ask ha
    rcases hpoint.of_asks ha with ⟨hl, ⟨-, hb⟩ | ⟨-, hb⟩⟩
    · rw [hb] at hr
      exact (hr ask ha).1
    · rw [hb] at hr
      exact (hs.idle_of_not_isRaised hl hr).2
  · intro hub ask ha hm head rest hq
    rcases hpoint.of_asks ha with ⟨-, ⟨-, hb⟩ | ⟨hm', -⟩⟩
    · rw [hb] at hr
      exact (hr ask ha).unwanted (hs.coherent hub) hq
    · rw [hm] at hm'
      cases hm'
  · intro flag hb bit
    rw [hb] at hr
    exact (hs.counted flag).isBitRaised_eq_false hr bit
  · intro hub ask ha hm
    rcases hpoint.of_asks ha with ⟨hl, ⟨hm', -⟩ | ⟨-, hb⟩⟩
    · rw [hm] at hm'
      cases hm'
    · rw [hb] at hr
      exact (hs.idle_of_not_isRaised hl hr).1

/-- Two calls go to sleep, on a queue and on a flag; then the one on the queue is woken for an event that is
another's, and sleeps on. -/
def behindAnother : List HubMove :=
  [.makeFlag, .makeFlag, .makeHub "left" 0, .makeHub "right" 1, .addSink 0 ⟨some⟩,
   .call (.askHub 0 ⟨.any, .block, 1, true⟩), .call (.askHub 1 ⟨.any, .wait, 0, true⟩),
   .publish 0 ⟨⟨"other", by decide⟩, none, .data, none⟩, .resume 0]

theorem no_lost_wakeup_behindAnother :
    ((empty .fresh).after behindAnother).sleepers.map (fun p => (p.point, p.awake)) =
        [(.queue 0, false), (.flag 1, false)] ∧
      ∀ p ∈ ((empty .fresh).after behindAnother).sleepers,
        ((empty .fresh).after behindAnother).RightlyAsleep p := by
  have hl : ((empty .fresh).after behindAnother).sleepers.map (fun p => (p.point, p.awake)) =
      [(.queue 0, false), (.flag 1, false)] := by decide
  have hr : Reached .fresh ((empty .fresh).after behindAnother) := by
    refine Reached.start.after behindAnother ?_
    intro m hm t
    simp only [behindAnother, List.mem_cons, List.not_mem_nil, or_false] at hm
    rcases hm with rfl | rfl | rfl | rfl | rfl | rfl | rfl | rfl | rfl <;> trivial
  refine ⟨hl, no_lost_wakeup hr ?_⟩
  intro p hp
  have hmem := List.mem_map_of_mem (f := fun p : Sleeper => (p.point, p.awake)) hp
  rw [hl] at hmem
  simp only [List.mem_cons, Prod.mk.injEq, List.not_mem_nil, or_false] at hmem
  rcases hmem with ⟨-, h⟩ | ⟨-, h⟩
  · exact h
  · exact h

end System
end EventHub
