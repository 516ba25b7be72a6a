import EventHub.Proofs.Flag.History
import EventHub.Proofs.System.AtOnce
import EventHub.Proofs.System.AsyncSources
set_option autoImplicit false

/-!
Waits on flags. A call is only let asleep on a flag that has an asynchronous source, a sleeper stays where
it went to sleep, and no flag ever loses such a source; so whoever sleeps on a flag can still be woken,
however long ago it fell asleep and whatever was done since.
-/
namespace EventHub

def Sleeper.callAndPoint (p : Sleeper) : Call × WaitPoint := (p.call, p.point)

namespace System

variable {files : FileSystem} {s t u : System} {p : Sleeper} {c : Call} {point : WaitPoint} {flag : Nat}

def SameWaitPoints (s t : System) : Prop := t.sleepers.map Sleeper.callAndPoint = s.sleepers.map Sleeper.callAndPoint

theorem sameWaitPoints_of_eq (h : t.sleepers = s.sleepers) : SameWaitPoints s t :=
  congrArg (List.map Sleeper.callAndPoint) h

theorem SameWaitPoints.trans (h : SameWaitPoints s t) (k : SameWaitPoints t u) : SameWaitPoints s u := Eq.trans k h

theorem sameWaitPoints_wake (s : System) (point : WaitPoint) : SameWaitPoints s (s.wake point) := by
  rw [SameWaitPoints, wake, List.map_map]
  apply List.map_congr_left
  intro p _
  rw [Function.comp_apply]
  split <;> rfl

theorem sameWaitPoints_raise (s : System) (flag bit : Nat) : SameWaitPoints s (s.raise flag bit) := by
  unfold raise
  split
  · exact sameWaitPoints_wake (s.setFlag flag _) _
  · exact rfl

theorem sameWaitPoints_changeHub {α : Type} (s : System) (id : Nat) (absent : α)
    (change : Hub → Flag → α × Hub × Flag) : SameWaitPoints s (s.changeHub id absent change).2 :=
  sameWaitPoints_of_eq (sleepers_changeHub s id absent change)

theorem sameWaitPoints_publish (s : System) (hub : Nat) (e : Event) : SameWaitPoints s (s.publish hub e).2 := by
  have h := sameWaitPoints_changeHub s hub false fun h f => h.publish f e
  rw [publish_eq]
  dsimp only
  split
  · exact (h.trans (sameWaitPoints_wake _ _)).trans (sameWaitPoints_wake _ _)
  · exact h

theorem sameWaitPoints_stop (s : System) (hub : Nat) : SameWaitPoints s (s.stop hub) := by
  have h := sameWaitPoints_changeHub s hub false fun h f => (h.running, h.stop f)
  rw [stop_eq]
  dsimp only
  split
  · exact (h.trans (sameWaitPoints_wake _ _)).trans (sameWaitPoints_wake _ _)
  · exact h

theorem sameWaitPoints_askHub (s : System) (hub : Nat) (ask : Ask) (resumed : Bool) :
    SameWaitPoints s (s.askHub hub ask resumed).2 := by
  have h := sameWaitPoints_changeHub s hub (Hub.Pause.answer (.pending .closed), false) (askChange ask resumed)
  rw [askHub_eq]
  dsimp only
  split
  · exact h.trans (sameWaitPoints_wake _ _)
  · exact h

theorem sameWaitPoints_changeChannel (s : System) (id : Nat)
    (change : Channel → FileSystem → Except ChannelError Unit × Channel × FileSystem) :
    SameWaitPoints s (s.changeChannel id change).2 := by
  unfold changeChannel
  split <;> exact rfl

/-- Only where a call falls asleep or goes on does it change who sleeps where. -/
theorem BasicStep.sameWaitPoints (h : BasicStep s t) : SameWaitPoints s t := by
  cases h with
  | raise flag bit => exact sameWaitPoints_raise s flag bit
  | addSink hub sink => exact sameWaitPoints_changeHub s hub 0 _
  | publish hub e => exact sameWaitPoints_publish s hub e
  | stop hub => exact sameWaitPoints_stop s hub
  | ask hub ask resumed => exact sameWaitPoints_askHub s hub ask resumed
  | use channel u => exact sameWaitPoints_changeChannel s channel u.change
  | _ => exact rfl

theorem sameWaitPoints_of_basicSteps (h : BasicSteps s t) : SameWaitPoints s t :=
  related_of_basicSteps (fun _ => rfl) .trans BasicStep.sameWaitPoints h

def NeedsFlag (c : Call) (point : WaitPoint) (flag : Nat) : Prop := point = .flag flag ∨ c = .waitForFlag flag

/-- The flags of hubs have an asynchronous source, and so has every flag that a sleeper needs. -/
structure AsyncSourced (s : System) : Prop where
  hubs : ∀ id < s.hubs.length, (s.flagAt (s.flagOfHub id)).asyncCount ≠ 0
  sleepers : ∀ p ∈ s.sleepers, ∀ flag, NeedsFlag p.call p.point flag → (s.flagAt flag).asyncCount ≠ 0

theorem KeepsSources.asyncCount_ne (h : KeepsSources s t) (hf : (s.flagAt flag).asyncCount ≠ 0) :
    (t.flagAt flag).asyncCount ≠ 0 := by
  have := h.sources flag
  omega

theorem KeepsSources.asyncSourcedHubs (h : KeepsSources s t) (hs : s.AsyncSourced) :
    ∀ id < t.hubs.length, (t.flagAt (t.flagOfHub id)).asyncCount ≠ 0 := by
  intro id hid
  rcases h.hubs id hid with hf | ⟨hl, hf⟩
  · exact hf
  · rw [hf]
    exact h.asyncCount_ne (hs.hubs id hl)

theorem AsyncSourced.of_sameWaitPoints (hs : s.AsyncSourced) (h : KeepsSources s t) (hb : SameWaitPoints s t) :
    t.AsyncSourced where
  hubs := h.asyncSourcedHubs hs
  sleepers p hp flag hn := by
    have hm : p.callAndPoint ∈ s.sleepers.map Sleeper.callAndPoint := hb ▸ List.mem_map_of_mem hp
    obtain ⟨q, hq, he⟩ := List.mem_map.1 hm
    obtain ⟨hcall, hpoint⟩ := Prod.mk.inj he
    exact h.asyncCount_ne (hs.sleepers q hq flag (hcall ▸ hpoint ▸ hn))

theorem asyncCount_of_wait {f : Flag} (h : f.wait = .ok false) : f.asyncCount ≠ 0 := (Flag.wait_eq_false_iff.1 h).2

/-- A hub lets a call asleep on its flag only where the flag has an asynchronous source, and that is still so. -/
theorem asyncCount_of_pausePoint (hs : s.AsyncSourced) (hc : s.Coherent) {hub : Nat} {ask : Ask} {resumed : Bool}
    (h : (s.askHub hub ask resumed).2.pausePoint hub (s.askHub hub ask resumed).1 = .inr (.flag flag)) :
    ((s.askHub hub ask resumed).2.flagAt flag).asyncCount ≠ 0 := by
  have hh := keepsSources_askHub hc hub ask resumed
  rcases Nat.lt_or_ge hub s.hubs.length with hl | hl
  · have hsourced := hh.asyncSourcedHubs hs hub (length_hubs_askHub s hub ask resumed ▸ hl)
    cases hp : (s.askHub hub ask resumed).1 with
    | answer fetch =>
      rw [hp] at h
      cases h
    | onQueue =>
      rw [hp] at h
      cases h
    | onFlag =>
      rw [hp] at h
      cases h
      exact hsourced
  · rw [askHub_of_le hl] at h
    cases h

theorem asyncCount_of_waitOnFlag {ch : Channel} {mode : WaitMode} (h : s.waitOnFlag ch mode = .asleep (.flag flag)) :
    (s.flagAt flag).asyncCount ≠ 0 := by
  unfold waitOnFlag at h
  split at h
  · cases h
  · cases h
  · split at h
    · cases h
    · rename_i b _
      split at h
      · cases h
      · rename_i hw
        cases h
        exact asyncCount_of_wait hw
      · cases h

theorem asFetch_eq_asleep {p : Progress} (h : asFetch p = .asleep point) : p = .asleep point := by
  unfold asFetch at h
  split at h
  · cases h
  · exact h

theorem deliver_ne_asleep (s : System) (channel : Nat) (fetch : Fetch) :
    (s.deliver channel fetch).1 ≠ .asleep point := by
  unfold deliver
  split
  · nofun
  · split <;> nofun

theorem asyncCount_of_asleep (hs : s.AsyncSourced) (hc : s.Coherent) {resumed : Bool}
    (h : s.advance resumed c = (.asleep point, t)) (hn : NeedsFlag c point flag) : (t.flagAt flag).asyncCount ≠ 0 := by
  cases c with
  | waitForFlag other =>
    rw [advance] at h
    split at h
    · cases h
    · rename_i hw
      cases h
      rcases hn with hn | hn
      · cases hn
        exact asyncCount_of_wait hw
      · cases hn
        exact asyncCount_of_wait hw
    · cases h
  | askHub hub ask =>
    obtain rfl := hn.resolve_right (by rintro ⟨⟩)
    rw [advance] at h
    dsimp only at h
    split at h
    · cases h
    · rename_i hp
      cases h
      exact asyncCount_of_pausePoint hs hc hp
  | fetchFrom channel mask mode =>
    obtain rfl := hn.resolve_right (by rintro ⟨⟩)
    rw [advance] at h
    split at h
    · cases h
    · split at h
      · split at h
        · dsimp only at h
          split at h
          · exact absurd (congrArg Prod.fst h) (deliver_ne_asleep _ channel _)
          · rename_i hp
            cases h
            exact asyncCount_of_pausePoint hs hc hp
        · obtain ⟨hw, rfl⟩ := Prod.mk.inj h
          exact asyncCount_of_waitOnFlag (asFetch_eq_asleep hw)
      · cases h
  | waitOnChannel channel mode =>
    obtain rfl := hn.resolve_right (by rintro ⟨⟩)
    rw [advance] at h
    split at h
    · cases h
    · obtain ⟨hw, rfl⟩ := Prod.mk.inj h
      exact asyncCount_of_waitOnFlag hw

theorem AsyncSourced.of_basicSteps (hs : s.AsyncSourced) (hc : s.Coherent) (h : BasicSteps s t) : t.AsyncSourced :=
  hs.of_sameWaitPoints (keepsSources_of_basicSteps hc h) (sameWaitPoints_of_basicSteps h)

theorem AsyncSourced.advance (hs : s.AsyncSourced) (hc : s.Coherent) (resumed : Bool) (c : Call) :
    (s.advance resumed c).2.AsyncSourced :=
  hs.of_basicSteps hc (basicSteps_advance s resumed c)

theorem AsyncSourced.start (hs : s.AsyncSourced) (hc : s.Coherent) (c : Call) : (s.start c).2.2.AsyncSourced := by
  have hs' : AsyncSourced { s with handles := s.handles + 1 } := ⟨hs.hubs, hs.sleepers⟩
  have hc' : Coherent { s with handles := s.handles + 1 } := hc
  have ha := hs'.advance hc' false c
  rw [System.start]
  split
  · rename_i heq
    rw [heq] at ha
    exact ha
  · rename_i point t heq
    rw [heq] at ha
    refine ⟨ha.hubs, fun p hp flag hn => ?_⟩
    rcases List.mem_append.1 hp with hp | hp
    · exact ha.sleepers p hp flag hn
    · obtain rfl := List.mem_singleton.1 hp
      have ht : (t.flagAt flag).asyncCount ≠ 0 := asyncCount_of_asleep hs' hc' heq hn
      exact ht

theorem AsyncSourced.replace (hs : s.AsyncSourced)
    (hp : ∀ flag, NeedsFlag p.call p.point flag → (s.flagAt flag).asyncCount ≠ 0) :
    (s.replace p).AsyncSourced where
  hubs := hs.hubs
  sleepers q hq flag hn := by
    rcases mem_replace hq with rfl | ⟨hq, -⟩
    · exact hp flag hn
    · exact hs.sleepers q hq flag hn

theorem AsyncSourced.resume (hs : s.AsyncSourced) (hc : s.Coherent) (hp : p ∈ s.sleepers) :
    (s.resume p).2.AsyncSourced := by
  have hs' : (s.replace { p with awake := false }).AsyncSourced := hs.replace fun flag hn => hs.sleepers p hp flag hn
  have hc' : (s.replace { p with awake := false }).Coherent := hc
  have ha := hs'.advance hc' true p.call
  rw [System.resume]
  split
  · split
    · rename_i heq
      rw [heq] at ha
      exact ⟨ha.hubs, fun q hq => ha.sleepers q (List.mem_filter.1 hq).1⟩
    · rename_i point t heq
      rw [heq] at ha
      exact ha.replace fun flag hn => asyncCount_of_asleep hs' hc' heq hn
  · exact hs'

theorem AsyncSourced.step (hs : s.AsyncSourced) (hc : s.Coherent) (m : Move) : (m.step s).2.AsyncSourced := by
  rcases call_or_resume_or_basicSteps m with ⟨c, rfl⟩ | ⟨handle, rfl⟩ | h
  · exact hs.start hc c
  · rw [Move.step, HubMove.step]
    split
    · exact hs
    · rename_i hp
      exact hs.resume hc (List.mem_of_find?_eq_some hp)
  · exact hs.of_basicSteps hc (h s)

theorem AsyncSourced.changeQueue (hs : s.AsyncSourced) (hub : Nat) (change : Hub → Hub) :
    (s.changeQueue hub change).AsyncSourced :=
  hs.of_sameWaitPoints ((keepsSources_changeHub s hub () (fun h f => ((), change h, f)) rfl).wake _)
    ((sameWaitPoints_changeHub s hub () fun h f => ((), change h, f)).trans (sameWaitPoints_wake _ _))

/-- Whatever pieces of work are done, and be it half a publish, nobody sleeps on a flag that could wake nobody. -/
theorem Attained.asyncSourced (h : Attained files s) : s.AsyncSourced := by
  induction h with
  | start => exact ⟨fun id hid => absurd hid (Nat.not_lt_zero id), fun p hp => absurd hp List.not_mem_nil⟩
  | piece s x before ih =>
    obtain ⟨due, hs⟩ := before.bitInvariant
    cases x with
    | whole m => exact ih.step hs.coherent m
    | put hub e => exact ih.changeQueue hub _
    | halt hub => exact ih.changeQueue hub _
    | tell hub => exact ih.of_basicSteps hs.coherent (basicSteps_notify s hub)

/-- What is promised of the flags of a system. Each has a past and tells it exactly; who waits on one can be woken
there; and a wait is refused just where the flag refuses, but never once it slept. -/
structure FlagLaws (s : System) : Prop where
  past : ∀ flag, ∃ acts, s.flagAt flag = Flag.empty.after acts ∧ Flag.Exact acts (s.flagAt flag)
  sleepers : ∀ p ∈ s.sleepers, ∀ flag, NeedsFlag p.call p.point flag →
    ∃ source ∈ (s.flagAt flag).sources, source.asynchronous = true
  refused : ∀ flag,
    (∃ e, (s.start (.waitForFlag flag)).2.1 = .returned (.flagError e)) ↔ (s.flagAt flag).Refuses
  resumed : ∀ p ∈ s.sleepers, ∀ flag, p.call = .waitForFlag flag → ∀ e, (s.resume p).1 ≠ some (.flagError e)

theorem start_refused (s : System) (flag : Nat) :
    (∃ e, (s.start (.waitForFlag flag)).2.1 = .returned (.flagError e)) ↔ (s.flagAt flag).Refuses := by
  have ha := (start_advance s (.waitForFlag flag)).1
  have hf : flagAt { s with handles := s.handles + 1 } flag = s.flagAt flag := rfl
  rw [ha, advance, hf]
  constructor
  · rintro ⟨e, h⟩
    split at h
    · cases h
    · cases h
    · rename_i e' hw
      exact Flag.refuses_iff.2 (Flag.wait_eq_error_iff.1 hw)
  · rintro ⟨e, hw, -⟩
    exact ⟨e, by rw [hw]⟩

theorem AsyncSourced.resume_ne_flagError (hs : s.AsyncSourced) (hp : p ∈ s.sleepers) (hc : p.call = .waitForFlag flag)
    (e : FlagError) : (s.resume p).1 ≠ some (.flagError e) := by
  have ha := hs.sleepers p hp flag (.inr hc)
  have hf : ∀ q, (s.replace q).flagAt flag = s.flagAt flag := fun _ => rfl
  cases hm : s.mayGoOn p with
  | false =>
    rw [System.resume, if_neg (by simp [hm])]
    rintro ⟨⟩
  | true =>
    rw [(resume_advance hm).1, hc, System.advance, hf]
    split
    · rintro ⟨⟩
    · rintro ⟨⟩
    · rename_i hw
      exact absurd (Flag.wait_eq_error_iff.1 hw).2 ha

theorem Attained.flagLaws (h : Attained files s) : s.FlagLaws where
  past flag := by
    obtain ⟨due, hs⟩ := h.bitInvariant
    obtain ⟨acts, ha⟩ := (hs.counted flag).exists_acts
    exact ⟨acts, ha, ha ▸ Flag.exact_after acts⟩
  sleepers p hp flag hn := by
    obtain ⟨due, hs⟩ := h.bitInvariant
    have ha := h.asyncSourced.sleepers p hp flag hn
    rw [(hs.counted flag).asynchronous] at ha
    exact List.countP_pos_iff.1 (Nat.pos_of_ne_zero ha)
  refused := start_refused s
  resumed p hp flag hc := h.asyncSourced.resume_ne_flagError hp hc

/-- Whatever is done to a flag, its counts are exact and a wait is refused just when nothing could end it; and whatever
is done with a system, by however many at once, who sleeps on a flag sleeps on one with an asynchronous source. -/
theorem flag_counts_and_waits_exact :
    (∀ acts, Flag.Exact acts (Flag.empty.after acts)) ∧ ∀ files s, Attained files s → s.FlagLaws :=
  ⟨Flag.exact_after, fun _ _ => Attained.flagLaws⟩

def twoSources : List Flag.Act :=
  [.raise 0, .addSource false, .addSource true, .raise 7, .raise 0, .raise 0, .clear 1, .clear 0, .clear 0]

/-- One waits for a flag of which the bits are raised and cleared; meanwhile a source joins, and a hub makes it its
own. -/
def waitingOn : List Piece :=
  [.whole (.onHubs .makeFlag), .whole (.onHubs (.addSource 0 true)), .whole (.onHubs (.call (.waitForFlag 0))),
   .whole (.onHubs (.addSource 0 false)), .whole (.onHubs (.raise 0 9)), .whole (.onHubs (.raise 0 1)),
   .whole (.onHubs (.clear 0 1)), .whole (.onHubs (.makeHub "h" 0)), .put 0 (.named ⟨"e.f", by decide⟩)]

theorem flag_counts_and_waits_exact_twoSources :
    (Flag.empty.after twoSources).raisedCount = 0 ∧ ¬Flag.LeftRaised twoSources 0 ∧
      (Flag.empty.after twoSources).raise 2 = Flag.empty.after twoSources ∧
      (Flag.empty.after [.addSource false, .clear 0, .addSource false]).Refuses ∧
      ∃ p ∈ (waitingOn.foldl Piece.step (empty .fresh)).sleepers, p.point = .flag 0 ∧
        ∃ source ∈ ((waitingOn.foldl Piece.step (empty .fresh)).flagAt 0).sources, source.asynchronous = true := by
  obtain ⟨hflags, hsystems⟩ := flag_counts_and_waits_exact
  have htwo := hflags twoSources
  have hnone : ¬Flag.LeftRaised twoSources 0 := fun h => absurd ((htwo.shown 0).2 h) (by decide)
  have hone := hflags [.addSource false]
  have hrefused : (Flag.empty.after [.addSource false]).Refuses := Flag.refuses_iff.2 (by decide)
  have hlasting := hone.lasting hrefused [.clear 0, .addSource false] (by decide) (by simp)
  have hs := hsystems .fresh _ (Attained.start.through waitingOn)
  have hp : (⟨0, .waitForFlag 0, .flag 0, true⟩ : Sleeper) ∈ (waitingOn.foldl Piece.step (empty .fresh)).sleepers :=
    List.mem_singleton.2 rfl
  exact ⟨by decide, hnone, (htwo.unissued 2 (by decide)).1, hlasting, _, hp, rfl, hs.sleepers _ hp 0 (.inl rfl)⟩

end System
end EventHub
