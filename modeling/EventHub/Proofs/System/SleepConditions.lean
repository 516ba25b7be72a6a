import EventHub.Proofs.System.HubInvariant
set_option autoImplicit false

namespace EventHub

namespace Hub

/-- A blocking call with this question finds nothing: the queue is empty, or its head is known to be somebody else's. -/
def HasNothingFor (h : Hub) (ask : Ask) : Prop :=
  h.running = true ∧ (h.queue = [] ∨ ∃ a, h.cached = some a ∧ ¬ ask.Wants a.sink a.canonical)

theorem HasNothingFor.unwanted {h : Hub} {ask : Ask} (hb : h.HasNothingFor ask) (hc : h.Coherent) {head : Entry}
    {rest : List Entry} (hq : h.queue = head :: rest) :
    ∃ sink canonical, IsOwner h.sinks head.event.id sink canonical ∧
      (sink ≠ ask.sink ∨ ask.mask.accepts canonical = false) := by
  obtain ⟨-, hn | ⟨a, ha, hw⟩⟩ := hb
  · rw [hq] at hn
    cases hn
  · obtain ⟨head', rest', hq', -, hr⟩ := hc a ha
    rw [hq] at hq'
    cases hq'
    refine ⟨a.sink, a.canonical, route_eq_some_iff.1 hr, ?_⟩
    by_cases hs : a.sink = ask.sink
    · right
      cases hm : ask.mask.accepts a.canonical with
      | false => rfl
      | true => exact absurd ⟨hs, hm⟩ hw
    · exact .inl hs

theorem Finds.hasNothingFor {h : Hub} {lost rest : List Entry} {head : Entry} {sink : Nat} {canonical : Path}
    {ask : Ask} (hc : h.Coherent) (f : h.Finds lost head rest sink canonical) (hl : lost = [])
    (hb : h.HasNothingFor ask) : (h.facing lost head rest sink canonical).HasNothingFor ask := by
  subst hl
  obtain ⟨hr, hq | ⟨a, ha, hw⟩⟩ := hb
  · rw [f.queue] at hq
    cases hq
  · have he := hc.eq_of_route f.queue f.owner ha
    subst he
    exact ⟨hr, .inr ⟨_, rfl, hw⟩⟩

theorem Outcome.hasNothingFor {h : Hub} {flag : Flag} {ask other : Ask} {scanned : Bool} {p : Pause} {t : Turn}
    (hc : h.Coherent) (o : Outcome h flag ask scanned false p t) (hw : t.woke = false)
    (hb : h.HasNothingFor other) : t.hub.HasNothingFor other := by
  cases o with
  | closed => exact hb
  | idle running => exact ⟨running, .inl rfl⟩
  | taken => cases hw
  | shown lost head rest sink canonical found => exact found.hasNothingFor hc (by simpa using hw) hb
  | held lost head rest sink canonical found => exact found.hasNothingFor hc (by simpa using hw) hb
  | sentAway lost head rest sink canonical found => exact found.hasNothingFor hc (by simpa using hw) hb

theorem Outcome.isRaised {h : Hub} {flag : Flag} {ask : Ask} {scanned woke : Bool} {p : Pause} {t : Turn}
    (o : Outcome h flag ask scanned woke p t) (hf : flag.isRaised = false) : t.flag.isRaised = false := by
  cases o with
  | idle => exact Flag.isRaised_clear hf h.bit
  | closed => exact hf
  | taken => exact hf
  | shown => exact hf
  | held => exact hf
  | sentAway => exact hf

/-- What a call may rely on when it goes to sleep. -/
def Pause.MaySleep (ask : Ask) (h : Hub) (f : Flag) : Pause → Prop
  | .answer _ => True
  | .onQueue => ask.mode = .block ∧ h.HasNothingFor ask
  | .onFlag => ask.mode = .wait ∧ h.running = true ∧ f.isRaised = false

theorem idlePause_maySleep {h : Hub} {ask : Ask} (flag : Flag) (hr : h.running = true)
    (hq : h.queue = []) : (idlePause ask.mode flag).MaySleep ask h flag := by
  cases hm : ask.mode with
  | noWait => trivial
  | block => exact ⟨hm, hr, .inl hq⟩
  | wait =>
    rw [idlePause]
    cases hf : flag.isRaised with
    | true => trivial
    | false =>
      simp only [Bool.false_eq_true, if_false]
      split
      · trivial
      · exact ⟨hm, hr, hf⟩

theorem Outcome.maySleep {h : Hub} {flag : Flag} {ask : Ask} {scanned woke : Bool} {p : Pause} {t : Turn}
    (o : Outcome h flag ask scanned woke p t) : p.MaySleep ask t.hub t.flag := by
  cases o with
  | closed => trivial
  | idle running => exact idlePause_maySleep _ running rfl
  | taken => trivial
  | shown => trivial
  | held lost head rest sink canonical found unwanted insists =>
    exact ⟨insists, found.running, .inr ⟨_, rfl, unwanted⟩⟩
  | sentAway => trivial

end Hub

namespace System

def askedBy (s : System) : Call → Option (Nat × Ask)
  | .askHub hub ask => some (hub, ask)
  | .fetchFrom channel mask mode =>
    match s.kindOf channel with
    | some (.ofHub hub sink _) => some (hub, ⟨mask, mode, sink, true⟩)
    | _ => none
  | _ => none

/-- A call sleeps on the queue of the hub that it asks, if it insists on its own event, or on a flag: the
one that it waits for, its hub's, or the one that its channel is attached to. -/
inductive SleepsOn (s : System) : Call → WaitPoint → Prop where
  | forOwn (c : Call) (hub : Nat) (ask : Ask) (there : hub < s.hubs.length)
      (asks : s.askedBy c = some (hub, ask)) (insists : ask.mode = .block) : SleepsOn s c (.queue hub)
  | forAny (c : Call) (hub : Nat) (ask : Ask) (there : hub < s.hubs.length)
      (asks : s.askedBy c = some (hub, ask)) (waits : ask.mode = .wait) :
      SleepsOn s c (.flag (s.flagOfHub hub))
  | forFlag (flag : Nat) : SleepsOn s (.waitForFlag flag) (.flag flag)
  | forChannel (c : Call) (channel : Nat) (b : Binding)
      (inside : (∃ mask mode, c = .fetchFrom channel mask mode) ∨ ∃ mode, c = .waitOnChannel channel mode)
      (asksNone : s.askedBy c = none) (bound : s.bindingOf channel = some b) :
      SleepsOn s c (.flag b.flag)

/-- Nothing has happened that a call at this wait point should know of. -/
def NoNewsFor (s : System) (c : Call) : WaitPoint → Prop
  | .queue hub => ∀ ask, s.askedBy c = some (hub, ask) → (s.hubAt hub).HasNothingFor ask
  | .flag flag => (s.flagAt flag).isRaised = false

def WokenOrNoNews (s : System) (p : Sleeper) : Prop :=
  s.SleepsOn p.call p.point ∧ (p.awake = true ∨ s.NoNewsFor p.call p.point)

def wakeIf (woken : WaitPoint → Bool) (p : Sleeper) : Sleeper := if woken p.point then { p with awake := true } else p

/-- Between two states nothing happened that concerns the wait points where nobody is woken. -/
structure AffectsOnly (s t : System) (woken : WaitPoint → Bool) : Prop where
  length : s.hubs.length ≤ t.hubs.length
  flagOfHub : ∀ id < s.hubs.length, t.flagOfHub id = s.flagOfHub id
  kindOf : ∀ channel k, s.kindOf channel = some k → t.kindOf channel = some k
  bindingOf : ∀ channel b, s.bindingOf channel = some b → t.bindingOf channel = some b
  hub : ∀ id < s.hubs.length, woken (.queue id) = false → ∀ ask,
    (s.hubAt id).HasNothingFor ask → (t.hubAt id).HasNothingFor ask
  flag : ∀ flag, woken (.flag flag) = false →
    (s.flagAt flag).isRaised = false → (t.flagAt flag).isRaised = false

/-- Whoever sleeps was woken if anything happened at its wait point. -/
def WakesAffected (s t : System) : Prop :=
  ∃ woken, AffectsOnly s t woken ∧ t.sleepers = s.sleepers.map (wakeIf woken)

theorem AffectsOnly.askedBy_eq {s t : System} {woken : WaitPoint → Bool} (h : AffectsOnly s t woken) {c : Call}
    {hub : Nat}
    {ask : Ask} (ha : s.askedBy c = some (hub, ask)) : t.askedBy c = some (hub, ask) := by
  cases c with
  | askHub => exact ha
  | waitForFlag => cases ha
  | waitOnChannel => cases ha
  | fetchFrom channel mask mode =>
    simp only [askedBy] at ha ⊢
    cases hk : s.kindOf channel with
    | none => simp [hk] at ha
    | some k =>
      rw [h.kindOf channel k hk]
      simpa only [hk] using ha

theorem AffectsOnly.askedBy_eq_none {s t : System} {woken : WaitPoint → Bool} (h : AffectsOnly s t woken) {c : Call}
    {channel : Nat} {b : Binding}
    (hc : (∃ mask mode, c = .fetchFrom channel mask mode) ∨ ∃ mode, c = .waitOnChannel channel mode)
    (ha : s.askedBy c = none) (hb : s.bindingOf channel = some b) : t.askedBy c = none := by
  rcases hc with ⟨mask, mode, rfl⟩ | ⟨mode, rfl⟩
  · obtain ⟨k, hk⟩ := exists_kindOf hb
    simp only [askedBy] at ha ⊢
    rw [h.kindOf channel k hk]
    simpa only [hk] using ha
  · rfl

theorem AffectsOnly.sleepsOn {s t : System} {woken : WaitPoint → Bool} (h : AffectsOnly s t woken) {c : Call}
    {point : WaitPoint}
    (hs : s.SleepsOn c point) : t.SleepsOn c point := by
  cases hs with
  | forOwn _ hub ask there asks insists =>
    exact .forOwn c hub ask (Nat.lt_of_lt_of_le there h.length) (h.askedBy_eq asks) insists
  | forAny _ hub ask there asks waits =>
    rw [← h.flagOfHub hub there]
    exact .forAny c hub ask (Nat.lt_of_lt_of_le there h.length) (h.askedBy_eq asks) waits
  | forFlag flag => exact .forFlag flag
  | forChannel _ channel b inside asksNone bound =>
    exact .forChannel c channel b inside (h.askedBy_eq_none inside asksNone bound)
      (h.bindingOf channel b bound)

theorem AffectsOnly.noNewsFor {s t : System} {woken : WaitPoint → Bool} (h : AffectsOnly s t woken) {c : Call}
    {point : WaitPoint}
    (hs : s.SleepsOn c point) (hw : woken point = false) (hr : s.NoNewsFor c point) : t.NoNewsFor c point := by
  cases point with
  | flag flag => exact h.flag flag hw hr
  | queue hub =>
    cases hs with
    | forOwn _ _ ask there asks insists =>
      intro other ho
      rw [h.askedBy_eq asks] at ho
      cases ho
      exact h.hub hub there hw ask (hr ask asks)

theorem AffectsOnly.wokenOrNoNews {s t : System} {woken : WaitPoint → Bool} (h : AffectsOnly s t woken) {p : Sleeper}
    (hp : s.WokenOrNoNews p) : t.WokenOrNoNews (wakeIf woken p) := by
  obtain ⟨hs, hr⟩ := hp
  unfold wakeIf
  cases hw : woken p.point with
  | true => exact ⟨h.sleepsOn hs, .inl rfl⟩
  | false =>
    refine ⟨h.sleepsOn hs, ?_⟩
    rcases hr with ha | hr
    · exact .inl ha
    · exact .inr (h.noNewsFor hs hw hr)

theorem handle_wakeIf (woken : WaitPoint → Bool) (p : Sleeper) : (wakeIf woken p).handle = p.handle := by
  unfold wakeIf
  split <;> rfl

theorem WakesAffected.wokenOrNoNews {s t : System} (h : WakesAffected s t) (q : Nat → Prop)
    (hs : ∀ p ∈ s.sleepers, q p.handle → s.WokenOrNoNews p) : ∀ p ∈ t.sleepers, q p.handle → t.WokenOrNoNews p := by
  obtain ⟨woken, hsp, hl⟩ := h
  intro p hp hq
  rw [hl] at hp
  obtain ⟨p', hp', rfl⟩ := List.mem_map.1 hp
  rw [handle_wakeIf] at hq
  exact hsp.wokenOrNoNews (hs p' hp' hq)

end System
end EventHub
