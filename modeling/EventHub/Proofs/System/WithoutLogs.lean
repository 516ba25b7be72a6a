import EventHub.Proofs.System.Fetch
import EventHub.Proofs.System.RoundTrip
set_option autoImplicit false

namespace EventHub

def ChannelConfig.NoLogs (config : ChannelConfig) : Prop := config.input? = none ∧ config.output? = none

def Hub.Pause.reply? : Hub.Pause → Option Reply
  | .answer fetch => some (.fetched fetch)
  | _ => none

namespace Channel

theorem init_of_idle {c : Channel} (hc : c.recorder = .idle) {config : ChannelConfig} (hs : config.NoLogs)
    (fs : FileSystem) : c.init fs config = (.ok (), { c with isOpen := true }, fs) := by
  obtain ⟨hinput, houtput⟩ := hs
  have hstart : Recorder.idle.start fs config = (.ok (), .idle, fs) := by
    rw [Recorder.start, hinput, houtput]
    rfl
  rw [Channel.init, close_of_idle hc]
  dsimp only
  rw [hc, hstart]
  obtain ⟨name, kind, isOpen, binding, recorder⟩ := c
  subst hc
  rfl

theorem recordFetch_of_idle {c : Channel} (hc : c.recorder = .idle) (fs : FileSystem) (e : Event) :
    c.recordFetch fs e = (.ok (), c, fs) := by
  obtain ⟨name, kind, isOpen, binding, recorder⟩ := c
  subst hc
  rfl

theorem recordPost_of_idle {c : Channel} (ho : c.isOpen = true) (hc : c.recorder = .idle) (fs : FileSystem)
    (e : Event) : c.recordPost fs e = (.ok (), c, fs) := by
  obtain ⟨name, kind, isOpen, binding, recorder⟩ := c
  subst hc ho
  rfl

end Channel

namespace System

/-- A channel of this kind is there, open or closed, and records nothing. -/
def RecordsNothing (s : System) (channel : Nat) (kind : ChannelKind) (isOpen : Bool) : Prop :=
  ∃ c, s.channels[channel]? = some c ∧ c.kind = kind ∧ c.isOpen = isOpen ∧ c.recorder = .idle

variable {s t : System} {channel : Nat} {kind : ChannelKind} {isOpen : Bool}

theorem RecordsNothing.stays (h : s.RecordsNothing channel kind isOpen) (hs : SameChannel channel s t) :
    t.RecordsNothing channel kind isOpen := by
  obtain ⟨c, hc, hk, ho, hr⟩ := h
  obtain ⟨d, hd, hk', ho', hr'⟩ := hs.channel c hc
  exact ⟨d, hd, hk'.trans hk, ho'.trans ho, hr'.trans hr⟩

theorem changeChannel_of_same {c : Channel} (hc : s.channels[channel]? = some c)
    {change : Channel → FileSystem → Channel.Outcome} (h : change c s.files = (.ok (), c, s.files)) :
    s.changeChannel channel change = (.ok (), s) := by
  obtain ⟨hl, rfl⟩ := List.getElem?_eq_some_iff.1 hc
  rw [changeChannel_of_getElem? hc, h]
  dsimp only
  rw [List.set_getElem_self]

theorem recordsNothing_changeChannel {c : Channel} (hc : s.channels[channel]? = some c)
    {change : Channel → FileSystem → Channel.Outcome} (hr : c.recorder = .idle)
    (h : change c s.files = (.ok (), { c with isOpen := isOpen }, s.files)) :
    (s.changeChannel channel change).1 = .ok () ∧
      (s.changeChannel channel change).2.RecordsNothing channel c.kind isOpen := by
  rw [changeChannel_of_getElem? hc, h]
  refine ⟨rfl, { c with isOpen := isOpen }, ?_, rfl, rfl, hr⟩
  exact List.getElem?_set_self (List.getElem?_eq_some_iff.1 hc).1

theorem RecordsNothing.close (h : s.RecordsNothing channel kind isOpen) :
    (s.changeChannel channel Channel.close).1 = .ok () ∧
      (s.changeChannel channel Channel.close).2.RecordsNothing channel kind false := by
  obtain ⟨c, hc, rfl, -, hr⟩ := h
  exact recordsNothing_changeChannel hc hr (Channel.close_of_idle hr s.files)

theorem RecordsNothing.init (h : s.RecordsNothing channel kind isOpen) {config : ChannelConfig} (hs : config.NoLogs) :
    (s.changeChannel channel fun c fs => c.init fs config).1 = .ok () ∧
      (s.changeChannel channel fun c fs => c.init fs config).2.RecordsNothing channel kind true := by
  obtain ⟨c, hc, rfl, -, hr⟩ := h
  exact recordsNothing_changeChannel hc hr (Channel.init_of_idle hr hs s.files)

theorem RecordsNothing.deliver (h : s.RecordsNothing channel kind isOpen) (fetch : Fetch) :
    s.deliver channel fetch = (.returned (.fetched fetch), s) := by
  obtain ⟨c, hc, -, -, hr⟩ := h
  cases fetch with
  | pending st => rfl
  | delivered e =>
    rw [System.deliver, changeChannel_of_same hc (Channel.recordFetch_of_idle hr s.files e)]

/-- A fetch is the question to the hub and nothing else. -/
theorem RecordsNothing.advance_fetchFrom {hub sink : Nat} {outlet : Outlet}
    (h : s.RecordsNothing channel (.ofHub hub sink outlet) true) (mask : Mask) (mode : WaitMode) (resumed : Bool) :
    (s.advance resumed (.fetchFrom channel mask mode)).1.reply? =
        (s.askHub hub ⟨mask, mode, sink, true⟩ resumed).1.reply? ∧
      (s.advance resumed (.fetchFrom channel mask mode)).2 =
        (s.askHub hub ⟨mask, mode, sink, true⟩ resumed).2 := by
  have hd := (h.stays (sameChannel_of_channels (s.channels_askHub hub ⟨mask, mode, sink, true⟩ resumed))).deliver
  obtain ⟨c, hc, hk, ho, -⟩ := h
  rw [System.advance_fetchFrom hc ho hk mask mode resumed]
  dsimp only
  cases (s.askHub hub ⟨mask, mode, sink, true⟩ resumed).1 with
  | answer fetch =>
    rw [pausePoint]
    dsimp only
    rw [hd fetch]
    exact ⟨rfl, rfl⟩
  | onQueue => exact ⟨rfl, rfl⟩
  | onFlag => exact ⟨rfl, rfl⟩

theorem RecordsNothing.post {outlet : Outlet} (h : s.RecordsNothing channel (.plain (some outlet)) true) (e : Event) :
    s.post channel e = (.ok (), (s.send outlet e).2) := by
  obtain ⟨c, hc, hk, ho, hr⟩ := h
  have houtlet : s.outletOf channel = some outlet := by
    rw [outletOf, hc, Option.bind_some, Channel.outlet?, hk]
  rw [post_eq, changeChannel_of_same hc (Channel.recordPost_of_idle ho hr s.files e)]
  dsimp only
  rw [houtlet]

end System
end EventHub
