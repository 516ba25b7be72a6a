import EventHub.Proofs.System.Possible
set_option autoImplicit false

namespace EventHub

namespace Channel

def openedBy (c : Channel) (r : Except RecordingError Unit × Recorder × FileSystem) : Outcome :=
  match c.ofRecorder r with
  | (.error e, c, fs) => (.error e, c, fs)
  | (.ok (), c, fs) => (.ok (), { c with isOpen := true }, fs)

/-- Opening goes through closing. Where that fails nothing is started, and otherwise the recorder from which
the recordings are started holds none. -/
inductive Opens (c : Channel) (fs : FileSystem) (config : ChannelConfig) : Prop where
  | refused (e : ChannelError) (closed : (c.close fs).1 = .error e) (unstarted : c.init fs config = c.close fs)
  | started (closed : (c.close fs).1 = .ok ()) (idle : (c.close fs).2.1.recorder = .idle)
      (opened : c.init fs config =
        (c.close fs).2.1.openedBy (Recorder.idle.start (c.close fs).2.2 config))

theorem IdleIfClosed.opens {c : Channel} (h : c.IdleIfClosed) (fs : FileSystem) (config : ChannelConfig) :
    c.Opens fs config := by
  have ht := h.close fs
  have ho := c.isOpen_close fs
  cases hc : c.close fs with
  | mk r rest =>
    obtain ⟨d, gs⟩ := rest
    rw [hc] at ht ho
    have hidle : d.recorder = .idle := ht ho
    cases r with
    | error e => exact .refused e (by rw [hc]) (by rw [Channel.init, hc])
    | ok u =>
      refine .started (by rw [hc]) (by rw [hc]; exact hidle) ?_
      rw [Channel.init, hc, ← hidle]
      rfl

theorem isOpen_openedBy {c : Channel} (h : c.isOpen = false)
    (r : Except RecordingError Unit × Recorder × FileSystem) :
    (c.openedBy r).1 = .ok () ↔ (c.openedBy r).2.1.isOpen = true := by
  obtain ⟨e | u, r, fs⟩ := r
  · simp [openedBy, ofRecorder, h]
  · simp [openedBy, ofRecorder]

theorem IdleIfClosed.isOpen_init {c : Channel} (h : c.IdleIfClosed) (fs : FileSystem) (config : ChannelConfig) :
    (c.init fs config).1 = .ok () ↔ (c.init fs config).2.1.isOpen = true := by
  have ho := c.isOpen_close fs
  cases h.opens fs config with
  | refused e closed unstarted =>
    rw [unstarted, closed, ho]
    simp
  | started closed idle opened =>
    rw [opened]
    exact isOpen_openedBy ho _

/-- To abort is to close, with the recordings discarded instead of finished. -/
theorem abort_of_open {c : Channel} (h : c.isOpen = true) (fs : FileSystem) :
    c.abort fs = { c with isOpen := false }.ofRecorder (c.recorder.discard fs) := by
  have hd := discard_idle c.recorder fs
  rw [abort, if_pos h]
  generalize c.recorder.discard fs = r at hd ⊢
  obtain ⟨result, recorder, gs⟩ := r
  obtain rfl : recorder = .idle := hd
  have hclose := close_of_idle (c := { c with recorder := .idle }) rfl gs
  cases result with
  | error e => simp only [ofRecorder, hclose]
  | ok u => simp only [ofRecorder, hclose]

theorem isOpen_abort (c : Channel) (fs : FileSystem) : (c.abort fs).2.1.isOpen = false := by
  cases ho : c.isOpen with
  | false => simp [abort, ho]
  | true => rw [abort_of_open ho, isOpen_ofRecorder]

theorem close_of_closed {c : Channel} (h : c.isOpen = false) (fs : FileSystem) :
    c.close fs = (.ok (), c, fs) := by
  rw [close, h]
  rfl

theorem abort_of_closed {c : Channel} (h : c.isOpen = false) (fs : FileSystem) :
    c.abort fs = (.ok (), c, fs) := by
  rw [abort, h]
  rfl

theorem recordPost_of_closed {c : Channel} (h : c.isOpen = false) (fs : FileSystem) (e : Event) :
    c.recordPost fs e = (.error (.closed c.name), c, fs) := by
  rw [recordPost, h]
  rfl

end Channel

namespace System

variable {s : System} {channel : Nat} {c : Channel}

def isOpenAt (s : System) (channel : Nat) : Bool := (s.channels[channel]?.map Channel.isOpen).getD false

theorem isOpenAt_changeChannel (hc : s.channels[channel]? = some c)
    (change : Channel → FileSystem → Channel.Outcome) :
    (s.changeChannel channel change).1 = (change c s.files).1 ∧
      (s.changeChannel channel change).2.isOpenAt channel = (change c s.files).2.1.isOpen := by
  have hl := (List.getElem?_eq_some_iff.1 hc).1
  rw [changeChannel, hc]
  refine ⟨rfl, ?_⟩
  simp [isOpenAt, hl]

theorem changeChannel_unchanged (hc : s.channels[channel]? = some c)
    {change : Channel → FileSystem → Channel.Outcome} {r : Except ChannelError Unit}
    (h : change c s.files = (r, c, s.files)) :
    s.changeChannel channel change = (r, s) := by
  obtain ⟨hl, rfl⟩ := List.getElem?_eq_some_iff.1 hc
  rw [changeChannel, hc]
  dsimp only
  rw [h]
  dsimp only
  rw [List.set_getElem_self]

theorem start_fetchFrom_of_closed (hc : s.channels[channel]? = some c) (h : c.isOpen = false) (mask : Mask)
    (mode : WaitMode) : s.start (.fetchFrom channel mask mode) =
      (s.handles, .returned (.fetched (.pending .closed)), { s with handles := s.handles + 1 }) := by
  rw [start, advance]
  dsimp only
  rw [hc]
  dsimp only
  rw [h]
  rfl

theorem hasEvent_of_closed (hc : s.channels[channel]? = some c) (h : c.isOpen = false) (mask : Mask) :
    s.hasEvent channel mask = (.closed, s) := by
  rw [hasEvent, hc]
  dsimp only
  rw [h]
  rfl

theorem post_of_closed (hc : s.channels[channel]? = some c) (h : c.isOpen = false) (e : Event) :
    s.post channel e = (.error (.closed c.name), s) := by
  rw [post, changeChannel_unchanged hc (Channel.recordPost_of_closed h s.files e)]

/-- What a closed channel does: it says so, and nothing else in the system is any different. -/
structure ClosedChannel (s : System) (channel : Nat) (c : Channel) : Prop where
  close : (Move.close channel).step s = (.changed channel (.ok ()), s)
  abort : (Move.abort channel).step s = (.changed channel (.ok ()), s)
  fetch : ∀ mask mode, s.start (.fetchFrom channel mask mode) =
    (s.handles, .returned (.fetched (.pending .closed)), { s with handles := s.handles + 1 })
  hasEvent : ∀ mask, s.hasEvent channel mask = (.closed, s)
  post : ∀ e, s.post channel e = (.error (.closed c.name), s)
  code : ErrorCode.code (ChannelError.closed c.name) = "CHANNEL_CLOSED"

theorem closedChannel_of_closed (hc : s.channels[channel]? = some c) (h : c.isOpen = false) :
    s.ClosedChannel channel c where
  close := by rw [Move.step, changeChannel_unchanged hc (Channel.close_of_closed h s.files)]
  abort := by rw [Move.step, changeChannel_unchanged hc (Channel.abort_of_closed h s.files)]
  fetch := start_fetchFrom_of_closed hc h
  hasEvent := hasEvent_of_closed hc h
  post := post_of_closed hc h
  code := rfl

structure Lifecycle (s : System) (channel : Nat) (c : Channel) : Prop where
  idle : c.isOpen = false → c.recorder = .idle
  opens : ∀ config, c.Opens s.files config
  init : ∀ config, ((Move.init channel config).step s).1 = .changed channel (.ok ()) ↔
    ((Move.init channel config).step s).2.isOpenAt channel = true
  close : ((Move.close channel).step s).2.isOpenAt channel = false
  abort : ((Move.abort channel).step s).2.isOpenAt channel = false
  closedChannel : c.isOpen = false → s.ClosedChannel channel c

/-- Whatever was done before and whatever of it the files refused. -/
theorem channel_lifecycle {files : FileSystem} (possible : Possible files s)
    (there : s.channels[channel]? = some c) : s.Lifecycle channel c := by
  have htidy : c.IdleIfClosed := possible.coherentAndIdle.idleIfClosed c (List.mem_of_getElem? there)
  refine ⟨htidy, htidy.opens s.files, ?_, ?_, ?_, closedChannel_of_closed there⟩
  · intro config
    obtain ⟨hr, ho⟩ := isOpenAt_changeChannel there fun c fs => c.init fs config
    have hi := htidy.isOpen_init s.files config
    rw [← hr, ← ho] at hi
    rw [Move.step, ← hi]
    simp
  · exact (isOpenAt_changeChannel there Channel.close).2.trans (c.isOpen_close s.files)
  · exact (isOpenAt_changeChannel there Channel.abort).2.trans (c.isOpen_abort s.files)

def afterRefusedRenaming : System :=
  (empty { FileSystem.fresh with refusals := [none, none, some ⟨0, .busy⟩] }).ran
    [.makeChannel "c" none, .init 0 ⟨⟨"in.log"⟩, ⟨"out.log"⟩, true⟩, .close 0]

theorem channel_lifecycle_afterRefusedRenaming :
    ∃ c, afterRefusedRenaming.channels[0]? = some c ∧ c.isOpen = false ∧
      afterRefusedRenaming.files.isThere ⟨"in.log.tmp"⟩ = true ∧ afterRefusedRenaming.Lifecycle 0 c := by
  have hc : ∃ c, afterRefusedRenaming.channels[0]? = some c ∧ c.isOpen = false := ⟨_, rfl, rfl⟩
  obtain ⟨c, hc, ho⟩ := hc
  exact ⟨c, hc, ho, rfl, channel_lifecycle (Possible.start.ran _) hc⟩

end System
end EventHub
