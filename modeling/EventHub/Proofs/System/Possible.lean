import EventHub.Proofs.System.BasicSteps
import EventHub.Proofs.System.Coherent
set_option autoImplicit false

namespace EventHub

namespace Channel

def IdleIfClosed (c : Channel) : Prop := c.isOpen = false → c.recorder = .idle

theorem idleIfClosed_of_isOpen {c : Channel} (h : c.isOpen = true) : c.IdleIfClosed := by
  intro hc
  rw [h] at hc
  cases hc

theorem isOpen_ofRecorder (c : Channel) {α : Type} (r : Except RecordingError α × Recorder × FileSystem) :
    (c.ofRecorder r).2.1.isOpen = c.isOpen := by
  obtain ⟨e | a, r, fs⟩ := r
  · rfl
  · rfl

theorem recorder_ofRecorder (c : Channel) {α : Type} (r : Except RecordingError α × Recorder × FileSystem) :
    (c.ofRecorder r).2.1.recorder = r.2.1 := by
  obtain ⟨e | a, r, fs⟩ := r
  · rfl
  · rfl

/-- An open channel stays open, and one that is closed has nothing to let go of. -/
theorem IdleIfClosed.ofRecorder {c : Channel} (h : c.IdleIfClosed) {α : Type}
    {r : Except RecordingError α × Recorder × FileSystem} (hr : c.recorder = .idle → r.2.1 = .idle) :
    (c.ofRecorder r).2.1.IdleIfClosed := by
  intro hc
  rw [isOpen_ofRecorder] at hc
  rw [recorder_ofRecorder]
  exact hr (h hc)

theorem finish_idle (r : Recorder) (fs : FileSystem) : (r.finish fs).2.1 = .idle := by
  unfold Recorder.finish
  dsimp only
  split <;> rfl

theorem discard_idle (r : Recorder) (fs : FileSystem) : (r.discard fs).2.1 = .idle := by
  unfold Recorder.discard
  dsimp only
  split <;> rfl

theorem close_of_idle {c : Channel} (hc : c.recorder = .idle) (fs : FileSystem) :
    c.close fs = (.ok (), { c with isOpen := false }, fs) := by
  obtain ⟨name, kind, isOpen, binding, recorder⟩ := c
  subst hc
  cases isOpen with
  | false => rfl
  | true => rfl

theorem IdleIfClosed.close {c : Channel} (h : c.IdleIfClosed) (fs : FileSystem) : (c.close fs).2.1.IdleIfClosed := by
  unfold Channel.close
  split
  · intro _
    rw [recorder_ofRecorder, finish_idle]
  · exact h

theorem isOpen_close (c : Channel) (fs : FileSystem) : (c.close fs).2.1.isOpen = false := by
  unfold Channel.close
  split
  · rw [isOpen_ofRecorder]
  · rename_i ho
    simpa using ho

theorem init_eq_ok {c d : Channel} {fs fs' : FileSystem} {config : ChannelConfig} (h : c.IdleIfClosed)
    (hi : c.init fs config = (.ok (), d, fs')) :
    d.isOpen = true ∧ ∃ gs, Recorder.idle.start gs config = (.ok (), d.recorder, fs') := by
  have ht := h.close fs
  have ho := c.isOpen_close fs
  rw [Channel.init] at hi
  generalize c.close fs = closed at hi ht ho
  obtain ⟨e | u, b, gs⟩ := closed
  · cases hi
  · have hb : b.recorder = .idle := ht ho
    dsimp only at hi
    rw [hb] at hi
    generalize hs : Recorder.idle.start gs config = r at hi
    obtain ⟨e | u, r, gs'⟩ := r
    · cases hi
    · cases hi
      exact ⟨rfl, gs, hs⟩

theorem IdleIfClosed.init {c : Channel} (h : c.IdleIfClosed) (fs : FileSystem) (config : ChannelConfig) :
    (c.init fs config).2.1.IdleIfClosed := by
  have ht := h.close fs
  rw [Channel.init]
  split
  · rename_i heq
    rw [heq] at ht
    exact ht
  · rename_i b gs heq
    rw [heq] at ht
    have hstart : b.recorder = .idle → ∀ e r gs', b.recorder.start gs config = (.error e, r, gs') →
        r = .idle := by
      intro hb e r gs' hr
      rw [hb, Recorder.start] at hr
      split at hr
      · cases hr
        rfl
      · split at hr
        · split at hr
          · cases hr
            rfl
          · cases hr
            rfl
        · cases hr
    generalize hr : b.recorder.start gs config = r at hstart
    obtain ⟨e | u, r, gs'⟩ := r
    · exact fun ho => hstart (ht ho) e r gs' rfl
    · exact idleIfClosed_of_isOpen rfl

theorem IdleIfClosed.abort {c : Channel} (h : c.IdleIfClosed) (fs : FileSystem) : (c.abort fs).2.1.IdleIfClosed := by
  rw [Channel.abort]
  split
  · have hd : (c.ofRecorder (c.recorder.discard fs)).2.1.IdleIfClosed := by
      intro _
      rw [recorder_ofRecorder, discard_idle]
    split
    rename_i d gs heq
    rw [heq] at hd
    have hc := hd.close gs
    split
    · rename_i heq'
      rw [heq'] at hc
      exact hc
    · rename_i heq'
      rw [heq'] at hc
      exact hc
  · exact h

theorem IdleIfClosed.flush {c : Channel} (h : c.IdleIfClosed) (fs : FileSystem) : (c.flush fs).2.1.IdleIfClosed := by
  apply h.ofRecorder
  intro hr
  rw [hr]
  rfl

theorem IdleIfClosed.recordPost {c : Channel} (h : c.IdleIfClosed) (fs : FileSystem) (e : Event) :
    (c.recordPost fs e).2.1.IdleIfClosed := by
  unfold Channel.recordPost
  split
  · apply h.ofRecorder
    intro hr
    rw [hr]
    rfl
  · exact h

theorem IdleIfClosed.recordFetch {c : Channel} (h : c.IdleIfClosed) (fs : FileSystem) (e : Event) :
    (c.recordFetch fs e).2.1.IdleIfClosed := by
  apply h.ofRecorder
  intro hr
  rw [hr]
  rfl

end Channel

theorem ChannelUse.idleIfClosed (u : ChannelUse) (c : Channel) (fs : FileSystem) (h : c.IdleIfClosed) :
    (u.change c fs).2.1.IdleIfClosed := by
  cases u with
  | init config => exact h.init fs config
  | close => exact h.close fs
  | abort => exact h.abort fs
  | flush => exact h.flush fs
  | recordPost e => exact h.recordPost fs e
  | recordFetch e => exact h.recordFetch fs e

namespace System

structure CoherentAndIdle (s : System) : Prop where
  coherent : s.Coherent
  idleIfClosed : ∀ c ∈ s.channels, c.IdleIfClosed

theorem coherentAndIdle_empty (files : FileSystem) : (empty files).CoherentAndIdle :=
  ⟨coherent_empty files, fun c hc => by cases hc⟩

theorem hubs_changeChannel (s : System) (id : Nat) (change : Channel → FileSystem → Channel.Outcome) :
    (s.changeChannel id change).2.hubs = s.hubs := by
  unfold changeChannel
  split <;> rfl

theorem Coherent.basicStep {s t : System} (hs : s.Coherent) (h : BasicStep s t) : t.Coherent := by
  cases h with
  | raise flag bit => exact hs.congr (hubAt_raise s flag bit)
  | makeHub name flag _ => exact hs.addHub name flag
  | addSink hub sink => exact hs.addSink hub sink
  | publish hub e => exact hs.publish hub e
  | stop hub => exact hs.stop hub
  | ask hub ask resumed => exact hs.askHub hub ask resumed
  | use channel u => exact hs.of_hubs (hubs_changeChannel s channel u.change)
  | _ => exact hs.of_hubs rfl

theorem idleIfClosed_set {cs : List Channel} (hs : ∀ c ∈ cs, c.IdleIfClosed) (channel : Nat) {c : Channel}
    (hc : c.IdleIfClosed) : ∀ d ∈ cs.set channel c, d.IdleIfClosed := by
  intro d hd
  rcases List.mem_or_eq_of_mem_set hd with hd | rfl
  · exact hs d hd
  · exact hc

theorem idleIfClosed_basicStep {s t : System} (hs : ∀ c ∈ s.channels, c.IdleIfClosed) (h : BasicStep s t) :
    ∀ c ∈ t.channels, c.IdleIfClosed := by
  have hsame : t.channels = s.channels → ∀ c ∈ t.channels, c.IdleIfClosed := fun h => h ▸ hs
  cases h with
  | raise flag bit => exact hsame (channels_raise s flag bit)
  | addSink hub sink => exact hsame (channels_changeHub s hub 0 _)
  | publish hub e => exact hsame (channels_publish s hub e)
  | stop hub => exact hsame (channels_stop s hub)
  | ask hub ask resumed => exact hsame (channels_askHub s hub ask resumed)
  | makeChannel name kind =>
    intro c hc
    rcases List.mem_append.1 hc with hc | hc
    · exact hs c hc
    · rw [List.mem_singleton.1 hc]
      exact fun _ => rfl
  | bind channel c b there =>
    have hc : Channel.IdleIfClosed { c with binding := some b } := hs c (List.mem_of_getElem? there)
    exact idleIfClosed_set hs channel hc
  | use channel u =>
    unfold changeChannel
    split
    · exact hs
    · rename_i c hc
      exact idleIfClosed_set hs channel (u.idleIfClosed c s.files (hs c (List.mem_of_getElem? hc)))
  | _ => exact hs

theorem CoherentAndIdle.step {s : System} (hs : s.CoherentAndIdle) (m : Move) : (m.step s).2.CoherentAndIdle :=
  related_step (R := fun s t => s.CoherentAndIdle → t.CoherentAndIdle) (fun _ hs => hs) (fun h k hs => k (h hs))
    (fun h hs => ⟨hs.coherent.basicStep h, idleIfClosed_basicStep hs.idleIfClosed h⟩)
    (fun same hs => ⟨hs.coherent.of_hubs same.hubs, same.channels ▸ hs.idleIfClosed⟩) s m hs

/-- What can come about by any moves at all. -/
inductive Possible (files : FileSystem) : System → Prop where
  | start : Possible files (empty files)
  | move (s : System) (m : Move) (possible : Possible files s) : Possible files (m.step s).2

def ran (s : System) : List Move → System
  | [] => s
  | m :: ms => (m.step s).2.ran ms

theorem Possible.ran {files : FileSystem} {s : System} (h : Possible files s) (ms : List Move) :
    Possible files (s.ran ms) := by
  induction ms generalizing s with
  | nil => exact h
  | cons m ms ih => exact ih (.move s m h)

theorem Possible.coherentAndIdle {files : FileSystem} {s : System} (h : Possible files s) : s.CoherentAndIdle := by
  induction h with
  | start => exact coherentAndIdle_empty files
  | move s m _ ih => exact ih.step m

end System
end EventHub
