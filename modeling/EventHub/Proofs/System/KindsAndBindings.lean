import EventHub.Proofs.System.Frame
set_option autoImplicit false

namespace EventHub

namespace Channel

def kindAndBinding (c : Channel) : ChannelKind × Option Binding := (c.kind, c.binding)

theorem kindAndBinding_ofRecorder (c : Channel) {α : Type} (r : Except RecordingError α × Recorder × FileSystem) :
    (c.ofRecorder r).2.1.kindAndBinding = c.kindAndBinding := by
  obtain ⟨e | a, r, fs⟩ := r
  · rfl
  · rfl

theorem kindAndBinding_close (c : Channel) (fs : FileSystem) : (c.close fs).2.1.kindAndBinding = c.kindAndBinding := by
  unfold close
  split
  · exact kindAndBinding_ofRecorder { c with isOpen := false } _
  · rfl

theorem kindAndBinding_init (c : Channel) (fs : FileSystem) (config : ChannelConfig) :
    (c.init fs config).2.1.kindAndBinding = c.kindAndBinding := by
  have hc := kindAndBinding_close c fs
  rw [init]
  split
  · rename_i heq
    rw [heq] at hc
    exact hc
  · rename_i d fs' heq
    rw [heq] at hc
    have hr := kindAndBinding_ofRecorder d (d.recorder.start fs' config)
    split
    · rename_i heq'
      rw [heq'] at hr
      exact hr.trans hc
    · rename_i heq'
      rw [heq'] at hr
      exact hr.trans hc

theorem kindAndBinding_abort (c : Channel) (fs : FileSystem) : (c.abort fs).2.1.kindAndBinding = c.kindAndBinding := by
  rw [abort]
  split
  · have hr := kindAndBinding_ofRecorder c (c.recorder.discard fs)
    split
    rename_i d fs' heq
    rw [heq] at hr
    have hc := kindAndBinding_close d fs'
    split
    · rename_i heq'
      rw [heq'] at hc
      exact hc.trans hr
    · rename_i heq'
      rw [heq'] at hc
      exact hc.trans hr
  · rfl

theorem kindAndBinding_flush (c : Channel) (fs : FileSystem) : (c.flush fs).2.1.kindAndBinding = c.kindAndBinding :=
  kindAndBinding_ofRecorder c _

theorem kindAndBinding_recordPost (c : Channel) (fs : FileSystem) (e : Event) :
    (c.recordPost fs e).2.1.kindAndBinding = c.kindAndBinding := by
  unfold recordPost
  split
  · exact kindAndBinding_ofRecorder c _
  · rfl

theorem kindAndBinding_recordFetch (c : Channel) (fs : FileSystem) (e : Event) :
    (c.recordFetch fs e).2.1.kindAndBinding = c.kindAndBinding := kindAndBinding_ofRecorder c _

end Channel

namespace System

def kindOf (s : System) (channel : Nat) : Option ChannelKind := s.channels[channel]?.map Channel.kind

def bindingOf (s : System) (channel : Nat) : Option Binding := s.channels[channel]?.bind Channel.binding

theorem kindOf_of_getElem? {s : System} {channel : Nat} {ch : Channel}
    (h : s.channels[channel]? = some ch) : s.kindOf channel = some ch.kind := by
  rw [kindOf, h]
  rfl

theorem kindOf_congr {s t : System} (h : t.channels = s.channels) (channel : Nat) :
    t.kindOf channel = s.kindOf channel := by
  rw [kindOf, kindOf, h]

theorem bindingOf_congr {s t : System} (h : t.channels = s.channels) (channel : Nat) :
    t.bindingOf channel = s.bindingOf channel := by
  rw [bindingOf, bindingOf, h]

theorem exists_kindOf {s : System} {channel : Nat} {b : Binding} (h : s.bindingOf channel = some b) :
    ∃ k, s.kindOf channel = some k := by
  unfold bindingOf at h
  unfold kindOf
  cases hc : s.channels[channel]? with
  | none => simp [hc] at h
  | some c => exact ⟨c.kind, rfl⟩

/-- Everything but channels and files is as it was, and the channels keep their kinds and bindings. -/
structure SameKindsAndBindings (s t : System) : Prop where
  flags : t.flags = s.flags
  hubs : t.hubs = s.hubs
  sleepers : t.sleepers = s.sleepers
  kindOf : ∀ channel, t.kindOf channel = s.kindOf channel
  bindingOf : ∀ channel, t.bindingOf channel = s.bindingOf channel

theorem sameKindsAndBindings_changeChannel (s : System) (id : Nat)
    (change : Channel → FileSystem → Except ChannelError Unit × Channel × FileSystem)
    (h : ∀ c fs, (change c fs).2.1.kindAndBinding = c.kindAndBinding) :
    SameKindsAndBindings s (s.changeChannel id change).2 := by
  unfold changeChannel
  split
  · exact ⟨rfl, rfl, rfl, fun _ => rfl, fun _ => rfl⟩
  · rename_i c hc
    obtain ⟨hl, rfl⟩ := List.getElem?_eq_some_iff.1 hc
    have hs := h s.channels[id] s.files
    have hk : (change s.channels[id] s.files).2.1.kind = s.channels[id].kind := congrArg Prod.fst hs
    have hb : (change s.channels[id] s.files).2.1.binding = s.channels[id].binding := congrArg Prod.snd hs
    refine ⟨rfl, rfl, rfl, ?_, ?_⟩
    · intro channel
      by_cases ho : channel = id
      · subst ho
        simp [System.kindOf, hl, hk]
      · simp [System.kindOf, Ne.symm ho]
    · intro channel
      by_cases ho : channel = id
      · subst ho
        simp [System.bindingOf, hl, hb]
      · simp [System.bindingOf, Ne.symm ho]

theorem kindOf_addChannel (s : System) (c : Channel) {channel : Nat} {k : ChannelKind}
    (h : s.kindOf channel = some k) : (s.addChannel c).2.kindOf channel = some k := by
  unfold kindOf at h ⊢
  cases hc : s.channels[channel]? with
  | none => simp [hc] at h
  | some d =>
    have hl := (List.getElem?_eq_some_iff.1 hc).1
    rw [hc] at h
    simp only [addChannel, List.getElem?_append_left hl, hc]
    exact h

theorem bindingOf_addChannel (s : System) (name : String) (kind : ChannelKind) (channel : Nat) :
    (s.addChannel (.make name kind)).2.bindingOf channel = s.bindingOf channel := by
  unfold bindingOf addChannel
  by_cases hl : channel < s.channels.length
  · simp [List.getElem?_append_left hl]
  · rw [List.getElem?_append_right (Nat.le_of_not_lt hl), List.getElem?_eq_none (Nat.le_of_not_lt hl)]
    cases channel - s.channels.length with
    | zero => rfl
    | succ n => rfl

/-- A channel that holds no bit is given one; any other is left alone. -/
theorem attach_snd (s : System) (channel flag : Nat) (asynchronous : Bool) :
    (s.attach channel flag asynchronous).2 = s ∨
      ∃ c, s.channels[channel]? = some c ∧ c.binding = none ∧
        (s.attach channel flag asynchronous).2 =
          { (s.addSource flag asynchronous).2 with
            channels := s.channels.set channel
              { c with binding := some ⟨flag, (s.addSource flag asynchronous).1⟩ } } := by
  unfold attach
  cases hc : s.channels[channel]? with
  | none => exact .inl rfl
  | some c =>
    cases hb : c.binding with
    | some b =>
      left
      dsimp only
      rw [hb]
    | none =>
      right
      refine ⟨c, rfl, hb, ?_⟩
      dsimp only
      rw [hb]
      rfl

end System
end EventHub
