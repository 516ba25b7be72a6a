import EventHub.Proofs.Recording.Recorder
import EventHub.Proofs.System.Possible
set_option autoImplicit false

namespace EventHub

namespace Note

def postedOn (channel : Nat) : Note → List Event
  | posted c e (.ok ()) => if c = channel then [e] else []
  | _ => []

def fetchedBy (channel : Nat) : Note → List Event
  | returned (.fetchFrom c _ _) (.fetched (.delivered e)) => if c = channel then [e] else []
  | _ => []

def RecordingFailed (channel : Nat) : Note → Prop
  | posted c _ (.error (.recording _)) => c = channel
  | changed c (.error (.recording _)) => c = channel
  | returned (.fetchFrom c _ _) (.channelError (.recording _)) => c = channel
  | _ => False

end Note

def Move.OpensOrCloses (channel : Nat) : Move → Prop
  | .init c _ => c = channel
  | .close c => c = channel
  | .abort c => c = channel
  | _ => False

def Move.UsesRecordings (s : System) (channel : Nat) : Move → Prop
  | .post c _ => c = channel
  | .flush c => c = channel
  | .onHubs m => m.Fetches s channel
  | _ => False

structure RunStep where
  before : System
  note : Note
  after : System

def postedOn (channel : Nat) (run : List RunStep) : List Event := run.flatMap fun g => g.note.postedOn channel

def fetchedBy (channel : Nat) (run : List RunStep) : List Event := run.flatMap fun g => g.note.fetchedBy channel

namespace System

/-- A run in which a channel is neither opened nor closed, its recordings do not fail, and everybody else
leaves its logs alone. -/
inductive OpenRun (channel : Nat) : System → List RunStep → System → Prop where
  | done (s : System) : OpenRun channel s [] s
  | move (s : System) (m : Move) (run : List RunStep) (t : System) (stays : ¬ m.OpensOrCloses channel)
      (fine : ¬ (m.step s).1.RecordingFailed channel)
      (alone : ¬ m.UsesRecordings s channel → ∀ c, s.channels[channel]? = some c →
        c.recorder.Spared s.files (m.step s).2.files)
      (rest : OpenRun channel (m.step s).2 run t) :
      OpenRun channel s (⟨s, (m.step s).1, (m.step s).2⟩ :: run) t

def runSteps (s : System) : List Move → List RunStep
  | [] => []
  | m :: ms => ⟨s, (m.step s).1, (m.step s).2⟩ :: (m.step s).2.runSteps ms

def logBytes (es : List Event) : Bytes := (es.map Record.ofEvent).flatMap Record.bytes

theorem logBytes_append (es : List Event) (e : Event) :
    logBytes (es ++ [e]) = logBytes es ++ (Record.ofEvent e).bytes := by
  simp [logBytes]

/-- A channel keeps its kind, stays open or closed, and its recordings are as they were. -/
structure SameChannel (channel : Nat) (s t : System) : Prop where
  channel : ∀ c, s.channels[channel]? = some c → ∃ d, t.channels[channel]? = some d ∧
    d.kind = c.kind ∧ d.isOpen = c.isOpen ∧ d.recorder = c.recorder

theorem sameChannel_of_channels {channel : Nat} {s t : System} (h : t.channels = s.channels) :
    SameChannel channel s t :=
  ⟨fun c hc => ⟨c, h ▸ hc, rfl, rfl, rfl⟩⟩

theorem SameChannel.trans {channel : Nat} {s t u : System} (h : SameChannel channel s t) (k : SameChannel channel t u) :
    SameChannel channel s u := by
  refine ⟨fun c hc => ?_⟩
  obtain ⟨d, hd, hkind, hopen, hrec⟩ := h.channel c hc
  obtain ⟨b, hb, hkind', hopen', hrec'⟩ := k.channel d hd
  exact ⟨b, hb, hkind'.trans hkind, hopen'.trans hopen, hrec'.trans hrec⟩

theorem sameChannel_changeChannel {channel other : Nat} (h : other ≠ channel) (s : System)
    (change : Channel → FileSystem → Channel.Outcome) :
    SameChannel channel s (s.changeChannel other change).2 := by
  unfold changeChannel
  split
  · exact sameChannel_of_channels rfl
  · exact ⟨fun c hc => ⟨c, (List.getElem?_set_ne h).trans hc, rfl, rfl, rfl⟩⟩

theorem sameChannel_addChannel (channel : Nat) (s : System) (c : Channel) :
    SameChannel channel s (s.addChannel c).2 := by
  refine ⟨fun d hd => ⟨d, ?_, rfl, rfl, rfl⟩⟩
  rw [addChannel, List.getElem?_append_left (List.getElem?_eq_some_iff.1 hd).1]
  exact hd

theorem sameChannel_attach (channel : Nat) (s : System) (other flag : Nat) (asynchronous : Bool) :
    SameChannel channel s (s.attach other flag asynchronous).2 := by
  rcases attach_snd s other flag asynchronous with h | ⟨c, hc, -, h⟩
  · exact sameChannel_of_channels (congrArg System.channels h)
  · rw [h]
    refine ⟨fun d hd => ?_⟩
    by_cases ho : other = channel
    · subst ho
      rw [hc] at hd
      cases hd
      have hl := (List.getElem?_eq_some_iff.1 hc).1
      exact ⟨_, List.getElem?_set_self hl, rfl, rfl, rfl⟩
    · exact ⟨d, (List.getElem?_set_ne ho).trans hd, rfl, rfl, rfl⟩

theorem channels_send (s : System) (outlet : Outlet) (e : Event) :
    (s.send outlet e).2.channels = s.channels := by
  unfold send
  split
  · exact channels_publish s _ e
  · split <;> rfl

theorem files_send (s : System) (outlet : Outlet) (e : Event) : (s.send outlet e).2.files = s.files := by
  unfold send
  split
  · exact (sameOutsideHubs_publish s _ e).files
  · split <;> rfl

def outletOf (s : System) (channel : Nat) : Option Outlet := s.channels[channel]?.bind Channel.outlet?

theorem post_eq (s : System) (channel : Nat) (e : Event) :
    s.post channel e =
      let r := s.changeChannel channel fun c fs => c.recordPost fs e
      (r.1,
       match r.1, r.2.outletOf channel with
       | .ok (), some outlet => (r.2.send outlet e).2
       | _, _ => r.2) := by
  rw [post]
  cases h : s.changeChannel channel fun c fs => c.recordPost fs e with
  | mk r t =>
    cases r with
    | error err => rfl
    | ok u =>
      dsimp only
      rw [outletOf]
      cases t.channels[channel]?.bind Channel.outlet? with
      | none => rfl
      | some outlet => rfl

theorem channels_post (s : System) (channel : Nat) (e : Event) :
    (s.post channel e).2.channels = (s.changeChannel channel fun c fs => c.recordPost fs e).2.channels := by
  rw [post_eq]
  dsimp only
  split
  · exact channels_send _ _ e
  · rfl

theorem files_post (s : System) (channel : Nat) (e : Event) :
    (s.post channel e).2.files = (s.changeChannel channel fun c fs => c.recordPost fs e).2.files := by
  rw [post_eq]
  dsimp only
  split
  · exact files_send _ _ e
  · rfl

theorem postedOn_ofCall (channel : Nat) (c : Call) (reply : Option Reply) :
    (Note.ofCall c reply).postedOn channel = [] := by
  cases reply with
  | none => rfl
  | some r => rfl

theorem postedOn_posted {channel other : Nat} (h : other ≠ channel) (e : Event)
    (outcome : Except ChannelError Unit) : (Note.posted other e outcome).postedOn channel = [] := by
  cases outcome with
  | error err => rfl
  | ok u => exact if_neg h

theorem fetchedBy_ofCall {channel : Nat} {c : Call} (hc : ∀ mask mode, c ≠ .fetchFrom channel mask mode)
    (reply : Option Reply) : (Note.ofCall c reply).fetchedBy channel = [] := by
  cases reply with
  | none => rfl
  | some r =>
    rw [Note.ofCall, Note.fetchedBy.eq_def]
    split
    · rename_i other mask mode e heq
      cases heq
      rw [if_neg]
      rintro rfl
      exact hc mask mode rfl
    · rfl

theorem sameChannel_fetched {channel other : Nat} {s t : System} {p : Progress} (h : Fetched s other p t)
    (hne : other ≠ channel) : SameChannel channel s t := by
  cases h with
  | nothing _ _ sameOutsideHubs _ _ => exact sameChannel_of_channels sameOutsideHubs.channels
  | recorded c hub sink outlet mask mode resumed e _ there opened kind answer ok =>
    have hs := sameChannel_changeChannel hne (s.askHub hub ⟨mask, mode, sink, true⟩ resumed).2
      fun c fs => c.recordFetch fs e
    rw [ok] at hs
    exact (sameChannel_of_channels (channels_askHub s hub _ resumed)).trans hs
  | failed hub ask resumed e err _ error =>
    have hs := sameChannel_changeChannel hne (s.askHub hub ask resumed).2 fun c fs => c.recordFetch fs e
    rw [error] at hs
    exact (sameChannel_of_channels (channels_askHub s hub ask resumed)).trans hs

theorem sameChannel_ran {channel other : Nat} {mask : Mask} {mode : WaitMode} {s t : System}
    {reply : Option Reply} (h : Ran s (.fetchFrom other mask mode) reply t) (hne : other ≠ channel) :
    SameChannel channel s t := by
  cases h with
  | stayed _ still => exact sameChannel_of_channels still.channels
  | went s' _ resumed before after =>
    exact (sameChannel_of_channels before.channels).trans
      ((sameChannel_fetched (fetched_advance s' other mask mode resumed) hne).trans
        (sameChannel_of_channels after.channels))

/-- A move of somebody else neither changes a channel nor goes through it. -/
structure LeavesChannel (channel : Nat) (s : System) (note : Note) (t : System) : Prop where
  stays : SameChannel channel s t
  posted : note.postedOn channel = []
  fetched : note.fetchedBy channel = []

theorem leavesChannel_stepOnHubs {channel : Nat} {s : System} {m : HubMove} (h : ¬ m.Fetches s channel) :
    LeavesChannel channel s (m.step s).1 (m.step s).2 := by
  have hm := hubStep_step s m
  generalize m.step s = r at hm ⊢
  obtain ⟨note, t⟩ := r
  cases hm with
  | quiet _ sameOutsideHubs => exact ⟨sameChannel_of_channels sameOutsideHubs.channels, rfl, rfl⟩
  | published hub e taken _ sameOutsideHubs => exact ⟨sameChannel_of_channels sameOutsideHubs.channels, rfl, rfl⟩
  | called c reply _ sameOutsideHubs other =>
    exact ⟨sameChannel_of_channels sameOutsideHubs.channels, postedOn_ofCall channel c reply,
      fetchedBy_ofCall (other channel) reply⟩
  | fetched fetching mask mode reply _ fetches ran =>
    have hne : fetching ≠ channel := by
      rintro rfl
      exact h fetches
    refine ⟨sameChannel_ran ran hne, postedOn_ofCall channel _ reply, fetchedBy_ofCall ?_ reply⟩
    intro mask' mode' he
    cases he
    exact hne rfl

theorem postedOn_stepOnHubs (channel : Nat) (s : System) (m : HubMove) :
    (m.step s).1.postedOn channel = [] := by
  have hm := hubStep_step s m
  generalize m.step s = r at hm ⊢
  obtain ⟨note, t⟩ := r
  cases hm with
  | quiet _ _ => rfl
  | published hub e taken _ _ => rfl
  | called c reply _ _ _ => exact postedOn_ofCall channel c reply
  | fetched fetching mask mode reply _ _ _ => exact postedOn_ofCall channel _ reply

theorem leavesChannel_changed {channel other : Nat} (h : other ≠ channel) (s : System)
    (change : Channel → FileSystem → Channel.Outcome) :
    LeavesChannel channel s (.changed other (s.changeChannel other change).1) (s.changeChannel other change).2 :=
  ⟨sameChannel_changeChannel h s change, rfl, rfl⟩

theorem leavesChannel_step {channel : Nat} {s : System} {m : Move} (hg : ¬ m.OpensOrCloses channel)
    (hu : ¬ m.UsesRecordings s channel) : LeavesChannel channel s (m.step s).1 (m.step s).2 := by
  cases m with
  | onHubs m => exact leavesChannel_stepOnHubs hu
  | makeCollector accepts => exact ⟨sameChannel_of_channels rfl, rfl, rfl⟩
  | makeChannel name outlet => exact ⟨sameChannel_addChannel channel s _, rfl, rfl⟩
  | makeBareChannel name => exact ⟨sameChannel_addChannel channel s _, rfl, rfl⟩
  | makeHubChannel name hub sink outlet =>
    refine ⟨?_, rfl, rfl⟩
    rw [Move.step]
    split
    · exact (sameChannel_addChannel channel s _).trans (sameChannel_attach channel _ _ _ false)
    · exact sameChannel_of_channels rfl
  | attach other flag asynchronous =>
    refine ⟨?_, rfl, rfl⟩
    rw [Move.step]
    split
    · exact sameChannel_attach channel s other flag asynchronous
    · exact sameChannel_of_channels rfl
  | init other config => exact leavesChannel_changed hg s fun c fs => c.init fs config
  | close other => exact leavesChannel_changed hg s Channel.close
  | abort other => exact leavesChannel_changed hg s Channel.abort
  | flush other => exact leavesChannel_changed hu s Channel.flush
  | post other e =>
    refine ⟨?_, ?_, rfl⟩
    · have hs := sameChannel_changeChannel hu s fun c fs => c.recordPost fs e
      exact hs.trans (sameChannel_of_channels (channels_post s other e))
    · exact postedOn_posted hu e _
  | hasEvent other mask => exact ⟨sameChannel_of_channels (sameOutsideHubs_hasEvent s other mask).channels, rfl, rfl⟩
  | raiseOwn other => exact ⟨sameChannel_of_channels (sameOutsideHubs_raiseOwn s other).channels, rfl, rfl⟩
  | clearOwn other => exact ⟨sameChannel_of_channels (sameOutsideHubs_clearOwn s other).channels, rfl, rfl⟩
  | disturb files => exact ⟨sameChannel_of_channels rfl, rfl, rfl⟩

end System
end EventHub
