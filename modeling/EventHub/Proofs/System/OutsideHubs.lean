import EventHub.Proofs.System.Fetch
import EventHub.Proofs.System.Moves
set_option autoImplicit false

namespace EventHub

namespace System

structure SameOutsideHubs (s t : System) : Prop where
  files : t.files = s.files
  channels : t.channels = s.channels
  collectors : t.collectors = s.collectors

theorem SameOutsideHubs.refl (s : System) : SameOutsideHubs s s := ⟨rfl, rfl, rfl⟩

theorem SameOutsideHubs.trans {s t u : System} (h : SameOutsideHubs s t) (k : SameOutsideHubs t u) :
    SameOutsideHubs s u :=
  ⟨k.files.trans h.files, k.channels.trans h.channels, k.collectors.trans h.collectors⟩

theorem SameOutsideHubs.wake {s t : System} (h : SameOutsideHubs s t) (point : WaitPoint) :
    SameOutsideHubs s (t.wake point) :=
  ⟨h.files, h.channels, h.collectors⟩

theorem sameOutsideHubs_raise (s : System) (flag bit : Nat) : SameOutsideHubs s (s.raise flag bit) := by
  unfold raise
  split
  · exact ⟨rfl, rfl, rfl⟩
  · exact .refl s

theorem sameOutsideHubs_changeHub {α : Type} (s : System) (id : Nat) (absent : α)
    (change : Hub → Flag → α × Hub × Flag) : SameOutsideHubs s (s.changeHub id absent change).2 := by
  unfold changeHub
  split
  · exact .refl s
  · exact ⟨rfl, rfl, rfl⟩

theorem sameOutsideHubs_addSink (s : System) (hub : Nat) (sink : Sink) : SameOutsideHubs s (s.addSink hub sink).2 :=
  sameOutsideHubs_changeHub s hub 0 _

theorem sameOutsideHubs_publish (s : System) (hub : Nat) (e : Event) : SameOutsideHubs s (s.publish hub e).2 := by
  have h := sameOutsideHubs_changeHub s hub false fun h f => h.publish f e
  rw [publish_eq]
  dsimp only
  split
  · exact (h.wake _).wake _
  · exact h

theorem sameOutsideHubs_stop (s : System) (hub : Nat) : SameOutsideHubs s (s.stop hub) := by
  have h := sameOutsideHubs_changeHub s hub false fun h f => (h.running, h.stop f)
  rw [stop_eq]
  dsimp only
  split
  · exact (h.wake _).wake _
  · exact h

theorem sameOutsideHubs_askHub (s : System) (hub : Nat) (ask : Ask) (resumed : Bool) :
    SameOutsideHubs s (s.askHub hub ask resumed).2 := by
  have h := sameOutsideHubs_changeHub s hub (Hub.Pause.answer (.pending .closed), false) (askChange ask resumed)
  rw [askHub_eq]
  dsimp only
  split
  · exact h.wake _
  · exact h

theorem sameOutsideHubs_notify (s : System) (hub : Nat) : SameOutsideHubs s (s.notify hub) := by
  unfold notify
  split
  · exact .refl s
  · exact sameOutsideHubs_raise s _ _

theorem sameOutsideHubs_probe (s : System) (hub : Nat) (mask : Mask) (sink : Nat) :
    SameOutsideHubs s (s.probe hub mask sink).2 := by
  rw [probe_snd]
  exact sameOutsideHubs_askHub s hub _ false

theorem sameOutsideHubs_hasEvent (s : System) (channel : Nat) (mask : Mask) :
    SameOutsideHubs s (s.hasEvent channel mask).2 := by
  unfold hasEvent
  split
  · exact .refl s
  · split
    · split
      · exact sameOutsideHubs_probe s _ mask _
      · exact .refl s
    · exact .refl s

theorem sameOutsideHubs_raiseOwn (s : System) (channel : Nat) : SameOutsideHubs s (s.raiseOwn channel) := by
  unfold raiseOwn
  split
  · exact .refl s
  · exact sameOutsideHubs_raise s _ _

theorem sameOutsideHubs_clearOwn (s : System) (channel : Nat) : SameOutsideHubs s (s.clearOwn channel) := by
  unfold clearOwn
  split
  · exact .refl s
  · exact ⟨rfl, rfl, rfl⟩

/-- The ends of a fetch: either no event is handed out and nothing is recorded, or the event that the hub
handed out is, and it depends on that what is answered. -/
inductive Fetched (s : System) (channel : Nat) : Progress → System → Prop where
  | nothing (p : Progress) (t : System) (sameOutsideHubs : SameOutsideHubs s t)
      (quiet : ∀ e, p ≠ .returned (.fetched (.delivered e)))
      (fine : ∀ err, p ≠ .returned (.channelError (.recording err))) : Fetched s channel p t
  | recorded (c : Channel) (hub sink : Nat) (outlet : Outlet) (mask : Mask) (mode : WaitMode)
      (resumed : Bool) (e : Event) (t : System) (there : s.channels[channel]? = some c)
      (opened : c.isOpen = true) (kind : c.kind = .ofHub hub sink outlet)
      (answer : (s.askHub hub ⟨mask, mode, sink, true⟩ resumed).1 = .answer (.delivered e))
      (ok : (s.askHub hub ⟨mask, mode, sink, true⟩ resumed).2.changeChannel channel
        (fun c fs => c.recordFetch fs e) = (.ok (), t)) :
      Fetched s channel (.returned (.fetched (.delivered e))) t
  | failed (hub : Nat) (ask : Ask) (resumed : Bool) (e : Event) (err : ChannelError) (t : System)
      (error : (s.askHub hub ask resumed).2.changeChannel channel (fun c fs => c.recordFetch fs e) =
        (.error err, t)) :
      Fetched s channel (.returned (.channelError err)) t

theorem fetched_waitOnFlag (s : System) (channel : Nat) (c : Channel) (mode : WaitMode) :
    Fetched s channel (asFetch (s.waitOnFlag c mode)) s := by
  refine .nothing _ _ (.refl s) ?_ ?_
  · intro e
    unfold waitOnFlag
    split
    · simp [asFetch]
    · simp [asFetch]
    · split
      · simp [asFetch]
      · split <;> simp [asFetch]
  · intro err
    unfold waitOnFlag
    split
    · simp [asFetch]
    · simp [asFetch]
    · split
      · simp [asFetch]
      · split <;> simp [asFetch]

theorem fetched_advance (s : System) (channel : Nat) (mask : Mask) (mode : WaitMode) (resumed : Bool) :
    Fetched s channel (s.advance resumed (.fetchFrom channel mask mode)).1
      (s.advance resumed (.fetchFrom channel mask mode)).2 := by
  rw [advance]
  split
  · exact .nothing _ _ (.refl s) (by simp) (by simp)
  · rename_i c hc
    split
    · rename_i ho
      split
      · rename_i hub sink outlet hk
        have he := sameOutsideHubs_askHub s hub ⟨mask, mode, sink, true⟩ resumed
        dsimp only
        cases hp : (s.askHub hub ⟨mask, mode, sink, true⟩ resumed).1 with
        | onQueue => exact .nothing _ _ he (by simp [pausePoint]) (by simp [pausePoint])
        | onFlag => exact .nothing _ _ he (by simp [pausePoint]) (by simp [pausePoint])
        | answer fetch =>
          cases fetch with
          | pending st => exact .nothing _ _ he (by simp [pausePoint, deliver]) (by simp [pausePoint, deliver])
          | delivered e =>
            dsimp only [pausePoint]
            rw [deliver]
            split
            · rename_i err t heq
              exact .failed hub _ resumed e err t heq
            · rename_i t heq
              exact .recorded c hub sink outlet mask mode resumed e t hc ho hk hp heq
      · exact fetched_waitOnFlag s channel c mode
    · exact .nothing _ _ (.refl s) (by simp) (by simp)

theorem sameOutsideHubs_advance (s : System) (resumed : Bool) {call : Call}
    (h : ∀ channel mask mode, call ≠ .fetchFrom channel mask mode) :
    SameOutsideHubs s (s.advance resumed call).2 := by
  cases call with
  | waitForFlag flag =>
    rw [advance]
    split <;> exact .refl s
  | askHub hub ask =>
    have he := sameOutsideHubs_askHub s hub ask resumed
    rw [advance]
    dsimp only
    split <;> exact he
  | fetchFrom channel mask mode => exact absurd rfl (h channel mask mode)
  | waitOnChannel channel mode =>
    rw [advance]
    split <;> exact .refl s

structure SameButSleepers (s t : System) : Prop extends SameOutsideHubs s t where
  flags : t.flags = s.flags
  hubs : t.hubs = s.hubs

/-- A call of which a part was run, from its start or from its waking; or it had no reason to go on. -/
inductive Ran (s : System) (call : Call) : Option Reply → System → Prop where
  | stayed (t : System) (still : SameButSleepers s t) : Ran s call none t
  | went (s' t : System) (resumed : Bool) (before : SameButSleepers s s')
      (after : SameButSleepers (s'.advance resumed call).2 t) :
      Ran s call (s'.advance resumed call).1.reply? t

theorem start_advance (s : System) (call : Call) :
    (s.start call).2.1 = ({ s with handles := s.handles + 1 }.advance false call).1 ∧
      SameButSleepers ({ s with handles := s.handles + 1 }.advance false call).2 (s.start call).2.2 := by
  rw [start]
  split
  · rename_i r t h
    rw [h]
    exact ⟨rfl, .refl t, rfl, rfl⟩
  · rename_i point t h
    rw [h]
    exact ⟨rfl, ⟨rfl, rfl, rfl⟩, rfl, rfl⟩

theorem resume_advance {s : System} {p : Sleeper} (h : s.mayGoOn p = true) :
    (s.resume p).1 = ((s.replace { p with awake := false }).advance true p.call).1.reply? ∧
      SameButSleepers ((s.replace { p with awake := false }).advance true p.call).2 (s.resume p).2 := by
  rw [resume, if_pos h]
  split
  · rename_i r t h
    rw [h]
    exact ⟨rfl, ⟨rfl, rfl, rfl⟩, rfl, rfl⟩
  · rename_i point t h
    rw [h]
    exact ⟨rfl, ⟨rfl, rfl, rfl⟩, rfl, rfl⟩

theorem ran_start (s : System) (call : Call) : Ran s call (s.start call).2.1.reply? (s.start call).2.2 := by
  obtain ⟨hp, ht⟩ := start_advance s call
  rw [hp]
  exact .went _ _ false ⟨⟨rfl, rfl, rfl⟩, rfl, rfl⟩ ht

theorem ran_resume (s : System) (p : Sleeper) : Ran s p.call (s.resume p).1 (s.resume p).2 := by
  have hs : SameButSleepers s (s.replace { p with awake := false }) := ⟨⟨rfl, rfl, rfl⟩, rfl, rfl⟩
  cases hm : s.mayGoOn p with
  | true =>
    obtain ⟨hp, ht⟩ := resume_advance hm
    rw [hp]
    exact .went _ _ true hs ht
  | false =>
    rw [resume, if_neg (by simp [hm])]
    exact .stayed _ hs

end System

/-- A move by which something is fetched through a channel. -/
def HubMove.Fetches (s : System) (channel : Nat) : HubMove → Prop
  | .call c => ∃ mask mode, c = .fetchFrom channel mask mode
  | .resume handle => ∃ p mask mode, s.wokenUnder handle = some p ∧ p.call = .fetchFrom channel mask mode
  | _ => False

namespace System

theorem exists_fetchFrom_or (c : Call) :
    (∃ channel mask mode, c = .fetchFrom channel mask mode) ∨
      ∀ channel mask mode, c ≠ .fetchFrom channel mask mode := by
  cases c with
  | fetchFrom channel mask mode => exact .inl ⟨channel, mask, mode, rfl⟩
  | waitForFlag flag => exact .inr fun _ _ _ h => by cases h
  | askHub hub ask => exact .inr fun _ _ _ h => by cases h
  | waitOnChannel channel mode => exact .inr fun _ _ _ h => by cases h

theorem Ran.sameOutsideHubs {s t : System} {c : Call} {reply : Option Reply} (h : Ran s c reply t)
    (hc : ∀ channel mask mode, c ≠ .fetchFrom channel mask mode) : SameOutsideHubs s t := by
  cases h with
  | stayed _ still => exact still.toSameOutsideHubs
  | went s' _ resumed before after =>
    exact before.toSameOutsideHubs.trans ((sameOutsideHubs_advance s' resumed hc).trans after.toSameOutsideHubs)

/-- The ends of a move on flags and hubs: it stays on that side, unless something is fetched by it. -/
inductive HubStep (s : System) (m : HubMove) : Note → System → Prop where
  | quiet (t : System) (sameOutsideHubs : SameOutsideHubs s t) : HubStep s m .quiet t
  | published (hub : Nat) (e : Event) (taken : Bool) (t : System) (sameOutsideHubs : SameOutsideHubs s t) :
      HubStep s m (.published hub e taken) t
  | called (c : Call) (reply : Option Reply) (t : System) (sameOutsideHubs : SameOutsideHubs s t)
      (other : ∀ channel mask mode, c ≠ .fetchFrom channel mask mode) : HubStep s m (.ofCall c reply) t
  | fetched (channel : Nat) (mask : Mask) (mode : WaitMode) (reply : Option Reply) (t : System)
      (fetches : m.Fetches s channel) (ran : Ran s (.fetchFrom channel mask mode) reply t) :
      HubStep s m (.ofCall (.fetchFrom channel mask mode) reply) t

theorem hubStep_step (s : System) (m : HubMove) : HubStep s m (m.step s).1 (m.step s).2 := by
  cases m with
  | makeFlag => exact .quiet _ ⟨rfl, rfl, rfl⟩
  | addSource flag asynchronous => exact .quiet _ ⟨rfl, rfl, rfl⟩
  | raise flag bit => exact .quiet _ (sameOutsideHubs_raise s flag bit)
  | clear flag bit => exact .quiet _ ⟨rfl, rfl, rfl⟩
  | makeHub name flag =>
    refine .quiet _ ?_
    rw [HubMove.step]
    split
    · exact ⟨rfl, rfl, rfl⟩
    · exact .refl s
  | addSink hub sink => exact .quiet _ (sameOutsideHubs_addSink s hub sink)
  | publish hub e => exact .published hub e _ _ (sameOutsideHubs_publish s hub e)
  | notify hub => exact .quiet _ (sameOutsideHubs_notify s hub)
  | stop hub => exact .quiet _ (sameOutsideHubs_stop s hub)
  | probe hub mask sink =>
    exact .called _ (some _) _ (sameOutsideHubs_probe s hub mask sink) fun _ _ _ h => by cases h
  | call c =>
    have hr := ran_start s c
    rcases exists_fetchFrom_or c with ⟨channel, mask, mode, rfl⟩ | hc
    · exact .fetched channel mask mode _ _ ⟨mask, mode, rfl⟩ hr
    · exact .called c _ _ (hr.sameOutsideHubs hc) hc
  | resume handle =>
    rw [HubMove.step]
    split
    · exact .quiet _ (.refl s)
    · -- whether something is fetched depends on the call that goes on
      rename_i p hp
      have hr := ran_resume s p
      rcases exists_fetchFrom_or p.call with ⟨channel, mask, mode, hc⟩ | hc
      · rw [hc] at hr ⊢
        exact .fetched channel mask mode _ _ ⟨p, mask, mode, hp, hc⟩ hr
      · exact .called p.call _ _ (hr.sameOutsideHubs hc) hc

end System
end EventHub
