import EventHub.Proofs.System.KindsAndBindings
import EventHub.Proofs.System.OutsideHubs
import Mathlib.Logic.Relation
set_option autoImplicit false

/-!
What moves are made of. Only a call and the resuming of one do more than basic steps do: they also change who
sleeps. So a relation that goes on from one step to the next needs to be shown for the basic steps only, and
where somebody falls asleep or goes on.
-/
namespace EventHub

inductive ChannelUse where
  | init (config : ChannelConfig)
  | close
  | abort
  | flush
  | recordPost (event : Event)
  | recordFetch (event : Event)

def ChannelUse.change : ChannelUse → Channel → FileSystem → Channel.Outcome
  | .init config => fun c fs => c.init fs config
  | .close => Channel.close
  | .abort => Channel.abort
  | .flush => Channel.flush
  | .recordPost e => fun c fs => c.recordPost fs e
  | .recordFetch e => fun c fs => c.recordFetch fs e

namespace System

inductive BasicStep : System → System → Prop where
  | files (s : System) (files : FileSystem) : BasicStep s { s with files := files }
  | collectors (s : System) (collectors : List Collector) : BasicStep s { s with collectors := collectors }
  | makeFlag (s : System) : BasicStep s s.addFlag.2
  | addSource (s : System) (flag : Nat) (asynchronous : Bool) : BasicStep s (s.addSource flag asynchronous).2
  | raise (s : System) (flag bit : Nat) : BasicStep s (s.raise flag bit)
  | clear (s : System) (flag bit : Nat) : BasicStep s (s.clear flag bit)
  | makeHub (s : System) (name : String) (flag : Nat) (there : flag < s.flags.length) :
      BasicStep s (s.addHub name flag).2
  | addSink (s : System) (hub : Nat) (sink : Sink) : BasicStep s (s.addSink hub sink).2
  | publish (s : System) (hub : Nat) (e : Event) : BasicStep s (s.publish hub e).2
  | stop (s : System) (hub : Nat) : BasicStep s (s.stop hub)
  | ask (s : System) (hub : Nat) (ask : Ask) (resumed : Bool) : BasicStep s (s.askHub hub ask resumed).2
  | makeChannel (s : System) (name : String) (kind : ChannelKind) : BasicStep s (s.addChannel (.make name kind)).2
  | bind (s : System) (channel : Nat) (c : Channel) (b : Binding) (there : s.channels[channel]? = some c) :
      BasicStep s { s with channels := s.channels.set channel { c with binding := some b } }
  | use (s : System) (channel : Nat) (u : ChannelUse) : BasicStep s (s.changeChannel channel u.change).2

abbrev BasicSteps : System → System → Prop := Relation.ReflTransGen BasicStep

theorem BasicStep.steps {s t : System} (h : BasicStep s t) : BasicSteps s t := .single h

theorem basicSteps_notify (s : System) (hub : Nat) : BasicSteps s (s.notify hub) := by
  unfold notify
  split
  · exact .refl
  · exact (BasicStep.raise s _ _).steps

theorem basicSteps_attach (s : System) (channel flag : Nat) (asynchronous : Bool) :
    BasicSteps s (s.attach channel flag asynchronous).2 := by
  rcases attach_snd s channel flag asynchronous with h | ⟨c, hc, -, h⟩
  · rw [h]
  · rw [h]
    exact (BasicStep.addSource s flag asynchronous).steps.tail (.bind _ channel c _ hc)

theorem basicSteps_send (s : System) (outlet : Outlet) (e : Event) : BasicSteps s (s.send outlet e).2 := by
  cases outlet with
  | hub hub => exact (BasicStep.publish s hub e).steps
  | collector collector =>
    rw [send]
    split
    · exact .refl
    · exact (BasicStep.collectors s _).steps

theorem basicSteps_post (s : System) (channel : Nat) (e : Event) : BasicSteps s (s.post channel e).2 := by
  have h := (BasicStep.use s channel (.recordPost e)).steps
  rw [ChannelUse.change] at h
  rw [post]
  split
  · rename_i heq
    rw [heq] at h
    exact h
  · rename_i heq
    rw [heq] at h
    split
    · exact h
    · exact h.trans (basicSteps_send _ _ e)

theorem basicSteps_deliver (s : System) (channel : Nat) (fetch : Fetch) :
    BasicSteps s (s.deliver channel fetch).2 := by
  cases fetch with
  | pending st => exact .refl
  | delivered e =>
    have h := (BasicStep.use s channel (.recordFetch e)).steps
    rw [ChannelUse.change] at h
    rw [deliver]
    split
    · rename_i heq
      rw [heq] at h
      exact h
    · rename_i heq
      rw [heq] at h
      exact h

theorem basicSteps_advance (s : System) (resumed : Bool) (c : Call) : BasicSteps s (s.advance resumed c).2 := by
  cases c with
  | waitForFlag flag =>
    rw [advance]
    split <;> exact .refl
  | askHub hub ask =>
    have h := (BasicStep.ask s hub ask resumed).steps
    rw [advance]
    dsimp only
    split <;> exact h
  | fetchFrom channel mask mode =>
    rw [advance]
    split
    · exact .refl
    · split
      · split
        · rename_i hub sink outlet _
          have h := (BasicStep.ask s hub ⟨mask, mode, sink, true⟩ resumed).steps
          dsimp only
          split
          · exact h.trans (basicSteps_deliver _ channel _)
          · exact h
        · exact .refl
      · exact .refl
  | waitOnChannel channel mode =>
    rw [advance]
    split <;> exact .refl

theorem basicSteps_hasEvent (s : System) (channel : Nat) (mask : Mask) :
    BasicSteps s (s.hasEvent channel mask).2 := by
  rw [hasEvent]
  split
  · exact .refl
  · split
    · split
      · rw [probe_snd]
        exact (BasicStep.ask s _ _ false).steps
      · exact .refl
    · exact .refl

theorem basicSteps_step (s : System) (m : Move) (hc : ∀ c, m ≠ .onHubs (.call c))
    (hr : ∀ handle, m ≠ .onHubs (.resume handle)) : BasicSteps s (m.step s).2 := by
  cases m with
  | onHubs m =>
    cases m with
    | makeFlag => exact (BasicStep.makeFlag s).steps
    | addSource flag asynchronous => exact (BasicStep.addSource s flag asynchronous).steps
    | raise flag bit => exact (BasicStep.raise s flag bit).steps
    | clear flag bit => exact (BasicStep.clear s flag bit).steps
    | makeHub name flag =>
      rw [Move.step, HubMove.step]
      split
      · rename_i there
        exact (BasicStep.makeHub s name flag there).steps
      · exact .refl
    | addSink hub sink => exact (BasicStep.addSink s hub sink).steps
    | publish hub e => exact (BasicStep.publish s hub e).steps
    | notify hub => exact basicSteps_notify s hub
    | stop hub => exact (BasicStep.stop s hub).steps
    | probe hub mask sink =>
      rw [Move.step, HubMove.step, probe_snd]
      exact (BasicStep.ask s hub _ false).steps
    | call c => exact absurd rfl (hc c)
    | resume handle => exact absurd rfl (hr handle)
  | makeCollector accepts => exact (BasicStep.collectors s _).steps
  | makeChannel name outlet => exact (BasicStep.makeChannel s name (.plain outlet)).steps
  | makeBareChannel name => exact (BasicStep.makeChannel s name .bare).steps
  | makeHubChannel name hub sink outlet =>
    rw [Move.step]
    split
    · exact (BasicStep.makeChannel s name (.ofHub hub sink outlet)).steps.trans (basicSteps_attach _ _ _ false)
    · exact .refl
  | attach channel flag asynchronous =>
    rw [Move.step]
    split
    · exact basicSteps_attach s channel flag asynchronous
    · exact .refl
  | init channel config => exact (BasicStep.use s channel (.init config)).steps
  | close channel => exact (BasicStep.use s channel .close).steps
  | abort channel => exact (BasicStep.use s channel .abort).steps
  | flush channel => exact (BasicStep.use s channel .flush).steps
  | post channel e => exact basicSteps_post s channel e
  | hasEvent channel mask => exact basicSteps_hasEvent s channel mask
  | raiseOwn channel =>
    rw [Move.step, System.raiseOwn]
    split
    · exact .refl
    · exact (BasicStep.raise s _ _).steps
  | clearOwn channel =>
    rw [Move.step, System.clearOwn]
    split
    · exact .refl
    · exact (BasicStep.clear s _ _).steps
  | disturb files => exact (BasicStep.files s files).steps

theorem call_or_resume_or_basicSteps (m : Move) :
    (∃ c, m = .onHubs (.call c)) ∨ (∃ handle, m = .onHubs (.resume handle)) ∨
      ∀ s, BasicSteps s (m.step s).2 := by
  by_cases hcall : ∃ c, m = .onHubs (.call c)
  · exact .inl hcall
  · by_cases hresume : ∃ handle, m = .onHubs (.resume handle)
    · exact .inr (.inl hresume)
    · exact .inr (.inr fun s =>
        basicSteps_step s m (fun c h => hcall ⟨c, h⟩) fun handle h => hresume ⟨handle, h⟩)

section related

variable {R : System → System → Prop} {s t : System} (refl : ∀ s, R s s)
  (trans : ∀ {s t u}, R s t → R t u → R s u) (basic : ∀ {s t}, BasicStep s t → R s t)
  (still : ∀ {s t}, SameButSleepers s t → R s t)
include refl trans basic

theorem related_of_basicSteps (h : BasicSteps s t) : R s t := by
  induction h with
  | refl => exact refl _
  | tail _ step ih => exact trans ih (basic step)

include still

theorem Ran.related {c : Call} {reply : Option Reply} (h : Ran s c reply t) : R s t := by
  cases h with
  | stayed _ same => exact still same
  | went s' _ resumed before after =>
    have h := related_of_basicSteps refl trans basic (basicSteps_advance s' resumed c)
    exact trans (trans (still before) h) (still after)

theorem related_step (s : System) (m : Move) : R s (m.step s).2 := by
  rcases call_or_resume_or_basicSteps m with ⟨c, rfl⟩ | ⟨handle, rfl⟩ | h
  · exact (ran_start s c).related refl trans basic still
  · rw [Move.step, HubMove.step]
    split
    · exact refl s
    · exact (ran_resume s _).related refl trans basic still
  · exact related_of_basicSteps refl trans basic (h s)

end related

theorem length_flags_raise (s : System) (flag bit : Nat) : (s.raise flag bit).flags.length = s.flags.length := by
  unfold raise
  split
  · exact List.length_set
  · rfl

theorem length_flags_changeHub {α : Type} (s : System) (id : Nat) (absent : α)
    (change : Hub → Flag → α × Hub × Flag) :
    (s.changeHub id absent change).2.flags.length = s.flags.length := by
  unfold changeHub
  split
  · rfl
  · exact List.length_set

theorem length_flags_publish (s : System) (hub : Nat) (e : Event) :
    (s.publish hub e).2.flags.length = s.flags.length := by
  have h := length_flags_changeHub s hub false fun h f => h.publish f e
  rw [publish_eq]
  dsimp only
  split <;> exact h

theorem length_flags_stop (s : System) (hub : Nat) : (s.stop hub).flags.length = s.flags.length := by
  have h := length_flags_changeHub s hub false fun h f => (h.running, h.stop f)
  rw [stop_eq]
  dsimp only
  split <;> exact h

theorem length_flags_askHub (s : System) (hub : Nat) (ask : Ask) (resumed : Bool) :
    (s.askHub hub ask resumed).2.flags.length = s.flags.length := by
  have h := length_flags_changeHub s hub (Hub.Pause.answer (.pending .closed), false) (askChange ask resumed)
  rw [askHub_eq]
  dsimp only
  split <;> exact h

theorem flags_changeChannel (s : System) (id : Nat) (change : Channel → FileSystem → Channel.Outcome) :
    (s.changeChannel id change).2.flags = s.flags := by
  unfold changeChannel
  split <;> rfl

theorem BasicStep.length_flags {s t : System} (h : BasicStep s t) : s.flags.length ≤ t.flags.length := by
  have hsame : t.flags.length = s.flags.length → s.flags.length ≤ t.flags.length := fun h => Nat.le_of_eq h.symm
  cases h with
  | makeFlag => exact List.length_append ▸ Nat.le_add_right _ _
  | addSource flag asynchronous => exact hsame List.length_set
  | raise flag bit => exact hsame (length_flags_raise s flag bit)
  | clear flag bit => exact hsame List.length_set
  | makeHub name flag _ => exact hsame List.length_set
  | addSink hub sink => exact hsame (length_flags_changeHub s hub 0 _)
  | publish hub e => exact hsame (length_flags_publish s hub e)
  | stop hub => exact hsame (length_flags_stop s hub)
  | ask hub ask resumed => exact hsame (length_flags_askHub s hub ask resumed)
  | use channel u => exact hsame (congrArg List.length (flags_changeChannel s channel u.change))
  | _ => exact Nat.le_refl _

/-- Flags are only ever added. -/
theorem length_flags_step (s : System) (m : Move) : s.flags.length ≤ (m.step s).2.flags.length :=
  related_step (R := fun s t => s.flags.length ≤ t.flags.length) (fun _ => Nat.le_refl _)
    (fun h k => Nat.le_trans h k) (fun h => h.length_flags) (fun same => Nat.le_of_eq (same.flags ▸ rfl)) s m

end System
end EventHub
