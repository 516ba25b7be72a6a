import EventHub.Proofs.Hub.Forgetful
import EventHub.Proofs.System.Possible
import Mathlib.Data.List.Induction
set_option autoImplicit false

/-!
What becomes of a hub. However much a move does, to one hub it does one thing, so what every operation of a
hub keeps is kept by whatever is done with the system.
-/
namespace EventHub.System

/-- What can become of a hub in one move. -/
inductive Becomes (s : System) (m : Move) (id : Nat) (t : System) : Prop where
  | kept (grow : s.hubs.length ≤ t.hubs.length) (there : id < t.hubs.length → id < s.hubs.length)
      (hub : t.hubAt id = s.hubAt id)
  | made (length : t.hubs.length = s.hubs.length + 1) (new : id = s.hubs.length) (name : String) (flag : Flag)
      (hub : t.hubAt id = (Hub.make name flag).1)
  | joined (length : t.hubs.length = s.hubs.length) (sink : Sink)
      (hub : t.hubAt id = ((s.hubAt id).addSink sink).2)
  | published (length : t.hubs.length = s.hubs.length) (e : Event)
      (hub : t.hubAt id = ((s.hubAt id).publish (s.flagAt (s.flagOfHub id)) e).2.1)
  | stopped (length : t.hubs.length = s.hubs.length) (stop : m = .onHubs (.stop id))
      (hub : t.hubAt id = ((s.hubAt id).stop (s.flagAt (s.flagOfHub id))).1)
  | asked (length : t.hubs.length = s.hubs.length) (ask : Ask) (resumed : Bool)
      (hub : t.hubAt id = ((s.hubAt id).dispatch (s.flagAt (s.flagOfHub id)) ask resumed).2.hub)

theorem Becomes.of_length {s t : System} {m : Move} {id : Nat} (length : t.hubs.length = s.hubs.length)
    (hub : t.hubAt id = s.hubAt id) : Becomes s m id t :=
  .kept (Nat.le_of_eq length.symm) (fun h => length ▸ h) hub

theorem Becomes.refl (s : System) (m : Move) (id : Nat) : Becomes s m id s := .of_length rfl rfl

theorem Becomes.of_hubs {s t : System} {m : Move} {id : Nat} (hh : t.hubs = s.hubs) : Becomes s m id t :=
  .of_length (congrArg List.length hh) (hubAt_congr hh id)

theorem length_hubs_publish (s : System) (hub : Nat) (e : Event) :
    (s.publish hub e).2.hubs.length = s.hubs.length := by
  have h := length_hubs_changeHub s hub false fun h f => h.publish f e
  rw [publish_eq]
  dsimp only
  split <;> exact h

theorem length_hubs_stop (s : System) (hub : Nat) : (s.stop hub).hubs.length = s.hubs.length := by
  have h := length_hubs_changeHub s hub false fun h f => (h.running, h.stop f)
  rw [stop_eq]
  dsimp only
  split <;> exact h

theorem becomes_publish (s : System) (m : Move) (hub : Nat) (e : Event) (id : Nat) :
    Becomes s m id (s.publish hub e).2 := by
  have hl := length_hubs_publish s hub e
  have hh := hubAt_publish s hub e id
  split at hh
  · rename_i ho
    subst ho
    exact .published hl e hh
  · exact .of_length hl hh

structure MayAsk (s : System) (id : Nat) (t : System) : Prop where
  length : t.hubs.length = s.hubs.length
  hub : t.hubAt id = s.hubAt id ∨
    ∃ ask resumed, t.hubAt id = ((s.hubAt id).dispatch (s.flagAt (s.flagOfHub id)) ask resumed).2.hub

theorem MayAsk.refl (s : System) (id : Nat) : s.MayAsk id s := ⟨rfl, .inl rfl⟩

theorem MayAsk.congr {s t u : System} {id : Nat} (hm : s.MayAsk id t) (hh : u.hubs = t.hubs) :
    s.MayAsk id u where
  length := (congrArg List.length hh).trans hm.length
  hub := by
    rw [hubAt_congr hh]
    exact hm.hub

theorem MayAsk.becomes {s t : System} {id : Nat} (hm : s.MayAsk id t) (m : Move) : Becomes s m id t := by
  rcases hm.hub with h | ⟨ask, resumed, h⟩
  · exact .of_length hm.length h
  · exact .asked hm.length ask resumed h

theorem mayAsk_askHub (s : System) (hub : Nat) (ask : Ask) (resumed : Bool) (id : Nat) :
    s.MayAsk id (s.askHub hub ask resumed).2 := by
  refine ⟨length_hubs_askHub s hub ask resumed, ?_⟩
  rw [hubAt_askHub]
  split
  · rename_i ho
    subst ho
    exact .inr ⟨ask, resumed, rfl⟩
  · exact .inl rfl

theorem hubs_deliver (s : System) (channel : Nat) (fetch : Fetch) :
    (s.deliver channel fetch).2.hubs = s.hubs := by
  cases fetch with
  | pending st => rfl
  | delivered e =>
    have h := hubs_changeChannel s channel fun c fs => c.recordFetch fs e
    rw [deliver]
    split
    · rename_i heq
      rw [heq] at h
      exact h
    · rename_i heq
      rw [heq] at h
      exact h

theorem mayAsk_advance (s : System) (resumed : Bool) (c : Call) (id : Nat) :
    s.MayAsk id (s.advance resumed c).2 := by
  cases c with
  | waitForFlag flag =>
    rw [advance]
    split <;> exact .refl s id
  | askHub hub ask =>
    have h := mayAsk_askHub s hub ask resumed id
    rw [advance]
    dsimp only
    split <;> exact h
  | fetchFrom channel mask mode =>
    rw [advance]
    split
    · exact .refl s id
    · split
      · split
        · rename_i hub sink outlet _
          have h := mayAsk_askHub s hub ⟨mask, mode, sink, true⟩ resumed id
          dsimp only
          split
          · exact h.congr (hubs_deliver _ channel _)
          · exact h
        · exact .refl s id
      · exact .refl s id
  | waitOnChannel channel mode =>
    rw [advance]
    split <;> exact .refl s id

theorem Ran.mayAsk {s t : System} {c : Call} {reply : Option Reply} (h : Ran s c reply t) (id : Nat) :
    s.MayAsk id t := by
  cases h with
  | stayed _ still => exact (MayAsk.refl s id).congr still.hubs
  | went s' _ resumed before after =>
    obtain ⟨hl, hh⟩ := mayAsk_advance s' resumed c id
    rw [hubAt_congr before.hubs, flagOfHub_congr before.hubs, flagAt_congr before.flags] at hh
    rw [before.hubs] at hl
    exact MayAsk.congr ⟨hl, hh⟩ after.hubs

theorem becomes_hubMove (s : System) (m : HubMove) (id : Nat) : Becomes s (.onHubs m) id (m.step s).2 := by
  cases m with
  | makeFlag => exact .of_hubs rfl
  | addSource flag asynchronous => exact .of_hubs rfl
  | raise flag bit => exact .of_hubs (hubs_raise s flag bit)
  | clear flag bit => exact .of_hubs rfl
  | makeHub name flag =>
    rw [HubMove.step]
    split
    · have hl := length_hubs_addHub s name flag
      have hh := hubAt_addHub s name flag id
      split at hh
      · rename_i hn
        exact .made hl hn name _ hh
      · refine .kept ?_ ?_ hh
        · dsimp only
          omega
        · dsimp only
          omega
    · exact .refl s _ id
  | addSink hub sink =>
    have hl := length_hubs_changeHub s hub 0 fun h f => ((h.addSink sink).1, (h.addSink sink).2, f)
    have hh := hubAt_addSink s hub sink id
    split at hh
    · rename_i ho
      obtain ⟨rfl, -⟩ := ho
      exact .joined hl sink hh
    · exact .of_length hl hh
  | publish hub e => exact becomes_publish s _ hub e id
  | notify hub =>
    refine .of_length ?_ (hubAt_notify s hub id)
    rw [HubMove.step, System.notify]
    split
    · rfl
    · rw [hubs_raise]
  | stop hub =>
    have hl := length_hubs_stop s hub
    have hh := hubAt_stop s hub id
    split at hh
    · rename_i ho
      subst ho
      exact .stopped hl rfl hh
    · exact .of_length hl hh
  | probe hub mask sink =>
    rw [HubMove.step, probe_snd]
    exact (mayAsk_askHub s hub _ false id).becomes _
  | call c => exact ((ran_start s c).mayAsk id).becomes _
  | resume handle =>
    rw [HubMove.step]
    split
    · exact .refl s _ id
    · exact ((ran_resume s _).mayAsk id).becomes _

theorem becomes_post (s : System) (m : Move) (channel : Nat) (e : Event) (id : Nat) :
    Becomes s m id (s.post channel e).2 := by
  have hh := hubs_changeChannel s channel fun c fs => c.recordPost fs e
  have hf := flags_changeChannel s channel fun c fs => c.recordPost fs e
  rw [post]
  split
  · rename_i heq
    rw [heq] at hh
    exact .of_hubs hh
  · rename_i t heq
    rw [heq] at hh hf
    split
    · exact .of_hubs hh
    · rename_i outlet _
      cases outlet with
      | hub hub =>
        have hl := length_hubs_publish t hub e
        have ht := hubAt_publish t hub e id
        rw [hh] at hl
        split at ht
        · rename_i ho
          subst ho
          rw [hubAt_congr hh, flagOfHub_congr hh, flagAt_congr hf] at ht
          exact .published hl e ht
        · rw [hubAt_congr hh] at ht
          exact .of_length hl ht
      | collector collector =>
        rw [send]
        split <;> exact .of_hubs hh

theorem hubs_attach (s : System) (channel flag : Nat) (asynchronous : Bool) :
    (s.attach channel flag asynchronous).2.hubs = s.hubs := by
  rcases attach_snd s channel flag asynchronous with h | ⟨c, -, -, h⟩
  · rw [h]
  · rw [h]
    rfl

theorem becomes_step (s : System) (m : Move) (id : Nat) : Becomes s m id (m.step s).2 := by
  cases m with
  | onHubs m => exact becomes_hubMove s m id
  | makeCollector accepts => exact .of_hubs rfl
  | makeChannel name outlet => exact .of_hubs rfl
  | makeBareChannel name => exact .of_hubs rfl
  | makeHubChannel name hub sink outlet =>
    rw [Move.step]
    split
    · exact .of_hubs (hubs_attach _ _ _ false)
    · exact .refl s _ id
  | attach channel flag asynchronous =>
    rw [Move.step]
    split
    · exact .of_hubs (hubs_attach s channel flag asynchronous)
    · exact .refl s _ id
  | init channel config => exact .of_hubs (hubs_changeChannel s channel fun c fs => c.init fs config)
  | close channel => exact .of_hubs (hubs_changeChannel s channel Channel.close)
  | abort channel => exact .of_hubs (hubs_changeChannel s channel Channel.abort)
  | flush channel => exact .of_hubs (hubs_changeChannel s channel Channel.flush)
  | post channel e => exact becomes_post s _ channel e id
  | hasEvent channel mask =>
    rw [Move.step, System.hasEvent]
    split
    · exact .refl s _ id
    · split
      · split
        · rw [probe_snd]
          exact (mayAsk_askHub s _ _ false id).becomes _
        · exact .refl s _ id
      · exact .refl s _ id
  | raiseOwn channel =>
    rw [Move.step, System.raiseOwn]
    split
    · exact .refl s _ id
    · exact .of_hubs (hubs_raise s _ _)
  | clearOwn channel =>
    rw [Move.step, System.clearOwn]
    split
    · exact .refl s _ id
    · exact .of_hubs rfl
  | disturb files => exact .of_hubs rfl

theorem Becomes.numbered {s t : System} {m : Move} {id : Nat} (hb : Becomes s m id t)
    (hc : (s.hubAt id).Coherent) (hn : (s.hubAt id).Numbered) : (t.hubAt id).Numbered := by
  cases hb with
  | kept _ _ hub =>
    rw [hub]
    exact hn
  | made _ _ name flag hub =>
    rw [hub]
    exact ⟨.nil, fun e he => by cases he⟩
  | joined _ sink hub =>
    rw [hub]
    exact hn.of_suffix (List.suffix_refl _) rfl
  | published _ e hub =>
    rw [hub]
    exact hn.publish _ e
  | stopped _ _ hub =>
    rw [hub]
    unfold Hub.stop
    split
    · exact hn.of_suffix (List.suffix_refl _) rfl
    · exact hn
  | asked _ ask resumed hub =>
    obtain ⟨hs, he⟩ := (Hub.dispatch_outcome hc (s.flagAt (s.flagOfHub id)) ask resumed).queue_suffix
    rw [hub]
    exact hn.of_suffix hs he

theorem Possible.numbered {files : FileSystem} {s : System} (h : Possible files s) (id : Nat) :
    (s.hubAt id).Numbered := by
  induction h with
  | start => exact ⟨.nil, fun e he => by cases he⟩
  | move s m hs ih => exact (becomes_step s m id).numbered (hs.coherentAndIdle.coherent id) ih

theorem length_hubs_step (s : System) (m : Move) : s.hubs.length ≤ (m.step s).2.hubs.length := by
  -- to any hub at all something becomes, and with it goes how many there are
  cases becomes_step s m 0 with
  | kept grow => exact grow
  | made length => exact length ▸ Nat.le_succ _
  | joined length => exact Nat.le_of_eq length.symm
  | published length => exact Nat.le_of_eq length.symm
  | stopped length => exact Nat.le_of_eq length.symm
  | asked length => exact Nat.le_of_eq length.symm

theorem length_hubs_ran (s : System) (ms : List Move) : s.hubs.length ≤ (s.ran ms).hubs.length := by
  induction ms generalizing s with
  | nil => exact Nat.le_refl _
  | cons m ms ih => exact Nat.le_trans (length_hubs_step s m) (ih (m.step s).2)

theorem length_flags_ran (s : System) (ms : List Move) : s.flags.length ≤ (s.ran ms).flags.length := by
  induction ms generalizing s with
  | nil => exact Nat.le_refl _
  | cons m ms ih => exact Nat.le_trans (length_flags_step s m) (ih (m.step s).2)

/-- A hub that runs before a move and not after it was stopped by the move. -/
theorem Becomes.running {s t : System} {m : Move} {id : Nat} (hb : Becomes s m id t)
    (hc : (s.hubAt id).Coherent) (there : id < t.hubs.length) (hr : (t.hubAt id).running = false) :
    m = .onHubs (.stop id) ∨ id < s.hubs.length ∧ (s.hubAt id).running = false := by
  cases hb with
  | kept _ hl hub => exact .inr ⟨hl there, hub ▸ hr⟩
  | made _ _ name flag hub =>
    rw [hub] at hr
    cases hr
  | joined hl sink hub =>
    rw [hub] at hr
    exact .inr ⟨hl ▸ there, hr⟩
  | published hl e hub =>
    rw [hub] at hr
    refine .inr ⟨hl ▸ there, ?_⟩
    unfold Hub.publish at hr
    split at hr
    · exact hr
    · exact hr
  | stopped _ stop => exact .inl stop
  | asked hl ask resumed hub =>
    rw [hub, (Hub.dispatch_outcome hc (s.flagAt (s.flagOfHub id)) ask resumed).running] at hr
    exact .inr ⟨hl ▸ there, hr⟩

theorem ran_append (s : System) (ms ns : List Move) : s.ran (ms ++ ns) = (s.ran ms).ran ns := by
  induction ms generalizing s with
  | nil => rfl
  | cons m ms ih => exact ih (m.step s).2

theorem possible_ran (files : FileSystem) (ms : List Move) : Possible files ((empty files).ran ms) :=
  Possible.start.ran ms

theorem stop_mem_of_not_running (files : FileSystem) (ms : List Move) (id : Nat)
    (there : id < ((empty files).ran ms).hubs.length)
    (hr : (((empty files).ran ms).hubAt id).running = false) : .onHubs (.stop id) ∈ ms := by
  induction ms using List.reverseRecOn with
  | nil => exact absurd there (Nat.not_lt_zero id)
  | append_singleton ms m ih =>
    rw [ran_append] at there hr
    have hc := (possible_ran files ms).coherentAndIdle.coherent id
    rcases (becomes_step ((empty files).ran ms) m id).running hc there hr with rfl | ⟨hl, hr⟩
    · exact List.mem_append_right ms List.mem_cons_self
    · exact List.mem_append_left _ (ih hl hr)

end EventHub.System
