import EventHub.Proofs.System.BasicSteps
set_option autoImplicit false

namespace EventHub

def Sleeper.handleAndCall (p : Sleeper) : Nat × Call := (p.handle, p.call)

namespace System

def sleepingCalls (s : System) : List (Nat × Call) := s.sleepers.map Sleeper.handleAndCall

structure SameSleepingCalls (s t : System) : Prop where
  sleepingCalls : t.sleepingCalls = s.sleepingCalls
  handles : t.handles = s.handles

theorem SameSleepingCalls.refl (s : System) : SameSleepingCalls s s := ⟨rfl, rfl⟩

theorem SameSleepingCalls.trans {s t u : System} (h : SameSleepingCalls s t) (k : SameSleepingCalls t u) :
    SameSleepingCalls s u :=
  ⟨k.sleepingCalls.trans h.sleepingCalls, k.handles.trans h.handles⟩

theorem sameSleepingCalls_wake (s : System) (point : WaitPoint) : SameSleepingCalls s (s.wake point) := by
  refine ⟨?_, rfl⟩
  rw [sleepingCalls, sleepingCalls, wake, List.map_map]
  apply List.map_congr_left
  intro p _
  rw [Function.comp_apply]
  split <;> rfl

theorem sameSleepingCalls_raise (s : System) (flag bit : Nat) : SameSleepingCalls s (s.raise flag bit) := by
  unfold raise
  split
  · have h : SameSleepingCalls s (s.setFlag flag ((s.flagAt flag).raise bit)) := ⟨rfl, rfl⟩
    exact h.trans (sameSleepingCalls_wake _ _)
  · exact .refl s

theorem sameSleepingCalls_changeHub {α : Type} (s : System) (id : Nat) (absent : α)
    (change : Hub → Flag → α × Hub × Flag) : SameSleepingCalls s (s.changeHub id absent change).2 := by
  unfold changeHub
  split <;> exact ⟨rfl, rfl⟩

theorem sameSleepingCalls_publish (s : System) (hub : Nat) (e : Event) : SameSleepingCalls s (s.publish hub e).2 := by
  have h := sameSleepingCalls_changeHub s hub false fun h f => h.publish f e
  rw [publish_eq]
  dsimp only
  split
  · exact (h.trans (sameSleepingCalls_wake _ _)).trans (sameSleepingCalls_wake _ _)
  · exact h

theorem sameSleepingCalls_stop (s : System) (hub : Nat) : SameSleepingCalls s (s.stop hub) := by
  have h := sameSleepingCalls_changeHub s hub false fun h f => (h.running, h.stop f)
  rw [stop_eq]
  dsimp only
  split
  · exact (h.trans (sameSleepingCalls_wake _ _)).trans (sameSleepingCalls_wake _ _)
  · exact h

theorem sameSleepingCalls_askHub (s : System) (hub : Nat) (ask : Ask) (resumed : Bool) :
    SameSleepingCalls s (s.askHub hub ask resumed).2 := by
  have h := sameSleepingCalls_changeHub s hub (Hub.Pause.answer (.pending .closed), false) (askChange ask resumed)
  rw [askHub_eq]
  dsimp only
  split
  · exact h.trans (sameSleepingCalls_wake _ _)
  · exact h

theorem sameSleepingCalls_changeChannel (s : System) (id : Nat)
    (change : Channel → FileSystem → Except ChannelError Unit × Channel × FileSystem) :
    SameSleepingCalls s (s.changeChannel id change).2 := by
  unfold changeChannel
  split <;> exact ⟨rfl, rfl⟩

theorem BasicStep.sameSleepingCalls {s t : System} (h : BasicStep s t) : SameSleepingCalls s t := by
  cases h with
  | raise flag bit => exact sameSleepingCalls_raise s flag bit
  | addSink hub sink => exact sameSleepingCalls_changeHub s hub 0 _
  | publish hub e => exact sameSleepingCalls_publish s hub e
  | stop hub => exact sameSleepingCalls_stop s hub
  | ask hub ask resumed => exact sameSleepingCalls_askHub s hub ask resumed
  | use channel u => exact sameSleepingCalls_changeChannel s channel u.change
  | _ => exact ⟨rfl, rfl⟩

theorem sameSleepingCalls_of_basicSteps {s t : System} (h : BasicSteps s t) : SameSleepingCalls s t :=
  related_of_basicSteps .refl .trans BasicStep.sameSleepingCalls h

/-- After a call was made the others sleep as before, and it may have joined them. -/
theorem sleepingCalls_start (s : System) (c : Call) :
    (s.start c).2.2.handles = s.handles + 1 ∧
      ((∃ r, (s.start c).2.1 = .returned r) ∧ (s.start c).2.2.sleepingCalls = s.sleepingCalls ∨
        (∃ point, (s.start c).2.1 = .asleep point) ∧
          (s.start c).2.2.sleepingCalls = s.sleepingCalls ++ [(s.handles, c)]) := by
  have h := sameSleepingCalls_of_basicSteps (basicSteps_advance { s with handles := s.handles + 1 } false c)
  rw [start]
  split
  · rename_i r t heq
    rw [heq] at h
    exact ⟨h.handles, .inl ⟨⟨r, rfl⟩, h.sleepingCalls⟩⟩
  · rename_i point t heq
    rw [heq] at h
    refine ⟨h.handles, .inr ⟨⟨point, rfl⟩, ?_⟩⟩
    have ht : t.sleepers.map Sleeper.handleAndCall = s.sleepingCalls := h.sleepingCalls
    rw [sleepingCalls, List.map_append, ht]
    rfl

theorem handleAndCall_mem_replace {s : System} {p : Sleeper} (hp : p.handleAndCall ∈ s.sleepingCalls) {k : Nat × Call}
    (hk : k ∈ (s.replace p).sleepingCalls) : k ∈ s.sleepingCalls := by
  obtain ⟨q, hq, rfl⟩ := List.mem_map.1 hk
  obtain ⟨r, hr, rfl⟩ := List.mem_map.1 hq
  split
  · exact hp
  · exact List.mem_map_of_mem hr

theorem sleepingCalls_resume {s : System} {p : Sleeper} (hp : p ∈ s.sleepers) :
    (s.resume p).2.handles = s.handles ∧ ∀ k ∈ (s.resume p).2.sleepingCalls, k ∈ s.sleepingCalls := by
  have hmem : p.handleAndCall ∈ s.sleepingCalls := List.mem_map_of_mem hp
  have hmem' : Sleeper.handleAndCall { p with awake := false } ∈ s.sleepingCalls := hmem
  have h := sameSleepingCalls_of_basicSteps (basicSteps_advance (s.replace { p with awake := false }) true p.call)
  have hsub : ∀ {t : System}, SameSleepingCalls (s.replace { p with awake := false }) t →
      ∀ k ∈ t.sleepingCalls, k ∈ s.sleepingCalls :=
        fun ht k hk => handleAndCall_mem_replace hmem' (ht.sleepingCalls ▸ hk)
  rw [resume]
  split
  · split
    · rename_i heq
      rw [heq] at h
      refine ⟨h.handles, fun k hk => ?_⟩
      obtain ⟨q, hq, rfl⟩ := List.mem_map.1 hk
      exact hsub h _ (List.mem_map_of_mem (List.mem_filter.1 hq).1)
    · rename_i point t heq
      rw [heq] at h
      refine ⟨h.handles, fun k hk => ?_⟩
      obtain ⟨q, hq, rfl⟩ := List.mem_map.1 hk
      obtain ⟨r, hr, rfl⟩ := List.mem_map.1 hq
      split
      · exact hmem
      · exact hsub h _ (List.mem_map_of_mem hr)
  · exact ⟨rfl, fun k hk => handleAndCall_mem_replace hmem' hk⟩

theorem mem_sleepingCalls_replace {s : System} {p : Sleeper} {k : Nat × Call} (hk : k ∈ s.sleepingCalls)
    (h : k.1 = p.handle → k = p.handleAndCall) : k ∈ (s.replace p).sleepingCalls := by
  obtain ⟨q, hq, rfl⟩ := List.mem_map.1 hk
  refine List.mem_map.2 ⟨_, List.mem_map_of_mem hq, ?_⟩
  split
  · rename_i hh
    exact (h hh).symm
  · rfl

/-- Whoever else sleeps sleeps on, and so does the one that goes on if its call does not return. -/
theorem mem_sleepingCalls_resume {s : System} {p : Sleeper} {k : Nat × Call} (hk : k ∈ s.sleepingCalls)
    (h : k.1 = p.handle → k = p.handleAndCall ∧ (s.resume p).1 = none) : k ∈ (s.resume p).2.sleepingCalls := by
  have hr : k ∈ (s.replace { p with awake := false }).sleepingCalls := mem_sleepingCalls_replace hk fun he => (h he).1
  have ha := sameSleepingCalls_of_basicSteps (basicSteps_advance (s.replace { p with awake := false }) true p.call)
  rw [resume] at h ⊢
  split
  · rename_i hm
    rw [if_pos hm] at h
    split
    · rename_i r t heq
      rw [heq] at h ha
      have hk' : k ∈ t.sleepingCalls := ha.sleepingCalls ▸ hr
      obtain ⟨q, hq, rfl⟩ := List.mem_map.1 hk'
      have hne : q.handle ≠ p.handle := by
        intro he
        cases (h he).2
      exact List.mem_map_of_mem (List.mem_filter.2 ⟨hq, by simpa using hne⟩)
    · rename_i point t heq
      rw [heq] at h ha
      have hk' : k ∈ t.sleepingCalls := ha.sleepingCalls ▸ hr
      exact mem_sleepingCalls_replace hk' fun he => (h he).1
  · exact hr

theorem handle_of_wokenUnder {s : System} {handle : Nat} {p : Sleeper}
    (hp : s.wokenUnder handle = some p) : p.handle = handle := by
  have h := List.find?_some hp
  simp only [Bool.and_eq_true, beq_iff_eq] at h
  exact h.1

/-- Who sleeps after a move slept before, or made the call just now; and only who goes on may stop. -/
structure SleepersStep (s : System) (m : Move) (t : System) : Prop where
  grow : s.handles ≤ t.handles
  joined : ∀ k ∈ t.sleepingCalls, k ∈ s.sleepingCalls ∨ m = .onHubs (.call k.2) ∧ k.1 = s.handles
  kept : ∀ k ∈ s.sleepingCalls, m ≠ .onHubs (.resume k.1) → k ∈ t.sleepingCalls

theorem SameSleepingCalls.sleepersStep {s t : System} (h : SameSleepingCalls s t) (m : Move) : SleepersStep s m t :=
  ⟨Nat.le_of_eq h.handles.symm, fun _ hk => .inl (h.sleepingCalls ▸ hk), fun _ hk _ => h.sleepingCalls.symm ▸ hk⟩

theorem sleepersStep_call (s : System) (c : Call) : SleepersStep s (.onHubs (.call c)) (s.start c).2.2 := by
  obtain ⟨hh, ht⟩ := sleepingCalls_start s c
  refine ⟨hh ▸ Nat.le_succ _, fun k hk => ?_, fun k hk _ => ?_⟩
  · rcases ht with ⟨-, ht⟩ | ⟨-, ht⟩
    · exact .inl (ht ▸ hk)
    · rw [ht] at hk
      rcases List.mem_append.1 hk with hk | hk
      · exact .inl hk
      · rw [List.mem_singleton.1 hk]
        exact .inr ⟨rfl, rfl⟩
  · rcases ht with ⟨-, ht⟩ | ⟨-, ht⟩
    · exact ht.symm ▸ hk
    · rw [ht]
      exact List.mem_append_left _ hk

theorem sleepersStep_resume (s : System) (handle : Nat) :
    SleepersStep s (.onHubs (.resume handle)) (Move.step s (.onHubs (.resume handle))).2 := by
  rw [Move.step, HubMove.step]
  split
  · exact (SameSleepingCalls.refl s).sleepersStep _
  · rename_i p hp
    obtain ⟨hh, ht⟩ := sleepingCalls_resume (List.mem_of_find?_eq_some hp)
    refine ⟨Nat.le_of_eq hh.symm, fun k hk => .inl (ht k hk), fun k hk hm => ?_⟩
    refine mem_sleepingCalls_resume hk fun he => absurd ?_ hm
    rw [he, handle_of_wokenUnder hp]

theorem sleepersStep_step (s : System) (m : Move) : SleepersStep s m (m.step s).2 := by
  rcases call_or_resume_or_basicSteps m with ⟨c, rfl⟩ | ⟨handle, rfl⟩ | h
  · exact sleepersStep_call s c
  · exact sleepersStep_resume s handle
  · exact (sameSleepingCalls_of_basicSteps (h s)).sleepersStep m

/-- No two calls sleep under one handle, and none under a handle that is still to be given. -/
structure Distinct (s : System) : Prop where
  below : ∀ k ∈ s.sleepingCalls, k.1 < s.handles
  inj : ∀ k ∈ s.sleepingCalls, ∀ l ∈ s.sleepingCalls, k.1 = l.1 → k = l

theorem distinct_empty (files : FileSystem) : (empty files).Distinct :=
  ⟨fun _ hk => absurd hk List.not_mem_nil, fun _ hk => absurd hk List.not_mem_nil⟩

theorem Distinct.step {s : System} (hs : s.Distinct) (m : Move) : (m.step s).2.Distinct := by
  obtain ⟨hg, hj, -⟩ := sleepersStep_step s m
  constructor
  · intro k hk
    rcases hj k hk with h | ⟨hm, h⟩
    · exact Nat.lt_of_lt_of_le (hs.below k h) hg
    · rw [hm, h]
      exact Nat.lt_of_lt_of_le (Nat.lt_succ_self _) (Nat.le_of_eq (sleepingCalls_start s k.2).1.symm)
  · intro k hk l hl he
    rcases hj k hk with h | ⟨hm, h⟩
    · rcases hj l hl with h' | ⟨-, h'⟩
      · exact hs.inj k h l h' he
      · exact absurd (hs.below k h) (by omega)
    · rcases hj l hl with h' | ⟨hm', -⟩
      · exact absurd (hs.below l h') (by omega)
      · -- both are the call of the move
        rw [hm] at hm'
        injection hm' with hm'
        injection hm' with hc
        exact Prod.ext he hc

end System
end EventHub
