import EventHub.Proofs.System.Stopped
set_option autoImplicit false

namespace EventHub

namespace Hub

theorem asyncCount_publish (h : Hub) (f : Flag) (e : Event) : (h.publish f e).2.2.asyncCount = f.asyncCount := by
  unfold Hub.publish
  split
  · exact f.asyncCount_raise h.bit
  · rfl

theorem asyncCount_stop (h : Hub) (f : Flag) : (h.stop f).2.asyncCount = f.asyncCount := by
  unfold Hub.stop
  split
  · exact f.asyncCount_raise h.bit
  · rfl

theorem Outcome.asyncCount {h : Hub} {flag : Flag} {ask : Ask} {scanned woke : Bool} {p : Pause} {t : Turn}
    (o : Outcome h flag ask scanned woke p t) : t.flag.asyncCount = flag.asyncCount := by
  cases o with
  | idle => exact flag.asyncCount_clear h.bit
  | _ => rfl

end Hub

namespace System

variable {s t u : System}

/-- Between two states no flag lost an asynchronous source; every hub stands on the flag that it stood on, or on one
that has such a source. -/
structure KeepsSources (s t : System) : Prop where
  sources : ∀ flag, (s.flagAt flag).asyncCount ≤ (t.flagAt flag).asyncCount
  hubs : ∀ id < t.hubs.length, (t.flagAt (t.flagOfHub id)).asyncCount ≠ 0 ∨
    id < s.hubs.length ∧ t.flagOfHub id = s.flagOfHub id

theorem KeepsSources.trans (h : KeepsSources s t) (k : KeepsSources t u) : KeepsSources s u where
  sources flag := Nat.le_trans (h.sources flag) (k.sources flag)
  hubs id hid := by
    rcases k.hubs id hid with hk | ⟨ht, hk⟩
    · exact .inl hk
    · rw [hk]
      rcases h.hubs id ht with hh | ⟨hs, hh⟩
      · have hle := k.sources (t.flagOfHub id)
        exact .inl (by omega)
      · exact .inr ⟨hs, hh⟩

theorem keepsSources_of_hubs (hh : t.hubs = s.hubs)
    (hf : ∀ flag, (s.flagAt flag).asyncCount ≤ (t.flagAt flag).asyncCount) : KeepsSources s t where
  sources := hf
  hubs id hid := .inr ⟨hh ▸ hid, flagOfHub_congr hh id⟩

theorem keepsSources_congr (hf : t.flags = s.flags) (hh : t.hubs = s.hubs) : KeepsSources s t :=
  keepsSources_of_hubs hh fun flag => by rw [flagAt_congr hf]

theorem KeepsSources.refl (s : System) : KeepsSources s s := keepsSources_congr rfl rfl

theorem KeepsSources.wake (h : KeepsSources s t) (point : WaitPoint) : KeepsSources s (t.wake point) :=
  ⟨h.sources, h.hubs⟩

theorem SameButSleepers.keepsSources (h : SameButSleepers s t) : KeepsSources s t := keepsSources_congr h.flags h.hubs

theorem keepsSources_raise (s : System) (flag bit : Nat) : KeepsSources s (s.raise flag bit) := by
  refine keepsSources_of_hubs (hubs_raise s flag bit) fun other => ?_
  rw [flagAt_raise]
  split
  · rename_i ho
    rw [ho, Flag.asyncCount_raise]
  · exact Nat.le_refl _

theorem keepsSources_clear (s : System) (flag bit : Nat) : KeepsSources s (s.clear flag bit) := by
  refine keepsSources_of_hubs (hubs_clear s flag bit) fun other => ?_
  rw [flagAt_clear]
  split
  · rename_i ho
    rw [ho, Flag.asyncCount_clear]
  · exact Nat.le_refl _

theorem keepsSources_addSource (s : System) (flag : Nat) (asynchronous : Bool) :
    KeepsSources s (s.addSource flag asynchronous).2 := by
  refine keepsSources_of_hubs (hubs_addSource s flag asynchronous) fun other => ?_
  rw [flagAt_addSource]
  split
  · rename_i ho
    rw [ho.1]
    exact Flag.asyncCount_le_addSource _ asynchronous
  · exact Nat.le_refl _

theorem keepsSources_addHub (name : String) {flag : Nat} (hl : flag < s.flags.length) :
    KeepsSources s (s.addHub name flag).2 where
  sources other := (keepsSources_addSource s flag true).sources other
  hubs id hid := by
    rw [flagOfHub_addHub]
    rw [length_hubs_addHub] at hid
    split
    · left
      rw [flagAt_addHub s name hl, if_pos rfl]
      exact Nat.succ_ne_zero _
    · exact .inr ⟨by omega, rfl⟩

theorem keepsSources_changeHub {α : Type} (s : System) (id : Nat) (absent : α) (change : Hub → Flag → α × Hub × Flag)
    (h : (change (s.hubAt id) (s.flagAt (s.flagOfHub id))).2.2.asyncCount =
      (s.flagAt (s.flagOfHub id)).asyncCount) : KeepsSources s (s.changeHub id absent change).2 where
  sources other := by
    rw [flagAt_changeHub]
    split
    · rename_i ho
      rw [ho.2.1, h]
    · exact Nat.le_refl _
  hubs other hl := .inr
    ⟨length_hubs_changeHub s id absent change ▸ hl, flagOfHub_changeHub s id absent change other⟩

theorem keepsSources_publish (s : System) (hub : Nat) (e : Event) : KeepsSources s (s.publish hub e).2 := by
  have h := keepsSources_changeHub s hub false (fun h f => h.publish f e) (Hub.asyncCount_publish _ _ e)
  rw [publish_eq]
  dsimp only
  split
  · exact (h.wake _).wake _
  · exact h

theorem keepsSources_stop (s : System) (hub : Nat) : KeepsSources s (s.stop hub) := by
  have h := keepsSources_changeHub s hub false (fun h f => (h.running, h.stop f)) (Hub.asyncCount_stop _ _)
  rw [stop_eq]
  dsimp only
  split
  · exact (h.wake _).wake _
  · exact h

theorem keepsSources_askHub (hs : s.Coherent) (hub : Nat) (ask : Ask) (resumed : Bool) :
    KeepsSources s (s.askHub hub ask resumed).2 := by
  have h := keepsSources_changeHub s hub (Hub.Pause.answer (.pending .closed), false) (askChange ask resumed)
    (Hub.dispatch_outcome (hs hub) _ ask resumed).asyncCount
  rw [askHub_eq]
  dsimp only
  split
  · exact h.wake _
  · exact h

theorem keepsSources_changeChannel (s : System) (id : Nat)
    (change : Channel → FileSystem → Except ChannelError Unit × Channel × FileSystem) :
    KeepsSources s (s.changeChannel id change).2 := by
  unfold changeChannel
  split <;> exact keepsSources_congr rfl rfl

theorem BasicStep.keepsSources (hs : s.Coherent) (h : BasicStep s t) : KeepsSources s t := by
  cases h with
  | makeFlag => exact keepsSources_of_hubs rfl fun flag => by rw [flagAt_addFlag]
  | addSource flag asynchronous => exact keepsSources_addSource s flag asynchronous
  | raise flag bit => exact keepsSources_raise s flag bit
  | clear flag bit => exact keepsSources_clear s flag bit
  | makeHub name flag there => exact keepsSources_addHub name there
  | addSink hub sink =>
    exact keepsSources_changeHub s hub 0 (fun h f => ((h.addSink sink).1, (h.addSink sink).2, f)) rfl
  | publish hub e => exact keepsSources_publish s hub e
  | stop hub => exact keepsSources_stop s hub
  | ask hub ask resumed => exact keepsSources_askHub hs hub ask resumed
  | use channel u => exact keepsSources_changeChannel s channel u.change
  | _ => exact keepsSources_congr rfl rfl

theorem coherent_and_keepsSources_trans (h : s.Coherent → t.Coherent ∧ KeepsSources s t)
    (k : t.Coherent → u.Coherent ∧ KeepsSources t u) (hs : s.Coherent) : u.Coherent ∧ KeepsSources s u := by
  obtain ⟨ht, hst⟩ := h hs
  obtain ⟨hu, htu⟩ := k ht
  exact ⟨hu, hst.trans htu⟩

theorem keepsSources_of_basicSteps (hs : s.Coherent) (h : BasicSteps s t) : KeepsSources s t :=
  (related_of_basicSteps (R := fun s t => s.Coherent → t.Coherent ∧ KeepsSources s t) (fun s hs => ⟨hs, .refl s⟩)
    coherent_and_keepsSources_trans
    (fun h hs => ⟨hs.basicStep h, h.keepsSources hs⟩) h hs).2

theorem keepsSources_step (hs : s.Coherent) (m : Move) : KeepsSources s (m.step s).2 :=
  (related_step (R := fun s t => s.Coherent → t.Coherent ∧ KeepsSources s t) (fun s hs => ⟨hs, .refl s⟩)
    coherent_and_keepsSources_trans
    (fun h hs => ⟨hs.basicStep h, h.keepsSources hs⟩)
    (fun same hs => ⟨hs.of_hubs same.hubs, same.keepsSources⟩) s m hs).2

/-- There is always a source that could raise its bit while somebody sleeps on the flag of a hub. -/
theorem Possible.asyncSourced {files : FileSystem} (h : Possible files s) :
    ∀ id < s.hubs.length, (s.flagAt (s.flagOfHub id)).asyncCount ≠ 0 := by
  induction h with
  | start => exact fun id hid => absurd hid (Nat.not_lt_zero id)
  | move s m hs ih =>
    intro id hid
    have hm := keepsSources_step hs.coherentAndIdle.coherent m
    rcases hm.hubs id hid with h | ⟨hl, hf⟩
    · exact h
    · have hle := hm.sources (s.flagOfHub id)
      have hpos := ih id hl
      rw [hf]
      omega

end System
end EventHub
