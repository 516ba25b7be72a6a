import EventHub.Proofs.System.SleepConditions
set_option autoImplicit false

namespace EventHub.System

theorem wakeIf_wakeIf (v w : WaitPoint → Bool) (p : Sleeper) :
    wakeIf w (wakeIf v p) = wakeIf (fun b => v b || w b) p := by
  cases hv : v p.point with
  | true => cases hw : w p.point <;> simp [wakeIf, hv, hw]
  | false => simp [wakeIf, hv]

theorem sleepers_wake (s : System) (point : WaitPoint) :
    (s.wake point).sleepers = s.sleepers.map (wakeIf fun b => b = point) := by
  simp [wake, wakeIf]

theorem AffectsOnly.of_eq {s t : System} (woken : WaitPoint → Bool) (hh : t.hubs = s.hubs)
    (hc : t.channels = s.channels)
    (hf : ∀ flag, woken (.flag flag) = false →
      (s.flagAt flag).isRaised = false → (t.flagAt flag).isRaised = false) : AffectsOnly s t woken where
  length := Nat.le_of_eq (by rw [hh])
  flagOfHub id _ := flagOfHub_congr hh id
  kindOf channel k h := by rw [kindOf_congr hc]; exact h
  bindingOf channel b h := by rw [bindingOf_congr hc]; exact h
  hub id _ _ ask h := by rw [hubAt_congr hh]; exact h
  flag := hf

theorem AffectsOnly.trans {s t u : System} {v w : WaitPoint → Bool} (h : AffectsOnly s t v) (k : AffectsOnly t u w) :
    AffectsOnly s u (fun b => v b || w b) where
  length := Nat.le_trans h.length k.length
  flagOfHub id hid := by
    rw [k.flagOfHub id (Nat.lt_of_lt_of_le hid h.length), h.flagOfHub id hid]
  kindOf channel x hx := k.kindOf channel x (h.kindOf channel x hx)
  bindingOf channel b hb := k.bindingOf channel b (h.bindingOf channel b hb)
  hub id hid hw ask hb := by
    obtain ⟨hv, hw⟩ := Bool.or_eq_false_iff.1 hw
    exact k.hub id (Nat.lt_of_lt_of_le hid h.length) hw ask (h.hub id hid hv ask hb)
  flag flag hw hf := by
    obtain ⟨hv, hw⟩ := Bool.or_eq_false_iff.1 hw
    exact k.flag flag hw (h.flag flag hv hf)

theorem AffectsOnly.wake {s t : System} {woken : WaitPoint → Bool} (h : AffectsOnly s t woken) (point : WaitPoint) :
    AffectsOnly s (t.wake point) woken := ⟨h.length, h.flagOfHub, h.kindOf, h.bindingOf, h.hub, h.flag⟩

/-- Where nothing happens at any wait point nobody has to be woken. -/
theorem AffectsOnly.wakesAffected {s t : System} (h : AffectsOnly s t fun _ => false) (hl : t.sleepers = s.sleepers) :
    WakesAffected s t := ⟨_, h, by rw [hl, show wakeIf (fun _ => false) = id from rfl, List.map_id]⟩

theorem WakesAffected.refl (s : System) : WakesAffected s s :=
  (AffectsOnly.of_eq _ rfl rfl fun _ _ h => h).wakesAffected rfl

theorem WakesAffected.trans {s t u : System} (h : WakesAffected s t) (k : WakesAffected t u) : WakesAffected s u := by
  obtain ⟨v, hv, hl⟩ := h
  obtain ⟨w, hw, kl⟩ := k
  refine ⟨_, hv.trans hw, ?_⟩
  rw [kl, hl, List.map_map]
  apply List.map_congr_left
  intro p _
  exact wakeIf_wakeIf v w p

theorem wakesAffected_of_eq {s t : System} (hf : t.flags = s.flags) (hh : t.hubs = s.hubs)
    (hc : t.channels = s.channels) (hl : t.sleepers = s.sleepers) : WakesAffected s t :=
  (AffectsOnly.of_eq _ hh hc fun flag _ h => by rw [flagAt_congr hf]; exact h).wakesAffected hl

theorem wakesAffected_raise (s : System) (flag bit : Nat) : WakesAffected s (s.raise flag bit) := by
  by_cases hi : (s.flagAt flag).isIssued bit = true
  · refine ⟨fun b => b = .flag flag,
      .of_eq _ (hubs_raise s flag bit) (channels_raise s flag bit) ?_, ?_⟩
    · intro other ho h
      rw [flagAt_raise, if_neg (by simpa using ho)]
      exact h
    · rw [raise, if_pos hi]
      exact sleepers_wake (s.setFlag flag ((s.flagAt flag).raise bit)) (.flag flag)
  · rw [raise, if_neg hi]
    exact .refl s

theorem wakesAffected_clear (s : System) (flag bit : Nat) : WakesAffected s (s.clear flag bit) := by
  refine AffectsOnly.wakesAffected (.of_eq _ rfl rfl ?_) rfl
  intro other _ h
  rw [flagAt_clear]
  split
  · rename_i ho
    exact Flag.isRaised_clear (ho ▸ h) bit
  · exact h

theorem affectsOnly_addSource (s : System) (flag : Nat) (asynchronous : Bool) :
    AffectsOnly s (s.addSource flag asynchronous).2 fun _ => false := by
  refine .of_eq _ (hubs_addSource s flag asynchronous) (channels_addSource s flag asynchronous) ?_
  intro other _ h
  rw [flagAt_addSource]
  split
  · rename_i ho
    rw [Flag.isRaised_addSource, ← ho.1]
    exact h
  · exact h

theorem wakesAffected_addFlag (s : System) : WakesAffected s s.addFlag.2 := by
  refine AffectsOnly.wakesAffected (.of_eq _ rfl rfl ?_) rfl
  intro flag _ h
  rw [flagAt_addFlag]
  exact h

theorem wakesAffected_addHub (s : System) (name : String) (flag : Nat) : WakesAffected s (s.addHub name flag).2 := by
  refine AffectsOnly.wakesAffected (.mk ?_ ?_ (fun _ _ h => h) (fun _ _ h => h) ?_ ?_) rfl
  · rw [length_hubs_addHub]
    exact Nat.le_succ _
  · intro id hid
    rw [flagOfHub_addHub, if_neg (Nat.ne_of_lt hid)]
  · intro id hid _ ask h
    rw [hubAt_addHub, if_neg (Nat.ne_of_lt hid)]
    exact h
  · intro other _ h
    exact (affectsOnly_addSource s flag true).flag other rfl h

theorem affectsOnly_changeHub {α : Type} (s : System) (id : Nat) (absent : α)
    (change : Hub → Flag → α × Hub × Flag) (woken : WaitPoint → Bool)
    (hq : woken (.queue id) = false → ∀ ask, (s.hubAt id).HasNothingFor ask →
      (change (s.hubAt id) (s.flagAt (s.flagOfHub id))).2.1.HasNothingFor ask)
    (hf : woken (.flag (s.flagOfHub id)) = false → (s.flagAt (s.flagOfHub id)).isRaised = false →
      (change (s.hubAt id) (s.flagAt (s.flagOfHub id))).2.2.isRaised = false) :
    AffectsOnly s (s.changeHub id absent change).2 woken where
  length := Nat.le_of_eq (length_hubs_changeHub s id absent change).symm
  flagOfHub other _ := flagOfHub_changeHub s id absent change other
  kindOf channel k h := by
    rw [kindOf_congr (channels_changeHub s id absent change)]
    exact h
  bindingOf channel b h := by
    rw [bindingOf_congr (channels_changeHub s id absent change)]
    exact h
  hub other _ hw ask h := by
    rw [hubAt_changeHub]
    split
    · rename_i ho
      rw [ho.1] at hw h
      exact hq hw ask h
    · exact h
  flag other hw h := by
    rw [flagAt_changeHub]
    split
    · rename_i ho
      rw [ho.2.1] at hw h
      exact hf hw h
    · exact h

theorem wakesAffected_addSink (s : System) (hub : Nat) (sink : Sink) : WakesAffected s (s.addSink hub sink).2 :=
  (affectsOnly_changeHub s hub 0 _ _ (fun _ _ h => h) fun _ h => h).wakesAffected (sleepers_changeHub s hub 0 _)

/-- A change that says whether it did anything, and is announced on the queue and on the flag if so. -/
theorem wakesAffected_announced (s : System) (hub : Nat) (change : Hub → Flag → Bool × Hub × Flag)
    (h : ∀ h f, (change h f).1 = false → (change h f).2 = (h, f)) :
    let r := s.changeHub hub false change
    WakesAffected s (if r.1 then (r.2.wake (.queue hub)).wake (.flag (r.2.flagOfHub hub)) else r.2) := by
  intro r
  have hl : r.2.sleepers = s.sleepers := sleepers_changeHub s hub false change
  have hfo : r.2.flagOfHub hub = s.flagOfHub hub := flagOfHub_changeHub s hub false change hub
  cases hr : r.1 with
  | true =>
    refine ⟨fun b => b = .queue hub || b = .flag (s.flagOfHub hub), ?_, ?_⟩
    · exact ((affectsOnly_changeHub s hub false change _ (by simp) (by simp)).wake _).wake _
    · rw [if_pos rfl, hfo, sleepers_wake, sleepers_wake, hl, List.map_map]
      apply List.map_congr_left
      intro p _
      exact wakeIf_wakeIf _ _ p
  | false =>
    rw [if_neg (by simp)]
    by_cases hlt : hub < s.hubs.length
    · have hc : (change (s.hubAt hub) (s.flagAt (s.flagOfHub hub))).1 = false := by
        rw [← hr]
        exact congrArg Prod.fst (changeHub_of_lt false change hlt).symm
      have hn := h _ _ hc
      refine (affectsOnly_changeHub s hub false change _ ?_ ?_).wakesAffected hl
      · intro _ ask hb
        rw [hn]
        exact hb
      · intro _ hf
        rw [hn]
        exact hf
    · rw [show r = (false, s) from changeHub_of_le false change (Nat.le_of_not_lt hlt)]
      exact .refl s

theorem wakesAffected_publish (s : System) (hub : Nat) (e : Event) : WakesAffected s (s.publish hub e).2 := by
  apply wakesAffected_announced s hub fun h f => h.publish f e
  intro h f hn
  unfold Hub.publish at hn ⊢
  split at hn
  · cases hn
  · rename_i hr
    rw [if_neg hr]

theorem wakesAffected_notify (s : System) (hub : Nat) : WakesAffected s (s.notify hub) := by
  unfold notify
  split
  · exact .refl s
  · exact wakesAffected_raise s _ _

theorem wakesAffected_stop (s : System) (hub : Nat) : WakesAffected s (s.stop hub) := by
  apply wakesAffected_announced s hub fun h f => (h.running, h.stop f)
  intro h f hn
  simp only [Hub.stop, show h.running = false from hn, Bool.false_eq_true, if_false]

theorem HubInvariant.wakesAffected_askHub {s : System} (hs : s.HubInvariant) (hub : Nat) (ask : Ask) (resumed : Bool) :
    WakesAffected s (s.askHub hub ask resumed).2 := by
  have hc := hs.coherent hub
  have o := Hub.dispatch_outcome hc (s.flagAt (s.flagOfHub hub)) ask resumed
  have hl := sleepers_changeHub s hub (Hub.Pause.answer (.pending .closed), false) (askChange ask resumed)
  rw [askHub_eq]
  dsimp only
  split
  · refine ⟨fun b => b = .queue hub, ?_, ?_⟩
    · exact (affectsOnly_changeHub s hub _ _ _ (by simp) fun _ h => o.isRaised h).wake _
    · rw [sleepers_wake, hl]
  · rename_i hw
    by_cases hlt : hub < s.hubs.length
    · rw [changeHub_of_lt _ _ hlt] at hw
      have hw' : (askChange ask resumed (s.hubAt hub) (s.flagAt (s.flagOfHub hub))).1.2 = false := by
        simpa using hw
      exact (affectsOnly_changeHub s hub _ _ _ (fun _ _ h => o.hasNothingFor hc hw' h)
        fun _ h => o.isRaised h).wakesAffected hl
    · rw [changeHub_of_le _ _ (Nat.le_of_not_lt hlt)]
      exact .refl s

theorem SameKindsAndBindings.wakesAffected {s t : System} (h : SameKindsAndBindings s t) : WakesAffected s t := by
  refine AffectsOnly.wakesAffected (.mk ?_ ?_ ?_ ?_ ?_ ?_) h.sleepers
  · exact Nat.le_of_eq (by rw [h.hubs])
  · exact fun id _ => flagOfHub_congr h.hubs id
  · intro channel k hk
    rw [h.kindOf]
    exact hk
  · intro channel b hb
    rw [h.bindingOf]
    exact hb
  · intro id _ _ ask hb
    rw [hubAt_congr h.hubs]
    exact hb
  · intro flag _ hf
    rw [flagAt_congr h.flags]
    exact hf

theorem wakesAffected_addChannel (s : System) (name : String) (kind : ChannelKind) :
    WakesAffected s (s.addChannel (.make name kind)).2 := by
  refine AffectsOnly.wakesAffected (.mk (Nat.le_refl _) (fun _ _ => rfl) ?_ ?_ (fun _ _ _ _ h => h) fun _ _ h => h) rfl
  · intro channel k hk
    exact kindOf_addChannel s _ hk
  · intro channel b hb
    rw [bindingOf_addChannel]
    exact hb

theorem wakesAffected_attach (s : System) (channel flag : Nat) (asynchronous : Bool) :
    WakesAffected s (s.attach channel flag asynchronous).2 := by
  rcases attach_snd s channel flag asynchronous with he | ⟨c, hc, hn, he⟩
  · rw [he]
    exact .refl s
  · obtain ⟨hcl, rfl⟩ := List.getElem?_eq_some_iff.1 hc
    have ha := affectsOnly_addSource s flag asynchronous
    rw [he]
    refine AffectsOnly.wakesAffected (.mk ha.length ha.flagOfHub ?_ ?_ ha.hub ha.flag) rfl
    · intro other k hk
      by_cases ho : other = channel
      · subst ho
        simpa [kindOf, hcl] using hk
      · simpa [kindOf, Ne.symm ho] using hk
    · intro other b hb
      by_cases ho : other = channel
      · subst ho
        simp [bindingOf, hc, hn] at hb
      · simpa [bindingOf, Ne.symm ho] using hb

theorem wakesAffected_addHubChannel (s : System) (name : String) (hub sink : Nat) (outlet : Outlet) :
    WakesAffected s (s.addHubChannel name hub sink outlet).2 :=
  (wakesAffected_addChannel s name (.ofHub hub sink outlet)).trans (wakesAffected_attach _ _ _ _)

theorem wakesAffected_raiseOwn (s : System) (channel : Nat) : WakesAffected s (s.raiseOwn channel) := by
  unfold raiseOwn
  split
  · exact .refl s
  · exact wakesAffected_raise s _ _

theorem wakesAffected_clearOwn (s : System) (channel : Nat) : WakesAffected s (s.clearOwn channel) := by
  unfold clearOwn
  split
  · exact .refl s
  · exact wakesAffected_clear s _ _

theorem wakesAffected_send (s : System) (outlet : Outlet) (e : Event) : WakesAffected s (s.send outlet e).2 := by
  unfold send
  split
  · exact wakesAffected_publish s _ e
  · split
    · exact .refl s
    · exact wakesAffected_of_eq rfl rfl rfl rfl

end EventHub.System
