import EventHub.System
import EventHub.Proofs.Flag
set_option autoImplicit false

namespace EventHub

/-- What stands where no hub is: nothing comes in and nothing leaves. -/
def Hub.absent : Hub := ⟨"", 0, false, [], [], 0, none, 0, 0⟩

namespace System

def hubAt (s : System) (id : Nat) : Hub := (s.hubs[id]?.map Prod.fst).getD .absent

theorem hubs_getElem? {s : System} {id : Nat} (h : id < s.hubs.length) :
    s.hubs[id]? = some (s.hubAt id, s.flagOfHub id) := by
  simp [hubAt, flagOfHub, List.getElem?_eq_getElem h]

theorem hubAt_of_le {s : System} {id : Nat} (h : s.hubs.length ≤ id) : s.hubAt id = .absent := by
  simp [hubAt, List.getElem?_eq_none h]

theorem hubAt_congr {s t : System} (h : t.hubs = s.hubs) (id : Nat) : t.hubAt id = s.hubAt id := by
  rw [hubAt, hubAt, h]

theorem flagOfHub_congr {s t : System} (h : t.hubs = s.hubs) (id : Nat) :
    t.flagOfHub id = s.flagOfHub id := by
  rw [flagOfHub, flagOfHub, h]

theorem flagAt_congr {s t : System} (h : t.flags = s.flags) (id : Nat) : t.flagAt id = s.flagAt id := by
  rw [flagAt, flagAt, h]

theorem lt_of_running {s : System} {hub : Nat} (hr : (s.hubAt hub).running = true) : hub < s.hubs.length := by
  rcases Nat.lt_or_ge hub s.hubs.length with h | h
  · exact h
  · rw [hubAt_of_le h] at hr
    cases hr

@[simp] theorem flagAt_wake (s : System) (b : WaitPoint) (id : Nat) : (s.wake b).flagAt id = s.flagAt id := rfl

theorem flagAt_setFlag (s : System) (id : Nat) (f : Flag) (other : Nat) :
    (s.setFlag id f).flagAt other =
      if other = id ∧ id < s.flags.length then f else s.flagAt other := by
  unfold flagAt setFlag
  by_cases ho : other = id
  · subst ho
    by_cases hl : other < s.flags.length
    · simp [hl]
    · simp [hl]
  · simp [ho, Ne.symm ho]

theorem flagAt_of_le {s : System} {id : Nat} (h : s.flags.length ≤ id) : s.flagAt id = .empty := by
  simp [flagAt, List.getElem?_eq_none h]

@[simp] theorem hubs_raise (s : System) (flag bit : Nat) : (s.raise flag bit).hubs = s.hubs := by
  unfold raise
  split <;> rfl

@[simp] theorem channels_raise (s : System) (flag bit : Nat) :
    (s.raise flag bit).channels = s.channels := by
  unfold raise
  split <;> rfl

@[simp] theorem hubAt_raise (s : System) (flag bit id : Nat) : (s.raise flag bit).hubAt id = s.hubAt id :=
  hubAt_congr (hubs_raise s flag bit) id

theorem flagAt_raise (s : System) (flag bit other : Nat) :
    (s.raise flag bit).flagAt other =
      if other = flag then (s.flagAt flag).raise bit else s.flagAt other := by
  by_cases hi : (s.flagAt flag).isIssued bit = true
  · rw [raise, if_pos hi, flagAt_wake, flagAt_setFlag]
    by_cases hl : flag < s.flags.length
    · simp [hl]
    · simp [flagAt_of_le (Nat.le_of_not_lt hl), Flag.empty, Flag.isIssued] at hi
  · rw [raise, if_neg hi]
    split
    · rename_i ho
      rw [ho, Flag.raise_of_not_isIssued (by simpa using hi)]
    · rfl

@[simp] theorem hubs_clear (s : System) (flag bit : Nat) : (s.clear flag bit).hubs = s.hubs := rfl
@[simp] theorem channels_clear (s : System) (flag bit : Nat) : (s.clear flag bit).channels = s.channels := rfl

theorem flagAt_clear (s : System) (flag bit other : Nat) :
    (s.clear flag bit).flagAt other =
      if other = flag then (s.flagAt flag).clear bit else s.flagAt other := by
  rw [clear, flagAt_setFlag]
  by_cases hl : flag < s.flags.length
  · simp [hl]
  · simp only [hl, and_false, if_false]
    split
    · rename_i ho
      rw [ho, flagAt_of_le (Nat.le_of_not_lt hl), Flag.clear_empty]
    · rfl

@[simp] theorem hubs_addSource (s : System) (flag : Nat) (asynchronous : Bool) :
    (s.addSource flag asynchronous).2.hubs = s.hubs := rfl

@[simp] theorem channels_addSource (s : System) (flag : Nat) (asynchronous : Bool) :
    (s.addSource flag asynchronous).2.channels = s.channels := rfl

theorem flagAt_addSource (s : System) (flag : Nat) (asynchronous : Bool) (other : Nat) :
    (s.addSource flag asynchronous).2.flagAt other =
      if other = flag ∧ flag < s.flags.length then ((s.flagAt flag).addSource asynchronous).2
      else s.flagAt other := flagAt_setFlag s flag _ other

theorem flagAt_addFlag (s : System) (id : Nat) : s.addFlag.2.flagAt id = s.flagAt id := by
  unfold flagAt addFlag
  by_cases hl : id < s.flags.length
  · simp [List.getElem?_append_left hl]
  · rw [List.getElem?_append_right (Nat.le_of_not_lt hl), List.getElem?_eq_none (Nat.le_of_not_lt hl)]
    cases id - s.flags.length with
    | zero => rfl
    | succ n => rfl

theorem length_hubs_addHub (s : System) (name : String) (flag : Nat) :
    (s.addHub name flag).2.hubs.length = s.hubs.length + 1 := List.length_append

theorem hubAt_addHub (s : System) (name : String) (flag id : Nat) :
    (s.addHub name flag).2.hubAt id =
      if id = s.hubs.length then (Hub.make name (s.flagAt flag)).1 else s.hubAt id := by
  unfold hubAt addHub
  rcases Nat.lt_trichotomy id s.hubs.length with hl | rfl | hl
  · simp [List.getElem?_append_left hl, Nat.ne_of_lt hl]
  · simp
  · simp [List.getElem?_append_right (Nat.le_of_lt hl), Nat.ne_of_gt hl, Nat.le_of_lt hl,
      Nat.sub_ne_zero_of_lt hl]

theorem flagOfHub_addHub (s : System) (name : String) (flag id : Nat) :
    (s.addHub name flag).2.flagOfHub id = if id = s.hubs.length then flag else s.flagOfHub id := by
  unfold flagOfHub addHub
  rcases Nat.lt_trichotomy id s.hubs.length with hl | rfl | hl
  · simp [List.getElem?_append_left hl, Nat.ne_of_lt hl]
  · simp
  · simp [List.getElem?_append_right (Nat.le_of_lt hl), Nat.ne_of_gt hl, Nat.le_of_lt hl,
      Nat.sub_ne_zero_of_lt hl]

section changeHub

variable {α : Type} (s : System) (id : Nat) (absent : α) (change : Hub → Flag → α × Hub × Flag)

theorem changeHub_of_le {s : System} {id : Nat} (h : s.hubs.length ≤ id) :
    s.changeHub id absent change = (absent, s) := by
  rw [changeHub, List.getElem?_eq_none h]

theorem changeHub_of_lt {s : System} {id : Nat} (h : id < s.hubs.length) :
    s.changeHub id absent change =
      ((change (s.hubAt id) (s.flagAt (s.flagOfHub id))).1,
       { s.setFlag (s.flagOfHub id) (change (s.hubAt id) (s.flagAt (s.flagOfHub id))).2.2 with
         hubs := s.hubs.set id
          ((change (s.hubAt id) (s.flagAt (s.flagOfHub id))).2.1, s.flagOfHub id) }) := by
  rw [changeHub, hubs_getElem? h]

theorem channels_changeHub : (s.changeHub id absent change).2.channels = s.channels := by
  unfold changeHub
  split <;> rfl

theorem sleepers_changeHub : (s.changeHub id absent change).2.sleepers = s.sleepers := by
  unfold changeHub
  split <;> rfl

theorem length_hubs_changeHub : (s.changeHub id absent change).2.hubs.length = s.hubs.length := by
  unfold changeHub
  split
  · rfl
  · exact List.length_set

theorem flagOfHub_changeHub (other : Nat) :
    (s.changeHub id absent change).2.flagOfHub other = s.flagOfHub other := by
  by_cases h : id < s.hubs.length
  · rw [changeHub_of_lt absent change h]
    by_cases ho : other = id
    · subst ho
      simp [flagOfHub, h]
    · simp [flagOfHub, Ne.symm ho]
  · rw [changeHub_of_le absent change (Nat.le_of_not_lt h)]

theorem hubAt_changeHub (other : Nat) :
    (s.changeHub id absent change).2.hubAt other =
      if other = id ∧ id < s.hubs.length then (change (s.hubAt id) (s.flagAt (s.flagOfHub id))).2.1
      else s.hubAt other := by
  by_cases h : id < s.hubs.length
  · rw [changeHub_of_lt absent change h]
    by_cases ho : other = id
    · subst ho
      simp [hubAt, h]
    · simp [hubAt, ho, Ne.symm ho]
  · simp [changeHub_of_le absent change (Nat.le_of_not_lt h), h]

theorem flagAt_changeHub (other : Nat) :
    (s.changeHub id absent change).2.flagAt other =
      if id < s.hubs.length ∧ other = s.flagOfHub id ∧ s.flagOfHub id < s.flags.length then
        (change (s.hubAt id) (s.flagAt (s.flagOfHub id))).2.2
      else s.flagAt other := by
  by_cases h : id < s.hubs.length
  · rw [changeHub_of_lt absent change h]
    simp only [h, true_and]
    exact flagAt_setFlag s (s.flagOfHub id) _ other
  · simp [changeHub_of_le absent change (Nat.le_of_not_lt h), h]

theorem hubs_changeHub {R : Hub → Hub → Prop} (hsame : ∀ h, R h h)
    (hchange : R (s.hubAt id) (change (s.hubAt id) (s.flagAt (s.flagOfHub id))).2.1) (other : Nat) :
    R (s.hubAt other) ((s.changeHub id absent change).2.hubAt other) := by
  rw [hubAt_changeHub]
  split
  · rename_i h
    exact h.1 ▸ hchange
  · exact hsame _

theorem flags_changeHub {R : Nat → Flag → Flag → Prop} (hsame : ∀ flag f, R flag f f)
    (hchange : R (s.flagOfHub id) (s.flagAt (s.flagOfHub id))
      (change (s.hubAt id) (s.flagAt (s.flagOfHub id))).2.2) (other : Nat) :
    R other (s.flagAt other) ((s.changeHub id absent change).2.flagAt other) := by
  rw [flagAt_changeHub]
  split
  · rename_i h
    exact h.2.1 ▸ hchange
  · exact hsame other _

/-- A change that leaves the absent hub as it is can be read without asking whether the hub is there. -/
theorem hubAt_changeHub_of_absent (other : Nat)
    (h : (change .absent (s.flagAt (s.flagOfHub id))).2.1 = .absent) :
    (s.changeHub id absent change).2.hubAt other =
      if other = id then (change (s.hubAt id) (s.flagAt (s.flagOfHub id))).2.1 else s.hubAt other := by
  rw [hubAt_changeHub]
  by_cases hl : id < s.hubs.length
  · simp [hl]
  · simp only [hl, and_false, if_false]
    split
    · rename_i ho
      rw [ho, hubAt_of_le (Nat.le_of_not_lt hl), h]
    · rfl

theorem changeHub_fst_of_absent
    (h : (change .absent (s.flagAt (s.flagOfHub id))).1 = absent) :
    (s.changeHub id absent change).1 = (change (s.hubAt id) (s.flagAt (s.flagOfHub id))).1 := by
  by_cases hl : id < s.hubs.length
  · rw [changeHub_of_lt absent change hl]
  · rw [changeHub_of_le absent change (Nat.le_of_not_lt hl), hubAt_of_le (Nat.le_of_not_lt hl), h]

theorem changeHub_of_same {s : System} {id : Nat} (h : id < s.hubs.length) (a : α)
    (hc : change (s.hubAt id) (s.flagAt (s.flagOfHub id)) =
      (a, s.hubAt id, s.flagAt (s.flagOfHub id))) :
    s.changeHub id absent change = (a, s) := by
  have hh : s.hubs.set id (s.hubAt id, s.flagOfHub id) = s.hubs := by
    obtain ⟨_, he⟩ := List.getElem?_eq_some_iff.1 (hubs_getElem? h)
    rw [← he, List.set_getElem_self]
  have hf : s.setFlag (s.flagOfHub id) (s.flagAt (s.flagOfHub id)) = s := by
    rw [setFlag, flagAt]
    rcases Nat.lt_or_ge (s.flagOfHub id) s.flags.length with hl | hl
    · rw [List.getElem?_eq_getElem hl, Option.getD_some, List.set_getElem_self]
    · rw [List.set_eq_of_length_le hl]
  rw [changeHub_of_lt absent change h, hc]
  dsimp only
  rw [hf, hh]

end changeHub

theorem hubAt_addSink (s : System) (hub : Nat) (sink : Sink) (id : Nat) :
    (s.addSink hub sink).2.hubAt id =
      if id = hub ∧ hub < s.hubs.length then ((s.hubAt hub).addSink sink).2 else s.hubAt id :=
  hubAt_changeHub s hub 0 _ id

theorem publish_eq (s : System) (hub : Nat) (e : Event) :
    s.publish hub e =
      let r := s.changeHub hub false fun h f => h.publish f e
      (r.1, if r.1 then (r.2.wake (.queue hub)).wake (.flag (r.2.flagOfHub hub)) else r.2) := rfl

theorem stop_eq (s : System) (hub : Nat) :
    s.stop hub =
      let r := s.changeHub hub false fun h f => (h.running, h.stop f)
      if r.1 then (r.2.wake (.queue hub)).wake (.flag (r.2.flagOfHub hub)) else r.2 := rfl

/-- A call changes a hub as its turns do, which come to an answer and say whether they woke anybody. -/
def askChange (ask : Ask) (resumed : Bool) (h : Hub) (f : Flag) : (Hub.Pause × Bool) × Hub × Flag :=
  (((h.dispatch f ask resumed).1, (h.dispatch f ask resumed).2.woke), (h.dispatch f ask resumed).2.hub,
   (h.dispatch f ask resumed).2.flag)

theorem askHub_eq (s : System) (hub : Nat) (ask : Ask) (resumed : Bool) :
    s.askHub hub ask resumed =
      let r := s.changeHub hub (Hub.Pause.answer (.pending .closed), false) (askChange ask resumed)
      (r.1.1, if r.1.2 then r.2.wake (.queue hub) else r.2) := rfl

theorem publish_fst (s : System) (hub : Nat) (e : Event) :
    (s.publish hub e).1 = ((s.hubAt hub).publish (s.flagAt (s.flagOfHub hub)) e).1 :=
  changeHub_fst_of_absent s hub false (fun h f => h.publish f e) rfl

theorem hubAt_publish (s : System) (hub : Nat) (e : Event) (id : Nat) :
    (s.publish hub e).2.hubAt id =
      if id = hub then ((s.hubAt hub).publish (s.flagAt (s.flagOfHub hub)) e).2.1 else s.hubAt id := by
  rw [← hubAt_changeHub_of_absent s hub false (fun h f => h.publish f e) id rfl, publish_eq]
  dsimp only
  split <;> rfl

theorem hubAt_notify (s : System) (hub id : Nat) : (s.notify hub).hubAt id = s.hubAt id := by
  unfold notify
  split
  · rfl
  · exact hubAt_raise s _ _ id

theorem hubAt_stop (s : System) (hub id : Nat) :
    (s.stop hub).hubAt id =
      if id = hub then ((s.hubAt hub).stop (s.flagAt (s.flagOfHub hub))).1 else s.hubAt id := by
  rw [← hubAt_changeHub_of_absent s hub false (fun h f => (h.running, h.stop f)) id rfl, stop_eq]
  dsimp only
  split <;> rfl

theorem askHub_fst (s : System) (hub : Nat) (ask : Ask) (resumed : Bool) :
    (s.askHub hub ask resumed).1 =
      ((s.hubAt hub).dispatch (s.flagAt (s.flagOfHub hub)) ask resumed).1 :=
  congrArg Prod.fst
    (changeHub_fst_of_absent s hub (Hub.Pause.answer (.pending .closed), false) (askChange ask resumed) rfl)

theorem hubAt_askHub (s : System) (hub : Nat) (ask : Ask) (resumed : Bool) (id : Nat) :
    (s.askHub hub ask resumed).2.hubAt id =
      if id = hub then ((s.hubAt hub).dispatch (s.flagAt (s.flagOfHub hub)) ask resumed).2.hub
      else s.hubAt id := by
  have h := hubAt_changeHub_of_absent s hub (Hub.Pause.answer (.pending .closed), false)
    (askChange ask resumed) id rfl
  rw [askHub_eq]
  dsimp only
  split <;> exact h

theorem flagAt_askHub (s : System) (hub : Nat) (ask : Ask) (resumed : Bool) (flag : Nat) :
    (s.askHub hub ask resumed).2.flagAt flag =
      if hub < s.hubs.length ∧ flag = s.flagOfHub hub ∧ s.flagOfHub hub < s.flags.length then
        ((s.hubAt hub).dispatch (s.flagAt (s.flagOfHub hub)) ask resumed).2.flag
      else s.flagAt flag := by
  have h := flagAt_changeHub s hub (Hub.Pause.answer (.pending .closed), false) (askChange ask resumed) flag
  rw [askHub_eq]
  dsimp only
  split <;> exact h

theorem flagOfHub_askHub (s : System) (hub : Nat) (ask : Ask) (resumed : Bool) (id : Nat) :
    (s.askHub hub ask resumed).2.flagOfHub id = s.flagOfHub id := by
  have h := flagOfHub_changeHub s hub (Hub.Pause.answer (.pending .closed), false) (askChange ask resumed) id
  rw [askHub_eq]
  dsimp only
  split <;> exact h

theorem length_hubs_askHub (s : System) (hub : Nat) (ask : Ask) (resumed : Bool) :
    (s.askHub hub ask resumed).2.hubs.length = s.hubs.length := by
  have h := length_hubs_changeHub s hub (Hub.Pause.answer (.pending .closed), false) (askChange ask resumed)
  rw [askHub_eq]
  dsimp only
  split <;> exact h

theorem askHub_of_le {s : System} {hub : Nat} (h : s.hubs.length ≤ hub) (ask : Ask) (resumed : Bool) :
    s.askHub hub ask resumed = (.answer (.pending .closed), s) := by
  rw [askHub_eq, changeHub_of_le _ _ h]
  rfl

theorem channels_publish (s : System) (hub : Nat) (e : Event) :
    (s.publish hub e).2.channels = s.channels := by
  rw [← channels_changeHub s hub false fun h f => h.publish f e, publish_eq]
  dsimp only
  split <;> rfl

theorem channels_stop (s : System) (hub : Nat) : (s.stop hub).channels = s.channels := by
  rw [← channels_changeHub s hub false fun h f => (h.running, h.stop f), stop_eq]
  dsimp only
  split <;> rfl

theorem channels_askHub (s : System) (hub : Nat) (ask : Ask) (resumed : Bool) :
    (s.askHub hub ask resumed).2.channels = s.channels := by
  have h := channels_changeHub s hub (Hub.Pause.answer (.pending .closed), false) (askChange ask resumed)
  rw [askHub_eq]
  dsimp only
  split <;> exact h

theorem channels_notify (s : System) (hub : Nat) : (s.notify hub).channels = s.channels := by
  unfold notify
  split
  · rfl
  · exact channels_raise s _ _

theorem probe_fst (s : System) (hub : Nat) (mask : Mask) (sink : Nat) :
    (s.probe hub mask sink).1 =
      match ((s.hubAt hub).dispatch (s.flagAt (s.flagOfHub hub)) ⟨mask, .noWait, sink, false⟩ false).1 with
      | .answer fetch => fetch.status
      | _ => .error := by
  rw [← askHub_fst, probe]
  generalize s.askHub hub ⟨mask, .noWait, sink, false⟩ false = r
  obtain ⟨p, t⟩ := r
  cases p <;> rfl

theorem probe_snd (s : System) (hub : Nat) (mask : Mask) (sink : Nat) :
    (s.probe hub mask sink).2 = (s.askHub hub ⟨mask, .noWait, sink, false⟩ false).2 := by
  unfold probe
  split
  · rename_i heq
    rw [heq]
  · rename_i heq
    rw [heq]

end System
end EventHub
