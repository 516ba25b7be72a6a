import EventHub.Proofs.Hub.Outcome
set_option autoImplicit false

/-!
What passes through a hub. An event leaves the queue in front, in the hands of a call or for good, and
`Passage` keeps the books for one step: what was queued and what came in is what left and what is queued.
-/
namespace EventHub

/-- An event that left the queue, with the question that it answered and the event that was handed out;
without one it was thrown away. -/
structure Removal where
  event : Event
  taker : Option (Ask × Event)

namespace Removal

def isTaken (r : Removal) : Bool := r.taker.isSome

/-- What leaves while these sinks are registered goes to a call for the first sink that takes its id,
under the name that this sink gives it and if the call's mask wants that name; it is thrown away only if
there is no such sink. -/
def Proper (sinks : List Sink) (r : Removal) : Prop :=
  match r.taker with
  | some (ask, e) => ∃ canonical, IsOwner sinks r.event.id ask.sink canonical ∧
      ask.mask.accepts canonical = true ∧ e = { r.event with id := canonical }
  | none => ∀ s ∈ sinks, s.accept r.event.id = none

def lost (e : Entry) : Removal := ⟨e.event, none⟩

end Removal

namespace Hub

def events (h : Hub) : List Event := h.queue.map Entry.event

/-- The books of one step of a hub in which some events came in and some left. -/
structure Passage (h h' : Hub) (new : List Event) (gone : List Removal) : Prop where
  balance : h.events ++ new = gone.map Removal.event ++ h'.events
  delivered : h'.delivered = h.delivered + gone.countP Removal.isTaken
  dropped : h'.dropped = h.dropped + gone.countP (fun r => !r.isTaken)
  proper : ∀ r ∈ gone, r.Proper h.sinks

theorem Passage.still {h h' : Hub} (hq : h'.queue = h.queue) (hd : h'.delivered = h.delivered)
    (hp : h'.dropped = h.dropped) : Passage h h' [] [] where
  balance := by simp [events, hq]
  delivered := by simp [hd]
  dropped := by simp [hp]
  proper r hr := by cases hr

theorem length_events (h : Hub) : h.events.length = h.queue.length := List.length_map _

theorem length_of_balance {came queued : List Event} {gone : List Removal}
    (balance : came = gone.map Removal.event ++ queued) :
    gone.countP Removal.isTaken + gone.countP (fun r => !r.isTaken) + queued.length = came.length := by
  have hc := List.length_eq_countP_add_countP Removal.isTaken (l := gone)
  simp only [Bool.not_eq_true, Bool.decide_eq_false] at hc
  rw [balance, List.length_append, List.length_map, hc]

theorem Passage.total {h h' : Hub} {new : List Event} {gone : List Removal} (p : Passage h h' new gone) :
    h'.delivered + h'.dropped + h'.queue.length = h.delivered + h.dropped + h.queue.length + new.length := by
  have hb := length_of_balance p.balance
  rw [List.length_append, length_events, length_events] at hb
  rw [p.delivered, p.dropped]
  omega

theorem Passage.publish (h : Hub) (flag : Flag) (e : Event) :
    Passage h (h.publish flag e).2.1 (if (h.publish flag e).1 then [e] else []) [] := by
  unfold Hub.publish
  split
  · exact ⟨by simp [events], by simp, by simp, fun r hr => by cases hr⟩
  · exact .still rfl rfl rfl

theorem Passage.stop (h : Hub) (flag : Flag) : Passage h (h.stop flag).1 [] [] := by
  unfold Hub.stop
  split
  · exact .still rfl rfl rfl
  · exact .still rfl rfl rfl

theorem Refuses.proper {h : Hub} {lost : List Entry} (hl : h.Refuses lost) :
    ∀ r ∈ lost.map Removal.lost, r.Proper h.sinks := by
  intro r hr
  obtain ⟨e, he, rfl⟩ := List.mem_map.1 hr
  exact route_eq_none_iff.1 (hl e he)

theorem map_event_lost (lost : List Entry) :
    (lost.map Removal.lost).map Removal.event = lost.map Entry.event := by
  rw [List.map_map]
  rfl

theorem countP_isTaken_lost (lost : List Entry) : (lost.map Removal.lost).countP Removal.isTaken = 0 := by
  rw [List.countP_eq_zero]
  intro r hr
  obtain ⟨e, -, rfl⟩ := List.mem_map.1 hr
  simp [Removal.isTaken, Removal.lost]

theorem countP_not_isTaken_lost (lost : List Entry) :
    (lost.map Removal.lost).countP (fun r => !r.isTaken) = lost.length := by
  rw [← List.length_map Removal.lost, List.countP_eq_length]
  intro r hr
  obtain ⟨e, -, rfl⟩ := List.mem_map.1 hr
  simp [Removal.isTaken, Removal.lost]

theorem filterMap_taker_lost (lost : List Entry) :
    (lost.map Removal.lost).filterMap Removal.taker = [] := by
  rw [List.filterMap_map]
  exact List.filterMap_eq_nil_iff.2 fun e _ => rfl

theorem Passage.shed {h : Hub} {lost rest : List Entry} {cached : Option Assignment}
    (hq : h.queue = lost ++ rest) (hl : h.Refuses lost) :
    Passage h (h.shed lost rest cached) [] (lost.map Removal.lost) where
  balance := by rw [map_event_lost]; simp [events, hq, Hub.shed]
  delivered := by rw [countP_isTaken_lost]; rfl
  dropped := by rw [countP_not_isTaken_lost]; rfl
  proper := hl.proper

def Pause.takes (ask : Ask) : Pause → List (Ask × Event)
  | .answer (.delivered e) => if ask.take then [(ask, e)] else []
  | _ => []

theorem idlePause_takes (ask : Ask) (flag : Flag) : (idlePause ask.mode flag).takes ask = [] := by
  cases ask.mode with
  | noWait => rfl
  | block => rfl
  | wait =>
    rw [idlePause]
    split
    · rfl
    · split <;> rfl

/-- The removals of a call: what it threw away and, at the end, what it took. -/
theorem Outcome.passage {h : Hub} {flag : Flag} {ask : Ask} {scanned woke : Bool} {p : Pause} {t : Turn}
    (o : Outcome h flag ask scanned woke p t) :
    ∃ gone, Passage h t.hub [] gone ∧ gone.filterMap Removal.taker = p.takes ask := by
  cases o with
  | closed => exact ⟨[], .still rfl rfl rfl, rfl⟩
  | idle running refused =>
    refine ⟨h.queue.map Removal.lost, .shed (by simp) refused, ?_⟩
    rw [filterMap_taker_lost]
    exact (idlePause_takes ask _).symm
  | taken lost head rest sink canonical found wanted take =>
    obtain ⟨rfl, hm⟩ := wanted
    have hl : Passage h (h.shed lost (head :: rest) none) [] (lost.map Removal.lost) :=
      .shed found.queue found.refused
    refine ⟨lost.map Removal.lost ++ [⟨head.event, some (ask, { head.event with id := canonical })⟩],
      ⟨?_, ?_, ?_, ?_⟩, ?_⟩
    · rw [List.map_append, map_event_lost]
      simp [events, found.queue, Hub.shed]
    · rw [List.countP_append, countP_isTaken_lost]
      simp [Removal.isTaken]
    · rw [List.countP_append, countP_not_isTaken_lost]
      simp [Removal.isTaken, Hub.shed]
    · intro r hr
      rcases List.mem_append.1 hr with hr | hr
      · exact hl.proper r hr
      · rw [List.mem_singleton.1 hr]
        exact ⟨canonical, route_eq_some_iff.1 found.owner, hm, rfl⟩
    · rw [List.filterMap_append, filterMap_taker_lost]
      simp [Pause.takes, take]
  | shown lost head rest sink canonical found wanted take =>
    refine ⟨lost.map Removal.lost, .shed found.queue found.refused, ?_⟩
    rw [filterMap_taker_lost]
    simp [Pause.takes, take]
  | held lost head rest sink canonical found =>
    exact ⟨lost.map Removal.lost, .shed found.queue found.refused, filterMap_taker_lost lost⟩
  | sentAway lost head rest sink canonical found =>
    exact ⟨lost.map Removal.lost, .shed found.queue found.refused, filterMap_taker_lost lost⟩

end Hub
end EventHub
