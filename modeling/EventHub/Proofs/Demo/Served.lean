import EventHub.Proofs.Demo.Script
import EventHub.Proofs.Hub.Forgetful
set_option autoImplicit false

namespace EventHub.Demo

/-- The hub has let go of the first `gone` events of the script, and holds the others up to `posted`. -/
structure Served (h : Hub) (gone posted : Nat) : Prop where
  running : h.running = true
  le : gone ≤ posted
  queue : h.queue.map Entry.event = (List.range' gone (posted - gone)).map eventAt
  delivered : h.delivered + gone / 3 = gone
  dropped : h.dropped = gone / 3

def next (gone posted : Nat) : Nat := if gone % 3 = 2 ∧ gone < posted then gone + 1 else gone

/-- The answer to a consumer that insists: its own event, or none until somebody else has moved on. -/
inductive Asked (gone posted index : Nat) (t : Hub.Turn) : Hub.Pause → Prop where
  | got (there : next gone posted < posted) (own : next gone posted % 3 = index)
      (served : Served t.hub (next gone posted + 1) posted) :
      Asked gone posted index t (.answer (.delivered (eventAt (next gone posted))))
  | slept (none : ¬ (next gone posted < posted ∧ next gone posted % 3 = index))
      (served : Served t.hub (next gone posted) posted) : Asked gone posted index t .onQueue
  | sentAway (none : ¬ (next gone posted < posted ∧ next gone posted % 3 = index))
      (served : Served t.hub (next gone posted) posted) :
      Asked gone posted index t (.answer (.pending .outOfSeq))

section

variable {h : Hub} {gone posted : Nat}

theorem Served.publish (s : Served h gone posted) (flag : Flag) :
    Served (h.publish flag (eventAt posted)).2.1 gone (posted + 1) := by
  obtain ⟨running, le, queue, delivered, dropped⟩ := s
  rw [Hub.publish, if_pos running]
  refine ⟨running, by omega, ?_, delivered, dropped⟩
  rw [List.map_append, queue, show posted + 1 - gone = posted - gone + 1 by omega, List.range'_concat,
    List.map_append, show gone + 1 * (posted - gone) = posted by omega]
  rfl

theorem Served.addSink (s : Served h gone posted) (sink : Sink) : Served (h.addSink sink).2 gone posted :=
  ⟨s.running, s.le, s.queue, s.delivered, s.dropped⟩

theorem Served.split (s : Served h gone posted) {lost rest : List Entry} {head : Entry}
    (hq : h.queue = lost ++ head :: rest) :
    gone + lost.length < posted ∧ lost.map Entry.event = (List.range' gone lost.length).map eventAt ∧
      head.event = eventAt (gone + lost.length) ∧
      rest.map Entry.event =
        (List.range' (gone + lost.length + 1) (posted - (gone + lost.length + 1))).map eventAt := by
  have hm := s.queue
  have hl := congrArg List.length hm
  rw [hq] at hm hl
  simp only [List.length_map, List.length_append, List.length_cons, List.length_range'] at hl
  have hlt : gone + lost.length < posted := by omega
  rw [show posted - gone = lost.length + (posted - (gone + lost.length + 1) + 1) by omega,
    ← List.range'_append_1, List.range'_succ, List.map_append, List.map_append, List.map_cons,
    List.map_cons] at hm
  obtain ⟨ha, hb⟩ := List.append_inj hm (by simp)
  obtain ⟨hc, hd⟩ := List.cons.inj hb
  exact ⟨hlt, ha, hc, hd⟩

/-- Of two events in a row one has an owner. -/
theorem length_lost {lost : List Entry} (hs : h.sinks = [sinkOf 0, sinkOf 1])
    (hm : lost.map Entry.event = (List.range' gone lost.length).map eventAt) (hr : h.Refuses lost) :
    lost = [] ∨ lost.length = 1 ∧ gone % 3 = 2 := by
  have hnobody : ∀ e ∈ lost, ∀ place, e.event = eventAt place → place % 3 = 2 := by
    intro e he place hp
    have hn := hr e he
    rw [hp, route_eventAt hs] at hn
    split at hn
    · cases hn
    · omega
  cases lost with
  | nil => exact .inl rfl
  | cons e lost =>
    rw [List.length_cons, List.range'_succ, List.map_cons, List.map_cons] at hm
    obtain ⟨he, hm⟩ := List.cons.inj hm
    have hfirst := hnobody e List.mem_cons_self gone he
    cases lost with
    | nil => exact .inr ⟨rfl, hfirst⟩
    | cons e' lost =>
      rw [List.length_cons, List.range'_succ, List.map_cons, List.map_cons] at hm
      have hsecond := hnobody e' (List.mem_cons_of_mem e List.mem_cons_self) (gone + 1) (List.cons.inj hm).1
      omega

def question (index : Nat) : Ask := ⟨below (lead index), .block, index, true⟩

def Ready (h : Hub) (posted : Nat) : Prop := posted = 0 ∨ h.sinks = [sinkOf 0, sinkOf 1]

theorem Served.shed (s : Served h gone posted) {lost rest : List Entry} (hl : lost.length ≤ 1)
    (hk : lost.length = 1 → gone % 3 = 2) (hle : gone + lost.length ≤ posted)
    (hr : rest.map Entry.event =
      (List.range' (gone + lost.length) (posted - (gone + lost.length))).map eventAt)
    (cached : Option Assignment) : Served (h.shed lost rest cached) (gone + lost.length) posted := by
  obtain ⟨running, le, queue, delivered, dropped⟩ := s
  refine ⟨running, hle, hr, ?_, ?_⟩
  · show h.delivered + _ = _
    omega
  · show h.dropped + lost.length = _
    omega

theorem Served.found (s : Served h gone posted) (ready : Ready h posted) {lost rest : List Entry} {head : Entry}
    {sink : Nat} {canonical : Path} (f : h.Finds lost head rest sink canonical) :
    next gone posted = gone + lost.length ∧ next gone posted < posted ∧
      head.event = eventAt (next gone posted) ∧ sink = next gone posted % 3 ∧
      canonical = (eventAt (next gone posted)).id ∧
      Served (h.facing lost head rest sink canonical) (next gone posted) posted ∧
      Served { h.shed lost rest none with delivered := h.delivered + 1 } (next gone posted + 1) posted := by
  obtain ⟨hlt, hlost, hhead, hrest⟩ := s.split f.queue
  have hs : h.sinks = [sinkOf 0, sinkOf 1] := by
    rcases ready with hz | hs
    · omega
    · exact hs
  have howner := f.owner
  rw [hhead, route_eventAt hs] at howner
  have hkind : (gone + lost.length) % 3 < 2 ∧ (gone + lost.length) % 3 = sink ∧
      (eventAt (gone + lost.length)).id = canonical := by
    split at howner
    · cases howner
      exact ⟨by assumption, rfl, rfl⟩
    · cases howner
  obtain ⟨hk, rfl, rfl⟩ := hkind
  have hlen : lost.length ≤ 1 ∧ (lost.length = 1 → gone % 3 = 2) := by
    rcases length_lost hs hlost f.refused with rfl | ⟨h1, h2⟩
    · exact ⟨Nat.zero_le _, fun h => by cases h⟩
    · exact ⟨Nat.le_of_eq h1, fun _ => h2⟩
  have hnext : next gone posted = gone + lost.length := by
    unfold next
    split
    · omega
    · omega
  have hheld : (head :: rest).map Entry.event =
      (List.range' (gone + lost.length) (posted - (gone + lost.length))).map eventAt := by
    rw [show posted - (gone + lost.length) = posted - (gone + lost.length + 1) + 1 by omega,
      List.range'_succ, List.map_cons, List.map_cons, hhead, hrest]
  have hshed := s.shed hlen.1 hlen.2 (Nat.le_of_lt hlt) hheld
  rw [hnext]
  refine ⟨rfl, hlt, hhead, rfl, rfl, hshed _, ?_⟩
  obtain ⟨running, le, queue, delivered, dropped⟩ := hshed none
  refine ⟨running, hlt, hrest, ?_, ?_⟩
  · show h.delivered + 1 + _ = _
    have hd : h.delivered + (gone + lost.length) / 3 = gone + lost.length := delivered
    omega
  · show h.dropped + lost.length = _
    have hd : h.dropped + lost.length = (gone + lost.length) / 3 := dropped
    omega

theorem Served.idle (s : Served h gone posted) (ready : Ready h posted) (hr : h.Refuses h.queue) :
    next gone posted = posted ∧ Served (h.shed h.queue [] none) posted posted := by
  have hlen := congrArg List.length s.queue
  simp only [List.length_map, List.length_range'] at hlen
  have hq : h.queue.map Entry.event = (List.range' gone h.queue.length).map eventAt := hlen ▸ s.queue
  have hle := s.le
  have hk : h.queue.length ≤ 1 ∧ (h.queue.length = 1 → gone % 3 = 2) := by
    rcases ready with hz | hs
    · omega
    · rcases length_lost hs hq hr with h0 | ⟨h1, h2⟩
      · rw [h0]
        exact ⟨Nat.zero_le _, fun h => by cases h⟩
      · exact ⟨Nat.le_of_eq h1, fun _ => h2⟩
  have hend : gone + h.queue.length = posted := by omega
  have hnil : ([] : List Entry).map Entry.event =
      (List.range' (gone + h.queue.length) (posted - (gone + h.queue.length))).map eventAt := by
    rw [hend, Nat.sub_self]
    rfl
  have hshed := s.shed hk.1 hk.2 (Nat.le_of_eq hend) hnil none
  rw [hend] at hshed
  refine ⟨?_, hshed⟩
  unfold next
  split
  · omega
  · omega

theorem Served.asked (s : Served h gone posted) (ready : Ready h posted) {index : Nat} (hi : index < 2)
    {flag : Flag} {scanned woke : Bool} {p : Hub.Pause} {t : Hub.Turn}
    (o : Hub.Outcome h flag (question index) scanned woke p t) : Asked gone posted index t p := by
  have hwants : ∀ {sink canonical}, sink = next gone posted % 3 → canonical = (eventAt (next gone posted)).id →
      ((question index).Wants sink canonical ↔ next gone posted % 3 = index) := by
    intro sink canonical hsink hcanonical
    rw [hsink, hcanonical]
    constructor
    · exact fun h => h.1
    · intro h
      refine ⟨h, ?_⟩
      rw [question, eventAt, accepts_below, decide_eq_true_eq, lead_inj hi]
      exact h
  cases o with
  | closed stopped =>
    rw [s.running] at stopped
    cases stopped
  | idle running refused =>
    obtain ⟨hn, hs⟩ := s.idle ready refused
    have hserved : Served (h.shed h.queue [] none) (next gone posted) posted := by
      rw [hn]
      exact hs
    exact .slept (by omega) hserved
  | taken lost head rest sink canonical found wanted =>
    obtain ⟨-, hlt, hhead, hsink, hcanonical, -, hserved⟩ := s.found ready found
    have he : { head.event with id := canonical } = eventAt (next gone posted) := by
      rw [hhead, hcanonical]
    rw [he]
    exact .got hlt ((hwants hsink hcanonical).1 wanted) hserved
  | shown lost head rest sink canonical found wanted take => cases take
  | held lost head rest sink canonical found unwanted =>
    obtain ⟨-, -, -, hsink, hcanonical, hserved, -⟩ := s.found ready found
    exact .slept (fun h => unwanted ((hwants hsink hcanonical).2 h.2)) hserved
  | sentAway lost head rest sink canonical found unwanted =>
    obtain ⟨-, -, -, hsink, hcanonical, hserved, -⟩ := s.found ready found
    exact .sentAway (fun h => unwanted ((hwants hsink hcanonical).2 h.2)) hserved

end

end EventHub.Demo
