import EventHub.Proofs.Recording.Log
import EventHub.Proofs.Recording.Recorded
set_option autoImplicit false

namespace EventHub

namespace Record

def head (r : Record) : Path × Option Path × Category := (r.id, r.address, r.category)

def unreadable (r : Record) : Bool := (ofLine? r.line).isNone

theorem head_of_ofLine?_line {r q : Record} (h : ofLine? r.line = some q) : q.head = r.head := by
  rw [ofLine?_line] at h
  obtain ⟨p, -, rfl⟩ := Option.map_eq_some_iff.1 h
  rfl

end Record

namespace Log

theorem readLines_map (rs : List Record) (number : Nat) :
    (rs.findIdx? Record.unreadable = none → ∃ qs, readLines number (rs.map fun r => Text.toUtf8 r.line) = .ok qs ∧
      qs.map Record.head = rs.map Record.head) ∧
    ∀ n, rs.findIdx? Record.unreadable = some n →
      readLines number (rs.map fun r => Text.toUtf8 r.line) = .error (.notRecord (number + n)) := by
  induction rs generalizing number with
  | nil =>
    refine ⟨fun _ => ⟨[], rfl, rfl⟩, fun n hn => ?_⟩
    cases hn
  | cons r rs ih =>
    obtain ⟨hnone, hsome⟩ := ih (number + 1)
    rw [List.map_cons, readLines, readLine_line, List.findIdx?_cons, Record.unreadable]
    cases hr : Record.ofLine? r.line with
    | none =>
      constructor
      · intro h
        cases h
      · intro n hn
        cases hn
        rfl
    | some q =>
      constructor
      · intro h
        obtain ⟨qs, hqs, hheads⟩ := hnone (by simpa using h)
        exact ⟨q :: qs, by simp [hqs], by simp [Record.head_of_ofLine?_line hr, hheads]⟩
      · intro n hn
        obtain ⟨k, hk, rfl⟩ := Option.map_eq_some_iff.1 hn
        simp [hsome k hk, Nat.add_assoc, Nat.add_comm 1 k]

end Log

theorem Recorded.log_read {before after : FileSystem} {log : FileName} {temporary : Bool} {rs : List Record}
    (h : Recorded before log temporary rs after) :
    (rs.findIdx? Record.unreadable = none →
      ∃ qs, Log.read after log = .ok qs ∧ qs.map Record.head = rs.map Record.head) ∧
    ∀ n, rs.findIdx? Record.unreadable = some n → Log.read after log = .error (.decodeFailed log (n + 1) "") := by
  obtain ⟨hnone, hsome⟩ := Log.readLines_map rs 1
  rw [← Log.records_flatMap] at hnone hsome
  constructor
  · intro hn
    obtain ⟨qs, hqs, hheads⟩ := hnone hn
    exact ⟨qs, by simp [Log.read, h.read, hqs], hheads⟩
  · intro n hn
    simp [Log.read, h.read, hsome n hn, Nat.add_comm 1 n]

/-- The payload takes all the nesting that a reader allows, and its record puts one brace more around it. -/
def Event.tooDeep (e : Event) : Bool :=
  match e.payload with
  | some v => decide (126 < v.nesting)
  | none => false

def Event.Accepted (e : Event) : Prop :=
  ∀ v, e.payload = some v → ∃ text, Json.Value.ofText? text = some v

theorem Event.Accepted.unreadable {e : Event} (h : e.Accepted) : (Record.ofEvent e).unreadable = e.tooDeep := by
  have hfits : ∀ v, e.payload = some v → v.Fits Json.Value.IsNumber Json.nestingLimit := by
    intro v hv
    obtain ⟨text, htext⟩ := h v hv
    obtain ⟨t, -, ht⟩ := Option.bind_eq_some_iff.1 htext
    exact Json.fits_of_ofTree? t ht
  have hsome := Record.isSome_reread? hfits
  rw [Record.unreadable, Record.ofLine?_line, Option.isNone_map, tooDeep]
  change (Record.reread? e.payload).isNone = _
  cases hp : e.payload with
  | none => rfl
  | some v =>
    simp only [hp, Option.some.injEq, forall_eq'] at hsome
    rw [← Option.not_isSome, Bool.eq_iff_iff, Bool.not_eq_true', ← Bool.not_eq_true, hsome, decide_eq_true_iff]
    exact Nat.not_le

/-- A finished log of events whose payloads were read from texts gives a record for each event, or an error at the
first event whose payload is nested too deeply. -/
theorem Recorded.log_read_accepted {before after : FileSystem} {log : FileName} {temporary : Bool} {es : List Event}
    (accepted : ∀ e ∈ es, e.Accepted) (h : Recorded before log temporary (es.map Record.ofEvent) after) :
    (es.findIdx? Event.tooDeep = none → ∃ rs, Log.read after log = .ok rs ∧
      rs.map (fun r => (r.id, r.address, r.category)) = es.map fun e => (e.id, e.address, e.category)) ∧
    ∀ n, es.findIdx? Event.tooDeep = some n → Log.read after log = .error (.decodeFailed log (n + 1) "") := by
  have hindex : (es.map Record.ofEvent).findIdx? Record.unreadable = es.findIdx? Event.tooDeep := by
    have hmap : es.map (Record.unreadable ∘ Record.ofEvent) = es.map Event.tooDeep :=
      List.map_congr_left fun e he => by rw [Function.comp_apply, (accepted e he).unreadable]
    calc (es.map Record.ofEvent).findIdx? Record.unreadable
        = (es.map (Record.unreadable ∘ Record.ofEvent)).findIdx? id := by
          rw [List.findIdx?_map, List.findIdx?_map, Function.id_comp]
      _ = es.findIdx? Event.tooDeep := by rw [hmap, List.findIdx?_map, Function.id_comp]
  obtain ⟨hnone, hsome⟩ := h.log_read
  rw [hindex] at hnone hsome
  refine ⟨fun hn => ?_, hsome⟩
  obtain ⟨rs, hrs, hheads⟩ := hnone hn
  rw [List.map_map] at hheads
  exact ⟨rs, hrs, hheads⟩

def Json.Value.nested : Nat → Json.Value
  | 0 => .null
  | n + 1 => .array [nested n]

theorem Json.Value.nesting_nested (n : Nat) : (nested n).nesting = n := by
  induction n with
  | zero => rfl
  | succ n ih => simp [nested, nesting, itemsNesting, ih]

theorem Json.Value.fits_nested (number : Json.Value → Prop) (n : Nat) : (nested n).Fits number n := by
  induction n with
  | zero => exact fits_scalar rfl rfl
  | succ n ih => exact fits_array.2 (by simpa using ih)

theorem Json.Value.ordered_nested (n : Nat) : (nested n).Ordered := by
  induction n with
  | zero => trivial
  | succ n ih => exact ⟨ih, trivial⟩

def plainEvent : Event := ⟨⟨"log.plain", by decide⟩, none, .data, none⟩

def deepEvent : Event := ⟨⟨"log.deep", by decide⟩, some (.nested 127), .data, none⟩

theorem Recorded.log_read_accepted_deepEvent : ∃ after,
    Recorded .fresh ⟨"a.log"⟩ false ([plainEvent, deepEvent].map Record.ofEvent) after ∧
      Log.read after ⟨"a.log"⟩ = .error (.decodeFailed ⟨"a.log"⟩ 2 "") := by
  have haccepted : ∀ e ∈ [plainEvent, deepEvent], e.Accepted := by
    intro e he v hv
    rcases List.mem_cons.1 he with rfl | he
    · cases hv
    · rw [List.mem_singleton.1 he] at hv
      cases hv
      exact ⟨_, Json.ofText?_of_fits (Json.Value.fits_nested _ 127) (Json.Value.ordered_nested 127)⟩
  have hindex : [plainEvent, deepEvent].findIdx? Event.tooDeep = some 1 := by
    simp [List.findIdx?_cons, Event.tooDeep, plainEvent, deepEvent, Json.Value.nesting_nested]
  obtain ⟨after, hafter⟩ := recorded_fresh ([plainEvent, deepEvent].map Record.ofEvent)
  exact ⟨after, hafter, (Recorded.log_read_accepted haccepted hafter).2 1 hindex⟩

end EventHub
