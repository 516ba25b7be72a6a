import EventHub.Demo
import EventHub.Proofs.Hub.Outcome
import EventHub.Proofs.Recording.Line
set_option autoImplicit false

namespace EventHub.Demo

theorem isPlain_toDigits (n : Nat) : Segment.isPlain (Nat.toDigits 10 n) = true := by
  rw [Segment.isPlain, List.all_eq_true]
  intro c hc
  have hd : c.isDigit = true := Nat.isDigit_of_mem_toDigits (by omega) (by omega) hc
  simp only [Char.isDigit, Bool.and_eq_true, decide_eq_true_eq] at hd
  obtain ⟨hlow, hhigh⟩ := hd
  have hl : 48 ≤ c.toNat := hlow
  have hh : c.toNat ≤ 57 := hhigh
  have hb : Text.isBlank c = false := by
    simp only [Text.isBlank, Text.blankRanges, List.any_cons, List.any_nil, Bool.or_false,
      Bool.or_eq_false_iff, Bool.and_eq_false_iff, decide_eq_false_iff_not]
    omega
  have hs : c ≠ '*' := by
    rintro rfl
    exact absurd hl (by decide)
  simp [hb, hs]

theorem segmentsOf_line {lead : String} (hl : '.' ∉ lead.toList) (round : Nat) :
    segmentsOf (lead ++ "." ++ toString round) = [lead.toList, Nat.toDigits 10 round] := by
  have hd : '.' ∉ Nat.toDigits 10 round := by
    intro h
    exact absurd (Nat.isDigit_of_mem_toDigits (by omega) (by omega) h) (by decide)
  have ht : (lead ++ "." ++ toString round).toList = lead.toList ++ '.' :: Nat.toDigits 10 round := by
    simp [Nat.repr]
  rw [segmentsOf, ht, Text.splitOn_append_sep, Text.splitOn_of_notMem hl, Text.splitOn_of_notMem hd]
  rfl

def lead : Nat → String
  | 0 => "a"
  | 1 => "b"
  | _ => "c"

theorem lead_proper (kind : Nat) :
    '.' ∉ (lead kind).toList ∧ (lead kind).toList ≠ [] ∧ Segment.isPlain (lead kind).toList = true := by
  unfold lead
  split <;> decide

def idAt (kind round : Nat) : Path where
  text := lead kind ++ "." ++ toString round
  proper s hs := by
    obtain ⟨hdot, hne, hplain⟩ := lead_proper kind
    rw [segmentsOf_line hdot] at hs
    rcases List.mem_cons.1 hs with rfl | hs
    · exact ⟨hne, hplain⟩
    · rw [List.mem_singleton.1 hs]
      exact ⟨Nat.toDigits_ne_nil, isPlain_toDigits round⟩

theorem segments_idAt (kind round : Nat) :
    (idAt kind round).segments = [(lead kind).toList, Nat.toDigits 10 round] :=
  segmentsOf_line (lead_proper kind).1 round

def eventAt (place : Nat) : Event :=
  ⟨idAt (place % 3) (place / 3), some (.object [("n", .int (place / 3 : Nat))]), .data, none⟩

theorem eventOf_lead (kind round : Nat) :
    eventOf (lead kind) round =
      .ok ⟨idAt kind round, some (.object [("n", .int round)]), .data, none⟩ := by
  rw [eventOf, show lead kind ++ "." ++ toString round = (idAt kind round).text from rfl, Path.parse_text]
  rfl

theorem script_eq (events : Nat) : script events = (List.range (3 * events)).map eventAt := by
  induction events with
  | zero => rfl
  | succ n ih =>
    -- one round more is one event of each kind
    have hround : leads.filterMap (fun lead => (eventOf lead n).toOption) =
        [eventAt (3 * n), eventAt (3 * n + 1), eventAt (3 * n + 2)] := by
      have h0 := eventOf_lead 0 n
      have h1 := eventOf_lead 1 n
      have h2 := eventOf_lead 2 n
      simp only [lead] at h0 h1 h2
      simp only [leads, List.filterMap_cons, List.filterMap_nil, h0, h1, h2, Except.toOption]
      simp only [eventAt, show 3 * n % 3 = 0 by omega, show (3 * n + 1) % 3 = 1 by omega,
        show (3 * n + 2) % 3 = 2 by omega, show 3 * n / 3 = n by omega, show (3 * n + 1) / 3 = n by omega,
        show (3 * n + 2) / 3 = n by omega]
    rw [script, List.range_succ, List.flatMap_append, List.flatMap_singleton, hround]
    rw [script] at ih
    rw [ih, show 3 * (n + 1) = 3 * n + 1 + 1 + 1 by omega, List.range_succ, List.range_succ, List.range_succ]
    simp

/-- A consumer's mask looks at nothing but the lead. -/
theorem accepts_below (l : String) (kind round : Nat) :
    (below l).accepts (idAt kind round) = decide (l.toList = (lead kind).toList) := by
  rw [Mask.accepts, segments_idAt]
  by_cases h : l.toList = (lead kind).toList
  · simp [below, literal, Mask.matchSegments, Mask.stepBound, Mask.Cursor.run, Mask.Cursor.step, h]
  · simp [below, literal, Mask.matchSegments, Mask.stepBound, Mask.Cursor.run, Mask.Cursor.step,
      Mask.Cursor.back, h]

theorem lead_inj {index kind : Nat} (hi : index < 2) :
    (lead index).toList = (lead kind).toList ↔ kind = index := by
  match index, kind with
  | 0, 0 => simp [lead]
  | 0, 1 => decide
  | 0, kind + 2 => simp [lead]
  | 1, 0 => decide
  | 1, 1 => simp [lead]
  | 1, kind + 2 => simp [lead]

def sinkOf (index : Nat) : Sink := .ofMask (below (lead index)) none

theorem accept_sinkOf {index kind : Nat} (hi : index < 2) (round : Nat) :
    (sinkOf index).accept (idAt kind round) = if kind = index then some (idAt kind round) else none := by
  rw [sinkOf, Sink.ofMask]
  dsimp only
  rw [accepts_below]
  simp only [lead_inj hi, decide_eq_true_eq]
  rfl

/-- With both consumers there the first two kinds have owners. -/
theorem route_eventAt {h : Hub} (hs : h.sinks = [sinkOf 0, sinkOf 1]) (place : Nat) :
    h.route (eventAt place).id =
      if place % 3 < 2 then some (place % 3, (eventAt place).id) else none := by
  rw [Hub.route, hs, Hub.routeFrom, Hub.routeFrom, Hub.routeFrom]
  simp only [eventAt, accept_sinkOf (show 0 < 2 by omega), accept_sinkOf (show 1 < 2 by omega)]
  have hk : place % 3 < 3 := Nat.mod_lt _ (by omega)
  generalize place % 3 = kind at hk
  obtain rfl | rfl | rfl : kind = 0 ∨ kind = 1 ∨ kind = 2 := by omega
  all_goals rfl

end EventHub.Demo
