import EventHub.Event
import EventHub.Proofs.Grammar
import EventHub.Proofs.Mask
set_option autoImplicit false

namespace EventHub

namespace Text

variable {α : Type} {sep c : α}

theorem mem_join {pieces : List (List α)} (hc : c ≠ sep) : c ∈ join sep pieces ↔ ∃ p ∈ pieces, c ∈ p := by
  induction pieces with
  | nil => simp [join]
  | cons p pieces ih =>
    cases pieces with
    | nil => simp [join]
    | cons q pieces =>
      rw [join_cons_cons, List.mem_append, List.mem_cons, or_iff_right hc, ih]
      simp

theorem mem_splitOn [DecidableEq α] {cs : List α} (hc : c ≠ sep) : (∃ p ∈ splitOn sep cs, c ∈ p) ↔ c ∈ cs := by
  rw [← mem_join hc, join_splitOn]

end Text

theorem starred_iff {text : String} : (∃ s ∈ segmentsOf text, '*' ∈ s) ↔ '*' ∈ text.toList :=
  Text.mem_splitOn (by decide)

namespace MaskSegment

variable {s : Segment}

theorem isProper_iff :
    isProper s = true ↔ (∀ c ∈ s, Text.isBlank c = false) ∧ ('*' ∉ s ∨ s = ['*'] ∨ s = ['*', '*']) := by
  simp [isProper, or_assoc]

theorem isLiteral_ofSegment (h : isProper s = true) : (ofSegment s).isLiteral = true ↔ '*' ∉ s := by
  rw [ofSegment]
  by_cases hone : s = ['*']
  · simp [hone, isLiteral]
  · by_cases hmany : s = ['*', '*']
    · simp [hmany, isLiteral]
    · rw [if_neg hone, if_neg hmany]
      refine iff_of_true rfl ?_
      rcases (isProper_iff.1 h).2 with hs | hs | hs
      · exact hs
      · exact absurd hs hone
      · exact absurd hs hmany

theorem isPlain_of_isProper (h : isProper s = true) (hs : '*' ∉ s) : s.isPlain = true := by
  rw [Segment.isPlain, List.all_eq_true]
  intro c hc
  have hblank := (isProper_iff.1 h).1 c hc
  have hstar : c ≠ '*' := by
    rintro rfl
    exact hs hc
  simp [hblank, hstar]

end MaskSegment

namespace Mask

/-- The ways of coming by a mask. -/
inductive Obtained : Mask → Prop where
  | parsed (s : String) (m : Mask) (read : parse s = .ok m) : Obtained m
  | any : Obtained any
  | exact (p : Path) : Obtained (exact p)
  | deserialised (depth : Nat) (t : Json.Tree) (m : Mask) (read : Json.Form.read? depth t = some m) : Obtained m

variable {m n : Mask} {s : String} {p q : Path}

theorem text_of_parse (h : parse s = .ok m) : m.text = s := (h ▸ parsed s).parts.1

theorem parse_text_of_parse (h : parse s = .ok m) : parse m.text = .ok m := by
  rw [text_of_parse h]
  exact h

theorem parse_any : parse "**" = .ok any := rfl

theorem parse_of_read? {depth : Nat} {t : Json.Tree} (h : Json.Form.read? depth t = some m) :
    ∃ s, t = .string (some s) ∧ parse s = .ok m := by
  cases t with
  | string text =>
    cases text with
    | none => cases h
    | some s =>
      refine ⟨s, rfl, ?_⟩
      have hs : (parse s).toOption = some m := h
      cases hp : parse s with
      | error e =>
        rw [hp] at hs
        cases hs
      | ok m' =>
        rw [hp] at hs
        cases hs
        rfl
  | _ => cases h

theorem Obtained.parse_text (h : Obtained m) : parse m.text = .ok m := by
  cases h with
  | parsed s _ read => exact parse_text_of_parse read
  | any => exact parse_any
  | exact p => exact parse_path p
  | deserialised depth t _ read =>
    obtain ⟨s, -, hs⟩ := parse_of_read? read
    exact parse_text_of_parse hs

/-- Whatever two masks were come by, the same text makes them the same. -/
theorem Obtained.eq_iff (hm : Obtained m) (hn : Obtained n) : m = n ↔ m.text = n.text := by
  constructor
  · exact congrArg Mask.text
  · intro ht
    have h := hm.parse_text
    rw [ht, hn.parse_text] at h
    exact (Except.ok.inj h).symm

theorem segments_of_parse_text (h : parse m.text = .ok m) :
    m.segments = (segmentsOf m.text).map MaskSegment.ofSegment :=
  (h ▸ parsed m.text).parts.2

theorem proper_of_parse_text (h : parse m.text = .ok m) :
    ∀ s ∈ segmentsOf m.text, s ≠ [] ∧ MaskSegment.isProper s = true :=
  (parsed m.text).ok_iff.1 ⟨m, h⟩

theorem isExact_iff (h : parse m.text = .ok m) : m.isExact = true ↔ '*' ∉ m.text.toList := by
  rw [← starred_iff, isExact, segments_of_parse_text h, List.all_map, List.all_eq_true, not_exists]
  refine forall_congr' fun s => ?_
  rw [not_and]
  exact forall_congr' fun hs => MaskSegment.isLiteral_ofSegment (proper_of_parse_text h s hs).2

/-- A mask without a star is the exact mask of the path that is written like it. -/
theorem eq_exact (h : parse m.text = .ok m) (he : m.isExact = true) : ∃ p : Path, p.text = m.text ∧ m = exact p := by
  have hstar : ∀ s ∈ segmentsOf m.text, '*' ∉ s := by
    intro s hs hc
    exact (isExact_iff h).1 he (starred_iff.1 ⟨s, hs, hc⟩)
  have hproper : ∀ s ∈ segmentsOf m.text, s ≠ [] ∧ s.isPlain = true := by
    intro s hs
    obtain ⟨hne, hok⟩ := proper_of_parse_text h s hs
    exact ⟨hne, MaskSegment.isPlain_of_isProper hok (hstar s hs)⟩
  let p : Path := ⟨m.text, hproper⟩
  have hp : parse m.text = .ok (exact p) := parse_path p
  exact ⟨p, rfl, Except.ok.inj (h.symm.trans hp)⟩

theorem fits_literals {ss path : List Segment} : Fits (ss.map .literal) path ↔ path = ss := by
  induction ss generalizing path with
  | nil => exact fits_nil
  | cons s ss ih =>
    rw [List.map_cons]
    cases path with
    | nil => simp [fits_end]
    | cons t path =>
      rw [fits_single (m := .literal s) (by simp), ih, List.cons.injEq]
      exact and_congr_left' ⟨fun h => (List.cons.inj h).1, fun h => congrArg (fun x => [x]) h⟩

theorem exact_accepts_iff : (exact p).accepts q = true ↔ p = q := by
  rw [accepts_iff_fits, exact, fits_literals]
  exact ⟨fun h => (Path.eq_of_segments h).symm, fun h => congrArg Path.segments h.symm⟩

/-- What is promised of a mask: its text is read as the mask, and without a star in it only the path with that text
is accepted. -/
structure TextLaws (m : Mask) : Prop where
  read : parse m.text = .ok m
  exact : m.isExact = true ↔ '*' ∉ m.text.toList
  alone : m.isExact = true → ∃ p : Path, p.text = m.text ∧ ∀ q, m.accepts q = true ↔ q = p

theorem Obtained.laws (h : Obtained m) : TextLaws m where
  read := h.parse_text
  exact := isExact_iff h.parse_text
  alone he := by
    obtain ⟨p, ht, rfl⟩ := eq_exact h.parse_text he
    exact ⟨p, ht, fun q => exact_accepts_iff.trans eq_comm⟩

/-- A mask's text determines it, however the mask was come by: whether it was read, or is the mask that accepts
every path or just one. -/
theorem text_determines :
    (∀ m, Obtained m → TextLaws m) ∧
      (∀ m n, Obtained m → Obtained n → (m = n ↔ m.text = n.text)) ∧
      (parse "**" = .ok any ∧ ∀ p, any.accepts p = true) ∧
      ∀ p, parse p.text = .ok (exact p) ∧ ∀ q, (exact p).accepts q = true ↔ p = q :=
  ⟨fun _ => Obtained.laws, fun _ _ => Obtained.eq_iff, ⟨parse_any, any_accepts⟩,
    fun p => ⟨parse_path p, fun _ => exact_accepts_iff⟩⟩

theorem text_determines_counter :
    Json.Form.read? 0 (.string (some "日.1")) = some (exact Path.counter) ∧
      exact Path.counter ≠ any ∧
      ∃ p : Path, p.text = "日.1" ∧ ∀ q, (exact Path.counter).accepts q = true ↔ q = p := by
  obtain ⟨hlaws, heq, -, hexact⟩ := text_determines
  have hread : Json.Form.read? 0 (.string (some "日.1")) = some (exact Path.counter) :=
    congrArg Except.toOption (hexact Path.counter).1
  have hobtained : Obtained (exact Path.counter) := .deserialised 0 _ _ hread
  have hlaw := hlaws _ hobtained
  refine ⟨hread, ?_, hlaw.alone (hlaw.exact.2 (by decide))⟩
  rw [ne_eq, heq _ _ hobtained .any]
  decide

end Mask
end EventHub
