import EventHub.Mask
import Mathlib.Data.List.Forall2
set_option autoImplicit false

/-!
Masks accept what they say. The comparison only ever goes back to the last `**` and forgets those before it. It
misses nothing by that: whatever an earlier one might have taken instead, the last one can take as well.
-/
namespace EventHub

def MaskSegment.Takes : MaskSegment → List Segment → Prop
  | .literal l, piece => piece = [l]
  | .one, piece => ∃ s, piece = [s]
  | .many, _ => True

namespace Mask

/-- The segments of a path can be cut into pieces, one for each segment of a mask and in their order. -/
def Fits (mask : List MaskSegment) (path : List Segment) : Prop :=
  ∃ pieces, List.Forall₂ MaskSegment.Takes mask pieces ∧ pieces.flatten = path

variable {mask done : List MaskSegment} {path piece rest : List Segment} {m : MaskSegment} {s : Segment}

theorem fits_nil : Fits [] path ↔ path = [] := by
  constructor
  · rintro ⟨pieces, hp, rfl⟩
    rw [List.forall₂_nil_left_iff.1 hp]
    rfl
  · rintro rfl
    exact ⟨[], .nil, rfl⟩

theorem fits_cons :
    Fits (m :: mask) path ↔ ∃ piece rest, m.Takes piece ∧ Fits mask rest ∧ path = piece ++ rest := by
  constructor
  · rintro ⟨pieces, hp, rfl⟩
    obtain ⟨piece, others, hm, ho, rfl⟩ := List.forall₂_cons_left_iff.1 hp
    exact ⟨piece, others.flatten, hm, ⟨others, ho, rfl⟩, rfl⟩
  · rintro ⟨piece, rest, hm, ⟨others, ho, rfl⟩, rfl⟩
    exact ⟨piece :: others, .cons hm ho, rfl⟩

theorem Takes.length (ht : m.Takes piece) (hm : m ≠ .many) : piece.length = 1 := by
  cases m with
  | literal l => rw [show piece = [l] from ht]; rfl
  | one => obtain ⟨s, rfl⟩ := ht; rfl
  | many => exact absurd rfl hm

theorem fits_single (hm : m ≠ .many) : Fits (m :: mask) (s :: path) ↔ m.Takes [s] ∧ Fits mask path := by
  rw [fits_cons]
  constructor
  · rintro ⟨piece, rest, ht, hf, he⟩
    obtain ⟨t, rfl⟩ := List.length_eq_one_iff.1 (Takes.length ht hm)
    cases he
    exact ⟨ht, hf⟩
  · rintro ⟨ht, hf⟩
    exact ⟨[s], path, ht, hf, rfl⟩

theorem fits_many : Fits (.many :: mask) path ↔ ∃ rest, rest <:+ path ∧ Fits mask rest := by
  rw [fits_cons]
  constructor
  · rintro ⟨piece, rest, -, hf, rfl⟩
    exact ⟨rest, List.suffix_append piece rest, hf⟩
  · rintro ⟨rest, ⟨piece, rfl⟩, hf⟩
    exact ⟨piece, rest, trivial, hf, rfl⟩

theorem fits_many_tail : Fits (.many :: mask) path ↔ Fits mask path ∨ Fits (.many :: mask) path.tail := by
  rw [fits_many, fits_many]
  constructor
  · rintro ⟨rest, ⟨taken, rfl⟩, hf⟩
    cases taken with
    | nil => exact .inl hf
    | cons s taken => exact .inr ⟨rest, List.suffix_append taken rest, hf⟩
  · rintro (hf | ⟨rest, hs, hf⟩)
    · exact ⟨path, List.suffix_refl path, hf⟩
    · exact ⟨rest, hs.trans path.tail_suffix, hf⟩

theorem fits_many_many : Fits (.many :: .many :: mask) path ↔ Fits (.many :: mask) path := by
  rw [fits_many, fits_many]
  constructor
  · rintro ⟨rest, hs, hf⟩
    obtain ⟨last, hl, hf⟩ := fits_many.1 hf
    exact ⟨last, hl.trans hs, hf⟩
  · rintro ⟨rest, hs, hf⟩
    exact ⟨rest, hs, fits_many_tail.2 (.inl hf)⟩

theorem fits_end : Fits mask [] ↔ mask.all (· == .many) = true := by
  induction mask with
  | nil => simp [fits_nil]
  | cons m mask ih =>
    cases m with
    | many => simp [fits_many, ih]
    | one => simp [fits_cons, MaskSegment.Takes]
    | literal l => simp [fits_cons, MaskSegment.Takes]

/-- Segments that are no `**` take one segment each, whatever comes behind them. -/
theorem Fits.behind (hf : Fits (done ++ mask) path) (hd : MaskSegment.many ∉ done) :
    ∃ rest, rest <:+ path ∧ path.length = done.length + rest.length ∧ Fits mask rest := by
  induction done generalizing path with
  | nil => exact ⟨path, List.suffix_refl path, by simp, hf⟩
  | cons m done ih =>
    obtain ⟨piece, others, ht, hb, rfl⟩ := fits_cons.1 hf
    have h1 : piece.length = 1 := Takes.length ht (fun hm => hd (hm ▸ .head done))
    obtain ⟨rest, hs, hl, hr⟩ := ih hb (fun hm => hd (.tail m hm))
    refine ⟨rest, hs.trans (List.suffix_append piece others), ?_, hr⟩
    rw [List.length_append, List.length_cons]
    omega

/-- Since the last `**` the comparison has taken one segment of the path for each segment of the mask, and met
no other `**`. -/
def Cursor.Aligned (c : Cursor) : Prop :=
  ∀ after start, c.resume = some (after, start) → ∃ done, MaskSegment.many ∉ done ∧ after = done ++ c.mask ∧
    c.path <:+ start ∧ start.length = done.length + c.path.length

def Cursor.CanFit (c : Cursor) : Prop :=
  Fits c.mask c.path ∨ ∃ after start, c.resume = some (after, start) ∧ Fits (.many :: after) start.tail

variable {c next : Cursor}

/-- Why only the last `**` matters: where an earlier start of it would do, the `**` that is met next can take up
the difference. -/
theorem Cursor.Aligned.later {after : List MaskSegment} {start : List Segment} (hc : c.Aligned)
    (hr : c.resume = some (after, start)) (hf : Fits (.many :: after) start.tail) :
    Fits (.many :: c.mask) c.path := by
  obtain ⟨done, hd, rfl, hs, hl⟩ := hc after start hr
  obtain ⟨tried, hb, hf⟩ := fits_many.1 hf
  obtain ⟨rest, hrest, hlen, hf⟩ := hf.behind hd
  have hsuffix : rest <:+ start := (hrest.trans hb).trans start.tail_suffix
  have hshort : rest.length ≤ c.path.length := by
    have := hb.length_le
    rw [List.length_tail] at this
    omega
  exact fits_many.2 ⟨rest, List.suffix_of_suffix_length_le hsuffix hs hshort, hf⟩

theorem Cursor.back_aligned (h : c.back = some next) : next.Aligned := by
  obtain ⟨⟨after, start⟩, -, rfl⟩ := Option.map_eq_some_iff.1 h
  rintro _ _ ⟨⟩
  exact ⟨[], by simp, rfl, List.suffix_refl _, by simp⟩

theorem Cursor.back_canFit (h : c.back = some next) :
    next.CanFit ↔ ∃ after start, c.resume = some (after, start) ∧ Fits (.many :: after) start.tail := by
  obtain ⟨⟨after, start⟩, hr, rfl⟩ := Option.map_eq_some_iff.1 h
  constructor
  · rintro (hf | ⟨_, _, ⟨⟩, hf⟩)
    · exact ⟨after, start, hr, fits_many_tail.2 (.inl hf)⟩
    · exact ⟨after, start, hr, fits_many_tail.2 (.inr hf)⟩
  · rintro ⟨_, _, hr', hf⟩
    cases hr.symm.trans hr'
    rcases fits_many_tail.1 hf with hf | hf
    · exact .inl hf
    · exact .inr ⟨after, start.tail, rfl, hf⟩

theorem Cursor.back_none (h : c.back = none) :
    ¬∃ after start, c.resume = some (after, start) ∧ Fits (.many :: after) start.tail := by
  rintro ⟨after, start, hr, -⟩
  rw [Cursor.back, hr] at h
  cases h

/-- All that a step can do: meet a `**`, take the next segment of the path, or go back. -/
theorem Cursor.step_cases (hp : c.path = s :: rest) :
    (∃ mask, c.mask = .many :: mask ∧ c.step s rest = some ⟨mask, c.path, some (mask, c.path)⟩) ∨
    (∃ m mask, c.mask = m :: mask ∧ m ≠ .many ∧ m.Takes [s] ∧ c.step s rest = some ⟨mask, rest, c.resume⟩) ∨
    (¬Fits c.mask c.path ∧ c.step s rest = c.back) := by
  obtain ⟨mask, path, resume⟩ := c
  cases hp
  match mask with
  | .many :: mask => exact .inl ⟨mask, rfl, rfl⟩
  | .one :: mask => exact .inr (.inl ⟨.one, mask, rfl, nofun, ⟨s, rfl⟩, rfl⟩)
  | .literal l :: mask =>
    by_cases hl : l = s
    · exact .inr (.inl ⟨.literal l, mask, rfl, nofun, by rw [hl]; rfl, if_pos hl⟩)
    · have hf : ¬Fits (.literal l :: mask) (s :: rest) := by
        rw [fits_single (m := .literal l) (by simp)]
        rintro ⟨ht, -⟩
        exact hl (List.cons.inj ht).1.symm
      exact .inr (.inr ⟨hf, if_neg hl⟩)
  | [] => exact .inr (.inr ⟨fun hf => List.cons_ne_nil s rest (fits_nil.1 hf), rfl⟩)

theorem Cursor.step_aligned (hp : c.path = s :: rest) (hc : c.Aligned) (h : c.step s rest = some next) :
    next.Aligned := by
  rcases step_cases hp with ⟨mask, -, he⟩ | ⟨m, mask, hm, hn, -, he⟩ | ⟨-, he⟩
  · cases he.symm.trans h
    rintro _ _ ⟨⟩
    exact ⟨[], by simp, rfl, List.suffix_refl _, by simp⟩
  · cases he.symm.trans h
    intro after start hr
    obtain ⟨done, hd, rfl, hs, hl⟩ := hc after start hr
    rw [hp] at hs hl
    refine ⟨done ++ [m], ?_, by rw [hm]; simp, (List.suffix_cons s rest).trans hs, ?_⟩
    · simp [hd, hn.symm]
    · simp only [List.length_append, List.length_cons, List.length_nil] at hl ⊢
      omega
  · exact back_aligned (he.symm.trans h)

/-- A step loses no way to fit and finds none that was not there. -/
theorem Cursor.step_canFit (hp : c.path = s :: rest) (hc : c.Aligned) (h : c.step s rest = some next) :
    next.CanFit ↔ c.CanFit := by
  rcases step_cases hp with ⟨mask, hm, he⟩ | ⟨m, mask, hm, hn, ht, he⟩ | ⟨hf, he⟩
  · cases he.symm.trans h
    have hnext : Cursor.CanFit ⟨mask, c.path, some (mask, c.path)⟩ ↔ Fits c.mask c.path := by
      rw [hm, fits_many_tail]
      exact or_congr_right ⟨fun ⟨_, _, hr, hf⟩ => by cases hr; exact hf, fun hf => ⟨mask, c.path, rfl, hf⟩⟩
    rw [hnext]
    constructor
    · exact .inl
    · rintro (hf | ⟨after, start, hr, hf⟩)
      · exact hf
      · have := hc.later hr hf
        rw [hm] at this ⊢
        exact fits_many_many.1 this
  · cases he.symm.trans h
    refine or_congr_left ?_
    rw [hm, hp, fits_single hn]
    exact (and_iff_right ht).symm
  · rw [back_canFit (he.symm.trans h)]
    exact (or_iff_right hf).symm

theorem Cursor.step_none (hp : c.path = s :: rest) (h : c.step s rest = none) : ¬c.CanFit := by
  rcases step_cases hp with ⟨_, _, he⟩ | ⟨_, _, _, _, _, he⟩ | ⟨hf, he⟩
  · cases he.symm.trans h
  · cases he.symm.trans h
  · exact not_or.2 ⟨hf, back_none (he.symm.trans h)⟩

theorem Cursor.canFit_end (hc : c.Aligned) (hp : c.path = []) : c.CanFit ↔ c.mask.all (· == .many) = true := by
  rw [← fits_end, ← hp]
  refine or_iff_left_of_imp ?_
  rintro ⟨after, start, hr, hf⟩
  have := hc.later hr hf
  rw [fits_many, hp] at this
  obtain ⟨rest, hs, hf⟩ := this
  rw [hp, ← List.suffix_nil.1 hs]
  exact hf

variable {fuel : Nat}

theorem Cursor.run_end (hp : c.path = []) : c.run fuel = some (c.mask.all (· == .many)) := by
  obtain ⟨mask, path, resume⟩ := c
  cases hp
  cases fuel <;> rfl

theorem Cursor.run_zero (hp : c.path = s :: rest) : c.run 0 = none := by
  obtain ⟨mask, path, resume⟩ := c
  cases hp
  rfl

theorem Cursor.run_refused (hp : c.path = s :: rest) (h : c.step s rest = none) :
    c.run (fuel + 1) = some false := by
  obtain ⟨mask, path, resume⟩ := c
  cases hp
  rw [run, h]

theorem Cursor.run_next (hp : c.path = s :: rest) (h : c.step s rest = some next) :
    c.run (fuel + 1) = next.run fuel := by
  obtain ⟨mask, path, resume⟩ := c
  cases hp
  rw [run, h]

theorem Cursor.run_canFit {verdict : Bool} (hc : c.Aligned) (h : c.run fuel = some verdict) :
    verdict = true ↔ c.CanFit := by
  induction fuel generalizing c with
  | zero =>
    match hp : c.path with
    | [] =>
      cases (run_end hp).symm.trans h
      exact (canFit_end hc hp).symm
    | s :: rest => cases (run_zero hp).symm.trans h
  | succ fuel ih =>
    match hp : c.path with
    | [] =>
      cases (run_end hp).symm.trans h
      exact (canFit_end hc hp).symm
    | s :: rest =>
      cases hn : c.step s rest with
      | none =>
        cases (run_refused hp hn).symm.trans h
        exact iff_of_false Bool.false_ne_true (step_none hp hn)
      | some next =>
        rw [run_next hp hn] at h
        exact (ih (step_aligned hp hc hn) h).trans (step_canFit hp hc hn)

/-- A bound on the steps to come: the last `**` is tried against each later position of the path, and from there
each position of the mask behind it is met once. -/
def Cursor.budget (c : Cursor) : Nat :=
  match c.resume with
  | none => (c.mask.length + 1) * c.path.length
  | some (after, start) => c.mask.length + 1 + (start.length - 1) * (after.length + 1)

theorem Cursor.back_budget (h : c.back = some next) (hn : next.path ≠ []) : next.budget < c.budget := by
  obtain ⟨⟨after, start⟩, hr, rfl⟩ := Option.map_eq_some_iff.1 h
  obtain ⟨t, ts, ht⟩ := List.exists_cons_of_ne_nil hn
  obtain ⟨s, rfl⟩ : ∃ s, start = s :: t :: ts := by
    cases start with
    | nil => cases ht
    | cons s start => exact ⟨s, by rw [show start = t :: ts from ht]⟩
  simp only [budget, hr, List.tail_cons, List.length_cons, Nat.add_sub_cancel]
  rw [Nat.succ_mul]
  omega

theorem Cursor.step_budget (hp : c.path = s :: rest) (hc : c.Aligned) (h : c.step s rest = some next)
    (hn : next.path ≠ []) : next.budget < c.budget := by
  rcases step_cases hp with ⟨mask, hm, he⟩ | ⟨m, mask, hm, -, -, he⟩ | ⟨-, he⟩
  · cases he.symm.trans h
    have hnext : Cursor.budget ⟨mask, c.path, some (mask, c.path)⟩ =
        mask.length + 1 + rest.length * (mask.length + 1) := by rw [hp]; rfl
    rw [hnext]
    cases hr : c.resume with
    | none =>
      have hbefore : c.budget = (mask.length + 2) + rest.length * (mask.length + 2) := by
        simp only [budget, hr, hm, hp, List.length_cons]
        rw [Nat.mul_comm, Nat.succ_mul, Nat.add_comm]
      have : rest.length * (mask.length + 1) ≤ rest.length * (mask.length + 2) :=
        Nat.mul_le_mul_left _ (Nat.le_succ _)
      omega
    | some resume =>
      obtain ⟨after, start⟩ := resume
      obtain ⟨done, -, rfl, -, hl⟩ := hc after start hr
      have hbefore : c.budget = (mask.length + 2) + (start.length - 1) * ((done ++ c.mask).length + 1) := by
        simp only [budget, hr, hm, List.length_cons]
      have hstart : rest.length ≤ start.length - 1 := by
        rw [hl, hp, List.length_cons]
        omega
      have hafter : mask.length + 1 ≤ (done ++ c.mask).length + 1 := by
        rw [hm, List.length_append, List.length_cons]
        omega
      have := Nat.mul_le_mul hstart hafter
      omega
  · cases he.symm.trans h
    cases hr : c.resume with
    | none =>
      simp only [budget, hr, hm, hp, List.length_cons, Nat.mul_add, Nat.add_mul]
      omega
    | some resume =>
      simp only [budget, hr, hm, List.length_cons]
      omega
  · exact back_budget (he.symm.trans h) hn

theorem Cursor.run_ends (hc : c.Aligned) (hb : c.path ≠ [] → c.budget ≤ fuel) :
    ∃ verdict, c.run fuel = some verdict := by
  induction fuel generalizing c with
  | zero =>
    match hp : c.path with
    | [] => exact ⟨_, run_end hp⟩
    | s :: rest =>
      have h0 := hb (by simp [hp])
      cases hr : c.resume <;> simp [budget, hr, hp] at h0
  | succ fuel ih =>
    match hp : c.path with
    | [] => exact ⟨_, run_end hp⟩
    | s :: rest =>
      cases hs : c.step s rest with
      | none => exact ⟨false, run_refused hp hs⟩
      | some next =>
        rw [run_next hp hs]
        refine ih (step_aligned hp hc hs) (fun hn => ?_)
        have := step_budget hp hc hs hn
        have := hb (by simp [hp])
        omega

theorem Cursor.start_aligned : Cursor.Aligned ⟨mask, path, none⟩ := nofun

theorem Cursor.start_budget : Cursor.budget ⟨mask, path, none⟩ ≤ stepBound mask path :=
  Nat.mul_le_mul_left _ (Nat.le_succ _)

theorem run_stepBound : Cursor.run (stepBound mask path) ⟨mask, path, none⟩ = some (matchSegments mask path) := by
  obtain ⟨verdict, hv⟩ := Cursor.run_ends (c := ⟨mask, path, none⟩) Cursor.start_aligned
    (fun _ => Cursor.start_budget)
  rw [matchSegments, hv, Option.getD_some]

theorem matchSegments_iff_fits : matchSegments mask path = true ↔ Fits mask path := by
  rw [Cursor.run_canFit Cursor.start_aligned run_stepBound]
  exact or_iff_left (by rintro ⟨_, _, ⟨⟩, _⟩)

theorem any_accepts (path : Path) : any.accepts path = true :=
  matchSegments_iff_fits.2 (fits_many.2 ⟨[], List.nil_suffix, fits_nil.2 rfl⟩)

/-- A mask accepts a path exactly when it fits it. -/
theorem accepts_iff_fits (mask : Mask) (path : Path) :
    mask.accepts path = true ↔ Fits mask.segments path.segments :=
  matchSegments_iff_fits

end Mask
end EventHub
