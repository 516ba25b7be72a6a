import EventHub.Proofs.Mask
set_option autoImplicit false

/-!
The comparison by positions. Here it does not shorten what is left of the mask and of the path, but counts its way
through both, goes back to positions that it has kept, and has no limit on its rounds. Round for round it is the
comparison of what is left. So it ends although it goes back, within the rounds that are allowed there, and it never
asks for a segment that is not there.
-/
namespace EventHub

namespace Mask

structure Position where
  mask : Nat
  path : Nat
  resume : Option (Nat × Nat)
  deriving DecidableEq, Repr

/-- What comes of a round: the path was at its end already, there was nothing to go back to, the comparison goes on,
or it asked for what is not there. -/
inductive Round where
  | atEnd (verdict : Bool)
  | refused
  | next (p : Position)
  | outside
  deriving DecidableEq, Repr

namespace Position

def start : Position := ⟨0, 0, none⟩

def opened (p : Position) : Position := ⟨p.mask + 1, p.path, some (p.mask + 1, p.path)⟩

def taken (p : Position) : Position := ⟨p.mask + 1, p.path + 1, p.resume⟩

def back (p : Position) : Round :=
  match p.resume with
  | none => .refused
  | some (after, tried) => .next ⟨after, tried + 1, some (after, tried + 1)⟩

def round (mask : List MaskSegment) (path : List Segment) (p : Position) : Round :=
  if p.path < path.length then
    match mask[p.mask]? with
    | some .many => .next p.opened
    | some .one => .next p.taken
    | some (.literal l) =>
      match path[p.path]? with
      | some s => if l = s then .next p.taken else p.back
      | none => .outside
    | none => p.back
  else if p.mask ≤ mask.length then .atEnd ((mask.drop p.mask).all (· == .many))
  else .outside

/-- All that is kept is a position of the mask or of the path, or the end of it, and what the comparison would go back
to does not lie ahead. -/
structure Inside (mask : List MaskSegment) (path : List Segment) (p : Position) : Prop where
  inMask : p.mask ≤ mask.length
  inPath : p.path ≤ path.length
  behind : ∀ after tried, p.resume = some (after, tried) → after ≤ p.mask ∧ tried ≤ p.path

def cursor (mask : List MaskSegment) (path : List Segment) (p : Position) : Cursor :=
  ⟨mask.drop p.mask, path.drop p.path, p.resume.map fun (after, tried) => (mask.drop after, path.drop tried)⟩

end Position

/-- From here the comparison ends after so many rounds, with this verdict. From a round that looks outside it has no
end. -/
inductive Ends (mask : List MaskSegment) (path : List Segment) : Position → Nat → Bool → Prop where
  | atEnd {p : Position} {verdict : Bool} (h : p.round mask path = .atEnd verdict) : Ends mask path p 0 verdict
  | refused {p : Position} (h : p.round mask path = .refused) : Ends mask path p 1 false
  | next {p q : Position} {rounds : Nat} {verdict : Bool} (h : p.round mask path = .next q)
      (hq : Ends mask path q rounds verdict) : Ends mask path p (rounds + 1) verdict

inductive Met (mask : List MaskSegment) (path : List Segment) : Position → Prop where
  | start : Met mask path .start
  | next {p q : Position} (hp : Met mask path p) (h : p.round mask path = .next q) : Met mask path q

/-- A round in which the comparison of what is left does the same. Nothing is the same as looking outside. -/
inductive Round.Shows (mask : List MaskSegment) (path : List Segment) (c : Cursor) : Round → Prop where
  | atEnd (hp : c.path = []) : Shows mask path c (.atEnd (c.mask.all (· == .many)))
  | refused {s : Segment} {rest : List Segment} (hp : c.path = s :: rest) (h : c.step s rest = none) :
      Shows mask path c .refused
  | next {s : Segment} {rest : List Segment} {q : Position} (hp : c.path = s :: rest)
      (h : c.step s rest = some (q.cursor mask path)) : Shows mask path c (.next q)

variable {mask : List MaskSegment} {path rest : List Segment} {s : Segment} {p q : Position}
  {rounds fuel : Nat} {verdict : Bool}

namespace Position

theorem cursor_path (hp : p.path < path.length) :
    (p.cursor mask path).path = path[p.path] :: path.drop (p.path + 1) :=
  List.drop_eq_getElem_cons hp

theorem cursor_mask {m : MaskSegment} (hm : mask[p.mask]? = some m) :
    (p.cursor mask path).mask = m :: mask.drop (p.mask + 1) := by
  obtain ⟨hl, rfl⟩ := List.getElem?_eq_some_iff.1 hm
  exact List.drop_eq_getElem_cons hl

/-- All that a round can do before the end of the path, and that the step of what is left does the same. -/
theorem round_cases (hp : p.path < path.length) :
    let step := (p.cursor mask path).step path[p.path] (path.drop (p.path + 1))
    (p.mask < mask.length ∧ p.round mask path = .next p.opened ∧ step = some (p.opened.cursor mask path)) ∨
      (p.mask < mask.length ∧ p.round mask path = .next p.taken ∧ step = some (p.taken.cursor mask path)) ∨
      (p.round mask path = p.back ∧ step = (p.cursor mask path).back) := by
  intro step
  rw [round, if_pos hp]
  cases hm : mask[p.mask]? with
  | none =>
    have hnil : (p.cursor mask path).mask = [] := List.drop_of_length_le (List.getElem?_eq_none_iff.1 hm)
    exact .inr (.inr ⟨rfl, by simp only [step, Cursor.step, hnil]⟩)
  | some m =>
    have hl : p.mask < mask.length := (List.getElem?_eq_some_iff.1 hm).1
    have hcons : (p.cursor mask path).mask = m :: mask.drop (p.mask + 1) := cursor_mask hm
    cases m with
    | many =>
      refine .inl ⟨hl, rfl, ?_⟩
      simp only [step, Cursor.step, hcons, ← List.drop_eq_getElem_cons hp]
      rfl
    | one => exact .inr (.inl ⟨hl, rfl, by simp only [step, Cursor.step, hcons]; rfl⟩)
    | literal l =>
      simp only [step, Cursor.step, hcons, List.getElem?_eq_getElem hp]
      by_cases hls : l = path[p.path]
      · exact .inr (.inl ⟨hl, if_pos hls, if_pos hls⟩)
      · exact .inr (.inr ⟨if_neg hls, if_neg hls⟩)

theorem start_inside : start.Inside mask path := ⟨Nat.zero_le _, Nat.zero_le _, nofun⟩

theorem Inside.opened (hp : p.Inside mask path) (hl : p.mask < mask.length) : p.opened.Inside mask path where
  inMask := hl
  inPath := hp.inPath
  behind := by
    rintro _ _ ⟨⟩
    exact ⟨Nat.le_refl _, Nat.le_refl _⟩

theorem Inside.taken (hp : p.Inside mask path) (hl : p.mask < mask.length) (hlt : p.path < path.length) :
    p.taken.Inside mask path where
  inMask := hl
  inPath := hlt
  behind after tried hr := by
    obtain ⟨ha, ht⟩ := hp.behind after tried hr
    exact ⟨Nat.le_succ_of_le ha, Nat.le_succ_of_le ht⟩

theorem back_eq_next (h : p.back = .next q) :
    ∃ after tried, p.resume = some (after, tried) ∧ q = ⟨after, tried + 1, some (after, tried + 1)⟩ := by
  unfold back at h
  split at h
  · cases h
  · next after tried hr =>
    cases h
    exact ⟨after, tried, hr, rfl⟩

/-- It goes back only from within the path, so the segment behind the one tried last is there, or it is the end. -/
theorem Inside.back (hp : p.Inside mask path) (hlt : p.path < path.length) (h : p.back = .next q) :
    q.Inside mask path := by
  obtain ⟨after, tried, hr, rfl⟩ := back_eq_next h
  obtain ⟨ha, ht⟩ := hp.behind after tried hr
  refine ⟨Nat.le_trans ha hp.inMask, Nat.lt_of_le_of_lt ht hlt, ?_⟩
  rintro _ _ ⟨⟩
  exact ⟨Nat.le_refl _, Nat.le_refl _⟩

theorem Inside.round_end (hp : p.Inside mask path) (hge : ¬p.path < path.length) :
    p.round mask path = .atEnd ((mask.drop p.mask).all (· == .many)) := by
  rw [round, if_neg hge, if_pos hp.inMask]

theorem Inside.next (hp : p.Inside mask path) (h : p.round mask path = .next q) : q.Inside mask path := by
  by_cases hlt : p.path < path.length
  · rcases round_cases hlt with ⟨hl, hr, -⟩ | ⟨hl, hr, -⟩ | ⟨hr, -⟩
    · cases hr.symm.trans h
      exact hp.opened hl
    · cases hr.symm.trans h
      exact hp.taken hl hlt
    · exact hp.back hlt (hr.symm.trans h)
  · cases (hp.round_end hlt).symm.trans h

theorem cursor_back :
    (p.cursor mask path).back =
      p.resume.map fun (after, tried) => cursor mask path ⟨after, tried + 1, some (after, tried + 1)⟩ := by
  simp [cursor, Cursor.back, Function.comp_def]

theorem back_shows (hp : (p.cursor mask path).path = s :: rest)
    (h : (p.cursor mask path).step s rest = (p.cursor mask path).back) :
    p.back.Shows mask path (p.cursor mask path) := by
  rw [cursor_back] at h
  unfold back
  cases hr : p.resume with
  | none =>
    rw [hr] at h
    exact .refused hp h
  | some resume =>
    rw [hr] at h
    exact .next hp h

theorem Inside.shows {r : Round} (hp : p.Inside mask path) (hr : p.round mask path = r) :
    r.Shows mask path (p.cursor mask path) := by
  subst hr
  by_cases hlt : p.path < path.length
  · rcases round_cases hlt with ⟨-, hr, hs⟩ | ⟨-, hr, hs⟩ | ⟨hr, hs⟩
    · rw [hr]
      exact .next (cursor_path hlt) hs
    · rw [hr]
      exact .next (cursor_path hlt) hs
    · rw [hr]
      exact back_shows (cursor_path hlt) hs
  · rw [hp.round_end hlt]
    exact .atEnd (List.drop_of_length_le (Nat.le_of_not_lt hlt))

theorem Inside.round_ne (hp : p.Inside mask path) : p.round mask path ≠ .outside := by
  intro h
  cases hp.shows h

end Position

theorem Met.inside (h : Met mask path p) : p.Inside mask path := by
  induction h with
  | start => exact Position.start_inside
  | next _ hr ih => exact ih.next hr

theorem Ends.run (h : Ends mask path p rounds verdict) (hp : p.Inside mask path) (fuel : Nat) :
    (p.cursor mask path).run fuel = if rounds ≤ fuel then some verdict else none := by
  induction h generalizing fuel with
  | atEnd h =>
    cases hp.shows h with
    | atEnd he => exact Cursor.run_end he
  | refused h =>
    cases hp.shows h with
    | refused he hn =>
      cases fuel with
      | zero => exact Cursor.run_zero he
      | succ fuel => exact Cursor.run_refused he hn
  | next h _ ih =>
    cases hp.shows h with
    | next he hn =>
      cases fuel with
      | zero => exact Cursor.run_zero he
      | succ fuel =>
        rw [Cursor.run_next he hn, ih (hp.next h)]
        simp

theorem Position.Inside.ends (hp : p.Inside mask path) (h : (p.cursor mask path).run fuel = some verdict) :
    ∃ rounds ≤ fuel, Ends mask path p rounds verdict := by
  -- along the limit, of which a round takes one just when the step of what is left does
  induction fuel generalizing p with
  | zero =>
    obtain ⟨r, hr⟩ : ∃ r, p.round mask path = r := ⟨_, rfl⟩
    cases hp.shows hr with
    | atEnd he =>
      cases (Cursor.run_end he).symm.trans h
      exact ⟨0, Nat.le_refl 0, .atEnd hr⟩
    | refused he hn => cases (Cursor.run_zero he).symm.trans h
    | next he hn => cases (Cursor.run_zero he).symm.trans h
  | succ fuel ih =>
    obtain ⟨r, hr⟩ : ∃ r, p.round mask path = r := ⟨_, rfl⟩
    cases hp.shows hr with
    | atEnd he =>
      cases (Cursor.run_end he).symm.trans h
      exact ⟨0, Nat.zero_le _, .atEnd hr⟩
    | refused he hn =>
      cases (Cursor.run_refused he hn).symm.trans h
      exact ⟨1, Nat.succ_le_succ (Nat.zero_le fuel), .refused hr⟩
    | next he hn =>
      rw [Cursor.run_next he hn] at h
      obtain ⟨rounds, hl, hq⟩ := ih (hp.next hr) h
      exact ⟨rounds + 1, Nat.succ_le_succ hl, .next hr hq⟩

theorem Ends.le_of_run {n : Nat} {given : Bool} (h : Ends mask path p rounds verdict) (hp : p.Inside mask path)
    (hr : (p.cursor mask path).run n = some given) : rounds ≤ n ∧ verdict = given := by
  rw [h.run hp n, Option.ite_none_right_eq_some] at hr
  exact ⟨hr.1, Option.some.inj hr.2⟩

theorem Ends.unique {n : Nat} {given : Bool} (h : Ends mask path p rounds verdict) (hp : p.Inside mask path)
    (h' : Ends mask path p n given) : n = rounds ∧ given = verdict := by
  have hrun : (p.cursor mask path).run rounds = some verdict := by
    rw [h.run hp, if_pos (Nat.le_refl rounds)]
  have hrun' : (p.cursor mask path).run n = some given := by
    rw [h'.run hp, if_pos (Nat.le_refl n)]
  obtain ⟨hle, hv⟩ := h'.le_of_run hp hrun
  exact ⟨Nat.le_antisymm hle (h.le_of_run hp hrun').1, hv⟩

/-- Whatever the mask, the comparison by positions ends, within one round for each position of the mask at each of the
path, their ends counted. Its verdict is the one of the mask, and a limit on the rounds lets it through as soon as it
is not below their number. None of the rounds looks for a segment that is not there. -/
theorem comparison_bounded (mask : List MaskSegment) (path : List Segment) :
    (∃ rounds ≤ (mask.length + 1) * (path.length + 1),
      (∀ n verdict, Ends mask path .start n verdict ↔ n = rounds ∧ verdict = matchSegments mask path) ∧
      ∀ fuel, Cursor.run fuel ⟨mask, path, none⟩ =
        if rounds ≤ fuel then some (matchSegments mask path) else none) ∧
    ∀ p, Met mask path p → p.Inside mask path ∧ p.round mask path ≠ .outside := by
  have hrun : (Position.start.cursor mask path).run (stepBound mask path) = some (matchSegments mask path) :=
    run_stepBound
  obtain ⟨rounds, hl, he⟩ := Position.start_inside.ends hrun
  constructor
  · refine ⟨rounds, hl, fun n verdict => ?_, he.run Position.start_inside⟩
    constructor
    · exact he.unique Position.start_inside
    · rintro ⟨rfl, rfl⟩
      exact he
  · intro p hp
    exact ⟨hp.inside, hp.inside.round_ne⟩

def twoThenOther : List MaskSegment := [.many, .literal ['x'], .literal ['x'], .literal ['y']]

def allAlike : List Segment := List.replicate 4 ['x']

theorem comparison_bounded_twiceBack :
    Ends twoThenOther allAlike .start 9 false ∧ matchSegments twoThenOther allAlike = false ∧
      Cursor.run 8 ⟨twoThenOther, allAlike, none⟩ = none ∧
      Cursor.run 25 ⟨twoThenOther, allAlike, none⟩ = some false ∧
      Met twoThenOther allAlike ⟨1, 1, some (1, 1)⟩ ∧
      Position.Inside twoThenOther allAlike ⟨1, 1, some (1, 1)⟩ := by
  obtain ⟨⟨rounds, -, hends, hlimit⟩, hinside⟩ := comparison_bounded twoThenOther allAlike
  have hsecond : Ends twoThenOther allAlike ⟨1, 2, some (1, 2)⟩ 2 false := .next rfl (.next rfl (.atEnd rfl))
  have hfirst : Ends twoThenOther allAlike ⟨1, 1, some (1, 1)⟩ 5 false := .next rfl (.next rfl (.next rfl hsecond))
  have hend : Ends twoThenOther allAlike .start 9 false := .next rfl (.next rfl (.next rfl (.next rfl hfirst)))
  have hback : Met twoThenOther allAlike ⟨1, 1, some (1, 1)⟩ := .next (.next (.next (.next .start rfl) rfl) rfl) rfl
  obtain ⟨rfl, hverdict⟩ := (hends 9 false).1 hend
  rw [← hverdict] at hlimit
  exact ⟨hend, hverdict.symm, hlimit 8, hlimit 25, hback, (hinside _ hback).1⟩

end Mask
end EventHub
