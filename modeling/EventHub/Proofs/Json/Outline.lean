import EventHub.Proofs.Json.Nested
import EventHub.Proofs.Utf8
set_option autoImplicit false

/-!
The outline of a text: how many of its brackets are open, and where in a string it stands. Whatever is read as
a value closes all that it opens, and behind a string or a bracket that ends nothing new begins. Bytes and
characters have one outline, so it can be followed through a text that was cut anywhere, inside a character too.
-/
namespace EventHub.Json

inductive Mark where
  | quote
  | escape
  | opening
  | closing
  | link
  | gap
  | other
  deriving DecidableEq, Repr

def markOf (code : Nat) : Mark :=
  if code = 0x22 then .quote
  else if code = 0x5C then .escape
  else if code = 0x5B ∨ code = 0x7B then .opening
  else if code = 0x5D ∨ code = 0x7D then .closing
  else if code = 0x2C ∨ code = 0x3A then .link
  else if code = 0x20 ∨ code = 0x09 ∨ code = 0x0A ∨ code = 0x0D then .gap
  else .other

/-- Behind a string or a bracket that has ended; inside a string, perhaps behind a backslash; or anywhere else. -/
inductive Mode where
  | free
  | string
  | escaped
  | ended
  deriving DecidableEq, Repr

def Mode.Settled (m : Mode) : Prop := m = .free ∨ m = .ended

structure Outline where
  depth : Nat
  mode : Mode
  deriving DecidableEq, Repr

namespace Outline

def within (depth : Nat) (next : Outline) : Option Outline := if depth = 0 then none else some next

def step : Outline → Mark → Option Outline
  | ⟨depth, .free⟩, .quote => some ⟨depth, .string⟩
  | ⟨depth, .free⟩, .opening => some ⟨depth + 1, .free⟩
  | ⟨depth, .free⟩, .closing => within depth ⟨depth - 1, .ended⟩
  | ⟨depth, .free⟩, _ => some ⟨depth, .free⟩
  | ⟨depth, .string⟩, .quote => some ⟨depth, .ended⟩
  | ⟨depth, .string⟩, .escape => some ⟨depth, .escaped⟩
  | ⟨depth, .string⟩, _ => some ⟨depth, .string⟩
  | ⟨depth, .escaped⟩, _ => some ⟨depth, .string⟩
  | ⟨depth, .ended⟩, .gap => some ⟨depth, .ended⟩
  | ⟨depth, .ended⟩, .closing => within depth ⟨depth - 1, .ended⟩
  | ⟨depth, .ended⟩, .link => within depth ⟨depth, .free⟩
  | ⟨_, .ended⟩, _ => none

theorem within_eq_some_iff {depth : Nat} {o next : Outline} : within depth o = some next ↔ depth ≠ 0 ∧ o = next := by
  rw [within]
  split <;> simp [*]

def follow (o : Outline) : List Nat → Option Outline
  | [] => some o
  | code :: codes => (o.step (markOf code)).bind fun next => next.follow codes

theorem follow_append (o : Outline) (as bs : List Nat) :
    o.follow (as ++ bs) = (o.follow as).bind fun next => next.follow bs := by
  induction as generalizing o with
  | nil => rfl
  | cons a as ih =>
    rw [List.cons_append, follow, follow, Option.bind_assoc]
    simp only [ih]

theorem follow_cons {o next : Outline} {code : Nat} (h : o.step (markOf code) = some next) (codes : List Nat) :
    o.follow (code :: codes) = next.follow codes := by
  rw [follow, h, Option.bind_some]

/-- The outline of a text goes on as that of the rest does. -/
def Leads (o : Outline) (cs : List Char) (next : Outline) (rest : List Char) : Prop :=
  o.follow (cs.map Char.toNat) = next.follow (rest.map Char.toNat)

theorem Leads.trans {a b c : Outline} {as bs cs : List Char} (h : a.Leads as b bs) (h' : b.Leads bs c cs) :
    a.Leads as c cs :=
  Eq.trans h h'

theorem leads_cons {o next : Outline} {c : Char} (h : o.step (markOf c.toNat) = some next) (cs : List Char) :
    o.Leads (c :: cs) next cs :=
  follow_cons h _

theorem markOf_of_isGap {c : Char} (h : isGap c = true) : markOf c.toNat = .gap := by
  simp only [isGap, Bool.or_eq_true, beq_iff_eq] at h
  rcases h with ((rfl | rfl) | rfl) | rfl <;> rfl

theorem markOf_of_isDigit {c : Char} (h : c.isDigit = true) : markOf c.toNat = .other := by
  simp only [Char.isDigit, Bool.and_eq_true, decide_eq_true_eq, UInt32.le_iff_toNat_le] at h
  have hl : 48 ≤ c.toNat := h.1
  have hu : c.toNat ≤ 57 := h.2
  unfold markOf
  repeat rw [if_neg (by omega)]

theorem leads_skipGaps {m : Mode} (hm : m.Settled) (depth : Nat) (cs : List Char) :
    Leads ⟨depth, m⟩ cs ⟨depth, m⟩ (skipGaps cs) := by
  induction cs with
  | nil => rfl
  | cons c cs ih =>
    by_cases hg : isGap c = true
    · rw [skipGaps, List.dropWhile_cons_of_pos hg]
      refine (leads_cons ?_ cs).trans ih
      rw [markOf_of_isGap hg]
      rcases hm with rfl | rfl <;> rfl
    · rw [skipGaps, List.dropWhile_cons_of_neg hg]
      rfl

theorem leads_dropWhile_isDigit (depth : Nat) (cs : List Char) :
    Leads ⟨depth, .free⟩ cs ⟨depth, .free⟩ (cs.dropWhile Char.isDigit) := by
  induction cs with
  | nil => rfl
  | cons c cs ih =>
    by_cases hd : c.isDigit = true
    · rw [List.dropWhile_cons_of_pos hd]
      refine (leads_cons ?_ cs).trans ih
      rw [markOf_of_isDigit hd]
      rfl
    · rw [List.dropWhile_cons_of_neg hd]
      rfl

theorem leads_readDigits {cs ds rest : List Char} (h : readDigits cs = some (ds, rest)) (depth : Nat) :
    Leads ⟨depth, .free⟩ cs ⟨depth, .free⟩ rest := by
  rw [readDigits] at h
  split at h
  · cases h
  · cases h
    exact leads_dropWhile_isDigit depth cs

theorem leads_readWhole {cs ds rest : List Char} (h : readWhole cs = some (ds, rest)) (depth : Nat) :
    Leads ⟨depth, .free⟩ cs ⟨depth, .free⟩ rest := by
  rw [readWhole] at h
  split at h
  · cases h
  · exact leads_readDigits h depth

theorem leads_readFraction {cs rest : List Char} {ds : Option (List Char)}
    (h : readFraction cs = some (ds, rest)) (depth : Nat) : Leads ⟨depth, .free⟩ cs ⟨depth, .free⟩ rest := by
  rw [readFraction.eq_def] at h
  split at h
  · obtain ⟨⟨digits, left⟩, hdigits, hleft⟩ := Option.map_eq_some_iff.1 h
    cases hleft
    exact (leads_cons rfl _).trans (leads_readDigits hdigits depth)
  · cases h
    rfl

theorem leads_readSignedDigits {cs rest : List Char} {n : Int} (h : readSignedDigits cs = some (n, rest))
    (depth : Nat) : Leads ⟨depth, .free⟩ cs ⟨depth, .free⟩ rest := by
  rw [readSignedDigits.eq_def] at h
  split at h
  · obtain ⟨⟨digits, left⟩, hdigits, hleft⟩ := Option.map_eq_some_iff.1 h
    cases hleft
    exact (leads_cons rfl _).trans (leads_readDigits hdigits depth)
  · obtain ⟨⟨digits, left⟩, hdigits, hleft⟩ := Option.map_eq_some_iff.1 h
    cases hleft
    exact (leads_cons rfl _).trans (leads_readDigits hdigits depth)
  · obtain ⟨⟨digits, left⟩, hdigits, hleft⟩ := Option.map_eq_some_iff.1 h
    cases hleft
    exact leads_readDigits hdigits depth

theorem leads_readExponent {cs rest : List Char} {e : Option Int} (h : readExponent cs = some (e, rest))
    (depth : Nat) : Leads ⟨depth, .free⟩ cs ⟨depth, .free⟩ rest := by
  rw [readExponent.eq_def] at h
  split at h
  · obtain ⟨⟨n, left⟩, hdigits, hleft⟩ := Option.map_eq_some_iff.1 h
    cases hleft
    exact (leads_cons rfl _).trans (leads_readSignedDigits hdigits depth)
  · obtain ⟨⟨n, left⟩, hdigits, hleft⟩ := Option.map_eq_some_iff.1 h
    cases hleft
    exact (leads_cons rfl _).trans (leads_readSignedDigits hdigits depth)
  · cases h
    rfl

theorem leads_readUnsigned {negative : Bool} {cs rest : List Char} {n : Numeral}
    (h : readUnsigned negative cs = some (n, rest)) (depth : Nat) :
    Leads ⟨depth, .free⟩ cs ⟨depth, .free⟩ rest := by
  rw [readUnsigned] at h
  obtain ⟨⟨whole, afterWhole⟩, hwhole, h⟩ := Option.bind_eq_some_iff.1 h
  obtain ⟨⟨fraction, afterFraction⟩, hfraction, h⟩ := Option.bind_eq_some_iff.1 h
  obtain ⟨⟨exponent, afterExponent⟩, hexponent, h⟩ := Option.bind_eq_some_iff.1 h
  cases h
  exact ((leads_readWhole hwhole depth).trans (leads_readFraction hfraction depth)).trans
    (leads_readExponent hexponent depth)

theorem leads_readNumeral {cs rest : List Char} {n : Numeral} (h : Numeral.read cs = some (n, rest)) (depth : Nat) :
    Leads ⟨depth, .free⟩ cs ⟨depth, .free⟩ rest := by
  rw [Numeral.read.eq_def] at h
  split at h
  · exact (leads_cons rfl _).trans (leads_readUnsigned h depth)
  · exact leads_readUnsigned h depth

theorem markOf_of_hexValue? {c : Char} {n : Nat} (h : hexValue? c = some n) : markOf c.toNat = .other := by
  rw [hexValue?] at h
  split at h
  · rename_i hd
    exact markOf_of_isDigit hd
  split at h
  · rename_i hr
    simp only [Char.le_def, UInt32.le_iff_toNat_le] at hr
    have hl : 97 ≤ c.toNat := hr.1
    have hu : c.toNat ≤ 102 := hr.2
    unfold markOf
    repeat rw [if_neg (by omega)]
  split at h
  · rename_i hr
    simp only [Char.le_def, UInt32.le_iff_toNat_le] at hr
    have hl : 65 ≤ c.toNat := hr.1
    have hu : c.toNat ≤ 70 := hr.2
    unfold markOf
    repeat rw [if_neg (by omega)]
  · cases h

theorem leads_hexDigits {ds : List Char} {n u : Nat}
    (h : ds.foldlM (fun n c => (hexValue? c).map (n * 16 + ·)) n = some u) (depth : Nat) (cs : List Char) :
    Leads ⟨depth, .string⟩ (ds ++ cs) ⟨depth, .string⟩ cs := by
  induction ds generalizing n with
  | nil => rfl
  | cons d ds ih =>
    rw [List.foldlM_cons] at h
    obtain ⟨m, hm, h⟩ := Option.bind_eq_some_iff.1 h
    obtain ⟨v, hv, -⟩ := Option.map_eq_some_iff.1 hm
    refine (leads_cons ?_ (ds ++ cs)).trans (ih h)
    rw [markOf_of_hexValue? hv]
    rfl

theorem markOf_ne_quote {c : Char} (h : c ≠ '"') : markOf c.toNat ≠ .quote := by
  have hc : c.toNat ≠ 0x22 := fun he => h (Char.toNat_inj.1 he)
  unfold markOf
  rw [if_neg hc]
  split_ifs <;> decide

theorem markOf_ne_escape {c : Char} (h : c ≠ '\\') : markOf c.toNat ≠ .escape := by
  have hc : c.toNat ≠ 0x5C := fun he => h (Char.toNat_inj.1 he)
  unfold markOf
  rw [if_neg hc]
  split_ifs <;> decide

theorem step_string {m : Mark} (hq : m ≠ .quote) (he : m ≠ .escape) (depth : Nat) :
    step ⟨depth, .string⟩ m = some ⟨depth, .string⟩ := by
  cases m with
  | quote => exact absurd rfl hq
  | escape => exact absurd rfl he
  | _ => rfl

theorem leads_readUnits {cs rest : List Char} {units : List Nat} (h : readUnits cs = some (units, rest))
    (depth : Nat) : Leads ⟨depth, .string⟩ cs ⟨depth, .ended⟩ rest := by
  fun_induction readUnits cs generalizing units with
  | case1 => cases h
  | case2 cs =>
    cases h
    exact leads_cons rfl _
  | case3 a b c d cs ih =>
    obtain ⟨u, hu, h⟩ := Option.bind_eq_some_iff.1 h
    obtain ⟨⟨us, left⟩, hus, hleft⟩ := Option.map_eq_some_iff.1 h
    cases hleft
    exact (leads_cons rfl _).trans ((leads_cons rfl _).trans ((leads_hexDigits hu depth cs).trans (ih hus)))
  | case4 e cs hnot ih =>
    obtain ⟨u, hu, h⟩ := Option.bind_eq_some_iff.1 h
    obtain ⟨⟨us, left⟩, hus, hleft⟩ := Option.map_eq_some_iff.1 h
    cases hleft
    exact (leads_cons rfl _).trans ((leads_cons rfl _).trans (ih hus))
  | case5 => cases h
  | case6 c cs hquote _ _ hplain ih =>
    obtain ⟨⟨us, left⟩, hus, hleft⟩ := Option.map_eq_some_iff.1 h
    cases hleft
    have hstep := step_string (markOf_ne_quote hquote) (markOf_ne_escape fun he => hplain (.inr he)) depth
    exact (leads_cons hstep cs).trans (ih hus)

theorem leads_readText {cs rest : List Char} {s : Option String} (h : readText cs = some (s, rest)) (depth : Nat) :
    Leads ⟨depth, .string⟩ cs ⟨depth, .ended⟩ rest := by
  obtain ⟨⟨units, left⟩, hunits, hleft⟩ := Option.map_eq_some_iff.1 h
  cases hleft
  exact leads_readUnits hunits depth

theorem leads_link {m : Mode} (hm : m.Settled) (depth : Nat) {c : Char} (hc : markOf c.toNat = .link)
    (cs : List Char) : Leads ⟨depth + 1, m⟩ (c :: cs) ⟨depth + 1, .free⟩ cs := by
  refine leads_cons ?_ cs
  rw [hc]
  rcases hm with rfl | rfl <;> rfl

theorem leads_closing {m : Mode} (hm : m.Settled) (depth : Nat) {c : Char} (hc : markOf c.toNat = .closing)
    (cs : List Char) : Leads ⟨depth + 1, m⟩ (c :: cs) ⟨depth, .ended⟩ cs := by
  refine leads_cons ?_ cs
  rw [hc]
  rcases hm with rfl | rfl <;> rfl

theorem leads_of_skipGaps {m : Mode} {o : Outline} {depth : Nat} {cs ds rest : List Char} (hm : m.Settled)
    (hs : skipGaps cs = ds) (h : Leads ⟨depth, m⟩ ds o rest) : Leads ⟨depth, m⟩ cs o rest :=
  (leads_skipGaps hm depth cs).trans (hs ▸ h)

mutual

theorem leads_read {fuel : Nat} {cs rest : List Char} {t : Tree} (h : Tree.read fuel cs = some (t, rest))
    (depth : Nat) : ∃ m : Mode, m.Settled ∧ Leads ⟨depth, .free⟩ cs ⟨depth, m⟩ rest := by
  match fuel with
  | 0 =>
    rw [Tree.read] at h
    cases h
  | fuel + 1 =>
    rw [Tree.read] at h
    split at h
    -- the letters of the three words mean nothing
    · rename_i hs
      cases h
      exact ⟨.free, .inl rfl, leads_of_skipGaps (.inl rfl) hs rfl⟩
    · rename_i hs
      cases h
      exact ⟨.free, .inl rfl, leads_of_skipGaps (.inl rfl) hs rfl⟩
    · rename_i hs
      cases h
      exact ⟨.free, .inl rfl, leads_of_skipGaps (.inl rfl) hs rfl⟩
    -- a string, an array and an object end with the mark that closes them
    · rename_i hs
      obtain ⟨⟨s, left⟩, htext, hleft⟩ := Option.map_eq_some_iff.1 h
      cases hleft
      refine ⟨.ended, .inr rfl, leads_of_skipGaps (.inl rfl) hs ?_⟩
      exact (leads_cons rfl _).trans (leads_readText htext depth)
    · rename_i inner hs
      refine ⟨.ended, .inr rfl, leads_of_skipGaps (.inl rfl) hs ((leads_cons rfl inner).trans ?_)⟩
      split at h
      · rename_i hinner
        cases h
        exact leads_of_skipGaps (.inl rfl) hinner (leads_closing (.inl rfl) depth rfl rest)
      · obtain ⟨⟨items, left⟩, hitems, hleft⟩ := Option.map_eq_some_iff.1 h
        cases hleft
        exact (leads_skipGaps (.inl rfl) _ inner).trans (leads_readItems hitems depth)
    · rename_i inner hs
      refine ⟨.ended, .inr rfl, leads_of_skipGaps (.inl rfl) hs ((leads_cons rfl inner).trans ?_)⟩
      split at h
      · rename_i hinner
        cases h
        exact leads_of_skipGaps (.inl rfl) hinner (leads_closing (.inl rfl) depth rfl rest)
      · obtain ⟨⟨fields, left⟩, hfields, hleft⟩ := Option.map_eq_some_iff.1 h
        cases hleft
        exact (leads_skipGaps (.inl rfl) _ inner).trans (leads_readFields hfields depth)
    -- a number ends where something else begins
    · obtain ⟨⟨n, left⟩, hn, hleft⟩ := Option.map_eq_some_iff.1 h
      cases hleft
      exact ⟨.free, .inl rfl, (leads_skipGaps (.inl rfl) depth cs).trans (leads_readNumeral hn depth)⟩

theorem leads_readItems {fuel : Nat} {cs rest : List Char} {items : List Tree}
    (h : readItems fuel cs = some (items, rest)) (depth : Nat) :
    Leads ⟨depth + 1, .free⟩ cs ⟨depth, .ended⟩ rest := by
  match fuel with
  | 0 =>
    rw [readItems] at h
    cases h
  | fuel + 1 =>
    rw [readItems] at h
    obtain ⟨⟨item, behind⟩, hitem, h⟩ := Option.bind_eq_some_iff.1 h
    obtain ⟨m, hm, hl⟩ := leads_read hitem (depth + 1)
    refine hl.trans ?_
    dsimp only at h
    split at h
    · rename_i hs
      obtain ⟨⟨more, left⟩, hmore, hleft⟩ := Option.map_eq_some_iff.1 h
      cases hleft
      exact leads_of_skipGaps hm hs ((leads_link hm depth rfl _).trans (leads_readItems hmore depth))
    · rename_i hs
      cases h
      exact leads_of_skipGaps hm hs (leads_closing hm depth rfl _)
    · cases h

theorem leads_readFields {fuel : Nat} {cs rest : List Char} {fields : List (Option String × Tree)}
    (h : readFields fuel cs = some (fields, rest)) (depth : Nat) :
    Leads ⟨depth + 1, .free⟩ cs ⟨depth, .ended⟩ rest := by
  match fuel with
  | 0 =>
    rw [readFields] at h
    cases h
  | fuel + 1 =>
    rw [readFields] at h
    split at h
    · rename_i hs
      obtain ⟨⟨key, behindKey⟩, hkey, h⟩ := Option.bind_eq_some_iff.1 h
      refine leads_of_skipGaps (.inl rfl) hs ((leads_cons rfl _).trans ((leads_readText hkey (depth + 1)).trans ?_))
      dsimp only at h
      split at h
      · rename_i hcolon
        obtain ⟨⟨value, behind⟩, hvalue, h⟩ := Option.bind_eq_some_iff.1 h
        obtain ⟨m, hm, hl⟩ := leads_read hvalue (depth + 1)
        refine leads_of_skipGaps (.inr rfl) hcolon ((leads_link (.inr rfl) depth rfl _).trans (hl.trans ?_))
        dsimp only at h
        split at h
        · rename_i hcomma
          obtain ⟨⟨more, left⟩, hmore, hleft⟩ := Option.map_eq_some_iff.1 h
          cases hleft
          exact leads_of_skipGaps hm hcomma ((leads_link hm depth rfl _).trans (leads_readFields hmore depth))
        · rename_i hclosing
          cases h
          exact leads_of_skipGaps hm hclosing (leads_closing hm depth rfl _)
        · cases h
      · cases h
    · cases h

end

theorem follow_of_ofText? {cs : List Char} {t : Tree} (h : Tree.ofText? cs = some t) :
    ∃ m, follow ⟨0, .free⟩ (cs.map Char.toNat) = some ⟨0, m⟩ := by
  obtain ⟨⟨t, rest⟩, hread, h⟩ := Option.bind_eq_some_iff.1 h
  obtain ⟨m, hm, hl⟩ := leads_read hread 0
  dsimp only at h
  split at h
  · rename_i he
    exact ⟨m, hl.trans (leads_of_skipGaps hm (List.isEmpty_iff.1 he) rfl)⟩
  · cases h

theorem markOf_of_le {code : Nat} (h : 0x80 ≤ code) : markOf code = .other := by
  unfold markOf
  repeat rw [if_neg (by omega)]

/-- However many parts that mean nothing stand side by side, they count as one. -/
theorem follow_others {codes : List Nat} (hne : codes ≠ []) (h : ∀ code ∈ codes, 0x80 ≤ code) (o : Outline) :
    o.follow codes = o.step .other := by
  induction codes generalizing o with
  | nil => exact absurd rfl hne
  | cons code codes ih =>
    rw [follow, markOf_of_le (h code List.mem_cons_self)]
    cases codes with
    | nil => exact Option.bind_fun_some _
    | cons next codes =>
      obtain ⟨depth, mode⟩ := o
      have ih := ih (List.cons_ne_nil _ _) fun c hc => h c (List.mem_cons_of_mem _ hc)
      cases mode with
      | ended => rfl
      | free => exact ih _
      | string => exact ih _
      | escaped => exact ih _

theorem follow_utf8EncodeChar (c : Char) (o : Outline) :
    o.follow ((String.utf8EncodeChar c).map UInt8.toNat) = o.follow [c.toNat] := by
  rcases Text.utf8EncodeChar_cases c with h | ⟨hc, hb⟩
  · rw [h]
  · rw [follow_others (by simp) (by simpa using hb), follow_others (List.cons_ne_nil _ _) (by simp [hc])]

theorem follow_toUtf8 (cs : List Char) (o : Outline) :
    o.follow ((Text.toUtf8 (.ofList cs)).map UInt8.toNat) = o.follow (cs.map Char.toNat) := by
  rw [Text.toUtf8_ofList]
  induction cs generalizing o with
  | nil => rfl
  | cons c cs ih =>
    have hsplit : o.follow (c.toNat :: cs.map Char.toNat) =
        (o.follow [c.toNat]).bind fun next => next.follow (cs.map Char.toNat) := follow_append o [c.toNat] _
    rw [List.flatMap_cons, List.map_append, follow_append, follow_utf8EncodeChar, List.map_cons, hsplit]
    simp only [ih]

def raise (o : Outline) (depth : Nat) : Outline := ⟨o.depth + depth, o.mode⟩

/-- Brackets around a text change nothing inside it. -/
theorem step_raise {o next : Outline} {m : Mark} (h : o.step m = some next) (depth : Nat) :
    (o.raise depth).step m = some (next.raise depth) := by
  have hclosing : ∀ {a : Nat}, within a ⟨a - 1, .ended⟩ = some next →
      within (a + depth) ⟨a + depth - 1, .ended⟩ = some (next.raise depth) := by
    intro a h
    obtain ⟨ha, rfl⟩ := within_eq_some_iff.1 h
    exact within_eq_some_iff.2 ⟨by omega, congrArg (Outline.mk · _) (Nat.sub_add_comm (Nat.pos_of_ne_zero ha))⟩
  obtain ⟨a, mode⟩ := o
  cases mode with
  | free =>
    cases m with
    | opening =>
      cases h
      exact congrArg (fun d => some (Outline.mk d .free)) (Nat.add_right_comm a depth 1)
    | closing => exact hclosing h
    | _ =>
      cases h
      rfl
  | string =>
    cases m <;>
    · cases h
      rfl
  | escaped =>
    cases h
    rfl
  | ended =>
    cases m with
    | gap =>
      cases h
      rfl
    | closing => exact hclosing h
    | link =>
      obtain ⟨ha, rfl⟩ := within_eq_some_iff.1 h
      exact within_eq_some_iff.2 ⟨Nat.ne_of_gt (Nat.add_pos_left (Nat.pos_of_ne_zero ha) depth), rfl⟩
    | _ => cases h

theorem follow_raise {o next : Outline} {codes : List Nat} (h : o.follow codes = some next) (depth : Nat) :
    (o.raise depth).follow codes = some (next.raise depth) := by
  induction codes generalizing o with
  | nil =>
    cases h
    rfl
  | cons code codes ih =>
    obtain ⟨mid, hmid, h⟩ := Option.bind_eq_some_iff.1 h
    exact (follow_cons (step_raise hmid depth) codes).trans (ih h)

/-- A value has begun: where none of its brackets is open any more it has ended. -/
def Begun (o : Outline) : Prop := o.depth = 0 → o.mode = .ended

theorem Begun.step {o next : Outline} {m : Mark} (ho : o.Begun) (h : o.step m = some next) : next.Begun := by
  obtain ⟨a, mode⟩ := o
  cases mode with
  | free =>
    have ha : a ≠ 0 := fun h => nomatch ho h
    cases m with
    | opening =>
      cases h
      exact fun h => nomatch h
    | closing =>
      obtain ⟨-, rfl⟩ := within_eq_some_iff.1 h
      exact fun _ => rfl
    | _ =>
      cases h
      exact fun h => absurd h ha
  | string =>
    have ha : a ≠ 0 := fun h => nomatch ho h
    cases m <;>
    · cases h
      exact fun h => absurd h ha
  | escaped =>
    have ha : a ≠ 0 := fun h => nomatch ho h
    cases h
    exact fun h => absurd h ha
  | ended =>
    cases m with
    | gap =>
      cases h
      exact ho
    | closing =>
      obtain ⟨-, rfl⟩ := within_eq_some_iff.1 h
      exact fun _ => rfl
    | link =>
      obtain ⟨ha, rfl⟩ := within_eq_some_iff.1 h
      exact fun h => absurd h ha
    | _ => cases h

theorem Begun.follow {o next : Outline} {codes : List Nat} (ho : o.Begun) (h : o.follow codes = some next) :
    next.Begun := by
  induction codes generalizing o with
  | nil =>
    cases h
    exact ho
  | cons code codes ih =>
    obtain ⟨mid, hmid, h⟩ := Option.bind_eq_some_iff.1 h
    exact ih (ho.step hmid) h

def keyed : List Nat := [0x7B, 0x22, 0x69]

theorem prefix_keyed {p codes : List Nat} (hne : p ≠ []) (hp : p <+: keyed ++ codes) :
    p = [0x7B] ∨ p = [0x7B, 0x22] ∨ ∃ rest, p = 0x7B :: 0x22 :: 0x69 :: rest := by
  rcases List.prefix_cons_iff.1 hp with rfl | ⟨q, rfl, hq⟩
  · exact absurd rfl hne
  rcases List.prefix_cons_iff.1 hq with rfl | ⟨r, rfl, hr⟩
  · exact .inl rfl
  rcases List.prefix_cons_iff.1 hr with rfl | ⟨rest, rfl, -⟩
  · exact .inr (.inl rfl)
  · exact .inr (.inr ⟨rest, rfl⟩)

/-- In a string such a text is no object: the quote of its key ends the string, and nothing goes on with a letter
there. -/
theorem depth_pos_of_string {o next : Outline} {a : Nat} {p : List Nat} (ho : o.step .opening = some ⟨a, .string⟩)
    (ha : 0 < a) (hp : p = [0x7B] ∨ p = [0x7B, 0x22] ∨ ∃ rest, p = 0x7B :: 0x22 :: 0x69 :: rest)
    (h : o.follow p = some next) : 0 < next.depth := by
  rcases hp with rfl | rfl | ⟨rest, rfl⟩
  · rw [follow_cons ho] at h
    cases h
    exact ha
  · rw [follow_cons ho] at h
    cases h
    exact ha
  · rw [follow_cons ho] at h
    cases h

/-- Behind a value that has begun, such an object leaves brackets open wherever it is cut off. -/
theorem Begun.depth_pos {o alone next : Outline} {p codes : List Nat} (ho : o.Begun) (hne : p ≠ [])
    (hp : p <+: keyed ++ codes) (halone : Outline.follow ⟨0, .free⟩ p = some alone) (h : o.follow p = some next) :
    0 < next.depth := by
  obtain ⟨a, mode⟩ := o
  cases mode with
  | free =>
    have ha : 0 < a := Nat.pos_of_ne_zero fun h => nomatch ho h
    have hr := follow_raise halone a
    rw [raise, Nat.zero_add, h] at hr
    cases hr
    exact Nat.add_pos_right _ ha
  | ended => rcases prefix_keyed hne hp with rfl | rfl | ⟨rest, rfl⟩ <;> cases h
  | string =>
    have ha : 0 < a := Nat.pos_of_ne_zero fun h => nomatch ho h
    exact depth_pos_of_string rfl ha (prefix_keyed hne hp) h
  | escaped =>
    have ha : 0 < a := Nat.pos_of_ne_zero fun h => nomatch ho h
    exact depth_pos_of_string rfl ha (prefix_keyed hne hp) h

end Outline
end EventHub.Json
