import EventHub.Proofs.Decimal
import EventHub.Proofs.Json.Scalar
import Mathlib.Data.List.DropRight
set_option autoImplicit false

namespace EventHub.Json

open Decimal (Layout layDigits dropTrailingZeros shortest)

theorem endsDigits_cons {c : Char} (h : c.isDigit = false) (cs : List Char) : EndsDigits (c :: cs) := by
  intro d ds he
  cases he
  exact h

theorem readWhole_append {ds rest : List Char} (hne : ds ≠ []) (hd : ∀ d ∈ ds, d.isDigit = true)
    (hz : ds.head? = some '0' → ds = ['0']) (hr : EndsDigits rest) : readWhole (ds ++ rest) = some (ds, rest) := by
  rw [readWhole, readDigits_append hne hd hr]
  split
  · rename_i heq
    have he := congrArg Prod.fst (Option.some.inj heq)
    dsimp only at he
    have := hz (by rw [he]; rfl)
    rw [this] at he
    cases he
  · rfl

def exponentText (e : Int) : List Char := 'e' :: (if e < 0 then '-' else '+') :: Nat.toDigits 10 e.natAbs

theorem readExponent_exponentText (e : Int) {rest : List Char} (hr : EndsDigits rest) :
    readExponent (exponentText e ++ rest) = some (some e, rest) := by
  have hd : ∀ d ∈ Nat.toDigits 10 e.natAbs, d.isDigit = true :=
    fun d hd => Nat.isDigit_of_mem_toDigits (by omega) (by omega) hd
  have hread := readDigits_append Nat.toDigits_ne_nil hd hr
  have hvalue : digitsValue (Nat.toDigits 10 e.natAbs) = e.natAbs := by
    rw [digitsValue_eq, Nat.ofDigitChars_ten_toDigits]
  by_cases he : e < 0
  · have hsign : -(e.natAbs : Int) = e := by omega
    simp only [exponentText, if_pos he, List.cons_append, readExponent, readSignedDigits, hread, Option.map_some,
      hvalue, hsign]
  · have hsign : (e.natAbs : Int) = e := by omega
    simp only [exponentText, if_neg he, List.cons_append, readExponent, readSignedDigits, hread, Option.map_some,
      hvalue, hsign]

namespace Numeral

def fractionText (n : Numeral) : List Char := n.fraction.elim [] ('.' :: ·)

def powerText (n : Numeral) : List Char := n.exponent.elim [] exponentText

def unsigned (n : Numeral) : List Char := n.whole ++ (n.fractionText ++ n.powerText)

/-- There are digits before the point and behind it, and no zero stands in front of others. -/
structure Proper (n : Numeral) : Prop where
  nonempty : n.whole ≠ []
  isDigit : ∀ d ∈ n.whole, d.isDigit = true
  zero : n.whole.head? = some '0' → n.whole = ['0']
  fraction : ∀ ds, n.fraction = some ds → ds ≠ [] ∧ ∀ d ∈ ds, d.isDigit = true

variable {n : Numeral} {rest : List Char}

theorem readExponent_powerText (hr : EndsNumber rest) :
    readExponent (n.powerText ++ rest) = some (n.exponent, rest) := by
  unfold powerText
  cases n.exponent with
  | none => exact readExponent_of_ends hr
  | some e => exact readExponent_exponentText e hr.endsDigits

theorem endsDigits_powerText (hr : EndsNumber rest) : EndsDigits (n.powerText ++ rest) := by
  unfold powerText
  cases n.exponent with
  | none => exact hr.endsDigits
  | some e => exact endsDigits_cons (by decide) _

theorem readFraction_fractionText (h : n.Proper) (hr : EndsNumber rest) :
    readFraction (n.fractionText ++ (n.powerText ++ rest)) = some (n.fraction, n.powerText ++ rest) := by
  have hends := endsDigits_powerText (n := n) hr
  unfold fractionText
  cases hf : n.fraction with
  | none =>
    unfold powerText
    cases n.exponent with
    | none => exact readFraction_of_ends hr
    | some e => rfl
  | some ds =>
    obtain ⟨hne, hd⟩ := h.fraction ds hf
    simp [readFraction, readDigits_append hne hd hends]

theorem endsDigits_fractionText (hr : EndsNumber rest) : EndsDigits (n.fractionText ++ (n.powerText ++ rest)) := by
  unfold fractionText
  cases n.fraction with
  | none => exact endsDigits_powerText hr
  | some ds => exact endsDigits_cons (by decide) _

theorem readUnsigned_unsigned (h : n.Proper) (hr : EndsNumber rest) :
    readUnsigned n.negative (n.unsigned ++ rest) = some (n, rest) := by
  have hwhole := readWhole_append h.nonempty h.isDigit h.zero (endsDigits_fractionText (n := n) hr)
  rw [unsigned, List.append_assoc, List.append_assoc, readUnsigned, hwhole]
  simp only [Option.bind_eq_bind, Option.bind_some, readFraction_fractionText h hr, readExponent_powerText hr]

end Numeral

def wholeDigits (k : Nat) (digits : List Char) : List Char :=
  digits.take (k + 1) ++ List.replicate (k + 1 - (digits.take (k + 1)).length) '0'

def partDigits (k : Nat) (digits : List Char) : List Char :=
  if (digits.drop (k + 1)).isEmpty then ['0'] else digits.drop (k + 1)

/-- The numeral of these digits, of which the first stands for `10 ^ lead`. -/
def layNumeral (l : Layout) (negative : Bool) (lead : Int) (digits : List Char) : Numeral :=
  if l.plainFrom ≤ lead ∧ lead ≤ l.plainTo then
    match lead with
    | .ofNat k => ⟨negative, wholeDigits k digits, some (partDigits k digits), none⟩
    | .negSucc k => ⟨negative, ['0'], some (List.replicate k '0' ++ digits), none⟩
  else
    let fraction := digits.drop 1
    ⟨negative, digits.take 1, if fraction.isEmpty then none else some fraction, some lead⟩

theorem negative_layNumeral (l : Layout) (negative : Bool) (lead : Int) (digits : List Char) :
    (layNumeral l negative lead digits).negative = negative := by
  unfold layNumeral
  split
  · split <;> rfl
  · rfl

theorem unsigned_layNumeral (l : Layout) (negative : Bool) (lead : Int) (digits : List Char) :
    (layNumeral l negative lead digits).unsigned = layDigits l lead digits := by
  unfold layNumeral layDigits
  split
  · split
    · simp [Numeral.unsigned, Numeral.fractionText, Numeral.powerText, wholeDigits, partDigits]
    · simp [Numeral.unsigned, Numeral.fractionText, Numeral.powerText]
  · dsimp only
    split <;> simp [Numeral.unsigned, Numeral.fractionText, Numeral.powerText, exponentText]

structure Laid (l : Layout) (lead : Int) (digits : List Char) : Prop where
  isDigit : ∀ d ∈ digits, d.isDigit = true
  head : digits.head? ≠ some '0'
  plain : digits = [] → lead = 0
  units : l.plainFrom ≤ 0 ∧ 0 ≤ l.plainTo

theorem length_wholeDigits (k : Nat) (digits : List Char) : (wholeDigits k digits).length = k + 1 := by
  unfold wholeDigits
  rw [List.length_append, List.length_replicate]
  have := List.length_take_le (k + 1) digits
  omega

theorem isDigit_replicate {k : Nat} : ∀ d ∈ List.replicate k '0', d.isDigit = true := by
  intro d hd
  rw [List.eq_of_mem_replicate hd]
  rfl

section
variable {l : Layout} {digits : List Char}

theorem Laid.head_wholeDigits {k : Nat} (h : Laid l (.ofNat k) digits) :
    (wholeDigits k digits).head? = some '0' → wholeDigits k digits = ['0'] := by
  intro hz
  cases hds : digits with
  | nil =>
    obtain rfl : k = 0 := by
      have := h.plain hds
      simpa using this
    rfl
  | cons d ds =>
    have hhead := h.head
    rw [hds] at hz hhead
    exact absurd hz hhead

theorem Laid.isDigit_wholeDigits {lead : Int} {k : Nat} (h : Laid l lead digits) :
    ∀ d ∈ wholeDigits k digits, d.isDigit = true := by
  intro d hd
  rcases List.mem_append.1 hd with hd | hd
  · exact h.isDigit d (List.mem_of_mem_take hd)
  · exact isDigit_replicate d hd

theorem Laid.partDigits {lead : Int} {k : Nat} (h : Laid l lead digits) :
    partDigits k digits ≠ [] ∧ ∀ d ∈ partDigits k digits, d.isDigit = true := by
  unfold Json.partDigits
  split
  · exact ⟨by simp, by simp⟩
  · rename_i hne
    exact ⟨by simpa using hne, fun d hd => h.isDigit d (List.mem_of_mem_drop hd)⟩

theorem Laid.behindPoint {k : Nat} (h : Laid l (.negSucc k) digits) :
    List.replicate k '0' ++ digits ≠ [] ∧ ∀ d ∈ List.replicate k '0' ++ digits, d.isDigit = true := by
  refine ⟨fun he => ?_, fun d hd => ?_⟩
  · have := h.plain (List.append_eq_nil_iff.1 he).2
    cases this
  · rcases List.mem_append.1 hd with hd | hd
    · exact isDigit_replicate d hd
    · exact h.isDigit d hd

theorem proper_layNumeral {lead : Int} (h : Laid l lead digits) (negative : Bool) :
    (layNumeral l negative lead digits).Proper := by
  unfold layNumeral
  split
  · cases lead with
    | ofNat k =>
      refine ⟨?_, h.isDigit_wholeDigits, h.head_wholeDigits, fun ds hds => ?_⟩
      · exact List.ne_nil_of_length_eq_add_one (length_wholeDigits k digits)
      · cases hds
        exact h.partDigits
    | negSucc k =>
      refine ⟨List.cons_ne_nil _ _, by simp, fun _ => rfl, fun ds hds => ?_⟩
      cases hds
      exact h.behindPoint
  · rename_i hfar
    cases digits with
    | nil =>
      rw [h.plain rfl] at hfar
      exact absurd h.units hfar
    | cons d ds =>
      refine ⟨List.cons_ne_nil d _, ?_, fun hz => absurd hz h.head, fun fraction hf => ?_⟩
      · exact fun e he => h.isDigit e (List.mem_of_mem_take he)
      · dsimp only at hf
        split at hf
        · cases hf
        · rename_i hne
          cases hf
          exact ⟨by simpa using hne, fun e he => h.isDigit e (List.mem_of_mem_drop he)⟩

end

theorem newline_notMem_toDigits (n : Nat) : '\n' ∉ Nat.toDigits 10 n := by
  intro h
  have hdigit := Nat.isDigit_of_mem_toDigits (by omega) (by omega) h
  exact absurd hdigit (by decide)

theorem dropTrailingZeros_append (cs : List Char) : ∃ k, dropTrailingZeros cs ++ List.replicate k '0' = cs := by
  have hz : cs.rtakeWhile (· == '0') = List.replicate (cs.rtakeWhile (· == '0')).length '0' :=
    List.eq_replicate_iff.2 ⟨rfl, fun c hc => by simpa using List.mem_rtakeWhile_imp hc⟩
  refine ⟨(cs.rtakeWhile (· == '0')).length, ?_⟩
  rw [← hz]
  exact List.rdropWhile_append_rtakeWhile

def significant (m : Magnitude) : List Char := dropTrailingZeros (Nat.toDigits 10 (shortest m).digits)

def leadOf (m : Magnitude) : Int :=
  (shortest m).exponent + ((Nat.toDigits 10 (shortest m).digits).length : Int) - 1

/-- What the shortest decimal is, in its significant digits. -/
theorem significant_spec (m : Magnitude) : ∃ k,
    significant m ++ List.replicate k '0' = Nat.toDigits 10 (shortest m).digits ∧
      (shortest m).digits = 10 ^ k * Nat.ofDigitChars 10 (significant m) 0 ∧
      leadOf m = (shortest m).exponent + ((significant m).length + k : Nat) - 1 := by
  obtain ⟨k, hk⟩ := dropTrailingZeros_append (Nat.toDigits 10 (shortest m).digits)
  refine ⟨k, hk, ?_, ?_⟩
  · have hvalue := Nat.ofDigitChars_ten_toDigits (n := (shortest m).digits)
    rw [← hk, Nat.ofDigitChars_append, Nat.ofDigitChars_replicate_zero] at hvalue
    exact hvalue.symm
  · have hlength := congrArg List.length hk
    rw [List.length_append, List.length_replicate] at hlength
    rw [leadOf, significant, hlength]

theorem laid_significant {m : Magnitude} (h : 0 < m.significand) : Laid floatLayout (leadOf m) (significant m) := by
  obtain ⟨k, hdigits, hvalue, hlead⟩ := significant_spec m
  refine ⟨fun d hd => ?_, fun hz => ?_, fun hnil => ?_, by decide⟩
  · refine Nat.isDigit_of_mem_toDigits (b := 10) (n := (shortest m).digits) (by decide) (by decide) ?_
    rw [← hdigits]
    exact List.mem_append_left _ hd
  · -- a zero in front is the only digit, and then it is dropped
    obtain ⟨ds, hds⟩ := List.head?_eq_some_iff.1 hz
    rw [hds, List.cons_append] at hdigits
    have hrest := toDigits_eq_zero_cons hdigits.symm
    rw [hrest] at hdigits
    rw [significant, ← hdigits] at hds
    cases hds
  · rw [hnil] at hvalue hdigits
    have hzero : (shortest m).digits = 0 := by simpa using hvalue
    have hexponent := (Decimal.shortest_digits h).resolve_left (by omega)
    rw [leadOf, hzero, hexponent]
    rfl

def magnitudeNumeral (negative : Bool) (m : Magnitude) : Numeral :=
  if m.isZero then ⟨negative, ['0'], some ['0'], none⟩
  else layNumeral floatLayout negative (leadOf m) (significant m)

def floatNumeral (x : Binary64) : Numeral := magnitudeNumeral x.negative x.magnitude

theorem negative_magnitudeNumeral (negative : Bool) (m : Magnitude) :
    (magnitudeNumeral negative m).negative = negative := by
  unfold magnitudeNumeral
  split
  · rfl
  · exact negative_layNumeral _ _ _ _

theorem unsigned_magnitudeNumeral (negative : Bool) (m : Magnitude) :
    (magnitudeNumeral negative m).unsigned = Decimal.magnitudeText floatLayout m := by
  unfold magnitudeNumeral Decimal.magnitudeText
  split
  · rfl
  · exact unsigned_layNumeral _ _ _ _

theorem significand_pos_of_isZero {m : Magnitude} (h : ¬m.isZero = true) : 0 < m.significand :=
  Nat.pos_of_ne_zero fun he => h (by simp [Magnitude.isZero, he])

theorem proper_magnitudeNumeral (negative : Bool) (m : Magnitude) : (magnitudeNumeral negative m).Proper := by
  unfold magnitudeNumeral
  split
  · refine ⟨List.cons_ne_nil _ _, by simp, fun _ => rfl, fun ds hds => ?_⟩
    cases hds
    exact ⟨List.cons_ne_nil _ _, by simp⟩
  · rename_i hzero
    exact proper_layNumeral (laid_significant (significand_pos_of_isZero hzero)) negative

theorem readUnsigned_magnitudeText (negative : Bool) (m : Magnitude) {rest : List Char} (hr : EndsNumber rest) :
    readUnsigned negative (Decimal.magnitudeText floatLayout m ++ rest) = some (magnitudeNumeral negative m, rest) := by
  have hread := Numeral.readUnsigned_unsigned (proper_magnitudeNumeral negative m) hr
  rwa [negative_magnitudeNumeral, unsigned_magnitudeNumeral] at hread

theorem exists_digit_of_readUnsigned {negative : Bool} {cs : List Char} {p : Numeral × List Char}
    (h : readUnsigned negative cs = some p) : ∃ d ds, cs = d :: ds ∧ d.isDigit = true := by
  obtain ⟨whole, hwhole, -⟩ := Option.bind_eq_some_iff.1 h
  cases cs with
  | nil => cases hwhole
  | cons d ds =>
    refine ⟨d, ds, rfl, ?_⟩
    by_contra hd
    have hnone : readDigits (d :: ds) = none := by simp [readDigits, hd]
    rw [readWhole, hnone] at hwhole
    cases hwhole

theorem magnitudeText_eq_cons (m : Magnitude) :
    ∃ d ds, Decimal.magnitudeText floatLayout m = d :: ds ∧ d.isDigit = true := by
  have hread := readUnsigned_magnitudeText false m endsNumber_nil
  rw [List.append_nil] at hread
  exact exists_digit_of_readUnsigned hread

theorem read_floatText (x : Binary64) {rest : List Char} (hr : EndsNumber rest) :
    Numeral.read (Decimal.text floatLayout x ++ rest) = some (floatNumeral x, rest) := by
  have hread := readUnsigned_magnitudeText x.negative x.magnitude hr
  unfold Decimal.text floatNumeral
  cases hs : x.negative with
  | true =>
    rw [hs] at hread
    simpa only [if_true, List.cons_append, Numeral.read] using hread
  | false =>
    obtain ⟨d, ds, hds, hd⟩ := magnitudeText_eq_cons x.magnitude
    have hne : d ≠ '-' := by
      rintro rfl
      cases hd
    rw [hs, hds, List.cons_append] at hread
    simp [hds, Numeral.read, hne, hread]

theorem newline_notMem_layDigits {l : Layout} {lead : Int} {digits : List Char} (h : '\n' ∉ digits) :
    '\n' ∉ layDigits l lead digits := by
  have htake (k : Nat) : '\n' ∉ digits.take k := fun hm => h (List.mem_of_mem_take hm)
  have hdrop (k : Nat) : '\n' ∉ digits.drop k := fun hm => h (List.mem_of_mem_drop hm)
  have hexponent : '\n' ∉ Nat.toDigits 10 lead.natAbs := newline_notMem_toDigits _
  unfold layDigits
  split
  · cases lead with
    | ofNat k =>
      dsimp only
      split <;> simp [htake, hdrop]
    | negSucc k => simp [h]
  · dsimp only
    have htail : '\n' ∉ digits.tail := fun hm => h (List.mem_of_mem_tail hm)
    split <;> split <;> simp [htake, htail, hexponent]

theorem newline_notMem_floatText (x : Binary64) : '\n' ∉ Decimal.text floatLayout x := by
  have hmagnitude : '\n' ∉ Decimal.magnitudeText floatLayout x.magnitude := by
    unfold Decimal.magnitudeText
    split
    · decide
    · obtain ⟨k, hdigits, -⟩ := significant_spec x.magnitude
      refine newline_notMem_layDigits fun hm => newline_notMem_toDigits (shortest x.magnitude).digits ?_
      rw [← hdigits]
      exact List.mem_append_left _ hm
  unfold Decimal.text
  split
  · simp [hmagnitude]
  · exact hmagnitude

end EventHub.Json
