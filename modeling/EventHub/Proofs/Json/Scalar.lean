import EventHub.Json.Value
set_option autoImplicit false

namespace EventHub.Json

theorem hexDigitsValue?_control : ∀ n < 0x20,
    hexDigitsValue? ['0', '0', hexDigit (n / 16), hexDigit n] = some n := by decide

theorem readUnits_escapeChar (c : Char) (cs : List Char) :
    readUnits (escapeChar c ++ cs) =
      (readUnits cs).map fun p => (c.toNat :: p.1, p.2) := by
  unfold escapeChar
  split
  · subst c; simp [readUnits, escaped?]
  split
  · subst c; simp [readUnits, escaped?]
  split
  · subst c; simp [readUnits, escaped?]
  split
  · subst c; simp [readUnits, escaped?]
  split
  · subst c; simp [readUnits, escaped?]
  split
  · subst c; simp [readUnits, escaped?]
  split
  · subst c; simp [readUnits, escaped?]
  split
  · rename_i h
    have hu := hexDigitsValue?_control c.toNat h
    simp [readUnits, hu]
  · rename_i hquote hback _ _ _ _ _ hctl
    rw [List.singleton_append, readUnits.eq_def]
    split
    · rename_i heq; cases heq
    · rename_i heq; cases heq; exact absurd rfl hquote
    · rename_i heq; cases heq; exact absurd rfl hback
    · rename_i heq; cases heq; exact absurd rfl hback
    · rename_i heq
      cases heq
      rw [if_neg (by simp [hctl, hback])]

theorem readUnits_flatMap (cs rest : List Char) :
    readUnits (cs.flatMap escapeChar ++ '"' :: rest) = some (cs.map Char.toNat, rest) := by
  induction cs with
  | nil => simp [readUnits]
  | cons c cs ih =>
    rw [List.flatMap_cons, List.append_assoc, readUnits_escapeChar, ih]
    rfl

theorem isHalf_toNat (c : Char) : isHighHalf c.toNat = false ∧ isLowHalf c.toNat = false := by
  have hv : c.toNat < 0xD800 ∨ 0xDFFF < c.toNat ∧ c.toNat < 0x110000 := c.valid
  constructor
  · simp only [isHighHalf, Bool.and_eq_false_iff, decide_eq_false_iff_not]
    omega
  · simp only [isLowHalf, Bool.and_eq_false_iff, decide_eq_false_iff_not]
    omega

theorem textOfUnits?_map_toNat (cs : List Char) : textOfUnits? (cs.map Char.toNat) = some cs := by
  induction cs with
  | nil => rfl
  | cons c cs ih =>
    obtain ⟨hh, hl⟩ := isHalf_toNat c
    cases cs with
    | nil => simp [textOfUnits?, hh, hl]
    | cons d ds =>
      rw [List.map_cons] at ih
      simp only [List.map_cons, textOfUnits?, hh, hl, ih]
      simp

theorem readText_flatMap (s : String) (rest : List Char) :
    readText (s.toList.flatMap escapeChar ++ '"' :: rest) = some (some s, rest) := by
  rw [readText, readUnits_flatMap]
  simp [textOfUnits?_map_toNat]

/-- Nothing follows that a number could go on with. -/
def EndsNumber (rest : List Char) : Prop :=
  ∀ c cs, rest = c :: cs → c.isDigit = false ∧ c ≠ '.' ∧ c ≠ 'e' ∧ c ≠ 'E'

def EndsDigits (rest : List Char) : Prop := ∀ c cs, rest = c :: cs → c.isDigit = false

theorem EndsNumber.endsDigits {rest : List Char} (h : EndsNumber rest) : EndsDigits rest :=
  fun c cs he => (h c cs he).1

theorem endsNumber_nil : EndsNumber [] := by
  intro c cs h
  cases h

theorem endsNumber_cons {c : Char} {cs : List Char} (h : c = ',' ∨ c = ']' ∨ c = '\x7d') :
    EndsNumber (c :: cs) := by
  intro d ds he
  cases he
  rcases h with rfl | rfl | rfl <;> decide

theorem digitsValue_eq (cs : List Char) : digitsValue cs = Nat.ofDigitChars 10 cs 0 := by
  rw [digitsValue, Nat.ofDigitChars_eq_foldl]
  simp only [digitValue, Nat.mul_comm]

theorem readDigits_append {ds rest : List Char} (hne : ds ≠ []) (hd : ∀ d ∈ ds, d.isDigit = true)
    (hr : EndsDigits rest) : readDigits (ds ++ rest) = some (ds, rest) := by
  have htake : (ds ++ rest).takeWhile Char.isDigit = ds := by
    rw [List.takeWhile_append_of_pos hd]
    cases rest with
    | nil => simp
    | cons c cs => simp [hr c cs rfl]
  have hdrop : (ds ++ rest).dropWhile Char.isDigit = rest := by
    rw [List.dropWhile_append_of_pos hd]
    cases rest with
    | nil => simp
    | cons c cs => simp [hr c cs rfl]
  have he : ds.isEmpty = false := by simpa using hne
  simp [readDigits, htake, hdrop, he]

theorem toDigits_eq_zero_cons {n : Nat} {cs : List Char} (h : Nat.toDigits 10 n = '0' :: cs) : cs = [] := by
  induction n using Nat.strongRecOn generalizing cs with
  | ind n ih =>
    rcases Nat.lt_or_ge n 10 with hn | hn
    · rw [Nat.toDigits_of_lt_base hn] at h
      exact (List.cons.inj h).2.symm
    · rw [Nat.toDigits_of_base_le (by omega) hn] at h
      cases hq : Nat.toDigits 10 (n / 10) with
      | nil => exact absurd hq Nat.toDigits_ne_nil
      | cons d ds =>
        rw [hq, List.cons_append] at h
        cases h
        have hds := ih (n / 10) (by omega) hq
        subst hds
        -- the digits in front are those of zero, but there is something in front
        have hv := Nat.ofDigitChars_ten_toDigits (n := n / 10)
        rw [hq] at hv
        simp [Nat.ofDigitChars_eq_foldl] at hv
        omega

theorem readWhole_toDigits (n : Nat) {rest : List Char} (hr : EndsNumber rest) :
    readWhole (Nat.toDigits 10 n ++ rest) = some (Nat.toDigits 10 n, rest) := by
  have hd : ∀ d ∈ Nat.toDigits 10 n, d.isDigit = true :=
    fun d hd => Nat.isDigit_of_mem_toDigits (by omega) (by omega) hd
  rw [readWhole, readDigits_append Nat.toDigits_ne_nil hd hr.endsDigits]
  split
  · rename_i heq
    have he := congrArg Prod.fst (Option.some.inj heq)
    have := toDigits_eq_zero_cons he
    cases this
  · rfl

theorem readFraction_of_ends {rest : List Char} (hr : EndsNumber rest) :
    readFraction rest = some (none, rest) := by
  cases rest with
  | nil => rfl
  | cons c cs =>
    have hc := (hr c cs rfl).2.1
    simp [readFraction, hc]

theorem readExponent_of_ends {rest : List Char} (hr : EndsNumber rest) :
    readExponent rest = some (none, rest) := by
  cases rest with
  | nil => rfl
  | cons c cs =>
    obtain ⟨-, -, he, hE⟩ := hr c cs rfl
    simp [readExponent, he, hE]

theorem readUnsigned_toDigits (negative : Bool) (n : Nat) {rest : List Char} (hr : EndsNumber rest) :
    readUnsigned negative (Nat.toDigits 10 n ++ rest) =
      some (⟨negative, Nat.toDigits 10 n, none, none⟩, rest) := by
  simp [readUnsigned, readWhole_toDigits n hr, readFraction_of_ends hr, readExponent_of_ends hr]

def numeralOf (n : Int) : Numeral := ⟨decide (n < 0), Nat.toDigits 10 n.natAbs, none, none⟩

theorem exists_toDigits (n : Nat) : ∃ d ds, Nat.toDigits 10 n = d :: ds ∧ d.isDigit = true := by
  cases h : Nat.toDigits 10 n with
  | nil => exact absurd h Nat.toDigits_ne_nil
  | cons d ds =>
    have hd : d ∈ Nat.toDigits 10 n := by simp [h]
    exact ⟨d, ds, rfl, Nat.isDigit_of_mem_toDigits (by omega) (by omega) hd⟩

theorem read_intText (n : Int) {rest : List Char} (hr : EndsNumber rest) :
    Numeral.read (intText n ++ rest) = some (numeralOf n, rest) := by
  unfold intText numeralOf
  by_cases hn : n < 0
  · simp only [hn, if_true, List.cons_append, Numeral.read, decide_true]
    exact readUnsigned_toDigits true _ hr
  · simp only [hn, if_false, decide_false]
    obtain ⟨d, ds, hds, hd⟩ := exists_toDigits n.natAbs
    rw [← readUnsigned_toDigits false n.natAbs hr, hds, List.cons_append]
    have hne : d ≠ '-' := by rintro rfl; simp at hd
    simp [Numeral.read, hne]

def IsWord (n : Int) : Prop := -(Nat.pow 2 63 : Int) ≤ n ∧ n < (Nat.pow 2 64 : Int)

theorem isWord_of_int? {n : Numeral} {i : Int} (h : n.int? = some i) : IsWord i := by
  unfold Numeral.int? at h
  unfold IsWord
  split at h
  · cases h
  dsimp only at h
  split at h
  · split at h
    · cases h
    · rename_i hlow
      cases h
      simp only [Nat.pow_eq] at hlow ⊢
      omega
  · split at h
    · rename_i hhigh
      cases h
      simp only [wordLimit, Nat.pow_eq] at hhigh ⊢
      omega
    · cases h

theorem value?_numeralOf {n : Int} (h : IsWord n) : (numeralOf n).value? = some (.int n) := by
  obtain ⟨hl, hu⟩ := h
  have hv : digitsValue (Nat.toDigits 10 n.natAbs) = n.natAbs := by
    rw [digitsValue_eq, Nat.ofDigitChars_ten_toDigits]
  have hi : (numeralOf n).int? = some n := by
    simp only [Nat.pow_eq] at hl hu
    unfold Numeral.int? numeralOf wordLimit
    simp only [Nat.pow_eq]
    by_cases hn : n < 0
    · simp only [hn, hv, decide_true, if_true]
      rw [if_neg (by simp), if_neg (by omega)]
      congr 1
      omega
    · simp only [hn, hv, decide_false]
      rw [if_neg (by simp), if_neg (by simp), if_pos (by omega)]
      congr 1
      omega
  rw [Numeral.value?, hi]

end EventHub.Json
