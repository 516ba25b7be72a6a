import EventHub.Proofs.Json.Double
set_option autoImplicit false

namespace EventHub.Json

open Decimal (Layout shortest)
open Magnitude (ratio nearGreatest)

def Numeral.exact (n : Numeral) : ℚ :=
  Nat.ofDigitChars 10 (n.whole ++ n.fraction.getD []) 0 *
    10 ^ (n.exponent.getD 0 - ((n.fraction.getD []).length : Int))

/-- What is taken fits, and the digits that are left would only have added to it. -/
theorem takeDigits_spec (n : Nat) (cs : List Char) (h : n ≤ wordLimit) :
    (takeDigits n cs).1 ≤ wordLimit ∧
      10 ^ (takeDigits n cs).2.length * (takeDigits n cs).1 ≤ Nat.ofDigitChars 10 cs n := by
  induction cs generalizing n with
  | nil => exact ⟨h, by simp [takeDigits]⟩
  | cons c cs ih =>
    rw [takeDigits]
    split
    · rename_i hfits
      obtain ⟨hle, hvalue⟩ := ih _ hfits
      refine ⟨hle, ?_⟩
      rw [Nat.ofDigitChars_cons, Nat.mul_comm 10 n]
      exact hvalue
    · refine ⟨h, ?_⟩
      rw [Nat.ofDigitChars_eq_ofDigitChars_zero]
      exact Nat.le_add_right _ _

theorem digitValue_le {c : Char} (h : c.isDigit = true) : digitValue c ≤ 9 := by
  simp only [Char.isDigit, Bool.and_eq_true, decide_eq_true_iff] at h
  have h9 : c.val.toNat ≤ '9'.val.toNat := UInt32.le_iff_toNat_le.1 h.2
  unfold digitValue
  have : '9'.val.toNat = 57 := rfl
  have : '0'.toNat = 48 := rfl
  have : c.toNat = c.val.toNat := rfl
  omega

theorem takeDigits_of_length_le (j n : Nat) (cs : List Char) (hn : n < 10 ^ j) (hd : ∀ c ∈ cs, c.isDigit = true)
    (hl : j + cs.length ≤ 19) : takeDigits n cs = (Nat.ofDigitChars 10 cs n, []) := by
  induction cs generalizing j n with
  | nil => simp [takeDigits]
  | cons c cs ih =>
    rw [List.length_cons] at hl
    have hc := digitValue_le (hd c List.mem_cons_self)
    have hnext : n * 10 + digitValue c < 10 ^ (j + 1) := by
      rw [Nat.pow_succ]
      omega
    have hfits : n * 10 + digitValue c ≤ wordLimit := by
      have hpow : 10 ^ (j + 1) ≤ 10 ^ 19 := Nat.pow_le_pow_right (by decide) (by omega)
      have hlimit : 10 ^ 19 ≤ wordLimit := by decide
      omega
    rw [takeDigits, if_pos hfits, ih (j + 1) _ hnext (fun d hd' => hd d (List.mem_cons_of_mem c hd')) (by omega),
      Nat.ofDigitChars_cons, Nat.mul_comm 10 n]
    rfl

/-- What a numeral with few digits before the point is scaled to fits and is not above the numeral. -/
theorem Numeral.scaled_le {n : Numeral} (hd : ∀ c ∈ n.whole, c.isDigit = true) (hl : n.whole.length ≤ 19) :
    n.scaled.1 ≤ wordLimit ∧ (n.scaled.1 : ℚ) * 10 ^ n.scaled.2 ≤ n.exact := by
  have hwhole := takeDigits_of_length_le 0 0 n.whole (by decide) hd (by omega)
  have hfits := (takeDigits_spec 0 n.whole (Nat.zero_le _)).1
  rw [hwhole] at hfits
  obtain ⟨hle, hvalue⟩ := takeDigits_spec _ (n.fraction.getD []) hfits
  rw [← Nat.ofDigitChars_append] at hvalue
  rw [Numeral.scaled, hwhole]
  dsimp only
  generalize takeDigits (Nat.ofDigitChars 10 n.whole 0) (n.fraction.getD []) = taken at hle hvalue ⊢
  refine ⟨hle, ?_⟩
  -- the digits that are left count as powers of ten, and as digits they would be no less
  have hexponent : (([] : List Char).length : Int) - (((n.fraction.getD []).length : Int) - (taken.2.length : Int)) +
      n.exponent.getD 0 = taken.2.length + (n.exponent.getD 0 - ((n.fraction.getD []).length : Int)) := by
    rw [List.length_nil]
    push_cast
    ring
  rw [hexponent, zpow_add₀ (by norm_num), zpow_natCast, Numeral.exact, ← mul_assoc]
  gcongr
  rw [mul_comm]
  exact_mod_cast hvalue

theorem Numeral.float?_of_le {n : Numeral} (hd : ∀ c ∈ n.whole, c.isDigit = true) (hl : n.whole.length ≤ 19)
    (h : n.exact ≤ nearGreatest) : ∃ m, n.float? = some (.float ⟨n.negative, m⟩) := by
  obtain ⟨hle, hbelow⟩ := n.scaled_le hd hl
  have hbound := hbelow.trans h
  suffices hm : ∃ m, Magnitude.ofDecimal? n.scaled.1 n.scaled.2 = some m by
    obtain ⟨m, hm⟩ := hm
    exact ⟨m, by rw [Numeral.float?, hm, Option.map_some]⟩
  cases he : n.scaled.2 with
  | negSucc k =>
    obtain ⟨m, hm, -⟩ := Magnitude.ofDecimal?_negSucc hle k
    exact ⟨m, hm⟩
  | ofNat k =>
    refine Magnitude.ofDecimal?_ofNat hle ((Nat.cast_le (α := ℚ)).1 ?_)
    rw [he, Int.ofNat_eq_natCast, zpow_natCast] at hbound
    rw [Nat.cast_mul, Nat.cast_pow, Nat.cast_ofNat]
    exact hbound

theorem wholeDigits_append_partDigits (k : Nat) (digits : List Char) :
    ∃ z, wholeDigits k digits ++ partDigits k digits = digits ++ List.replicate z '0' := by
  unfold wholeDigits partDigits
  rcases Nat.lt_or_ge digits.length (k + 2) with hshort | hlong
  · have hdrop : digits.drop (k + 1) = [] := List.drop_eq_nil_of_le (by omega)
    have htake : digits.take (k + 1) = digits := List.take_of_length_le (by omega)
    refine ⟨k + 1 - digits.length + 1, ?_⟩
    rw [hdrop, htake, List.isEmpty_nil, if_pos rfl, List.append_assoc, List.replicate_succ']
  · have hne : (digits.drop (k + 1)).isEmpty = false := by
      rw [List.isEmpty_eq_false_iff, ← List.length_pos_iff, List.length_drop]
      omega
    refine ⟨0, ?_⟩
    rw [hne, List.length_take_of_le (by omega), Nat.sub_self]
    simp

theorem exact_layNumeral {l : Layout} {lead : Int} {digits : List Char} (h : Laid l lead digits) (negative : Bool) :
    (layNumeral l negative lead digits).exact =
      Nat.ofDigitChars 10 digits 0 * 10 ^ (lead - (digits.length : Int) + 1) := by
  have hten : (10 : ℚ) ≠ 0 := by norm_num
  unfold layNumeral
  split
  · cases lead with
    | ofNat k =>
      obtain ⟨z, hz⟩ := wholeDigits_append_partDigits k digits
      have hlength := congrArg List.length hz
      rw [List.length_append, List.length_append, length_wholeDigits, List.length_replicate] at hlength
      have hexponent :
          (Int.ofNat k) - (digits.length : Int) + 1 = z + (0 - ((partDigits k digits).length : Int)) := by
        rw [Int.ofNat_eq_natCast]
        omega
      simp only [Numeral.exact, Option.getD_some, Option.getD_none]
      rw [hz, Nat.ofDigitChars_append, Nat.ofDigitChars_replicate_zero, hexponent, zpow_add₀ hten, zpow_natCast]
      push_cast
      ring
    | negSucc k =>
      have hexponent : (Int.negSucc k) - (digits.length : Int) + 1 = 0 - ((k + digits.length : Nat) : Int) := by
        rw [Int.negSucc_eq]
        push_cast
        ring
      simp only [Numeral.exact, Option.getD_some, Option.getD_none, List.length_append, List.length_replicate]
      rw [hexponent, ← List.append_assoc, List.singleton_append, ← List.replicate_succ, Nat.ofDigitChars_append,
        Nat.ofDigitChars_replicate_zero, Nat.mul_zero]
  · rename_i hfar
    cases digits with
    | nil =>
      rw [h.plain rfl] at hfar
      exact absurd h.units hfar
    | cons d ds =>
      have hfraction :
          (if (List.drop 1 (d :: ds)).isEmpty then none else some (List.drop 1 (d :: ds))).getD [] = ds := by
        cases ds <;> rfl
      have hexponent : lead - ((d :: ds).length : Int) + 1 = lead - (ds.length : Int) := by
        rw [List.length_cons]
        push_cast
        ring
      simp only [Numeral.exact, hfraction, Option.getD_some]
      rw [hexponent]
      rfl

theorem length_layNumeral {l : Layout} (lead : Int) (digits : List Char) (negative : Bool) :
    ((layNumeral l negative lead digits).whole.length : Int) ≤ max 1 (l.plainTo + 1) := by
  unfold layNumeral
  split
  · rename_i hplain
    cases lead with
    | ofNat k =>
      have hk : (k : Int) ≤ l.plainTo := hplain.2
      rw [length_wholeDigits]
      push_cast
      omega
    | negSucc k => exact le_max_left _ _
  · have := List.length_take_le 1 digits
    dsimp only
    omega

theorem length_magnitudeNumeral (negative : Bool) (m : Magnitude) :
    (magnitudeNumeral negative m).whole.length ≤ 16 := by
  unfold magnitudeNumeral
  split
  · exact (by decide : 1 ≤ 16)
  · have hsixteen : max 1 (floatLayout.plainTo + 1) = 16 := rfl
    have := @length_layNumeral floatLayout (leadOf m) (significant m) negative
    omega

theorem exact_magnitudeNumeral {m : Magnitude} (h : 0 < m.significand) (negative : Bool) :
    (magnitudeNumeral negative m).exact = ratio (shortest m).toRatio := by
  obtain ⟨k, -, hvalue, hlead⟩ := significant_spec m
  have hne : m.isZero = false := by
    rw [Magnitude.isZero, beq_eq_false_iff_ne]
    exact h.ne'
  have hexponent : leadOf m - ((significant m).length : Int) + 1 = k + (shortest m).exponent := by
    rw [hlead]
    push_cast
    ring
  rw [magnitudeNumeral, hne, if_neg Bool.false_ne_true, exact_layNumeral (laid_significant h), hexponent,
    zpow_add₀ (by norm_num), zpow_natCast, Decimal.ratio_toRatio, hvalue]
  push_cast
  ring

/-- Zero is written with a point, so that it stays a double, and keeps its sign. -/
theorem value?_zero (negative : Bool) : (magnitudeNumeral negative ⟨0, Magnitude.leastExponent⟩).value? =
    some (.float ⟨negative, ⟨0, Magnitude.leastExponent⟩⟩) := by
  cases negative <;> rfl

theorem ofDecimal?_greatest : ∀ negative,
    (Magnitude.ofDecimal? (magnitudeNumeral negative Magnitude.greatest).scaled.1
      (magnitudeNumeral negative Magnitude.greatest).scaled.2).isSome = true := by decide +kernel

theorem float?_magnitudeNumeral {m : Magnitude} (h : m.Finite) (negative : Bool) :
    ∃ k, (magnitudeNumeral negative m).float? = some (.float ⟨negative, k⟩) := by
  rcases Nat.eq_zero_or_pos m.significand with hz | hpos
  · have hzero : m.isZero = true := by rw [Magnitude.isZero, hz]; rfl
    rw [magnitudeNumeral, hzero, if_pos rfl]
    exact ⟨⟨0, Magnitude.leastExponent⟩, by cases negative <;> rfl⟩
  · by_cases hm : m = Magnitude.greatest
    · obtain ⟨k, hk⟩ := Option.isSome_iff_exists.1 (ofDecimal?_greatest negative)
      exact ⟨k, by rw [hm, Numeral.float?, hk, Option.map_some, negative_magnitudeNumeral]⟩
    · have hdigits := (proper_magnitudeNumeral negative m).isDigit
      have hlength := length_magnitudeNumeral negative m
      have hbound := Decimal.shortest_le h hm
      rw [← exact_magnitudeNumeral hpos negative] at hbound
      obtain ⟨k, hk⟩ := Numeral.float?_of_le hdigits (by omega) hbound
      exact ⟨k, by rw [hk, negative_magnitudeNumeral]⟩

/-- The text of a double stands for a double again. -/
theorem value?_floatNumeral {x : Binary64} (h : x.magnitude.Finite) : ((floatNumeral x).value?).isSome = true := by
  obtain ⟨k, hk⟩ := float?_magnitudeNumeral h x.negative
  unfold Numeral.value?
  split
  · rfl
  · rw [floatNumeral, hk]
    rfl

end EventHub.Json
