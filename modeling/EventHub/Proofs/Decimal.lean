import EventHub.Decimal
import EventHub.Proofs.Binary64
set_option autoImplicit false

namespace EventHub.Decimal

open Magnitude (ratio Finite greatest nearGreatest)

theorem den_toRatio_pos (s : Scaled) : 0 < s.toRatio.2 := by
  unfold Scaled.toRatio
  split
  · exact Nat.one_pos
  · exact Nat.pow_pos (by decide)

theorem ratio_toRatio (s : Scaled) : ratio s.toRatio = s.digits * 10 ^ s.exponent := by
  unfold Scaled.toRatio
  split
  · rename_i k hk
    rw [hk, Magnitude.ratio_natCast, Nat.pow_eq, Int.ofNat_eq_natCast, zpow_natCast]
    push_cast
    rfl
  · rename_i k hk
    rw [hk, zpow_negSucc, ratio, Nat.pow_eq, div_eq_mul_inv]
    push_cast
    rfl

theorem ratioLt_iff {a b : Nat × Nat} (ha : 0 < a.2) (hb : 0 < b.2) : ratioLt a b = true ↔ ratio a < ratio b := by
  rw [← not_le, Magnitude.ratio_le_iff hb ha, ratioLt, decide_eq_true_iff, not_le]

theorem den_roundingEnds (m : Magnitude) : 0 < m.roundingEnds.1.2 ∧ 0 < m.roundingEnds.2.2 :=
  ⟨Magnitude.den_scaleRatio_pos _ Nat.one_pos, Magnitude.den_scaleRatio_pos _ Nat.one_pos⟩

theorem roundsTo_bounds {m : Magnitude} {s : Scaled} (h : roundsTo m s = true) :
    ratio m.roundingEnds.1 ≤ ratio s.toRatio ∧ ratio s.toRatio ≤ ratio m.roundingEnds.2 := by
  obtain ⟨hlow, hhigh⟩ := den_roundingEnds m
  have hs := den_toRatio_pos s
  unfold roundsTo at h
  dsimp only at h
  split at h
  · rw [Bool.and_eq_true, Bool.not_eq_true', Bool.not_eq_true', ← Bool.not_eq_true, ← Bool.not_eq_true,
      ratioLt_iff hs hlow, ratioLt_iff hhigh hs, not_lt, not_lt] at h
    exact h
  · rw [Bool.and_eq_true, ratioLt_iff hlow hs, ratioLt_iff hs hhigh] at h
    exact ⟨h.1.le, h.2.le⟩

theorem ratio_lowEnd_pos {m : Magnitude} (h : 0 < m.significand) : 0 < ratio m.roundingEnds.1 := by
  have hpos : 0 < 4 * m.significand -
      (if m.significand = Nat.pow 2 52 ∧ Magnitude.leastExponent < m.exponent then 1 else 2) := by
    split <;> omega
  unfold Magnitude.roundingEnds
  rw [Magnitude.ratio_scaleRatio]
  exact mul_pos (Magnitude.ratio_pos hpos Nat.one_pos) (Magnitude.two_zpow_pos _)

theorem onGrid?_roundsTo {m : Magnitude} {e : Int} {s : Scaled} (h : onGrid? m e = some s) : roundsTo m s = true := by
  unfold onGrid? at h
  dsimp only at h
  split at h
  · cases h
    split <;> assumption
  · cases h
    assumption
  · cases h
    assumption
  · cases h

/-- If no grid holds a hit, the shortest decimal is zero. -/
theorem shortest_cases (m : Magnitude) : shortest m = ⟨0, 0⟩ ∨ roundsTo m (shortest m) = true := by
  unfold shortest
  dsimp only
  cases h : (List.range 17).findSome? fun (n : Nat) => onGrid? m (leadingExponent m.toRatio - (n : Int)) with
  | none => exact .inl rfl
  | some s =>
    obtain ⟨n, -, hn⟩ := List.exists_of_findSome?_eq_some h
    exact .inr (onGrid?_roundsTo hn)

theorem shortest_digits {m : Magnitude} (h : 0 < m.significand) :
    0 < (shortest m).digits ∨ (shortest m).exponent = 0 := by
  rcases shortest_cases m with he | hr
  · exact .inr (by rw [he])
  · refine .inl (Nat.pos_of_ne_zero fun hz => ?_)
    have hpos := (ratio_lowEnd_pos h).trans_le (roundsTo_bounds hr).1
    rw [ratio_toRatio, hz] at hpos
    simp at hpos

/-- Below the greatest double the interval ends before it. -/
theorem ratio_highEnd_le {m : Magnitude} (h : m.Finite) (hm : m ≠ greatest) :
    ratio m.roundingEnds.2 ≤ nearGreatest := by
  have he := h.exponent
  have hs := h.significand
  unfold Magnitude.greatestExponent at he
  have hend : ratio m.roundingEnds.2 = (4 * m.significand + 2 : Nat) * 2 ^ (m.exponent - 2) := by
    unfold Magnitude.roundingEnds
    rw [Magnitude.ratio_scaleRatio, Magnitude.ratio_natCast]
  -- the exponents are named, so that nothing works out a power of this size
  obtain ⟨last, hlast⟩ : ∃ e : Int, e = 969 := ⟨_, rfl⟩
  have hnear : (nearGreatest : ℚ) = (2 ^ 55 - 6 : Nat) * 2 ^ last := by
    have hpow : nearGreatest = (2 ^ 55 - 6) * 2 ^ 969 := by decide +kernel
    rw [hlast, hpow, Nat.cast_mul, Nat.cast_pow, zpow_ofNat]
    rfl
  rw [hend, hnear]
  rcases he.lt_or_eq with hlt | heq
  · have hbefore : (2 : ℚ) ^ last = 2 * 2 ^ (last - 1) := by
      rw [← zpow_one_add₀ (by norm_num)]
      congr 1
      ring
    calc ((4 * m.significand + 2 : Nat) : ℚ) * 2 ^ (m.exponent - 2)
        ≤ (2 ^ 55 : Nat) * 2 ^ (last - 1) := by
          have hexponent : m.exponent - 2 ≤ last - 1 := by omega
          gcongr
          · omega
          · norm_num
      _ ≤ (2 ^ 55 - 6 : Nat) * 2 ^ last := by
          have hunit := Magnitude.two_zpow_pos (last - 1)
          rw [hbefore]
          norm_num
          linarith
  · have hdigits : m.significand ≤ 2 ^ 53 - 2 := by
      by_contra hgt
      refine hm ?_
      obtain ⟨significand, exponent⟩ := m
      dsimp only at hs heq hgt
      obtain rfl : significand = 2 ^ 53 - 1 := by omega
      rw [heq]
      rfl
    gcongr
    · omega
    · norm_num
    · omega

theorem shortest_le {m : Magnitude} (h : m.Finite) (hm : m ≠ greatest) :
    ratio (shortest m).toRatio ≤ nearGreatest := by
  rcases shortest_cases m with he | hr
  · rw [he, ratio_toRatio, Nat.cast_zero, zero_mul]
    exact Nat.cast_nonneg _
  · exact (roundsTo_bounds hr).2.trans (ratio_highEnd_le h hm)

end EventHub.Decimal
