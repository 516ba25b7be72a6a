import EventHub.Binary64
import Mathlib.Algebra.Order.Field.Power
import Mathlib.Algebra.Order.Field.Rat
import Mathlib.Tactic.FieldSimp
import Mathlib.Tactic.Linarith
import Mathlib.Tactic.Positivity
import Mathlib.Tactic.Ring
set_option autoImplicit false

/-!
Rounding to doubles keeps the order of what is rounded, so whatever is not above something that can be
rounded can be rounded too. That is all that has to be known of the two roundings of a decimal, of which
the second is not one of the decimal itself.
-/
namespace EventHub.Magnitude

def ratio (r : Nat × Nat) : ℚ := r.1 / r.2

def value (m : Magnitude) : ℚ := m.significand * 2 ^ m.exponent

theorem two_zpow_pos (e : Int) : (0 : ℚ) < 2 ^ e := zpow_pos (by norm_num) e

theorem ratio_pos {r : Nat × Nat} (hn : 0 < r.1) (hd : 0 < r.2) : 0 < ratio r := by
  unfold ratio
  positivity

theorem ratio_scaleRatio (e : Int) (r : Nat × Nat) : ratio (scaleRatio e r) = ratio r * 2 ^ e := by
  cases e with
  | ofNat k =>
    simp only [ratio, scaleRatio, Int.ofNat_eq_natCast, zpow_natCast, Nat.pow_eq, Nat.cast_mul, Nat.cast_pow,
      Nat.cast_ofNat]
    ring
  | negSucc k =>
    simp only [ratio, scaleRatio, zpow_negSucc, Nat.pow_eq, Nat.cast_mul, Nat.cast_pow, Nat.cast_ofNat]
    rw [div_mul_eq_div_div, ← div_eq_mul_inv]

theorem den_scaleRatio_pos (e : Int) {r : Nat × Nat} (hd : 0 < r.2) : 0 < (scaleRatio e r).2 := by
  cases e with
  | ofNat k => exact hd
  | negSucc k => exact Nat.mul_pos hd (Nat.pow_pos (by decide))

theorem ratio_toRatio (m : Magnitude) : ratio m.toRatio = m.value := by
  rw [toRatio, ratio_scaleRatio, value]
  simp [ratio]

theorem value_nonneg (m : Magnitude) : 0 ≤ m.value := by
  unfold value
  positivity

theorem ratio_le_iff {r s : Nat × Nat} (hr : 0 < r.2) (hs : 0 < s.2) : ratio r ≤ ratio s ↔ r.1 * s.2 ≤ s.1 * r.2 := by
  have hr' : (0 : ℚ) < r.2 := by exact_mod_cast hr
  have hs' : (0 : ℚ) < s.2 := by exact_mod_cast hs
  rw [ratio, ratio, div_le_div_iff₀ hr' hs']
  exact_mod_cast Iff.rfl

theorem num_pos_of_le {r s : Nat × Nat} (hn : 0 < r.1) (hr : 0 < r.2) (hs : 0 < s.2) (h : ratio r ≤ ratio s) :
    0 < s.1 := by
  rw [ratio_le_iff hr hs] at h
  exact Nat.pos_of_mul_pos_right (lt_of_lt_of_le (Nat.mul_pos hn hs) h)

theorem roundRatio_cases (r : Nat × Nat) :
    (roundRatio r = r.1 / r.2 ∧ 2 * (r.1 % r.2) ≤ r.2 ∧ (2 * (r.1 % r.2) = r.2 → r.1 / r.2 % 2 = 0)) ∨
      (roundRatio r = r.1 / r.2 + 1 ∧ r.2 ≤ 2 * (r.1 % r.2) ∧ (2 * (r.1 % r.2) = r.2 → r.1 / r.2 % 2 ≠ 0)) := by
  obtain ⟨num, den⟩ := r
  unfold roundRatio
  dsimp only
  split
  · exact .inl ⟨rfl, by omega, by omega⟩
  split
  · exact .inr ⟨rfl, by omega, by omega⟩
  split
  · exact .inl ⟨rfl, by omega, fun _ => ‹_›⟩
  · exact .inr ⟨rfl, by omega, fun _ => ‹_›⟩

theorem roundRatio_mono {r s : Nat × Nat} (hr : 0 < r.2) (hs : 0 < s.2) (h : ratio r ≤ ratio s) :
    roundRatio r ≤ roundRatio s := by
  rw [ratio_le_iff hr hs] at h
  have hq : r.1 / r.2 ≤ s.1 / s.2 := by
    rw [Nat.le_div_iff_mul_le hs]
    have hdiv := Nat.div_mul_le_self r.1 r.2
    refine Nat.le_of_mul_le_mul_right (c := r.2) ?_ hr
    calc r.1 / r.2 * s.2 * r.2 = r.1 / r.2 * r.2 * s.2 := by ring
      _ ≤ r.1 * s.2 := Nat.mul_le_mul_right _ hdiv
      _ ≤ s.1 * r.2 := h
  rcases roundRatio_cases r with ⟨he, -, -⟩ | ⟨he, hle, htie⟩
  · rcases roundRatio_cases s with ⟨he', -, -⟩ | ⟨he', -, -⟩ <;> omega
  · rcases roundRatio_cases s with ⟨he', hle', htie'⟩ | ⟨he', -, -⟩
    · rcases Nat.lt_or_eq_of_le hq with hlt | heq
      · omega
      · -- the same natural below both, so both are ties, and they cannot go different ways
        exfalso
        have hr' := Nat.div_add_mod r.1 r.2
        have hs' := Nat.div_add_mod s.1 s.2
        have hmod : r.1 % r.2 * s.2 ≤ s.1 % s.2 * r.2 := by
          rw [heq] at hr'
          nlinarith
        have hup : r.2 * s.2 ≤ 2 * (r.1 % r.2) * s.2 := Nat.mul_le_mul_right _ hle
        have hdown : 2 * (s.1 % s.2) * r.2 ≤ s.2 * r.2 := Nat.mul_le_mul_right _ hle'
        have hr2 : 2 * (r.1 % r.2) = r.2 := by
          refine Nat.eq_of_mul_eq_mul_right hs ?_
          nlinarith
        have hs2 : 2 * (s.1 % s.2) = s.2 := by
          refine Nat.eq_of_mul_eq_mul_right hr ?_
          nlinarith
        exact htie hr2 (heq ▸ htie' hs2)
    · omega

theorem roundRatio_natCast (n : Nat) : roundRatio (n, 1) = n := by
  simp [roundRatio, Nat.mod_one]

theorem ratio_natCast (n : Nat) : ratio (n, 1) = n := by
  simp [ratio]

theorem le_roundRatio {r : Nat × Nat} (hr : 0 < r.2) {n : Nat} (h : (n : ℚ) ≤ ratio r) : n ≤ roundRatio r := by
  rw [← ratio_natCast] at h
  simpa [roundRatio_natCast] using roundRatio_mono Nat.one_pos hr h

theorem roundRatio_le {r : Nat × Nat} (hr : 0 < r.2) {n : Nat} (h : ratio r ≤ n) : roundRatio r ≤ n := by
  rw [← ratio_natCast] at h
  simpa [roundRatio_natCast] using roundRatio_mono hr Nat.one_pos h

theorem log2_bounds {n : Nat} (h : 0 < n) : ((2 : ℚ) ^ (n.log2 : Int) ≤ n) ∧ (n : ℚ) < 2 ^ ((n.log2 : Int) + 1) := by
  constructor
  · rw [zpow_natCast]
    exact_mod_cast Nat.log2_self_le (Nat.pos_iff_ne_zero.1 h)
  · have hlt : n < 2 ^ (n.log2 + 1) := Nat.lt_log2_self
    rw [show ((n.log2 : Int) + 1) = ((n.log2 + 1 : Nat) : Int) by push_cast; rfl, zpow_natCast]
    exact_mod_cast hlt

theorem one_le_ratio_iff {r : Nat × Nat} (hd : 0 < r.2) : 1 ≤ ratio r ↔ r.2 ≤ r.1 := by
  have h := ratio_le_iff Nat.one_pos hd (r := (1, 1))
  rwa [ratio_natCast, Nat.cast_one, one_mul, mul_one] at h

theorem ratioLog2_bounds {r : Nat × Nat} (hn : 0 < r.1) (hd : 0 < r.2) :
    (2 : ℚ) ^ ratioLog2 r ≤ ratio r ∧ ratio r < 2 ^ (ratioLog2 r + 1) := by
  obtain ⟨hn1, hn2⟩ := log2_bounds hn
  obtain ⟨hd1, hd2⟩ := log2_bounds hd
  have hd' : (0 : ℚ) < r.2 := by exact_mod_cast hd
  have htwo : (2 : ℚ) ≠ 0 := by norm_num
  -- the logarithms of the parts bound that of the ratio from both sides, one apart
  have hhigh : ratio r < 2 ^ ((r.1.log2 : Int) - r.2.log2 + 1) := by
    rw [ratio, div_lt_iff₀ hd']
    calc (r.1 : ℚ) < 2 ^ ((r.1.log2 : Int) + 1) := hn2
      _ = 2 ^ ((r.1.log2 : Int) - r.2.log2 + 1) * 2 ^ (r.2.log2 : Int) := by
        rw [← zpow_add₀ htwo]
        congr 1
        ring
      _ ≤ 2 ^ ((r.1.log2 : Int) - r.2.log2 + 1) * r.2 := by gcongr
  have hlow : 2 ^ ((r.1.log2 : Int) - r.2.log2 - 1) < ratio r := by
    rw [ratio, lt_div_iff₀ hd']
    calc (2 : ℚ) ^ ((r.1.log2 : Int) - r.2.log2 - 1) * r.2
        < 2 ^ ((r.1.log2 : Int) - r.2.log2 - 1) * 2 ^ ((r.2.log2 : Int) + 1) := by gcongr
      _ = 2 ^ (r.1.log2 : Int) := by
        rw [← zpow_add₀ htwo]
        congr 1
        ring
      _ ≤ r.1 := hn1
  have hscaled : (scaleRatio (-((r.1.log2 : Int) - r.2.log2)) r).2 ≤
      (scaleRatio (-((r.1.log2 : Int) - r.2.log2)) r).1 ↔ (2 : ℚ) ^ ((r.1.log2 : Int) - r.2.log2) ≤ ratio r := by
    rw [← one_le_ratio_iff (den_scaleRatio_pos _ hd), ratio_scaleRatio, zpow_neg, ← div_eq_mul_inv,
      one_le_div (two_zpow_pos _)]
  unfold ratioLog2
  dsimp only
  split
  · rename_i hle
    exact ⟨hscaled.1 hle, hhigh⟩
  · rename_i hgt
    refine ⟨hlow.le, ?_⟩
    rw [sub_add_cancel]
    exact lt_of_not_ge fun hge => hgt (hscaled.2 hge)

def unit (r : Nat × Nat) : Int := max (ratioLog2 r - 52) leastExponent

def steps (r : Nat × Nat) : Nat := roundRatio (scaleRatio (-unit r) r)

def rounded (r : Nat × Nat) : Magnitude :=
  if steps r = Nat.pow 2 53 then ⟨Nat.pow 2 52, unit r + 1⟩ else ⟨steps r, unit r⟩

theorem ofRatio_eq {r : Nat × Nat} (hn : r.1 ≠ 0) :
    ofRatio r = if (rounded r).exponent ≤ greatestExponent then some (rounded r) else none := by
  rw [ofRatio, if_neg hn]
  rfl

theorem ofRatio_zero (den : Nat) : ofRatio (0, den) = some ⟨0, leastExponent⟩ := rfl

theorem unit_mono {r s : Nat × Nat} (hr : 0 < r.1) (hrd : 0 < r.2) (hsd : 0 < s.2) (h : ratio r ≤ ratio s) :
    unit r ≤ unit s := by
  have hs := num_pos_of_le hr hrd hsd h
  have hlow := (ratioLog2_bounds hr hrd).1
  have hhigh := (ratioLog2_bounds hs hsd).2
  have hlog : ratioLog2 r < ratioLog2 s + 1 :=
    (zpow_lt_zpow_iff_right₀ (by norm_num)).1 ((hlow.trans h).trans_lt hhigh)
  unfold unit
  omega

theorem ratio_scaled (r : Nat × Nat) : ratio (scaleRatio (-unit r) r) = ratio r / 2 ^ unit r := by
  rw [ratio_scaleRatio, zpow_neg, div_eq_mul_inv]

/-- A ratio has fewer than `2 ^ 53` steps, so its rounding has no more. -/
theorem steps_le {r : Nat × Nat} (hn : 0 < r.1) (hd : 0 < r.2) : steps r ≤ 2 ^ 53 := by
  refine roundRatio_le (den_scaleRatio_pos _ hd) ?_
  have hhigh := (ratioLog2_bounds hn hd).2
  have hunit : ratioLog2 r + 1 ≤ 53 + unit r := by
    unfold unit
    omega
  rw [ratio_scaled, div_le_iff₀ (two_zpow_pos _)]
  calc ratio r ≤ 2 ^ (ratioLog2 r + 1) := hhigh.le
    _ ≤ 2 ^ (53 + unit r) := zpow_le_zpow_right₀ (by norm_num) hunit
    _ = ((2 ^ 53 : Nat) : ℚ) * 2 ^ unit r := by
      rw [zpow_add₀ (by norm_num)]
      norm_num

theorem le_steps {r : Nat × Nat} (hn : 0 < r.1) (hd : 0 < r.2) (hu : leastExponent < unit r) :
    2 ^ 52 ≤ steps r := by
  refine le_roundRatio (den_scaleRatio_pos _ hd) ?_
  have hlow := (ratioLog2_bounds hn hd).1
  have hunit : ratioLog2 r = 52 + unit r := by
    unfold unit at hu ⊢
    omega
  rw [ratio_scaled, le_div_iff₀ (two_zpow_pos _)]
  calc ((2 ^ 52 : Nat) : ℚ) * 2 ^ unit r = 2 ^ (52 + unit r) := by
        rw [zpow_add₀ (by norm_num)]
        norm_num
    _ ≤ ratio r := hunit ▸ hlow

theorem value_rounded (r : Nat × Nat) : (rounded r).value = steps r * 2 ^ unit r := by
  unfold rounded
  split
  · rename_i h
    rw [h, value, zpow_add₀ (by norm_num)]
    norm_num
    ring
  · rfl

theorem rounded_mono {r s : Nat × Nat} (hr : 0 < r.1) (hrd : 0 < r.2) (hsd : 0 < s.2) (h : ratio r ≤ ratio s) :
    (rounded r).value ≤ (rounded s).value ∧ (rounded r).exponent ≤ (rounded s).exponent := by
  have hs := num_pos_of_le hr hrd hsd h
  have hle := steps_le hr hrd
  have hle' := steps_le hs hsd
  rw [value_rounded, value_rounded]
  rcases (unit_mono hr hrd hsd h).lt_or_eq with hlt | heq
  · have hnormal := le_steps hs hsd (lt_of_le_of_lt (le_max_right _ _) hlt)
    constructor
    · calc (steps r : ℚ) * 2 ^ unit r ≤ ((2 ^ 53 : Nat) : ℚ) * 2 ^ unit r := by gcongr
        _ = ((2 ^ 52 : Nat) : ℚ) * 2 ^ (unit r + 1) := by
          rw [zpow_add₀ (by norm_num)]
          norm_num
          ring
        _ ≤ (steps s : ℚ) * 2 ^ unit s := by
          gcongr
          · norm_num
          · omega
    · unfold rounded
      split <;> split <;> simp only <;> omega
  · have hsteps : steps r ≤ steps s := by
      refine roundRatio_mono (den_scaleRatio_pos _ hrd) (den_scaleRatio_pos _ hsd) ?_
      rw [ratio_scaled, ratio_scaled, heq]
      gcongr
    rw [heq]
    refine ⟨by gcongr, ?_⟩
    unfold rounded
    rw [heq]
    simp only [Nat.pow_eq]
    split
    · rw [if_pos (by omega)]
    · split
      · simp
      · simp

/-- Whatever is not above something that can be rounded can be rounded, and to nothing above it. -/
theorem ofRatio_mono {r s : Nat × Nat} (hrd : 0 < r.2) (hsd : 0 < s.2) (h : ratio r ≤ ratio s) {m : Magnitude}
    (hm : ofRatio s = some m) : ∃ k, ofRatio r = some k ∧ k.value ≤ m.value := by
  obtain ⟨n, d⟩ := r
  rcases Nat.eq_zero_or_pos n with rfl | hn
  · exact ⟨_, ofRatio_zero d, by simpa [value] using m.value_nonneg⟩
  · have hs : 0 < s.1 := num_pos_of_le hn hrd hsd h
    obtain ⟨hv, he⟩ := rounded_mono hn hrd hsd h
    rw [ofRatio_eq hs.ne'] at hm
    split at hm
    · rename_i hlimit
      cases hm
      exact ⟨_, by rw [ofRatio_eq hn.ne', if_pos (he.trans hlimit)], hv⟩
    · cases hm

structure Finite (m : Magnitude) : Prop where
  significand : m.significand < 2 ^ 53
  exponent : m.exponent ≤ greatestExponent

theorem finite_of_ofRatio {r : Nat × Nat} (hd : 0 < r.2) {m : Magnitude} (h : ofRatio r = some m) : m.Finite := by
  obtain ⟨n, d⟩ := r
  rcases Nat.eq_zero_or_pos n with rfl | hn
  · rw [ofRatio_zero] at h
    cases h
    exact ⟨by decide, by decide⟩
  · rw [ofRatio_eq hn.ne'] at h
    split at h
    · rename_i hlimit
      cases h
      refine ⟨?_, hlimit⟩
      have hle := steps_le hn hd
      unfold rounded
      split
      · norm_num
      · rename_i hne
        rw [Nat.pow_eq] at hne
        exact lt_of_le_of_ne hle hne
    · cases h

def greatest : Magnitude := ⟨2 ^ 53 - 1, greatestExponent⟩

theorem Finite.value_le {m : Magnitude} (h : m.Finite) : m.value ≤ greatest.value := by
  have hs : m.significand ≤ greatest.significand := Nat.le_pred_of_lt h.significand
  unfold value
  gcongr
  · norm_num
  · exact h.exponent

theorem ofRatio_of_le {r : Nat × Nat} (hd : 0 < r.2) (h : ratio r ≤ greatest.value) :
    ∃ m, ofRatio r = some m ∧ m.Finite := by
  have hg : ofRatio greatest.toRatio = some greatest := by decide +kernel
  rw [← ratio_toRatio] at h
  obtain ⟨m, hm, -⟩ := ofRatio_mono hd (by decide) h hg
  exact ⟨m, hm, finite_of_ofRatio hd hm⟩

theorem ratio_div {a b : Magnitude} :
    ratio (scaleRatio (a.exponent - b.exponent) (a.significand, b.significand)) = a.value / b.value := by
  rw [ratio_scaleRatio, zpow_sub₀ (by norm_num), ratio, value, value, mul_div_mul_comm]

theorem ratio_mul {a b : Magnitude} :
    ratio (scaleRatio (a.exponent + b.exponent) (a.significand * b.significand, 1)) = a.value * b.value := by
  rw [ratio_scaleRatio, zpow_add₀ (by norm_num), ratio, value, value]
  push_cast
  ring

theorem mul?_mono {a b p q m : Magnitude} (h : a.value ≤ b.value) (hp : p.value ≤ q.value)
    (hm : b.mul? q = some m) : ∃ k, a.mul? p = some k := by
  have hle : ratio (scaleRatio (a.exponent + p.exponent) (a.significand * p.significand, 1)) ≤
      ratio (scaleRatio (b.exponent + q.exponent) (b.significand * q.significand, 1)) := by
    rw [ratio_mul, ratio_mul]
    exact mul_le_mul h hp p.value_nonneg b.value_nonneg
  obtain ⟨k, hk, -⟩ := ofRatio_mono (den_scaleRatio_pos _ Nat.one_pos) (den_scaleRatio_pos _ Nat.one_pos) hle hm
  exact ⟨k, hk⟩

theorem significand_pos {m : Magnitude} (h : 1 ≤ m.value) : 0 < m.significand := by
  rcases Nat.eq_zero_or_pos m.significand with h0 | hpos
  · rw [value, h0] at h
    norm_num at h
  · exact hpos

theorem div?_of_one_le {a b : Magnitude} (ha : a.Finite) (hb : 1 ≤ b.value) : ∃ c, a.div? b = some c ∧ c.Finite := by
  refine ofRatio_of_le (den_scaleRatio_pos _ (significand_pos hb)) ?_
  rw [ratio_div]
  exact (div_le_self a.value_nonneg hb).trans ha.value_le

theorem tenPow?_of_le {k : Nat} (hk : k ≤ tenLimit) : ∃ p, tenPow? k = some p ∧ p.Finite ∧ 1 ≤ p.value := by
  have hlimit : ofRatio (Nat.pow 10 tenLimit, 1) = some ⟨5010420900022432, 971⟩ := by decide +kernel
  have hone : ofRatio (1, 1) = some ⟨2 ^ 52, -52⟩ := by decide +kernel
  have hle : ratio (Nat.pow 10 k, 1) ≤ ratio (Nat.pow 10 tenLimit, 1) := by
    rw [ratio_natCast, ratio_natCast, Nat.cast_le, Nat.pow_eq, Nat.pow_eq]
    exact Nat.pow_le_pow_right (by decide) hk
  have hge : ratio (1, 1) ≤ ratio (Nat.pow 10 k, 1) := by
    rw [ratio_natCast, ratio_natCast, Nat.cast_le]
    exact Nat.one_le_pow k 10 (by decide)
  obtain ⟨p, hp, -⟩ := ofRatio_mono Nat.one_pos Nat.one_pos hle hlimit
  obtain ⟨o, ho, hop⟩ := ofRatio_mono Nat.one_pos Nat.one_pos hge hp
  rw [hone] at ho
  cases ho
  refine ⟨p, hp, finite_of_ofRatio Nat.one_pos hp, le_trans ?_ hop⟩
  norm_num [value]

theorem divOften?_of_finite {p : Magnitude} (hp : 1 ≤ p.value) (n : Nat) {m : Magnitude} (h : m.Finite) :
    ∃ k, divOften? (some p) n m = some k ∧ k.Finite := by
  induction n generalizing m with
  | zero => exact ⟨m, rfl, h⟩
  | succ n ih =>
    rw [divOften?]
    split
    · exact ⟨m, rfl, h⟩
    · obtain ⟨next, hnext, hfinite⟩ := div?_of_one_le h hp
      rw [Option.bind_some, hnext]
      exact ih hfinite

theorem divTen?_of_finite {m : Magnitude} (h : m.Finite) {k : Nat} (hk : 0 < k) :
    ∃ c, m.divTen? k = some c ∧ c.Finite := by
  obtain ⟨long, hlong, -, hone⟩ := tenPow?_of_le (Nat.le_refl tenLimit)
  obtain ⟨near, hnear, hfinite⟩ := divOften?_of_finite hone ((k - 1) / tenLimit) h
  have hrest : k - tenLimit * ((k - 1) / tenLimit) ≤ tenLimit := by
    unfold tenLimit
    omega
  obtain ⟨p, hp, -, hone'⟩ := tenPow?_of_le hrest
  unfold divTen?
  dsimp only
  rw [hlong, hnear, Option.bind_some, hp, Option.bind_some]
  exact div?_of_one_le hfinite hone'

def digitsLimit : Nat := 2 ^ 64 - 1

def nearGreatest : Nat := (2 ^ 54 - 3) * 2 ^ 970

theorem ofRatio_digits {d : Nat} (h : d ≤ digitsLimit) : ∃ m, ofRatio (d, 1) = some m ∧ m.Finite := by
  refine ofRatio_of_le Nat.one_pos ?_
  rw [ratio_natCast, ← ratio_toRatio, ← ratio_natCast, ratio_le_iff Nat.one_pos (by decide)]
  have hlimit : digitsLimit * greatest.toRatio.2 ≤ greatest.toRatio.1 * 1 := by decide +kernel
  exact le_trans (Nat.mul_le_mul_right _ h) hlimit

/-- Negative powers of ten never lead beyond the greatest double. -/
theorem ofDecimal?_negSucc {d : Nat} (h : d ≤ digitsLimit) (k : Nat) :
    ∃ m, ofDecimal? d (.negSucc k) = some m ∧ m.Finite := by
  obtain ⟨m, hm, hfinite⟩ := ofRatio_digits h
  rw [ofDecimal?, hm, Option.bind_some]
  exact divTen?_of_finite hfinite (Nat.succ_pos k)

theorem ofRatio_natCast_mono {d e : Nat} (h : d ≤ e) {m : Magnitude} (hm : ofRatio (e, 1) = some m) :
    ∃ k, ofRatio (d, 1) = some k ∧ k.value ≤ m.value := by
  refine ofRatio_mono Nat.one_pos Nat.one_pos ?_ hm
  rw [ratio_natCast, ratio_natCast, Nat.cast_le]
  exact h

theorem ofDecimal?_mono {d e k l : Nat} (hd : d ≤ e) (hk : k ≤ l) (hl : l ≤ tenLimit) {m : Magnitude}
    (hm : ofDecimal? e (.ofNat l) = some m) : ∃ o, ofDecimal? d (.ofNat k) = some o := by
  obtain ⟨whole, hwhole, hm⟩ := Option.bind_eq_some_iff.1 hm
  simp only [if_pos hl] at hm
  obtain ⟨power, hpower, hm⟩ := Option.bind_eq_some_iff.1 hm
  obtain ⟨a, ha, haw⟩ := ofRatio_natCast_mono hd hwhole
  obtain ⟨p, hp, hpp⟩ := ofRatio_natCast_mono (Nat.pow_le_pow_right (by decide) hk) hpower
  obtain ⟨o, ho⟩ := mul?_mono haw hpp hm
  refine ⟨o, ?_⟩
  have hp : tenPow? k = some p := hp
  simp only [ofDecimal?, ha, Option.bind_some, if_pos (hk.trans hl), hp]
  exact ho

theorem ofDecimal?_digitsLimit : (ofDecimal? digitsLimit (.ofNat 288)).isSome = true := by decide +kernel

theorem ofDecimal?_nearGreatest : ∀ k < 20,
    (ofDecimal? (nearGreatest / 10 ^ (289 + k)) (.ofNat (289 + k))).isSome = true := by decide +kernel

/-- The two roundings of a decimal up to the bound stay below the greatest double. -/
theorem ofDecimal?_ofNat {d k : Nat} (hd : d ≤ digitsLimit) (h : d * 10 ^ k ≤ nearGreatest) :
    ∃ m, ofDecimal? d (.ofNat k) = some m := by
  rcases Nat.lt_or_ge k 289 with hsmall | hlarge
  · obtain ⟨m, hm⟩ := Option.isSome_iff_exists.1 ofDecimal?_digitsLimit
    exact ofDecimal?_mono hd (Nat.le_of_lt_succ hsmall) (by decide) hm
  rcases Nat.lt_or_ge tenLimit k with hbeyond | hk
  · -- beyond the powers that there are only zero is left
    have hbig : nearGreatest < 10 ^ (tenLimit + 1) := by decide +kernel
    have hpow : 10 ^ (tenLimit + 1) ≤ 10 ^ k := Nat.pow_le_pow_right (by decide) hbeyond
    have hzero : d = 0 := by
      by_contra hne
      have hle : 10 ^ k ≤ d * 10 ^ k := Nat.le_mul_of_pos_left _ (Nat.pos_of_ne_zero hne)
      omega
    refine ⟨⟨0, leastExponent⟩, ?_⟩
    simp only [ofDecimal?, hzero, ofRatio_zero, Option.bind_some, if_neg (Nat.not_le_of_lt hbeyond)]
    rfl
  · obtain ⟨i, rfl⟩ : ∃ i, k = 289 + i := ⟨k - 289, by omega⟩
    have hi : i < 20 := by
      unfold tenLimit at hk
      omega
    obtain ⟨m, hm⟩ := Option.isSome_iff_exists.1 (ofDecimal?_nearGreatest i hi)
    have hle : d ≤ nearGreatest / 10 ^ (289 + i) := (Nat.le_div_iff_mul_le (Nat.pow_pos (by decide))).2 h
    exact ofDecimal?_mono hle (Nat.le_refl _) hk hm

theorem finite_of_ofDecimal? {d : Nat} {e : Int} {m : Magnitude} (h : ofDecimal? d e = some m) : m.Finite := by
  obtain ⟨whole, hwhole, h⟩ := Option.bind_eq_some_iff.1 h
  have hfinite := finite_of_ofRatio Nat.one_pos hwhole
  cases e with
  | ofNat k =>
    dsimp only at h
    split at h
    · obtain ⟨p, -, h⟩ := Option.bind_eq_some_iff.1 h
      exact finite_of_ofRatio (den_scaleRatio_pos _ Nat.one_pos) h
    · split at h
      · cases h
        exact hfinite
      · cases h
  | negSucc k =>
    obtain ⟨c, hc, hcf⟩ := divTen?_of_finite hfinite (Nat.succ_pos k)
    dsimp only at h
    rw [hc] at h
    cases h
    exact hcf

end EventHub.Magnitude
