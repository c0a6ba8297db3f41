/-
# Rounding to double precision

A double holds a significand of 53 bits. The result of an operation on doubles is
the exact result rounded to the nearest such number, and to the one with an even
significand when two are equally near. Values are rationals here and the exponent
is not bounded, so this is the arithmetic of doubles as long as a result neither
overflows nor falls below the normal range.

Integers of up to 53 bits are not changed by rounding. That is what makes sums of
small integers exact. Rounding keeps the order, so it does not pass such an integer.
-/

import Mathlib.Data.Rat.Floor
import Mathlib.Tactic.FieldSimp
import Mathlib.Tactic.Linarith
import Mathlib.Tactic.NormNum
import Mathlib.Tactic.Positivity

namespace Binary64

/-- The nearest integer, the even one of two. -/
def roundEven (q : ℚ) : ℤ :=
  if 2 * (q - ⌊q⌋) < 1 then ⌊q⌋
  else if 1 < 2 * (q - ⌊q⌋) then ⌊q⌋ + 1
  else if ⌊q⌋ % 2 = 0 then ⌊q⌋
  else ⌊q⌋ + 1

/-- The position of the leading bit of a number other than zero. -/
def exponent (q : ℚ) : ℤ :=
  if |q| < 2 ^ ((q.num.natAbs.log2 : ℤ) - q.den.log2) then
    (q.num.natAbs.log2 : ℤ) - q.den.log2 - 1
  else (q.num.natAbs.log2 : ℤ) - q.den.log2

/-- The last bit of a double with this leading bit. -/
def unit (q : ℚ) : ℚ := 2 ^ (exponent q - 52)

/-- The double that is nearest to a number. -/
def round (q : ℚ) : ℚ := if q = 0 then 0 else roundEven (q / unit q) * unit q

/-- The integer part. -/
def truncate (q : ℚ) : ℤ := if 0 ≤ q then ⌊q⌋ else ⌈q⌉

theorem roundEven_of_int (n : ℤ) : roundEven n = n := by
  simp [roundEven]

@[simp]
theorem truncate_of_int (n : ℤ) : truncate n = n := by
  simp [truncate]

theorem exponent_of_int {n : ℤ} (nonzero : n ≠ 0) : exponent n = n.natAbs.log2 := by
  have hpow : 2 ^ n.natAbs.log2 ≤ n.natAbs := Nat.log2_self_le (Int.natAbs_ne_zero.mpr nonzero)
  have hone : ((n.natAbs.log2 : ℤ) - (Nat.log2 1 : ℕ)) = n.natAbs.log2 := by
    have hlog : Nat.log2 1 = 0 := by decide +kernel
    rw [hlog, Nat.cast_zero, sub_zero]
  have hle : ¬ |(n : ℚ)| < 2 ^ (n.natAbs.log2 : ℤ) := by
    rw [not_lt, zpow_natCast, ← Int.cast_abs, Int.abs_eq_natAbs]
    exact_mod_cast hpow
  have hnum : ((n : ℚ)).num = n := Rat.num_intCast n
  have hden : ((n : ℚ)).den = 1 := Rat.den_intCast n
  rw [exponent, hnum, hden, hone, if_neg hle]

/-- Integers of up to 53 bits are doubles. -/
theorem round_of_int {n : ℤ} (small : n.natAbs < 2 ^ 53) : round n = n := by
  by_cases hzero : n = 0
  · simp [round, hzero]
  · have hlog : n.natAbs.log2 ≤ 52 := by
      have := (Nat.log2_lt (Int.natAbs_ne_zero.mpr hzero)).mpr small
      omega
    have hunit : unit n = ((2 : ℚ) ^ (52 - n.natAbs.log2))⁻¹ := by
      rw [unit, exponent_of_int hzero, ← zpow_natCast, ← zpow_neg]
      congr 1
      push_cast [hlog]
      ring
    have hscaled : (n : ℚ) / unit n = ((n * 2 ^ (52 - n.natAbs.log2) : ℤ) : ℚ) := by
      rw [hunit, div_inv_eq_mul]
      push_cast
      rfl
    have hcast : (n : ℚ) ≠ 0 := by exact_mod_cast hzero
    rw [round, if_neg hcast, hscaled, roundEven_of_int, ← hscaled]
    have hpos : unit n ≠ 0 := by
      rw [hunit]
      positivity
    exact div_mul_cancel₀ _ hpos

theorem round_of_nat {n : ℕ} (small : n < 2 ^ 53) : round n = n := by
  have h := round_of_int (n := n) (by simpa using small)
  exact_mod_cast h

/-! ## Rounding keeps the order -/

theorem roundEven_neg (q : ℚ) : roundEven (-q) = -roundEven q := by
  by_cases hint : (⌊q⌋ : ℚ) = q
  · rw [← hint, ← Int.cast_neg, roundEven_of_int, roundEven_of_int]
  · have hlow : (⌊q⌋ : ℚ) ≤ q := Int.floor_le q
    have hhigh : q < ⌊q⌋ + 1 := Int.lt_floor_add_one q
    have hlt : (⌊q⌋ : ℚ) < q := lt_of_le_of_ne hlow hint
    have hneg : ⌊-q⌋ = -⌊q⌋ - 1 := by
      rw [Int.floor_eq_iff]
      push_cast
      constructor <;> linarith
    have hcast : ((⌊-q⌋ : ℤ) : ℚ) = -⌊q⌋ - 1 := by
      rw [hneg]
      push_cast
      rfl
    unfold roundEven
    rw [hcast, hneg]
    split_ifs <;> first | omega | (exfalso; linarith)

theorem le_roundEven {n : ℤ} {q : ℚ} (le : n ≤ q) : n ≤ roundEven q := by
  have hfloor : n ≤ ⌊q⌋ := Int.le_floor.mpr le
  unfold roundEven
  split_ifs <;> omega

theorem roundEven_le {n : ℤ} {q : ℚ} (le : q ≤ n) : roundEven q ≤ n := by
  have h := le_roundEven (n := -n) (q := -q) (by push_cast; linarith)
  rw [roundEven_neg] at h
  omega

theorem roundEven_mono {p q : ℚ} (le : p ≤ q) : roundEven p ≤ roundEven q := by
  obtain hlt | heq := (Int.floor_le_floor le).lt_or_eq
  · have hp : roundEven p ≤ ⌊p⌋ + 1 := by
      unfold roundEven
      split_ifs <;> omega
    exact hp.trans ((Int.add_one_le_of_lt hlt).trans (le_roundEven (Int.floor_le q)))
  · unfold roundEven
    rw [heq]
    split_ifs <;> first | omega | (exfalso; linarith)

/-- The leading bit stands at the exponent. -/
theorem exponent_spec {q : ℚ} (nonzero : q ≠ 0) :
    2 ^ exponent q ≤ |q| ∧ |q| < 2 ^ (exponent q + 1) := by
  have hnum : q.num.natAbs ≠ 0 := by simpa using nonzero
  have habs : |q| * q.den = (q.num.natAbs : ℚ) := by
    rw [Nat.cast_natAbs, Int.cast_abs, ← Rat.mul_den_eq_num, abs_mul, Nat.abs_cast]
  have hden : (0 : ℚ) < q.den := by exact_mod_cast q.den_pos
  have hnumLow : (2 : ℚ) ^ (q.num.natAbs.log2 : ℤ) ≤ |q| * q.den := by
    rw [habs, zpow_natCast]
    exact_mod_cast Nat.log2_self_le hnum
  have hnumHigh : |q| * q.den < (2 : ℚ) ^ ((q.num.natAbs.log2 : ℤ) + 1) := by
    rw [habs]
    exact_mod_cast Nat.lt_log2_self (n := q.num.natAbs)
  have hdenLow : (2 : ℚ) ^ (q.den.log2 : ℤ) ≤ q.den := by
    rw [zpow_natCast]
    exact_mod_cast Nat.log2_self_le q.den_nz
  have hdenHigh : (q.den : ℚ) < (2 : ℚ) ^ ((q.den.log2 : ℤ) + 1) := by
    exact_mod_cast Nat.lt_log2_self (n := q.den)
  generalize hn : (q.num.natAbs.log2 : ℤ) = n at hnumLow hnumHigh
  generalize hd : (q.den.log2 : ℤ) = d at hdenLow hdenHigh
  have hhigh : |q| < 2 ^ (n - d + 1) := by
    have hmul : |q| * 2 ^ d < 2 ^ (n - d + 1) * 2 ^ d := by
      rw [← zpow_add₀ (by norm_num : (2 : ℚ) ≠ 0)]
      have hexp : n - d + 1 + d = n + 1 := by ring
      rw [hexp]
      exact (mul_le_mul_of_nonneg_left hdenLow (abs_nonneg q)).trans_lt hnumHigh
    exact lt_of_mul_lt_mul_right hmul (zpow_pos (by norm_num) d).le
  have hlow : 2 ^ (n - d - 1) ≤ |q| := by
    have hmul : (2 : ℚ) ^ (n - d - 1) * 2 ^ (d + 1) ≤ |q| * 2 ^ (d + 1) := by
      rw [← zpow_add₀ (by norm_num : (2 : ℚ) ≠ 0)]
      have hexp : n - d - 1 + (d + 1) = n := by ring
      rw [hexp]
      exact hnumLow.trans (mul_le_mul_of_nonneg_left hdenHigh.le (abs_nonneg q))
    exact le_of_mul_le_mul_right hmul (zpow_pos (by norm_num) (d + 1))
  rw [exponent, hn, hd]
  split_ifs with hless
  · have hexp : n - d - 1 + 1 = n - d := by ring
    rw [hexp]
    exact ⟨hlow, hless⟩
  · exact ⟨not_lt.mp hless, hhigh⟩

theorem exponent_neg (q : ℚ) : exponent (-q) = exponent q := by
  rw [exponent, exponent, abs_neg, Rat.num_neg_eq_neg_num, Int.natAbs_neg, Rat.den_neg_eq_den]

theorem unit_pos (q : ℚ) : 0 < unit q := zpow_pos (by norm_num) _

theorem round_neg (q : ℚ) : round (-q) = -round q := by
  have hunit : unit (-q) = unit q := by rw [unit, exponent_neg, unit]
  by_cases hzero : q = 0
  · simp [round, hzero]
  · rw [round, round, if_neg (neg_ne_zero.mpr hzero), if_neg hzero, hunit, neg_div, roundEven_neg]
    push_cast
    ring

/-- A number of this exponent is rounded to one between the powers of two around it. -/
theorem round_bounds {q : ℚ} (pos : 0 < q) :
    2 ^ exponent q ≤ round q ∧ round q ≤ 2 ^ (exponent q + 1) := by
  obtain ⟨hlow, hhigh⟩ := exponent_spec pos.ne'
  rw [abs_of_pos pos] at hlow hhigh
  have hunit := unit_pos q
  have hscaleLow : (2 : ℚ) ^ exponent q = ((2 ^ 52 : ℤ) : ℚ) * unit q := by
    have hcast : ((2 ^ 52 : ℤ) : ℚ) = 2 ^ (52 : ℤ) := by norm_num
    rw [unit, hcast, ← zpow_add₀ (by norm_num : (2 : ℚ) ≠ 0)]
    congr 1
    ring
  have hscaleHigh : (2 : ℚ) ^ (exponent q + 1) = ((2 ^ 53 : ℤ) : ℚ) * unit q := by
    rw [zpow_add_one₀ (by norm_num : (2 : ℚ) ≠ 0), hscaleLow]
    push_cast
    ring
  rw [hscaleLow] at hlow ⊢
  rw [hscaleHigh] at hhigh ⊢
  rw [round, if_neg pos.ne']
  constructor
  · apply mul_le_mul_of_nonneg_right _ hunit.le
    exact_mod_cast le_roundEven ((le_div_iff₀ hunit).mpr hlow)
  · apply mul_le_mul_of_nonneg_right _ hunit.le
    exact_mod_cast roundEven_le ((div_le_iff₀ hunit).mpr hhigh.le)

theorem round_mono_of_pos {p q : ℚ} (pos : 0 < p) (le : p ≤ q) : round p ≤ round q := by
  have hq : 0 < q := pos.trans_le le
  obtain ⟨hlowP, hhighP⟩ := exponent_spec pos.ne'
  obtain ⟨hlowQ, hhighQ⟩ := exponent_spec hq.ne'
  rw [abs_of_pos pos] at hlowP hhighP
  rw [abs_of_pos hq] at hlowQ hhighQ
  obtain hlt | heq | hgt := lt_trichotomy (exponent p) (exponent q)
  · -- a power of two stands between the two
    calc round p ≤ 2 ^ (exponent p + 1) := (round_bounds pos).2
      _ ≤ 2 ^ exponent q := zpow_le_zpow_right₀ (by norm_num) hlt
      _ ≤ round q := (round_bounds hq).1
  · have hunit : unit p = unit q := by rw [unit, heq, unit]
    rw [round, round, if_neg pos.ne', if_neg hq.ne', hunit]
    apply mul_le_mul_of_nonneg_right _ (unit_pos q).le
    exact_mod_cast roundEven_mono (div_le_div_of_nonneg_right le (unit_pos q).le)
  · have hle : (2 : ℚ) ^ (exponent q + 1) ≤ 2 ^ exponent p :=
      zpow_le_zpow_right₀ (by norm_num) hgt
    linarith

theorem round_nonneg {q : ℚ} (nonneg : 0 ≤ q) : 0 ≤ round q := by
  obtain hpos | rfl := nonneg.lt_or_eq'
  · exact (zpow_pos (by norm_num) _).le.trans (round_bounds hpos).1
  · simp [round]

theorem round_pos {q : ℚ} (pos : 0 < q) : 0 < round q :=
  (zpow_pos (by norm_num) _).trans_le (round_bounds pos).1

theorem round_nonneg_iff {q : ℚ} : 0 ≤ round q ↔ 0 ≤ q := by
  refine ⟨fun h => ?_, round_nonneg⟩
  by_contra hneg
  have hpos := round_pos (q := -q) (by linarith)
  rw [round_neg] at hpos
  linarith

/-- Rounding keeps the order. -/
theorem round_mono {p q : ℚ} (le : p ≤ q) : round p ≤ round q := by
  by_cases hp : 0 < p
  · exact round_mono_of_pos hp le
  have hp' : round p ≤ 0 := by
    have h := round_nonneg (q := -p) (by linarith)
    rw [round_neg] at h
    linarith
  by_cases hq : q < 0
  · have h := round_mono_of_pos (p := -q) (q := -p) (by linarith) (by linarith)
    rw [round_neg, round_neg] at h
    linarith
  · exact hp'.trans (round_nonneg (not_lt.mp hq))

/-- Rounding does not pass an integer of 53 bits. -/
theorem le_round {n : ℤ} {q : ℚ} (small : n.natAbs < 2 ^ 53) (le : n ≤ q) : n ≤ round q :=
  (round_of_int small).ge.trans (round_mono le)

theorem round_le {n : ℤ} {q : ℚ} (small : n.natAbs < 2 ^ 53) (le : q ≤ n) : round q ≤ n :=
  (round_mono le).trans (round_of_int small).le

theorem exponent_eq {q : ℚ} {e : ℤ} (low : 2 ^ e ≤ |q|) (high : |q| < 2 ^ (e + 1)) :
    exponent q = e := by
  have hzero : q ≠ 0 := by
    rintro rfl
    rw [abs_zero] at low
    exact absurd low (not_le.mpr (zpow_pos (by norm_num) e))
  obtain ⟨hlow, hhigh⟩ := exponent_spec hzero
  have h : exponent q < e + 1 := (zpow_lt_zpow_iff_right₀ (by norm_num)).mp (hlow.trans_lt high)
  have h' : e < exponent q + 1 := (zpow_lt_zpow_iff_right₀ (by norm_num)).mp (low.trans_lt hhigh)
  omega

/-- Multiplying by a power of two changes the exponent only. -/
theorem round_mul_zpow (q : ℚ) (k : ℤ) : round (q * 2 ^ k) = round q * 2 ^ k := by
  by_cases hzero : q = 0
  · simp [round, hzero]
  have hpow : (2 : ℚ) ^ k ≠ 0 := (zpow_pos (by norm_num) k).ne'
  obtain ⟨hlow, hhigh⟩ := exponent_spec hzero
  have habs : |q * 2 ^ k| = |q| * 2 ^ k := by
    rw [abs_mul, abs_of_pos (zpow_pos (by norm_num : (0 : ℚ) < 2) k)]
  have hexponent : exponent (q * 2 ^ k) = exponent q + k := by
    apply exponent_eq
    · rw [habs, zpow_add₀ (by norm_num : (2 : ℚ) ≠ 0)]
      exact mul_le_mul_of_nonneg_right hlow (zpow_pos (by norm_num) k).le
    · have hexp : exponent q + k + 1 = exponent q + 1 + k := by ring
      rw [habs, hexp, zpow_add₀ (by norm_num : (2 : ℚ) ≠ 0)]
      exact mul_lt_mul_of_pos_right hhigh (zpow_pos (by norm_num) k)
  have hunit : unit (q * 2 ^ k) = unit q * 2 ^ k := by
    have hexp : exponent q + k - 52 = exponent q - 52 + k := by ring
    rw [unit, hexponent, hexp, zpow_add₀ (by norm_num : (2 : ℚ) ≠ 0), unit]
  rw [round, round, if_neg (mul_ne_zero hzero hpow), if_neg hzero, hunit,
    mul_div_mul_right _ _ hpow, mul_assoc]

/-- Binary fractions of up to 53 bits are doubles. -/
theorem round_of_dyadic {n : ℤ} (small : n.natAbs < 2 ^ 53) (k : ℤ) :
    round (n * 2 ^ k) = n * 2 ^ k := by
  rw [round_mul_zpow, round_of_int small]

/-- Large doubles are integers. -/
theorem round_isInt {q : ℚ} (large : 2 ^ 53 ≤ |round q|) : ∃ n : ℤ, round q = n := by
  have hpositive : ∀ p : ℚ, 0 < p → 2 ^ 53 ≤ round p → ∃ n : ℤ, round p = n := by
    intro p hp hlarge
    have hpow : (2 : ℚ) ^ (53 : ℤ) ≤ 2 ^ (exponent p + 1) := by
      exact_mod_cast hlarge.trans (round_bounds hp).2
    have hexp : 53 ≤ exponent p + 1 := (zpow_le_zpow_iff_right₀ (by norm_num)).mp hpow
    obtain ⟨k, hk⟩ : ∃ k : ℕ, exponent p - 52 = k := ⟨(exponent p - 52).toNat, by omega⟩
    refine ⟨roundEven (p / unit p) * 2 ^ k, ?_⟩
    rw [round, if_neg hp.ne', unit, hk]
    push_cast
    rw [zpow_natCast]
  obtain hneg | rfl | hpos := lt_trichotomy q 0
  · obtain ⟨n, hn⟩ := hpositive (-q) (by linarith) (by
      rw [round_neg]
      rwa [abs_of_nonpos] at large
      have h := round_mono hneg.le
      simpa [round] using h)
    exact ⟨-n, by rw [round_neg] at hn; push_cast; linarith⟩
  · exact ⟨0, by simp [round]⟩
  · exact hpositive q hpos (by rwa [abs_of_nonneg (round_nonneg hpos.le)] at large)

/-- A double is not rounded again. -/
theorem round_round (q : ℚ) : round (round q) = round q := by
  by_cases hzero : q = 0
  · simp [round, hzero]
  have hpositive : ∀ p : ℚ, 0 < p → round (round p) = round p := by
    intro p hp
    obtain ⟨hlow, hhigh⟩ := exponent_spec hp.ne'
    rw [abs_of_pos hp] at hlow hhigh
    have hle : roundEven (p / unit p) ≤ 2 ^ 53 := by
      apply roundEven_le
      rw [div_le_iff₀ (unit_pos p)]
      have hscale : (2 : ℚ) ^ (exponent p + 1) = ((2 ^ 53 : ℤ) : ℚ) * unit p := by
        have hcast : ((2 ^ 53 : ℤ) : ℚ) = 2 ^ (53 : ℤ) := by norm_num
        rw [unit, hcast, ← zpow_add₀ (by norm_num : (2 : ℚ) ≠ 0)]
        congr 1
        ring
      exact hscale ▸ hhigh.le
    have hnonneg : 0 ≤ roundEven (p / unit p) := by
      exact_mod_cast le_roundEven (n := 0) (by
        push_cast
        exact div_nonneg hp.le (unit_pos p).le)
    have hround : round p = (roundEven (p / unit p) : ℚ) * 2 ^ (exponent p - 52) := by
      rw [round, if_neg hp.ne', unit]
    obtain hlt | heq := hle.lt_or_eq
    · rw [hround]
      exact round_of_dyadic (by omega) _
    · have hpower : round p = ((1 : ℤ) : ℚ) * 2 ^ (exponent p + 1) := by
        have hcast : ((2 ^ 53 : ℤ) : ℚ) = 2 ^ (53 : ℤ) := by norm_num
        rw [hround, heq, hcast, ← zpow_add₀ (by norm_num : (2 : ℚ) ≠ 0)]
        push_cast
        rw [one_mul]
        congr 1
        ring
      rw [hpower]
      exact round_of_dyadic (by decide) _
  obtain hneg | hpos := lt_or_gt_of_ne hzero
  · have h := hpositive (-q) (by linarith)
    rw [round_neg, round_neg] at h
    exact neg_injective h
  · exact hpositive q hpos

theorem roundEven_error (q : ℚ) : |(roundEven q : ℚ) - q| ≤ 1 / 2 := by
  have hlow := Int.floor_le q
  have hhigh := Int.lt_floor_add_one q
  rw [abs_le]
  unfold roundEven
  split_ifs <;> push_cast <;> constructor <;> linarith

/-- Rounding changes a number by half of its last bit at most. -/
theorem round_error {q : ℚ} {e : ℤ} (small : |q| < 2 ^ e) : |round q - q| ≤ 2 ^ (e - 54) := by
  by_cases hzero : q = 0
  · subst hzero
    simp only [round, if_true, sub_zero, abs_zero]
    exact (zpow_pos (by norm_num) _).le
  have hunit := unit_pos q
  have hexponent : exponent q < e :=
    (zpow_lt_zpow_iff_right₀ (by norm_num : (1 : ℚ) < 2)).mp
      ((exponent_spec hzero).1.trans_lt small)
  have hdiff : round q - q = (roundEven (q / unit q) - q / unit q) * unit q := by
    rw [round, if_neg hzero, sub_mul, div_mul_cancel₀ _ hunit.ne']
  rw [hdiff, abs_mul, abs_of_pos hunit]
  calc |(roundEven (q / unit q) : ℚ) - q / unit q| * unit q ≤ 1 / 2 * unit q :=
        mul_le_mul_of_nonneg_right (roundEven_error _) hunit.le
    _ = 2 ^ (exponent q - 53) := by
        have hhalf : (1 / 2 : ℚ) = 2 ^ (-1 : ℤ) := by norm_num
        rw [hhalf, unit, ← zpow_add₀ (by norm_num : (2 : ℚ) ≠ 0)]
        congr 1
        ring
    _ ≤ 2 ^ (e - 54) := zpow_le_zpow_right₀ (by norm_num) (by omega)

theorem truncate_mono {p q : ℚ} (le : p ≤ q) : truncate p ≤ truncate q := by
  unfold truncate
  split_ifs with hp hq hq
  · exact Int.floor_le_floor le
  · exact absurd (hp.trans le) hq
  · have hceil : ⌈p⌉ ≤ 0 := Int.ceil_le.mpr (by simpa using (not_le.mp hp).le)
    exact hceil.trans (Int.floor_nonneg.mpr hq)
  · exact Int.ceil_le_ceil le

example : round (1 / 10) = 3602879701896397 / 36028797018963968 := by decide +kernel

example : round (2 ^ 53 + 1) = 2 ^ 53 := by decide +kernel

/-! ## Sums in double precision -/

/-- Add a step so many times, with rounding. -/
def accumulate (step : ℚ) : ℕ → ℚ → ℚ
  | 0, value => value
  | n + 1, value => round (accumulate step n value + step)

section

variable {step value : ℚ}

theorem accumulate_succ' (step : ℚ) (n : ℕ) (value : ℚ) :
    accumulate step (n + 1) value = accumulate step n (round (value + step)) := by
  induction n with
  | zero => rfl
  | succ n ih => rw [accumulate, ih, accumulate]

theorem round_accumulate (double : round value = value) (n : ℕ) :
    round (accumulate step n value) = accumulate step n value := by
  cases n with
  | zero => exact double
  | succ n => exact round_round _

/-- Sums of steps that are not negative do not decrease. -/
theorem accumulate_mono (nonneg : 0 ≤ step) (double : round value = value) :
    Monotone fun n => accumulate step n value := by
  apply monotone_nat_of_le_succ
  intro n
  have h := round_mono (le_add_of_nonneg_right nonneg : accumulate step n value ≤ _ + step)
  rw [round_accumulate double] at h
  exact h

/-- Sums of steps of at most an integer do not pass the sum of the integers. -/
theorem accumulate_le {first bound : ℤ} (start : value ≤ first) (le : step ≤ bound) (n : ℕ)
    (small : ∀ k ≤ n, (first + k * bound).natAbs < 2 ^ 53) :
    accumulate step n value ≤ ((first + n * bound : ℤ) : ℚ) := by
  induction n with
  | zero => simpa [accumulate] using start
  | succ n ih =>
      have hbefore := ih fun k hk => small k (Nat.le_succ_of_le hk)
      apply round_le
      · exact small (n + 1) le_rfl
      · push_cast at hbefore ⊢
        linarith

/-- The error of a sum is that of its steps, as long as it is not too large. -/
theorem accumulate_error {e : ℤ} (n : ℕ)
    (small : ∀ k < n, |accumulate step k value + step| < 2 ^ e) :
    |accumulate step n value - (value + n * step)| ≤ n * 2 ^ (e - 54) := by
  induction n with
  | zero => simp [accumulate]
  | succ n ih =>
      have hbefore := ih fun k hk => small k (Nat.lt_succ_of_lt hk)
      have hround := round_error (small n (Nat.lt_succ_self n))
      have hsplit : accumulate step (n + 1) value - (value + (n + 1 : ℕ) * step) =
          (round (accumulate step n value + step) - (accumulate step n value + step)) +
            (accumulate step n value - (value + n * step)) := by
        rw [accumulate]
        push_cast
        ring
      rw [hsplit]
      refine (abs_add_le _ _).trans ((add_le_add hround hbefore).trans_eq ?_)
      push_cast
      ring

end

end Binary64
