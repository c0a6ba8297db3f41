/-
# Bitmaps

A set of small numbers is kept as the bits of an integer. Bits are set by
shifting and counted by looking at the lowest bit and shifting it out. The
results give the single bits of what these loops compute.
-/

import Mathlib.Data.List.Range
import Mathlib.Data.Nat.Bitwise

namespace Bitmap

/-- The lowest bits, set by shifting ones in. -/
def ones : ℕ → ℕ
  | 0 => 0
  | n + 1 => (ones n <<< 1) ||| 1

/-- The bits of a list of positions. -/
def ofPositions (positions : List ℕ) : ℕ :=
  positions.foldl (fun bitmap s => bitmap ||| (1 <<< s)) 0

/-- Count the bits of a bitmap by shifting them out, at most `fuel` of them. -/
def count : ℕ → ℕ → ℕ
  | 0, _ => 0
  | fuel + 1, bitmap =>
    if bitmap = 0 then 0
    else (if bitmap &&& 1 ≠ 0 then 1 else 0) + count fuel (bitmap >>> 1)

theorem testBit_ones (n i : ℕ) : (ones n).testBit i = decide (i < n) := by
  induction n generalizing i with
  | zero => simp [ones]
  | succ n ih =>
      have hone : Nat.testBit 1 i = decide (0 = i) := by
        rw [← Nat.pow_zero 2, Nat.testBit_two_pow]
      rw [ones, Nat.testBit_or, Nat.testBit_shiftLeft, hone]
      cases i with
      | zero => simp
      | succ i => simp [ih]

/-- Setting further bits. -/
theorem testBit_foldl (positions : List ℕ) (bitmap i : ℕ) :
    (positions.foldl (fun bitmap s => bitmap ||| (1 <<< s)) bitmap).testBit i =
      (bitmap.testBit i || decide (i ∈ positions)) := by
  induction positions generalizing bitmap with
  | nil => simp
  | cons s positions ih =>
      rw [List.foldl_cons, ih, Nat.testBit_or, Nat.one_shiftLeft, Nat.testBit_two_pow]
      by_cases h : i = s
      · simp [h]
      · simp [h, Ne.symm h]

theorem testBit_ofPositions (positions : List ℕ) (i : ℕ) :
    (ofPositions positions).testBit i = decide (i ∈ positions) := by
  rw [ofPositions, testBit_foldl, Nat.zero_testBit, Bool.false_or]

/-- The count of a bitmap is the number of its bits. -/
theorem count_eq {fuel bitmap : ℕ} (small : bitmap < 2 ^ fuel) :
    count fuel bitmap = ((List.range fuel).filter fun i => bitmap.testBit i).length := by
  induction fuel generalizing bitmap with
  | zero => rfl
  | succ fuel ih =>
      rw [count]
      have hhalf : bitmap >>> 1 < 2 ^ fuel := by
        rw [Nat.shiftRight_one, Nat.div_lt_iff_lt_mul Nat.two_pos, ← Nat.pow_succ]
        exact small
      have hrest : ((List.range fuel).map Nat.succ).filter (fun i => bitmap.testBit i) =
          ((List.range fuel).filter fun i => (bitmap >>> 1).testBit i).map Nat.succ := by
        rw [List.filter_map]
        congr 1
        apply List.filter_congr
        intro i _
        simp [Nat.testBit_shiftRight, Nat.add_comm]
      rw [List.range_succ_eq_map, List.filter_cons, hrest]
      by_cases hzero : bitmap = 0
      · simp [hzero]
      · rw [if_neg hzero, ih hhalf]
        rw [Nat.and_one_is_mod]
        by_cases hodd : bitmap % 2 = 1
        · simp [Nat.testBit_zero, hodd, Nat.add_comm]
        · simp [Nat.testBit_zero, hodd]

/-- The numbers below a lower bound. -/
theorem filter_range_lt {k n : ℕ} (lower : k ≤ n) (p : ℕ → Bool) :
    ((List.range n).filter fun i => decide (i < k) && p i) = (List.range k).filter p := by
  obtain ⟨m, rfl⟩ := Nat.exists_eq_add_of_le lower
  have hnone : ((List.range m).map (k + ·)).filter (fun i => decide (i < k) && p i) = [] := by
    rw [List.filter_eq_nil_iff]
    intro i hi
    obtain ⟨j, _, rfl⟩ := List.mem_map.mp hi
    simp
  rw [List.range_add, List.filter_append, hnone, List.append_nil]
  apply List.filter_congr
  intro i hi
  simp [List.mem_range.mp hi]

/-- Bitmaps of which every lower part has as many bits have the same bits. -/
theorem testBit_eq_of_counts {n : ℕ} {first second : ℕ}
    (counts : ∀ k, ((List.range n).filter fun i => i < k ∧ first.testBit i).length =
      ((List.range n).filter fun i => i < k ∧ second.testBit i).length)
    {i : ℕ} (below : i < n) : first.testBit i = second.testBit i := by
  have hlower (bitmap k : ℕ) (hk : k ≤ n) :
      ((List.range n).filter fun i => i < k ∧ bitmap.testBit i).length =
        ((List.range k).filter fun i => bitmap.testBit i).length := by
    rw [← filter_range_lt hk]
    simp
  have hshort := counts i
  have hlong := counts (i + 1)
  rw [hlower _ _ below.le, hlower _ _ below.le] at hshort
  rw [hlower _ _ below, hlower _ _ below, List.range_succ, List.filter_append,
    List.filter_append, List.length_append, List.length_append, hshort] at hlong
  have hbit := Nat.add_left_cancel hlong
  cases hfirst : first.testBit i <;> cases hsecond : second.testBit i <;>
    simp [hfirst, hsecond] at hbit ⊢

end Bitmap
