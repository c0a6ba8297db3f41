/-
# Numerals

The decimal text of a number is made of digits, and numbers of one text are the same. One text
begins with another if dropping last digits of its number leaves the other number.
-/

import Mathlib.Algebra.Group.Nat.Defs
import Mathlib.Data.List.Infix
import Mathlib.Tactic.Common

namespace Numeral

/-- The decimal text of a number. -/
def decimal (n : ℕ) : List Char := Nat.toDigits 10 n

theorem decimal_ne_nil (n : ℕ) : decimal n ≠ [] := Nat.toDigits_ne_nil

theorem isDigit_of_mem_decimal {n : ℕ} {c : Char} (mem : c ∈ decimal n) : c.isDigit = true :=
  Nat.isDigit_of_mem_toDigits (by decide) (by decide) mem

theorem not_mem_decimal {c : Char} (other : c.isDigit = false) (n : ℕ) : c ∉ decimal n := by
  intro mem
  rw [isDigit_of_mem_decimal mem] at other
  cases other

theorem ofDigitChars_decimal (n : ℕ) : Nat.ofDigitChars 10 (decimal n) 0 = n :=
  Nat.ofDigitChars_ten_toDigits

theorem decimal_injective {m n : ℕ} (same : decimal m = decimal n) : m = n := by
  rw [← ofDigitChars_decimal m, same, ofDigitChars_decimal]

/-- One number begins with another if dropping last digits leaves the other. -/
theorem decimal_prefix_iff {m : ℕ} (pos : 0 < m) (n : ℕ) :
    decimal m <+: decimal n ↔ ∃ k, n / 10 ^ k = m := by
  unfold decimal
  induction n using Nat.strong_induction_on with
  | _ n ih =>
    rcases Nat.lt_or_ge n 10 with hlt | hge
    · constructor
      · intro hinit
        have hlength : (Nat.toDigits 10 n).length = 1 := by
          rw [Nat.toDigits_of_lt_base hlt, List.length_singleton]
        have hwhole : Nat.toDigits 10 m = Nat.toDigits 10 n := by
          apply hinit.eq_of_length_le
          rw [hlength]
          exact Nat.length_toDigits_pos
        exact ⟨0, by rw [Nat.pow_zero, Nat.div_one, decimal_injective hwhole]⟩
      · rintro ⟨k, rfl⟩
        cases k with
        | zero => rw [Nat.pow_zero, Nat.div_one]
        | succ k =>
            have hten : 10 ≤ 10 ^ (k + 1) := Nat.le_self_pow (Nat.succ_ne_zero k) 10
            rw [Nat.div_eq_of_lt (hlt.trans_le hten)] at pos
            exact absurd pos (Nat.lt_irrefl 0)
    · have hten : ∀ k, n / 10 ^ (k + 1) = n / 10 / 10 ^ k := by
        intro k
        rw [Nat.pow_succ', Nat.div_div_eq_div_mul]
      rw [Nat.toDigits_of_base_le (by decide) hge, List.prefix_concat_iff,
        ih (n / 10) (Nat.div_lt_self (by omega) (by decide)),
        ← Nat.toDigits_of_base_le (by decide) hge]
      constructor
      · rintro (hwhole | ⟨k, hk⟩)
        · exact ⟨0, by rw [Nat.pow_zero, Nat.div_one, decimal_injective hwhole]⟩
        · exact ⟨k + 1, by rw [hten, hk]⟩
      · rintro ⟨k, hk⟩
        cases k with
        | zero =>
            rw [Nat.pow_zero, Nat.div_one] at hk
            exact .inl (by rw [hk])
        | succ k => exact .inr ⟨k, by rw [← hten, hk]⟩

end Numeral
