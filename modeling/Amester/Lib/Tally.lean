/-
# Counting into bins

A tally counts how often each value has occurred, and separately how many values there
were. Somebody who looks at some of the bins only sees all that was counted if no value
fell into another bin.
-/

import Mathlib.Algebra.BigOperators.Group.Finset.Piecewise
import Mathlib.Data.List.Count

/-- How often each value has occurred, and how many values there were. -/
structure Tally (α : Type*) where
  counts : α → ℕ
  total : ℕ

namespace Tally

variable {α : Type*} [DecidableEq α]

def empty : Tally α := ⟨fun _ => 0, 0⟩

def add (t : Tally α) (a : α) : Tally α :=
  ⟨Function.update t.counts a (t.counts a + 1), t.total + 1⟩

def addAll (t : Tally α) (values : List α) : Tally α := values.foldl add t

@[simp]
theorem addAll_nil (t : Tally α) : t.addAll [] = t := rfl

theorem addAll_append (t : Tally α) (values values' : List α) :
    t.addAll (values ++ values') = (t.addAll values).addAll values' :=
  List.foldl_append

theorem counts_add (t : Tally α) (b a : α) :
    (t.add b).counts a = t.counts a + if b = a then 1 else 0 := by
  by_cases hab : b = a
  · subst hab
    simp [add]
  · simp [add, Function.update_of_ne (Ne.symm hab), hab]

theorem counts_addAll (values : List α) (t : Tally α) (a : α) :
    (t.addAll values).counts a = t.counts a + values.count a := by
  induction values generalizing t with
  | nil => rfl
  | cons b values ih =>
      have hcons : (t.addAll (b :: values)).counts a = ((t.add b).addAll values).counts a := rfl
      rw [hcons, ih, counts_add, List.count_cons]
      simp only [beq_iff_eq]
      omega

theorem total_addAll (values : List α) (t : Tally α) :
    (t.addAll values).total = t.total + values.length := by
  induction values generalizing t with
  | nil => rfl
  | cons b values ih =>
      have hcons : (t.addAll (b :: values)).total = ((t.add b).addAll values).total := rfl
      have hadd : (t.add b).total = t.total + 1 := rfl
      rw [hcons, ih, hadd, List.length_cons]
      omega

/-- Every value is in one of the bins or has missed them. -/
theorem sum_count_add_missed (values : List α) (bins : Finset α) :
    ∑ a ∈ bins, values.count a + values.countP (· ∉ bins) = values.length := by
  induction values with
  | nil => simp
  | cons b values ih =>
      have hsum : ∑ a ∈ bins, (b :: values).count a =
          ∑ a ∈ bins, values.count a + if b ∈ bins then 1 else 0 := by
        simp only [List.count_cons, beq_iff_eq, Finset.sum_add_distrib, Finset.sum_ite_eq]
      rw [hsum, List.countP_cons, List.length_cons, ← ih]
      by_cases hmem : b ∈ bins
      · simp only [hmem, not_true_eq_false, decide_false, if_true]
        simp
        omega
      · simp [hmem]
        omega

/-- The bins hold all that was counted if every value fell into one of them, and only then. -/
theorem sum_counts_eq_total_iff (values : List α) (bins : Finset α) :
    ∑ a ∈ bins, (empty.addAll values).counts a = (empty.addAll values).total ↔
      ∀ a ∈ values, a ∈ bins := by
  have hmissed := sum_count_add_missed values bins
  simp only [counts_addAll, total_addAll, empty, Nat.zero_add]
  rw [← hmissed, Nat.left_eq_add, List.countP_eq_zero]
  simp

end Tally
