/-
# Interpolating missing records

Between two records that are further apart than one millisecond the missing
records are made up. Every value has a rule: it is set to zero or one, copied from
the record before the gap, or interpolated in double precision, with or without
wrapping around.

The time is interpolated like any other value. It increases by one from record to
record, so as long as the times and their differences are integers of 53 bits rounding
does not disturb it, and the records made up fill the gap exactly.
-/

import Amester.Lib.Binary64
import Amester.Scope.Record

namespace Amester.Scope

open BinaryFormat

/-! ## Integers between two integers -/

/-- `wide`: the low 64 bits of the integer part, as a signed integer. -/
def wide (value : ℚ) : ℤ := Int.bmod (Binary64.truncate value) (2 ^ 64)

/-- A value between integers of 64 bits is only truncated. -/
theorem wide_eq_truncate {value : ℚ} (low high : ℤ) (le : low ≤ value)
    (le' : value ≤ high) (small : -2 ^ 63 ≤ low) (small' : high < 2 ^ 63) :
    wide value = Binary64.truncate value := by
  have hlow : low ≤ Binary64.truncate value :=
    (Binary64.truncate_of_int low).ge.trans (Binary64.truncate_mono le)
  have hhigh : Binary64.truncate value ≤ high :=
    (Binary64.truncate_mono le').trans (Binary64.truncate_of_int high).le
  rw [wide]
  apply Int.bmod_eq_of_le_mul_two
  · omega
  · omega

/-- So many sums of a value and a step, as integers. -/
def interpSteps (step : ℚ) : ℕ → ℚ → List ℤ
  | 0, _ => []
  | n + 1, value =>
    wide (Binary64.round (value + step)) :: interpSteps step n (Binary64.round (value + step))

/-- Interpolate `n` integer values between two integers. -/
def interpNoWrap (f1 f2 : ℤ) (n : ℕ) : List ℤ :=
  if n = 0 then []
  else
    let value := Binary64.round f1
    let diff := f2 - f1
    let step := Binary64.round (Binary64.round diff / Binary64.round (Binary64.round n + 1))
    interpSteps step n value

/-- Interpolate an accumulator that wraps around, of so many bits. -/
def interpWrap (bits : ℕ) (f1 f2 : ℤ) (n : ℕ) : List ℤ :=
  if n = 0 then []
  else if f2 ≥ f1 then interpNoWrap f1 f2 n
  else (interpNoWrap f1 (f2 + (2 ^ bits - 1) + 1) n).map (· % 2 ^ bits)

/-! ## Records between two records -/

/-- The missing record number `i` of `n`, by the interpolation template. -/
def missingRecord (first second : Record) (n i : ℕ) : Record where
  before := (interpWrap 64 first.before second.before n).getD i 0
  bmcTime := (interpWrap 32 first.bmcTime second.bmcTime n).getD i 0
  perfCtr := first.perfCtr
  startStop := first.startStop
  cpu0 := first.cpu0
  cpu1 := first.cpu1
  cpu2 := first.cpu2
  cpu3 := first.cpu3
  energy := (interpWrap 32 first.energy second.energy n).getD i 0
  temp0 := (interpNoWrap first.temp0 second.temp0 n).getD i 0
  demandPower := (interpNoWrap first.demandPower second.demandPower n).getD i 0
  pcount := (interpWrap 8 first.pcount second.pcount n).getD i 0
  tcount := (interpWrap 8 first.tcount second.tcount n).getD i 0
  throttle0 := first.throttle0
  throttle1 := first.throttle1
  lpc15 := 0
  isInterpolated := 1

/-- The records missing between two records. -/
def missing (first second : Record) : List Record :=
  if second.bmcTime - first.bmcTime > 1 then
    let n := (second.bmcTime - first.bmcTime - 1).toNat
    (List.range n).map (missingRecord first second n)
  else []

/-- Fill the gaps of records that follow `first`. -/
def interpolateFrom : Record → List Record → List Record
  | _, [] => []
  | first, second :: recs => missing first second ++ second :: interpolateFrom second recs

def interpolate : List Record → List Record
  | [] => []
  | first :: recs => interpolateFrom first (first :: recs)

/-! ## Interpolated times -/

/-- Steps of one from a small integer are the integers behind it. -/
theorem interpSteps_one (n : ℕ) :
    ∀ t : ℤ, -2 ^ 53 < t → t + n < 2 ^ 53 →
      interpSteps 1 n t = (List.range n).map fun i : ℕ => t + 1 + i := by
  induction n with
  | zero => exact fun _ _ _ => rfl
  | succ n ih =>
      intro t large small
      have hsum : Binary64.round ((t : ℚ) + 1) = ((t + 1 : ℤ) : ℚ) := by
        have hround := Binary64.round_of_int (n := t + 1) (by omega)
        push_cast at hround ⊢
        exact hround
      have hwide : wide ((t + 1 : ℤ) : ℚ) = t + 1 := by
        rw [wide_eq_truncate (t + 1) (t + 1) le_rfl le_rfl (by omega) (by omega)]
        exact Binary64.truncate_of_int (t + 1)
      rw [interpSteps, hsum, hwide, ih (t + 1) (by omega) (by push_cast at small ⊢; omega),
        List.range_succ_eq_map, List.map_cons, List.map_map]
      congr 1
      · simp
      · apply List.map_congr_left
        intro i _
        simp only [Function.comp, Nat.cast_succ]
        ring

/-- Between two times `n + 1` apart the interpolated times are those in between. -/
theorem interpWrap_times {t t' : ℤ} {n : ℕ} (large : t.natAbs < 2 ^ 53)
    (small : t'.natAbs < 2 ^ 53) (short : n + 1 < 2 ^ 53) (gap : t' = t + n + 1) :
    interpWrap 32 t t' n = (List.range n).map fun i : ℕ => t + 1 + i := by
  rw [interpWrap]
  split_ifs with hzero hwrap
  · subst hzero
    rfl
  · rw [interpNoWrap, if_neg hzero]
    have hvalue : Binary64.round (t : ℚ) = t := Binary64.round_of_int (by omega)
    have hdiff : Binary64.round ((t' - t : ℤ) : ℚ) = (n + 1 : ℕ) := by
      have hround := Binary64.round_of_int (n := t' - t) (by omega)
      rw [hround, gap]
      push_cast
      ring
    have hn : Binary64.round (n : ℚ) = n := Binary64.round_of_nat (by omega)
    have hcount : Binary64.round ((n : ℚ) + 1) = (n + 1 : ℕ) := by
      have hround := Binary64.round_of_nat (n := n + 1) (by omega)
      push_cast at hround ⊢
      exact hround
    have hone : Binary64.round 1 = 1 := by decide +kernel
    have hself : ((n + 1 : ℕ) : ℚ) / (n + 1 : ℕ) = 1 := div_self (by positivity)
    simp only [hvalue, hdiff, hn, hcount, hself, hone]
    exact interpSteps_one n t (by omega) (by omega)
  · omega

/-! ## Interpolated records -/

/-- The times increase by one from `t` on. -/
def Consecutive : ℤ → List Record → Prop
  | _, [] => True
  | t, r :: recs => r.bmcTime = t ∧ Consecutive (t + 1) recs

theorem consecutive_append {t : ℤ} {recs recs' : List Record} :
    Consecutive t (recs ++ recs') ↔
      Consecutive t recs ∧ Consecutive (t + recs.length) recs' := by
  induction recs generalizing t with
  | nil => simp [Consecutive]
  | cons r recs ih =>
      have hshift : t + 1 + (recs.length : ℤ) = t + ((r :: recs).length : ℕ) := by
        rw [List.length_cons]
        push_cast
        ring
      rw [List.cons_append, Consecutive, Consecutive, ih, hshift, and_assoc]

theorem Consecutive.map_bmcTime {t : ℤ} {recs : List Record} (h : Consecutive t recs) :
    recs.map Record.bmcTime = (List.range recs.length).map fun i : ℕ => t + i := by
  induction recs generalizing t with
  | nil => rfl
  | cons r recs ih =>
      obtain ⟨htime, hrest⟩ := h
      rw [List.map_cons, List.length_cons, List.range_succ_eq_map, List.map_cons, List.map_map,
        ih hrest, htime]
      congr 1
      · simp
      · apply List.map_congr_left
        intro i _
        simp only [Function.comp, Nat.cast_succ]
        ring

theorem consecutive_of_map {t : ℤ} {recs : List Record}
    (h : recs.map Record.bmcTime = (List.range recs.length).map fun i : ℕ => t + i) :
    Consecutive t recs := by
  induction recs generalizing t with
  | nil => trivial
  | cons r recs ih =>
      rw [List.map_cons, List.length_cons, List.range_succ_eq_map, List.map_cons, List.map_map,
        List.cons.injEq] at h
      refine ⟨by simpa using h.1, ih ?_⟩
      rw [h.2]
      apply List.map_congr_left
      intro i _
      simp only [Function.comp, Nat.cast_succ]
      ring

theorem mem_missing {first second r : Record} (mem : r ∈ missing first second) :
    r.isInterpolated = 1 := by
  unfold missing at mem
  split at mem
  · obtain ⟨i, -, rfl⟩ := List.mem_map.mp mem
    rfl
  · simp at mem

/-- The times of records whose arithmetic is exact: they and their differences are
integers of 53 bits. -/
structure ExactTimes (recs : List Record) : Prop where
  times : ∀ r ∈ recs, r.bmcTime.natAbs < 2 ^ 53
  gaps : ∀ r ∈ recs, ∀ r' ∈ recs, (r'.bmcTime - r.bmcTime).natAbs < 2 ^ 53

/-- Of times that are not negative the differences are no larger than the times. -/
theorem exactTimes_of_nonneg {recs : List Record}
    (times : ∀ r ∈ recs, 0 ≤ r.bmcTime ∧ r.bmcTime < 2 ^ 53) : ExactTimes recs where
  times r hr := by
    have htime := times r hr
    omega
  gaps r hr r' hr' := by
    have htime := times r hr
    have htime' := times r' hr'
    omega

theorem ExactTimes.tail {r : Record} {recs : List Record} (exact : ExactTimes (r :: recs)) :
    ExactTimes recs :=
  ⟨fun r hr => exact.times r (List.mem_cons_of_mem _ hr),
    fun r hr r' hr' => exact.gaps r (List.mem_cons_of_mem _ hr) r' (List.mem_cons_of_mem _ hr')⟩

theorem ExactTimes.sublist {recs recs' : List Record} (exact : ExactTimes recs)
    (sub : List.Sublist recs' recs) : ExactTimes recs' :=
  ⟨fun r hr => exact.times r (sub.subset hr),
    fun r hr r' hr' => exact.gaps r (sub.subset hr) r' (sub.subset hr')⟩

/-- The times of a file have 32 bits, so their arithmetic is exact. -/
theorem exactTimes_fileRecords (file : Bytes) : ExactTimes (fileRecords file) where
  times r hr := by
    have hrange := bmcTime_range hr
    omega
  gaps r hr r' hr' := by
    have hrange := bmcTime_range hr
    have hrange' := bmcTime_range hr'
    omega

/-- The missing records and the one behind them. -/
theorem missing_consecutive {first second : Record} {recs : List Record}
    (later : first.bmcTime < second.bmcTime) (exact : ExactTimes (first :: second :: recs)) :
    Consecutive (first.bmcTime + 1) (missing first second ++ [second]) := by
  obtain ⟨n, hn⟩ : ∃ n : ℕ, second.bmcTime = first.bmcTime + n + 1 :=
    ⟨(second.bmcTime - first.bmcTime - 1).toNat, by omega⟩
  have hcount : (second.bmcTime - first.bmcTime - 1).toNat = n := by omega
  have hmissing : missing first second = (List.range n).map (missingRecord first second n) := by
    unfold missing
    split
    · rw [hcount]
    · have hzero : n = 0 := by omega
      rw [hzero]
      rfl
  have hfirst := exact.times first List.mem_cons_self
  have hsecond := exact.times second (List.mem_cons_of_mem _ List.mem_cons_self)
  have hgap := exact.gaps first List.mem_cons_self second
    (List.mem_cons_of_mem _ List.mem_cons_self)
  rw [consecutive_append, hmissing]
  constructor
  · apply consecutive_of_map
    rw [List.map_map, List.length_map, List.length_range]
    apply List.map_congr_left
    intro i hi
    have htimes := interpWrap_times hfirst hsecond (by omega) hn
    simp only [Function.comp, missingRecord, htimes]
    rw [List.getD_eq_getElem?_getD, List.getElem?_map, List.getElem?_range (List.mem_range.mp hi)]
    rfl
  · refine ⟨?_, trivial⟩
    rw [hn, List.length_map, List.length_range]
    ring

/-- The gaps of a longer list are those of its parts and the one in between. -/
theorem interpolateFrom_append (first : Record) (recs recs' : List Record) :
    interpolateFrom first (recs ++ recs') =
      interpolateFrom first recs ++ interpolateFrom (recs.getLastD first) recs' := by
  induction recs generalizing first with
  | nil => rfl
  | cons second recs ih =>
      rw [List.cons_append, interpolateFrom, interpolateFrom, ih, List.append_assoc,
        List.cons_append, List.getLastD_cons]

theorem getLastD_interpolateFrom (first : Record) (recs : List Record) :
    (interpolateFrom first recs).getLastD first = recs.getLastD first := by
  induction recs generalizing first with
  | nil => rfl
  | cons second recs ih =>
      rw [interpolateFrom, List.getLastD_eq_getLast?, List.getLast?_append, List.getLast?_cons,
        ← List.getLastD_eq_getLast?, ih, List.getLastD_cons]
      rfl

theorem interpolateFrom_consecutive {first : Record} {recs : List Record}
    (increasing : (first :: recs).Pairwise fun r r' => r.bmcTime < r'.bmcTime)
    (exact : ExactTimes (first :: recs)) :
    Consecutive (first.bmcTime + 1) (interpolateFrom first recs) := by
  induction recs generalizing first with
  | nil => trivial
  | cons second recs ih =>
      obtain ⟨hfirst, hrest⟩ := List.pairwise_cons.mp increasing
      have hlater := hfirst second List.mem_cons_self
      have hgap := missing_consecutive hlater exact
      have hbehind := ih hrest exact.tail
      rw [consecutive_append] at hgap
      have hend : second.bmcTime = first.bmcTime + 1 + (missing first second).length := hgap.2.1
      rw [interpolateFrom, consecutive_append]
      refine ⟨hgap.1, hend, ?_⟩
      rw [← hend]
      exact hbehind

/-- A record is not missing behind itself. -/
@[simp]
theorem missing_self (r : Record) : missing r r = [] := by
  simp [missing]

theorem interpolate_cons (first : Record) (recs : List Record) :
    interpolate (first :: recs) = first :: interpolateFrom first recs := by
  simp [interpolate, interpolateFrom]

/-- Interpolation keeps every record. -/
theorem mem_interpolateFrom_of_mem {first r : Record} {recs : List Record} (mem : r ∈ recs) :
    r ∈ interpolateFrom first recs := by
  induction recs generalizing first with
  | nil => exact absurd mem List.not_mem_nil
  | cons second recs ih =>
      rw [interpolateFrom, List.mem_append]
      refine .inr ?_
      obtain rfl | hmem := List.mem_cons.mp mem
      · exact List.mem_cons_self
      · exact List.mem_cons_of_mem _ (ih hmem)

/-- Interpolation marks every record that it adds. -/
theorem mem_interpolateFrom {first r : Record} {recs : List Record}
    (mem : r ∈ interpolateFrom first recs) : r ∈ recs ∨ r.isInterpolated = 1 := by
  induction recs generalizing first with
  | nil => exact absurd mem List.not_mem_nil
  | cons second recs ih =>
      rw [interpolateFrom, List.mem_append, List.mem_cons] at mem
      rcases mem with hmissing | rfl | hmem
      · exact .inr (mem_missing hmissing)
      · exact .inl List.mem_cons_self
      · exact (ih hmem).imp_left (List.mem_cons_of_mem _)

/-- The records given follow each other in the interpolated list as before. -/
theorem sublist_interpolateFrom (first : Record) (recs : List Record) :
    List.Sublist recs (interpolateFrom first recs) := by
  induction recs generalizing first with
  | nil => exact List.Sublist.refl []
  | cons second recs ih =>
      exact ((ih second).cons_cons second).trans (List.sublist_append_right _ _)

theorem sublist_interpolate (recs : List Record) : List.Sublist recs (interpolate recs) := by
  cases recs with
  | nil => exact List.Sublist.refl []
  | cons first recs =>
      rw [interpolate_cons]
      exact (sublist_interpolateFrom first recs).cons_cons first

theorem mem_interpolate {r : Record} {recs : List Record} (mem : r ∈ interpolate recs) :
    r ∈ recs ∨ r.isInterpolated = 1 := by
  cases recs with
  | nil => exact absurd mem List.not_mem_nil
  | cons first recs => exact mem_interpolateFrom mem

theorem Consecutive.getLastD_bmcTime {first : Record} {recs : List Record}
    (h : Consecutive (first.bmcTime + 1) recs) :
    (recs.getLastD first).bmcTime = first.bmcTime + recs.length := by
  induction recs generalizing first with
  | nil => simp
  | cons second recs ih =>
      obtain ⟨htime, hrest⟩ := h
      rw [← htime] at hrest
      rw [List.getLastD_cons, ih hrest, htime, List.length_cons]
      push_cast
      ring

/-- Interpolation fills the gaps: the records given are there, in their order, the times
increase by one from the first to the last of them, and every other record is marked. -/
theorem interpolate_fills {recs : List Record} (nonempty : recs ≠ [])
    (increasing : recs.Pairwise fun r r' => r.bmcTime < r'.bmcTime) (exact : ExactTimes recs) :
    ((interpolate recs).length : ℤ) =
        (recs.getLast nonempty).bmcTime - (recs.head nonempty).bmcTime + 1 ∧
      (interpolate recs).map Record.bmcTime =
        (List.range (interpolate recs).length).map (fun i : ℕ => (recs.head nonempty).bmcTime + i) ∧
      List.Sublist recs (interpolate recs) ∧
      ∀ r ∈ interpolate recs, r ∉ recs → r.isInterpolated = 1 := by
  refine ⟨?_, ?_, sublist_interpolate recs, ?_⟩
  · cases recs with
    | nil => exact absurd rfl nonempty
    | cons first recs =>
        have hbehind := interpolateFrom_consecutive increasing exact
        have hlast := hbehind.getLastD_bmcTime
        rw [getLastD_interpolateFrom] at hlast
        have hgetLast : (first :: recs).getLast nonempty = recs.getLastD first := by
          rw [List.getLastD_eq_getLast?, ← Option.some.injEq, ← List.getLast?_eq_some_getLast,
            List.getLast?_cons]
        rw [interpolate_cons, List.length_cons, hgetLast, hlast, List.head_cons]
        push_cast
        ring
  · cases recs with
    | nil => exact absurd rfl nonempty
    | cons first recs =>
        rw [interpolate_cons, List.head_cons]
        exact Consecutive.map_bmcTime ⟨rfl, interpolateFrom_consecutive increasing exact⟩
  · intro r hmem hadded
    exact (mem_interpolate hmem).resolve_left hadded

/-- Four records around gaps of different sizes. -/
def gapRecords : List Record :=
  [1000, 1001, 1004, 1010].map fun t =>
    ⟨16 * t, t, 7, 2, [1, 2], [3, 4], -5, 64260, t % 300, 40, 900, t % 256, t % 100, 1, 2, 3, 0⟩

theorem gapRecords_filled :
    ((interpolate gapRecords).length : ℤ) = 1010 - 1000 + 1 ∧
      (interpolate gapRecords).map Record.bmcTime =
        (List.range (interpolate gapRecords).length).map (fun i : ℕ => (1000 : ℤ) + i) ∧
      List.Sublist gapRecords (interpolate gapRecords) ∧
      ∀ r ∈ interpolate gapRecords, r ∉ gapRecords → r.isInterpolated = 1 := by
  have increasing : gapRecords.Pairwise fun r r' => r.bmcTime < r'.bmcTime := by decide
  exact interpolate_fills (by decide) increasing (exactTimes_of_nonneg (by decide))

end Amester.Scope
