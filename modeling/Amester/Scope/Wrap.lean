/-
# Counters that wrap around

The recorder counts milliseconds and energy in 32 bits. A record is read with signed
counters, and counters are subtracted as they are. So a difference is the true one,
modulo `2 ^ 32`, only if the signed values are in order: the counter may not pass an odd
multiple of `2 ^ 31` in between. The interpolation template knows of wrapping around, but it
is only asked about a gap that the signed times show, and wraps to unsigned values.

An interpolated energy is a sum of equal steps in double precision. The steps are not exact,
and in a long gap the sums may come out above the energy behind the gap.
-/

import Amester.Scope.PowerAnalysis

namespace Amester.Scope

open BinaryFormat

/-! ## Records with their true counters -/

/-- The low 32 bits of a counter, as a signed number. -/
def stored (counter : ℕ) : ℤ := Int.bmod counter (2 ^ 32)

/-- The counter is between the same two odd multiples of `2 ^ 31`. -/
def window (counter : ℕ) : ℕ := (counter + 2 ^ 31) / 2 ^ 32

private theorem stored_eq (counter : ℕ) : stored counter = counter - 2 ^ 32 * window counter := by
  have h := Int.bmod_def (counter : ℤ) (2 ^ 32)
  unfold stored window
  generalize Int.bmod (counter : ℤ) (2 ^ 32) = b at h ⊢
  norm_num at h
  split_ifs at h <;> omega

/-- In a window the signed counter counts. -/
theorem stored_add {counter n : ℕ} (same : window (counter + n) = window counter) :
    stored (counter + n) = stored counter + n := by
  have hbefore := stored_eq counter
  have hbehind := stored_eq (counter + n)
  rw [same] at hbehind
  omega

/-- A record of a trace, and the counters of which it holds the low bits. -/
structure TrueRecord where
  data : Bytes
  length : data.length = 32
  time : ℕ
  energy : ℕ
  time_stored : unsigned ((data.drop 8).take 4).reverse = time % 2 ^ 32
  energy_stored : unsigned ((data.drop 21).take 4) = energy % 2 ^ 32

namespace TrueRecord

/-- A record of these counters with nothing else in it. -/
def ofCounters (time energy : ℕ) : TrueRecord where
  data := List.replicate 8 0 ++ ((bigEndian 4 time).reverse ++
    (List.replicate 9 0 ++ (bigEndian 4 energy ++ List.replicate 7 0)))
  length := by simp
  time := time
  energy := energy
  time_stored := by
    have hlow := unsigned_bigEndian 4 time
    rw [List.drop_left' List.length_replicate, List.take_left' (by simp), List.reverse_reverse]
    exact_mod_cast hlow
  energy_stored := by
    have hlow := unsigned_bigEndian 4 energy
    rw [← List.append_assoc, ← List.append_assoc, List.drop_left' (by simp),
      List.take_left' (by simp)]
    exact_mod_cast hlow

/-- What `data2rec` makes of it. -/
def record (r : TrueRecord) : Record := (data2rec r.data).get (data2rec_isSome r.length)

variable (r : TrueRecord)

private theorem signed_eq_stored {bytes : Bytes} {counter : ℕ} (length : bytes.length = 4)
    (low : unsigned bytes = counter % 2 ^ 32) : signed bytes = stored counter := by
  have hwidth : (256 ^ bytes.length : ℕ) = 2 ^ 32 := by
    rw [length]
    norm_num
  unfold signed stored
  simp only [hwidth, low]
  push_cast
  exact Int.emod_bmod _ _

private theorem record_bmcTime : r.record.bmcTime = stored r.time := by
  have hlength : ((r.data.drop 8).take 4).reverse.length = 4 := by simp [r.length]
  simp only [record, data2rec_eq r.length, Option.get_some]
  exact signed_eq_stored hlength r.time_stored

private theorem record_energy : r.record.energy = stored r.energy := by
  have hlength : ((r.data.drop 21).take 4).length = 4 := by simp [r.length]
  simp only [record, data2rec_eq r.length, Option.get_some]
  exact signed_eq_stored hlength r.energy_stored

end TrueRecord

/-! ## Powers -/

/-- The power of the records between two, by the time scale. -/
def Scale.power (scale : Scale) (prevrec rec : Record) : ℚ :=
  Binary64.round (((rec.energy - prevrec.energy) / (scale.span : ℤ) : ℤ) / 10)

/-- The power that is the true difference of the energies, modulo `2 ^ 32`. -/
def Scale.truePower (scale : Scale) (prevrec rec : TrueRecord) : ℚ :=
  Binary64.round (((((rec.energy : ℤ) - prevrec.energy) % 2 ^ 32) / (scale.span : ℤ) : ℤ) / 10)

/-- `ta_process_record` takes this power over the last millisecond. -/
theorem process1ms_power {history : List Record} {prevrec : Record}
    (prev : lindexEnd history 1 = some prevrec) (rec : Record) (r : Results) :
    process1ms history rec r =
      { r with
        extremes1ms := r.extremes1ms.take (Scale.ms1.power prevrec rec) rec.bmcTime
        hist1ms := r.hist1ms.add (r.binsize.index (Scale.ms1.power prevrec rec)) } := by
  have hpower : Scale.ms1.power prevrec rec =
      Binary64.round ((rec.energy - prevrec.energy : ℤ) / 10) := by
    simp [Scale.power, Scale.span]
  rw [process1ms, prev, hpower]

/-- `ta_process_record` takes this power over a longer time. -/
theorem processSegment_power (scale : Scale) {history : List Record} {prevrec : Record}
    (prev : lindexEnd history scale.span = some prevrec) (marker : ℤ) (binsize : BinSize)
    (rec : Record) (s : Segment) :
    processSegment scale.span marker binsize history rec s =
      { extremes := s.extremes.take (scale.power prevrec rec) rec.bmcTime
        vector := s.vector ++ [(scale.power prevrec rec, rec.bmcTime)]
        hist := if rcount rec % 64 = marker then
            s.hist.add (binsize.index (scale.power prevrec rec)) else s.hist } := by
  rw [processSegment, prev]
  rfl

private theorem stored_range (counter : ℕ) :
    -2 ^ 31 ≤ stored counter ∧ stored counter < 2 ^ 31 := by
  have h := stored_eq counter
  unfold window at h
  omega

theorem Scale.span_pos (scale : Scale) : 0 < (scale.span : ℤ) := by
  cases scale <;> decide

/-- A power is not negative if the energy does not decrease, and only then. -/
theorem power_nonneg_iff (scale : Scale) (prevrec rec : Record) :
    0 ≤ scale.power prevrec rec ↔ prevrec.energy ≤ rec.energy := by
  have hcast : ∀ n : ℤ, (0 : ℚ) ≤ (n : ℚ) / 10 ↔ 0 ≤ n := by
    intro n
    rw [le_div_iff₀ (by norm_num), zero_mul]
    exact_mod_cast Iff.rfl
  rw [Scale.power, Binary64.round_nonneg_iff, hcast, Int.ediv_nonneg_iff_of_pos scale.span_pos,
    Int.sub_nonneg]

private theorem truePower_nonneg (scale : Scale) (a b : TrueRecord) : 0 ≤ scale.truePower a b := by
  rw [Scale.truePower, Binary64.round_nonneg_iff]
  have hdiff : 0 ≤ ((b.energy : ℤ) - a.energy) % 2 ^ 32 := Int.emod_nonneg _ (by norm_num)
  have hquotient := Int.ediv_nonneg hdiff scale.span_pos.le
  have hcast : (0 : ℚ) ≤ ((((b.energy : ℤ) - a.energy) % 2 ^ 32 / (scale.span : ℤ) : ℤ) : ℚ) := by
    exact_mod_cast hquotient
  positivity

/-- A power is the true one if the signed energies are in order, and only then. -/
theorem power_true_iff (scale : Scale) (a b : TrueRecord) :
    scale.power a.record b.record = scale.truePower a b ↔ stored a.energy ≤ stored b.energy := by
  have horder := power_nonneg_iff scale a.record b.record
  rw [a.record_energy, b.record_energy] at horder
  constructor
  · intro heq
    rw [← horder, heq]
    exact truePower_nonneg scale a b
  · intro hle
    have hdiff : ((b.energy : ℤ) - a.energy) % 2 ^ 32 = stored b.energy - stored a.energy := by
      have ha := stored_eq a.energy
      have hb := stored_eq b.energy
      have hrangeA := stored_range a.energy
      have hrangeB := stored_range b.energy
      omega
    rw [Scale.power, Scale.truePower, a.record_energy, b.record_energy, hdiff]

/-! ## Gaps -/

/-- No odd multiple of `2 ^ 31` is in the gap, or there is no gap. -/
def Close (a b : TrueRecord) : Prop := b.time = a.time + 1 ∨ window a.time = window b.time

/-- The times of all milliseconds behind the first, up to the last. -/
def timesFrom (first : ℕ) (last : ℕ) : List ℤ :=
  (List.range (last - first)).map fun i => stored (first + 1 + i)

/-- Interpolation gives one record for every true millisecond from the first to the last. -/
def Filled : List TrueRecord → Prop
  | [] => True
  | first :: recs =>
    (interpolate ((first :: recs).map TrueRecord.record)).map Record.bmcTime =
      stored first.time :: timesFrom first.time (recs.getLastD first).time

private theorem timesFrom_append {first mid last : ℕ} (le : first ≤ mid) (le' : mid ≤ last) :
    timesFrom first last = timesFrom first mid ++ timesFrom mid last := by
  obtain ⟨m, rfl⟩ := Nat.exists_eq_add_of_le le
  obtain ⟨n, rfl⟩ := Nat.exists_eq_add_of_le le'
  have htotal : first + m + n - first = m + n := by omega
  have hbehind : (List.range n).map ((fun i => stored (first + 1 + i)) ∘ fun i => m + i) =
      (List.range n).map fun i => stored (first + m + 1 + i) := by
    apply List.map_congr_left
    intro i _
    have hsum : first + 1 + (m + i) = first + m + 1 + i := by omega
    rw [Function.comp, hsum]
  rw [timesFrom, timesFrom, timesFrom, htotal, Nat.add_sub_cancel_left, Nat.add_sub_cancel_left,
    List.range_add, List.map_append, List.map_map, hbehind]

section

variable {a b first : TrueRecord} {recs : List TrueRecord}

/-- The number of records that are made up for a gap. -/
theorem length_missing (first second : Record) :
    (missing first second).length = (second.bmcTime - first.bmcTime - 1).toNat := by
  unfold missing
  split
  · simp
  · rw [List.length_nil]
    omega

/-- A gap is filled with no more than the missing milliseconds, and with all of them if it is
close and only then. -/
theorem length_missing_true (later : a.time < b.time) :
    (missing a.record b.record).length ≤ b.time - a.time - 1 ∧
      ((missing a.record b.record).length = b.time - a.time - 1 ↔ Close a b) := by
  have ha := stored_eq a.time
  have hb := stored_eq b.time
  have hwindow : window a.time ≤ window b.time := by
    unfold window
    omega
  rw [length_missing, a.record_bmcTime, b.record_bmcTime, Close]
  omega

/-- A close gap is filled with the missing milliseconds. -/
theorem missing_times (later : a.time < b.time) (close : Close a b) :
    (missing a.record b.record ++ [b.record]).map Record.bmcTime = timesFrom a.time b.time := by
  have ha := stored_eq a.time
  have hb := stored_eq b.time
  obtain hnext | hwindow := close
  · have hnone : missing a.record b.record = [] := by
      apply List.eq_nil_of_length_eq_zero
      have hlength := (length_missing_true later).1
      omega
    have hone : b.time - a.time = 1 := by omega
    rw [hnone, timesFrom, hone, List.nil_append, List.map_singleton, b.record_bmcTime, hnext,
      List.range_one, List.map_singleton, Nat.add_zero]
  · have hrangeA := stored_range a.time
    have hrangeB := stored_range b.time
    have hexact : ExactTimes [a.record, b.record] := by
      constructor
      · simp only [List.forall_mem_cons, a.record_bmcTime, b.record_bmcTime, List.not_mem_nil,
          false_implies, implies_true, and_true]
        omega
      · simp only [List.forall_mem_cons, a.record_bmcTime, b.record_bmcTime, List.not_mem_nil,
          false_implies, implies_true, and_true]
        omega
    have hlater : a.record.bmcTime < b.record.bmcTime := by
      rw [a.record_bmcTime, b.record_bmcTime]
      omega
    have hcount := (length_missing_true later).2.mpr (.inr hwindow)
    have hlength : (missing a.record b.record ++ [b.record]).length = b.time - a.time := by
      rw [List.length_append, List.length_singleton]
      omega
    have hconsecutive := missing_consecutive hlater hexact
    rw [hconsecutive.map_bmcTime, timesFrom, hlength, a.record_bmcTime]
    apply List.map_congr_left
    intro i hi
    have hinside := List.mem_range.mp hi
    have hbetween : window (a.time + (1 + i)) = window a.time := by
      unfold window at hwindow ⊢
      omega
    have hcounts := stored_add hbetween
    rw [Nat.add_assoc, hcounts]
    push_cast
    ring

private theorem time_le_getLastD
    (increasing : (first :: recs).Pairwise fun a b => a.time < b.time) :
    first.time ≤ (recs.getLastD first).time := by
  obtain heq | hmem :=
    List.mem_cons.mp (List.getLastD_mem_cons : recs.getLastD first ∈ first :: recs)
  · rw [heq]
  · exact ((List.pairwise_cons.mp increasing).1 _ hmem).le

/-- No more records are made up than milliseconds are missing. All gaps are filled if they
are close and only then. -/
theorem length_interpolateFrom_true
    (increasing : (first :: recs).Pairwise fun a b => a.time < b.time) :
    (interpolateFrom first.record (recs.map TrueRecord.record)).length ≤
        (recs.getLastD first).time - first.time ∧
      ((interpolateFrom first.record (recs.map TrueRecord.record)).length =
        (recs.getLastD first).time - first.time ↔ (first :: recs).IsChain Close) := by
  induction recs generalizing first with
  | nil => simp [interpolateFrom]
  | cons second recs ih =>
      obtain ⟨hfirst, hrest⟩ := List.pairwise_cons.mp increasing
      have hlater := hfirst second List.mem_cons_self
      obtain ⟨hgap, hgapFilled⟩ := length_missing_true hlater
      obtain ⟨hbehind, hbehindFilled⟩ := ih hrest
      have hlast := time_le_getLastD hrest
      rw [List.map_cons, interpolateFrom, List.length_append, List.length_cons,
        List.getLastD_cons, List.isChain_cons_cons, ← hgapFilled, ← hbehindFilled]
      omega

private theorem interpolateFrom_times
    (increasing : (first :: recs).Pairwise fun a b => a.time < b.time)
    (close : (first :: recs).IsChain Close) :
    (interpolateFrom first.record (recs.map TrueRecord.record)).map Record.bmcTime =
      timesFrom first.time (recs.getLastD first).time := by
  induction recs generalizing first with
  | nil => simp [interpolateFrom, timesFrom]
  | cons second recs ih =>
      obtain ⟨hfirst, hrest⟩ := List.pairwise_cons.mp increasing
      obtain ⟨hclose, hbehind⟩ := List.isChain_cons_cons.mp close
      have hlater := hfirst second List.mem_cons_self
      have hlast := time_le_getLastD hrest
      rw [List.map_cons, interpolateFrom, List.append_cons, List.map_append,
        missing_times hlater hclose, ih hrest hbehind, List.getLastD_cons,
        timesFrom_append hlater.le hlast]

/-- Every gap is filled by the true milliseconds if all are close, and only then. -/
theorem filled_iff {recs : List TrueRecord}
    (increasing : recs.Pairwise fun a b => a.time < b.time) :
    Filled recs ↔ recs.IsChain Close := by
  cases recs with
  | nil => simp [Filled]
  | cons first recs =>
      rw [Filled, List.map_cons, interpolate_cons, List.map_cons, first.record_bmcTime,
        List.cons.injEq, eq_self, true_and]
      constructor
      · intro htimes
        have hlength := congrArg List.length htimes
        rw [List.length_map, timesFrom, List.length_map, List.length_range] at hlength
        exact (length_interpolateFrom_true increasing).2.mp hlength
      · exact interpolateFrom_times increasing

/-- Every power of two records is the true one if the signed energies are in order. -/
theorem powers_true_iff {recs : List TrueRecord} :
    (∀ scale : Scale, recs.Pairwise fun a b =>
        scale.power a.record b.record = scale.truePower a b) ↔
      recs.IsChain fun a b => stored a.energy ≤ stored b.energy := by
  simp only [power_true_iff]
  let order (a b : TrueRecord) : Prop := stored a.energy ≤ stored b.energy
  have htrans : Trans order order order := ⟨fun hab hbc => le_trans hab hbc⟩
  change (∀ _ : Scale, recs.Pairwise order) ↔ recs.IsChain order
  rw [List.isChain_iff_pairwise]
  exact ⟨fun h => h .ms1, fun h _ => h⟩

end

/-! ## Energies that are made up -/

section

open Binary64

variable {e e' : ℤ} {n : ℕ}

/-- The step from record to record in a gap of `n` records. -/
def gapStep (e e' : ℤ) (n : ℕ) : ℚ := Binary64.round ((e' - e : ℤ) / (n + 1))

/-- The interpolated values are truncated sums. -/
theorem interpSteps_eq (step : ℚ) (n : ℕ) (value : ℚ) :
    interpSteps step n value =
      (List.range n).map fun i => wide (accumulate step (i + 1) value) := by
  induction n generalizing value with
  | zero => rfl
  | succ n ih =>
      rw [interpSteps, ih, List.range_succ_eq_map, List.map_cons, List.map_map]
      congr 1
      apply List.map_congr_left
      intro i _
      rw [Function.comp, Nat.succ_eq_add_one, accumulate_succ' step (i + 1)]

private theorem gapStep_nonneg (le : e ≤ e') : 0 ≤ gapStep e e' n := by
  rw [gapStep, round_nonneg_iff]
  have hdiff : (0 : ℚ) ≤ (e' - e : ℤ) := by exact_mod_cast Int.sub_nonneg.mpr le
  positivity

/-- The sums do not get far: a step is at most one above its true value. -/
theorem accumulate_gapStep_le (small : e.natAbs < 2 ^ 50) (le : e ≤ e') (small' : e' < 2 ^ 50)
    (short : n < 2 ^ 50) {k : ℕ} (hk : k ≤ n) :
    accumulate (gapStep e e' n) k e ≤ ((e' + n : ℤ) : ℚ) := by
  have hpos : (0 : ℤ) < n + 1 := by positivity
  have hshare : 0 ≤ (e' - e) / ((n : ℤ) + 1) := Int.ediv_nonneg (by omega) hpos.le
  have hsum : ∀ j ≤ n, (j : ℤ) * ((e' - e) / ((n : ℤ) + 1) + 1) ≤ e' - e + n := by
    intro j hj
    have htotal := Int.mul_ediv_self_le (x := e' - e) hpos.ne'
    have hpart : (j : ℤ) * ((e' - e) / ((n : ℤ) + 1)) ≤ (n + 1) * ((e' - e) / ((n : ℤ) + 1)) :=
      mul_le_mul_of_nonneg_right (by omega) hshare
    rw [mul_add, mul_one]
    omega
  have hstep : gapStep e e' n ≤ ((e' - e) / ((n : ℤ) + 1) + 1 : ℤ) := by
    apply Binary64.round_le
    · have hone := Int.ediv_le_self ((n : ℤ) + 1) (by omega : 0 ≤ e' - e)
      omega
    · have hover := Int.lt_ediv_add_one_mul_self (e' - e) hpos
      rw [div_le_iff₀ (by positivity)]
      exact_mod_cast hover.le
  have hsmall : ∀ j ≤ k, (e + (j : ℤ) * ((e' - e) / ((n : ℤ) + 1) + 1)).natAbs < 2 ^ 53 := by
    intro j hj
    have hbefore := hsum j (hj.trans hk)
    have hnonneg : 0 ≤ (j : ℤ) * ((e' - e) / ((n : ℤ) + 1) + 1) := by positivity
    omega
  have hend := accumulate_le le_rfl hstep k hsmall
  refine hend.trans ?_
  have hbehind := hsum k hk
  exact_mod_cast (by omega : e + (k : ℤ) * ((e' - e) / ((n : ℤ) + 1) + 1) ≤ e' + n)

/-- The energies in a gap, when they do not decrease over it. -/
theorem interpWrap_energies (small : e.natAbs < 2 ^ 50) (le : e ≤ e') (small' : e' < 2 ^ 50)
    (short : n < 2 ^ 50) :
    interpWrap 32 e e' n =
      (List.range n).map fun i => truncate (accumulate (gapStep e e' n) (i + 1) e) := by
  have hvalue : Binary64.round (e : ℚ) = e := round_of_int (by omega)
  have hdiff : Binary64.round ((e' - e : ℤ) : ℚ) = (e' - e : ℤ) := round_of_int (by omega)
  have hn : Binary64.round (n : ℚ) = n := round_of_nat (by omega)
  have hcount : Binary64.round ((n : ℚ) + 1) = n + 1 := by
    have hround := round_of_nat (n := n + 1) (by omega)
    push_cast at hround ⊢
    exact hround
  rw [interpWrap]
  split_ifs with hzero
  · rw [hzero]
    rfl
  · rw [interpNoWrap, if_neg hzero]
    simp only [hvalue, hdiff, hn, hcount]
    rw [interpSteps_eq, ← gapStep]
    apply List.map_congr_left
    intro i hi
    have hinside := List.mem_range.mp hi
    have hlow := accumulate_mono (gapStep_nonneg (n := n) le) hvalue (Nat.zero_le (i + 1))
    have hhigh := accumulate_gapStep_le small le small' short (Nat.succ_le_of_lt hinside)
    exact wide_eq_truncate e (e' + n) hlow hhigh (by omega) (by omega)

/-- The step of 32-bit values is their share of the difference up to `2 ^ -21`. -/
theorem gapStep_error (le : e ≤ e') (low : -2 ^ 31 ≤ e) (high : e' ≤ 2 ^ 31) (n : ℕ) :
    |gapStep e e' n - ((e' - e : ℤ) : ℚ) / (n + 1)| ≤ 2 ^ ((33 : ℤ) - 54) := by
  have hnonneg : (0 : ℚ) ≤ ((e' - e : ℤ) : ℚ) := by exact_mod_cast Int.sub_nonneg.mpr le
  have hbound : ((e' - e : ℤ) : ℚ) ≤ 2 ^ 32 := by exact_mod_cast (by omega : e' - e ≤ 2 ^ 32)
  have hn : (1 : ℚ) ≤ n + 1 := le_add_of_nonneg_left n.cast_nonneg
  have hshare : ((e' - e : ℤ) : ℚ) / (n + 1) ≤ 2 ^ 32 := (div_le_self hnonneg hn).trans hbound
  apply round_error
  rw [abs_of_nonneg (div_nonneg hnonneg (by linarith))]
  exact hshare.trans_lt (by norm_num)

/-- The sums of 32-bit values stay below `2 ^ 33`. -/
theorem accumulate_gapStep_lt (small : e.natAbs ≤ 2 ^ 31) (le : e ≤ e') (small' : e' ≤ 2 ^ 31)
    (short : n < 2 ^ 10) {k : ℕ} (hk : k < n) :
    |accumulate (gapStep e e' n) k e + gapStep e e' n| < 2 ^ (33 : ℤ) := by
  have hlow : (-2 ^ 31 : ℚ) ≤ e := by exact_mod_cast (by omega : -2 ^ 31 ≤ e)
  have hbegin : (e : ℚ) ≤ accumulate (gapStep e e' n) k e :=
    accumulate_mono (gapStep_nonneg le) (round_of_int (by omega)) (Nat.zero_le k)
  have hend : accumulate (gapStep e e' n) k e ≤ 2 ^ 31 + 2 ^ 10 := by
    refine (accumulate_gapStep_le (by omega) le (by omega) (by omega) hk.le).trans ?_
    exact_mod_cast (by omega : e' + n ≤ 2 ^ 31 + 2 ^ 10)
  have hstep : gapStep e e' n ≤ 2 ^ 32 + 1 := by
    have herror := (abs_le.mp (gapStep_error le (by omega) small' n)).2
    have hnonneg : (0 : ℚ) ≤ ((e' - e : ℤ) : ℚ) := by exact_mod_cast Int.sub_nonneg.mpr le
    have hbound : ((e' - e : ℤ) : ℚ) ≤ 2 ^ 32 := by exact_mod_cast (by omega : e' - e ≤ 2 ^ 32)
    have hshare : ((e' - e : ℤ) : ℚ) / (n + 1) ≤ ((e' - e : ℤ) : ℚ) :=
      div_le_self hnonneg (le_add_of_nonneg_left n.cast_nonneg)
    have htiny : (2 : ℚ) ^ ((33 : ℤ) - 54) ≤ 1 := by norm_num
    linarith
  rw [abs_lt]
  have hnonneg := gapStep_nonneg (n := n) le
  constructor
  · norm_num
    linarith
  · norm_num
    linarith

/-- In a short gap the errors of all steps are less than one share. -/
theorem errors_le_share {d : ℚ} (one : 1 ≤ d) (short : n < 2 ^ 10) :
    (n : ℚ) * 2 ^ ((33 : ℤ) - 53) ≤ d / (n + 1) := by
  have hn : (n : ℚ) + 1 ≤ 2 ^ 10 := by exact_mod_cast short
  have hpos : (0 : ℚ) < n + 1 := by positivity
  have hsquare : (n : ℚ) * (n + 1) ≤ 2 ^ 10 * 2 ^ 10 := by
    gcongr
    linarith
  rw [le_div_iff₀ hpos]
  norm_num at hsquare ⊢
  linarith

/-- In a short gap rounding adds less than a step to the sum. -/
theorem accumulate_le_of_short (small : e.natAbs ≤ 2 ^ 31) (le : e ≤ e') (small' : e' ≤ 2 ^ 31)
    (short : n < 2 ^ 10) : accumulate (gapStep e e' n) n e ≤ e' := by
  obtain rfl | hless := le.eq_or_lt
  · have hzero : gapStep e e n ≤ (0 : ℤ) := by simp [gapStep, Binary64.round]
    have hsmall : ∀ k ≤ n, (e + (k : ℤ) * 0).natAbs < 2 ^ 53 := by
      intro k _
      omega
    have hvalue : Binary64.round (e : ℚ) = e := round_of_int (by omega)
    have hend := accumulate_le le_rfl hzero n hsmall
    rwa [mul_zero, add_zero] at hend
  have hone : (1 : ℚ) ≤ ((e' - e : ℤ) : ℚ) := by exact_mod_cast (by omega : 1 ≤ e' - e)
  have hdiff : ((e' - e : ℤ) : ℚ) = e' - e := Int.cast_sub e' e
  have hstep := (abs_le.mp (gapStep_error le (by omega) small' n)).2
  have hend := (abs_le.mp (accumulate_error n fun k hk =>
    accumulate_gapStep_lt small le small' short hk)).2
  have herrors := errors_le_share hone short
  generalize ((e' - e : ℤ) : ℚ) = d at hone hdiff hstep herrors
  have hsteps : (n : ℚ) * gapStep e e' n ≤ n * (d / (n + 1) + 2 ^ ((33 : ℤ) - 54)) := by
    gcongr
    linarith
  have hshares : (n : ℚ) * (d / (n + 1)) = d - d / (n + 1) := by
    have hpos : (n : ℚ) + 1 ≠ 0 := by positivity
    field_simp
    ring
  norm_num at hend hsteps herrors
  linarith

/-- The truncated sums up to the last are in order, and what is behind them is if it is above
the last. -/
theorem isChain_energies (le : e ≤ e') (double : e.natAbs < 2 ^ 50) :
    ((List.range (n + 1)).map (fun i => truncate (accumulate (gapStep e e' n) i e)) ++
        [e']).IsChain (· ≤ ·) ↔
      truncate (accumulate (gapStep e e' n) n e) ≤ e' := by
  have hvalue : Binary64.round (e : ℚ) = e := round_of_int (by omega)
  have hsorted : ((List.range (n + 1)).map fun i =>
      truncate (accumulate (gapStep e e' n) i e)).IsChain (· ≤ ·) := by
    rw [List.isChain_iff_pairwise, List.pairwise_map]
    apply List.pairwise_lt_range.imp
    intro i j hij
    exact truncate_mono (accumulate_mono (gapStep_nonneg le) hvalue hij.le)
  have hlast : ((List.range (n + 1)).map fun i =>
      truncate (accumulate (gapStep e e' n) i e)).getLast? =
        some (truncate (accumulate (gapStep e e' n) n e)) := by
    rw [List.range_succ, List.map_append, List.getLast?_append]
    rfl
  rw [List.isChain_append]
  constructor
  · intro h
    exact h.2.2 _ hlast _ rfl
  · intro h
    refine ⟨hsorted, List.isChain_singleton _, ?_⟩
    intro x hx y hy
    rw [hlast] at hx
    obtain rfl := Option.some.inj hx
    obtain rfl := Option.some.inj hy
    exact h

end

/-- The rounded sum of the steps in a gap does not get above the energy behind the gap. -/
def Steady (a b : TrueRecord) : Prop :=
  let n := (stored b.time - stored a.time - 1).toNat
  Binary64.truncate (Binary64.accumulate (gapStep (stored a.energy) (stored b.energy) n) n
    (stored a.energy)) ≤ stored b.energy

section

variable {R : Record → Record → Prop} {first : Record} {recs : List Record}

private theorem isChain_interpolateFrom :
    (first :: interpolateFrom first recs).IsChain R ↔
      (first :: recs).IsChain fun r r' => (r :: (missing r r' ++ [r'])).IsChain R := by
  induction recs generalizing first with
  | nil => simp [interpolateFrom]
  | cons second recs ih =>
      rw [interpolateFrom, List.isChain_cons_split, ih, List.isChain_cons_cons]

private theorem isChain_interpolate :
    (interpolate recs).IsChain R ↔
      recs.IsChain fun r r' => (r :: (missing r r' ++ [r'])).IsChain R := by
  cases recs with
  | nil => simp [interpolate]
  | cons first recs => rw [interpolate_cons, isChain_interpolateFrom]

end

private theorem missingRecord_energy (first second : Record) (n i : ℕ) :
    (missingRecord first second n i).energy =
      (interpWrap 32 first.energy second.energy n).getD i 0 := rfl

private theorem missing_energies {a b : TrueRecord} (le : stored a.energy ≤ stored b.energy) :
    (missing a.record b.record).map Record.energy =
      (List.range (stored b.time - stored a.time - 1).toNat).map fun i =>
        Binary64.truncate (Binary64.accumulate (gapStep (stored a.energy) (stored b.energy)
          (stored b.time - stored a.time - 1).toNat) (i + 1) (stored a.energy)) := by
  have hrangeA := stored_range a.energy
  have hrangeB := stored_range b.energy
  have htimeA := stored_range a.time
  have htimeB := stored_range b.time
  have hshort : (stored b.time - stored a.time - 1).toNat < 2 ^ 50 := by omega
  have hsmall : (stored a.energy).natAbs < 2 ^ 50 := by omega
  have hsmall' : stored b.energy < 2 ^ 50 := by omega
  have henergies := interpWrap_energies hsmall le hsmall' hshort
  unfold missing
  simp only [a.record_bmcTime, b.record_bmcTime]
  split_ifs with hgap
  · rw [List.map_map]
    apply List.map_congr_left
    intro i hi
    rw [Function.comp, missingRecord_energy, a.record_energy, b.record_energy, henergies,
      List.getD_eq_getElem?_getD, List.getElem?_map, List.getElem?_range (List.mem_range.mp hi),
      Option.map_some, Option.getD_some]
  · have hnone : (stored b.time - stored a.time - 1).toNat = 0 := by omega
    rw [hnone, List.range_zero, List.map_nil, List.map_nil]

/-- Over a gap the energies are in order if those around it are and the sum is steady. -/
theorem gap_isChain_iff (a b : TrueRecord) :
    (a.record :: (missing a.record b.record ++ [b.record])).IsChain
        (fun r r' => r.energy ≤ r'.energy) ↔
      stored a.energy ≤ stored b.energy ∧ Steady a b := by
  have hrangeA := stored_range a.energy
  have hrangeB := stored_range b.energy
  rw [← List.isChain_map (fun r : Record => r.energy) (R := (· ≤ ·)), List.map_cons,
    List.map_append,
    List.map_singleton, a.record_energy, b.record_energy]
  by_cases hle : stored a.energy ≤ stored b.energy
  · have hmissing : stored a.energy :: (missing a.record b.record).map Record.energy =
        (List.range ((stored b.time - stored a.time - 1).toNat + 1)).map fun i =>
          Binary64.truncate (Binary64.accumulate (gapStep (stored a.energy) (stored b.energy)
            (stored b.time - stored a.time - 1).toNat) i (stored a.energy)) := by
      rw [missing_energies hle, List.range_succ_eq_map, List.map_cons, List.map_map,
        Binary64.accumulate, Binary64.truncate_of_int]
      rfl
    rw [← List.cons_append, hmissing, isChain_energies hle (by omega), Steady]
    exact (and_iff_right hle).symm
  · have hnone : ¬ (stored a.energy :: ((missing a.record b.record).map Record.energy ++
        [stored b.energy])).IsChain (· ≤ ·) := by
      rw [List.isChain_iff_pairwise]
      intro hpairwise
      exact hle ((List.pairwise_cons.mp hpairwise).1 _ (List.mem_append_right _ List.mem_cons_self))
    exact iff_of_false hnone fun h => hle h.1

/-- In a gap of a second the energies are steady. -/
theorem steady_of_short {a b : TrueRecord} (later : a.time < b.time)
    (le : stored a.energy ≤ stored b.energy) (short : b.time - a.time ≤ 1024) : Steady a b := by
  have hrangeA := stored_range a.energy
  have hrangeB := stored_range b.energy
  have hshort : (stored b.time - stored a.time - 1).toNat < 2 ^ 10 := by
    have hfew := (length_missing_true later).1
    rw [length_missing, a.record_bmcTime, b.record_bmcTime] at hfew
    omega
  have hsum := Binary64.truncate_mono
    (accumulate_le_of_short (by omega) le (by omega) hshort)
  rwa [Binary64.truncate_of_int] at hsum

/-! ## Wrapping around -/

/-- Every gap is filled by the true milliseconds, the power of two records is the true one, and
no power of the interpolated trace is negative. -/
structure Wrapped (recs : List TrueRecord) : Prop where
  filled : Filled recs
  powers : ∀ scale : Scale, recs.Pairwise fun a b =>
    scale.power a.record b.record = scale.truePower a b
  nonneg : ∀ scale : Scale, (interpolate (recs.map TrueRecord.record)).Pairwise fun r r' =>
    0 ≤ scale.power r r'

/-- No counter of neighbouring records passes an odd multiple of `2 ^ 31`, and the sum of the
energy steps is steady. -/
structure Unwrapped (a b : TrueRecord) : Prop where
  close : Close a b
  energies : stored a.energy ≤ stored b.energy
  steady : Steady a b

theorem nonneg_iff {recs : List TrueRecord} :
    (∀ scale : Scale, (interpolate (recs.map TrueRecord.record)).Pairwise fun r r' =>
        0 ≤ scale.power r r') ↔
      recs.IsChain fun a b => stored a.energy ≤ stored b.energy ∧ Steady a b := by
  simp only [power_nonneg_iff]
  let order (r r' : Record) : Prop := r.energy ≤ r'.energy
  have htrans : Trans order order order := ⟨fun hab hbc => le_trans hab hbc⟩
  have hchain : (∀ _ : Scale, (interpolate (recs.map TrueRecord.record)).Pairwise order) ↔
      (interpolate (recs.map TrueRecord.record)).IsChain order := by
    rw [List.isChain_iff_pairwise]
    exact ⟨fun h => h .ms1, fun h _ => h⟩
  rw [hchain, isChain_interpolate, List.isChain_map]
  simp only [order, gap_isChain_iff]

/-- The counters are followed through a list of records exactly if no counter passes an odd
multiple of `2 ^ 31` between neighbours and the energies in the gaps are steady. -/
theorem wrapped_iff {recs : List TrueRecord}
    (increasing : recs.Pairwise fun a b => a.time < b.time ∧ a.energy ≤ b.energy) :
    Wrapped recs ↔ recs.IsChain Unwrapped := by
  have htimes : recs.Pairwise fun a b => a.time < b.time := increasing.imp And.left
  constructor
  · rintro ⟨hfilled, hpowers, hnonneg⟩
    have hclose := (filled_iff htimes).mp hfilled
    have hsteady := nonneg_iff.mp hnonneg
    rw [List.isChain_iff_getElem] at hclose hsteady ⊢
    intro i hi
    exact ⟨hclose i hi, (hsteady i hi).1, (hsteady i hi).2⟩
  · intro h
    exact ⟨(filled_iff htimes).mpr (h.imp fun _ _ hab => hab.close),
      powers_true_iff.mpr (h.imp fun _ _ hab => hab.energies),
      nonneg_iff.mpr (h.imp fun _ _ hab => ⟨hab.energies, hab.steady⟩)⟩

/-- Both counters are just below `2 ^ 31`. -/
def nearSign : List TrueRecord :=
  [.ofCounters 2147483640 2147483000, .ofCounters 2147483643 2147483300,
    .ofCounters 2147483644 2147483300, .ofCounters 2147483647 2147483647]

theorem nearSign_wrapped : Wrapped nearSign ↔ nearSign.IsChain Unwrapped := by
  have increasing : nearSign.Pairwise fun a b => a.time < b.time ∧ a.energy ≤ b.energy := by
    simp [nearSign, TrueRecord.ofCounters]
  exact wrapped_iff increasing

/-- A gap in which the time passes `2 ^ 31` is not filled. -/
theorem gap_not_filled :
    ¬ ∀ recs : List TrueRecord,
        (recs.Pairwise fun a b => a.time < b.time ∧ a.energy ≤ b.energy) → Wrapped recs := by
  intro wrapped
  have increasing : [TrueRecord.ofCounters 2147483646 0, .ofCounters 2147483649 0].Pairwise
      fun a b => a.time < b.time ∧ a.energy ≤ b.energy := by
    simp [TrueRecord.ofCounters]
  have hfilled := (wrapped _ increasing).filled
  have hlength := congrArg List.length hfilled
  revert hlength
  decide +kernel

end Amester.Scope
