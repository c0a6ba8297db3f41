/-
# Accumulating a histogram

The firmware counts in bins of one, two or four bytes, which wrap around. Every snapshot that is
read is subtracted from the one before, as signed numbers in double precision. Masking the
differences gives the true growth, as long as a counter does not gain its whole range between
two snapshots, and the sums of doubles are exact up to `2 ^ 53`.
-/

import Amester.Lib.Elements
import Amester.Scope.Interpolate
import Amester.Sensor.Histogram
import Mathlib.Data.Fin.VecNotation

namespace Amester.Sensor

open BinaryFormat Scope

/-! ## Vectors -/

/-- The vectors of a histogram with `n` bins. Their elements are doubles. -/
structure Vectors (n : ℕ) where
  updates : ℕ
  diff : Fin n → ℚ
  raw : Fin n → ℚ
  rawOld : Fin n → ℚ
  hist : Fin n → ℚ
  histOld : Fin n → ℚ

variable {n : ℕ}

/-- The vectors are made anew. -/
def histogramClear (n : ℕ) : Vectors n where
  updates := 0
  diff _ := 0
  raw _ := 0
  rawOld _ := 0
  hist _ := 0
  histOld _ := 0

/-- The signed values of `n` bins, if there are enough bytes. -/
def histogramValues (n width : ℕ) (bytes : Bytes) : Option (Fin n → ℤ) :=
  if width * n ≤ bytes.length then some fun i => signed ((bytes.drop (width * i)).take width)
  else none

/-- The low bits of an element, as many as a bin has. -/
def masked (width : ℕ) (x : ℚ) : ℤ := wide x % 256 ^ width

/-- The bytes of a histogram are used: in histogram mode the differences are added, in time
series mode the values are scaled. The first histogram is only kept. -/
def histogramUse (width : ℕ) (mode : ℤ) (scalefactor : ℚ) (v : Vectors n) (bytes : Bytes) :
    Except String (Vectors n) :=
  match histogramValues n width bytes with
  | none => .error "can't read \"values\": no such variable"
  | some values =>
    let raw (i : Fin n) : ℚ := Binary64.round (values i)
    let diff (i : Fin n) : ℚ := Binary64.round (raw i - v.rawOld i)
    let diff (i : Fin n) : ℚ := if width = 8 then diff i else masked width (diff i)
    let v : Vectors n := { v with raw := raw }
    let v : Vectors n :=
      if v.updates = 0 then v
      else if mode = 0 then
        { v with diff := diff, hist := fun i => Binary64.round (diff i + v.histOld i) }
      else if width = 8 then v
      else { v with hist := fun i => Binary64.round (masked width (raw i) * scalefactor) }
    .ok { v with histOld := v.hist, rawOld := v.raw, updates := v.updates + 1 }

/-- The bytes that a call of `histogram_read` uses. -/
def ReadOutcome.bytes : ReadOutcome → Option Bytes
  | .read _ bytes _ => some bytes
  | _ => none

/-- What a call of `histogram_read` does to the vectors. -/
def histogramUpdate (width : ℕ) (mode : ℤ) (scalefactor : ℚ) (v : Vectors n)
    (outcome : ReadOutcome) : Except String (Vectors n) :=
  match outcome.bytes with
  | none => .ok v
  | some bytes => histogramUse width mode scalefactor v bytes

/-- One call of `histogram_read` after the other. -/
def histogramReads (width : ℕ) (mode : ℤ) (scalefactor : ℚ) (v : Vectors n) :
    List ReadOutcome → Except String (Vectors n)
  | [] => .ok v
  | outcome :: outcomes =>
    match histogramUpdate width mode scalefactor v outcome with
    | .error e => .error e
    | .ok v => histogramReads width mode scalefactor v outcomes

/-! ## Counters -/

/-- The bytes of counters, as many for each. -/
def counterBytes (width : ℕ) (counters : Fin n → ℕ) : Bytes :=
  (List.ofFn fun i => bigEndian width (counters i)).flatten

/-- No counter gains its whole range. -/
def Grows (width : ℕ) (counters counters' : Fin n → ℕ) : Prop :=
  ∀ i, counters i ≤ counters' i ∧ counters' i < counters i + 256 ^ width

theorem length_counterBytes (width : ℕ) (counters : Fin n → ℕ) :
    (counterBytes width counters).length = width * n := by
  have hsizes : ∀ c ∈ List.ofFn fun i => bigEndian width (counters i), c.length = width := by
    intro c hc
    obtain ⟨i, rfl⟩ := List.mem_ofFn.mp hc
    exact length_bigEndian width _
  rw [counterBytes, length_flatten_of_sizes hsizes, List.length_ofFn, Nat.mul_comm]

/-- Counters are read as signed numbers. -/
theorem histogramValues_counterBytes (width : ℕ) (counters : Fin n → ℕ) :
    histogramValues n width (counterBytes width counters) =
      some fun i => Int.bmod (counters i) (256 ^ width) := by
  have hsizes : ∀ c ∈ List.ofFn fun i => bigEndian width (counters i), c.length = width := by
    intro c hc
    obtain ⟨i, rfl⟩ := List.mem_ofFn.mp hc
    exact length_bigEndian width _
  rw [histogramValues, if_pos (length_counterBytes width counters).ge]
  congr 1
  funext i
  have hget : (List.ofFn fun i => bigEndian width (counters i))[(i : ℕ)]? =
      some (bigEndian width (counters i)) := by
    rw [List.getElem?_ofFn, dif_pos i.isLt]
  rw [counterBytes, take_drop_flatten hsizes hget, signed_bigEndian]

/-! ## Differences -/

theorem wide_of_int {m : ℤ} (small : m.natAbs < 2 ^ 53) : wide (Binary64.round (m : ℚ)) = m := by
  rw [Binary64.round_of_int small, wide, Binary64.truncate_of_int]
  apply Int.bmod_eq_of_le_mul_two <;> omega

/-- The masked difference of signed counters is what was gained. -/
theorem masked_difference {width c c' : ℕ} (short : width ≤ 4) (le : c ≤ c')
    (gain : c' < c + 256 ^ width) :
    masked width (Binary64.round
        ((Int.bmod c' (256 ^ width) : ℤ) - (Int.bmod c (256 ^ width) : ℤ) : ℚ)) =
      c' - c := by
  obtain ⟨M, hM⟩ : ∃ M : ℕ, M = 256 ^ width := ⟨_, rfl⟩
  have hpos : 0 < M := by
    rw [hM]
    positivity
  have hsmall : M ≤ 256 ^ 4 := hM ▸ Nat.pow_le_pow_right (by norm_num) short
  have hM' : (256 ^ width : ℤ) = M := by exact_mod_cast hM.symm
  rw [← hM] at gain ⊢
  have hlow := Int.le_bmod (x := (c : ℤ)) hpos
  have hhigh := Int.bmod_lt (x := (c : ℤ)) hpos
  have hlow' := Int.le_bmod (x := (c' : ℤ)) hpos
  have hhigh' := Int.bmod_lt (x := (c' : ℤ)) hpos
  have hwide := wide_of_int (m := Int.bmod c' M - Int.bmod c M) (by omega)
  have hmod : (Int.bmod c' M - Int.bmod c M) % (M : ℤ) = (c' - c) % (M : ℤ) := by
    rw [Int.sub_emod, Int.bmod_emod, Int.bmod_emod, ← Int.sub_emod]
  push_cast at hwide
  rw [masked, hwide, hM', hmod]
  exact Int.emod_eq_of_lt (by omega) (by omega)

/-! ## Sums -/

/-- What has been added up since the first counters. -/
structure Accumulated (width : ℕ) (first last : Fin n → ℕ) (v : Vectors n) : Prop where
  updates : v.updates ≠ 0
  rawOld : ∀ i, v.rawOld i = (Int.bmod (last i) (256 ^ width) : ℤ)
  histOld : ∀ i, v.histOld i = v.hist i
  hist : ∀ i, v.hist i = ((last i - first i : ℤ) : ℚ)

section

variable {width : ℕ} {scalefactor : ℚ} {v : Vectors n} {first last next : Fin n → ℕ}

theorem round_signed (short : width ≤ 4) (c : ℕ) :
    Binary64.round ((Int.bmod c (256 ^ width) : ℤ) : ℚ) = (Int.bmod c (256 ^ width) : ℤ) := by
  have hpos : 0 < 256 ^ width := by positivity
  have hsmall : 256 ^ width ≤ 256 ^ 4 := Nat.pow_le_pow_right (by norm_num) short
  have hlow := Int.le_bmod (x := (c : ℤ)) hpos
  have hhigh := Int.bmod_lt (x := (c : ℤ)) hpos
  apply Binary64.round_of_int
  generalize 256 ^ width = M at hpos hsmall hlow hhigh ⊢
  omega

variable (scalefactor first) in
/-- The first histogram is kept. -/
theorem histogramUse_first (short : width ≤ 4) (cleared : v.updates = 0)
    (zero : ∀ i, v.hist i = 0) :
    ∃ v', histogramUse width 0 scalefactor v (counterBytes width first) = .ok v' ∧
      Accumulated width first first v' := by
  refine ⟨_, by rw [histogramUse, histogramValues_counterBytes], ?_⟩
  simp only [cleared, if_true]
  constructor
  · exact Nat.succ_ne_zero 0
  · exact fun i => round_signed short (first i)
  · exact fun i => rfl
  · intro i
    simp [zero i]

variable (scalefactor) in
/-- Another histogram adds what was gained. -/
theorem Accumulated.step (inv : Accumulated width first last v) (short : width ≤ 4)
    (grows : Grows width last next) (le : ∀ i, first i ≤ last i)
    (small : ∀ i, next i < first i + 2 ^ 53) :
    ∃ v', histogramUse width 0 scalefactor v (counterBytes width next) = .ok v' ∧
      Accumulated width first next v' := by
  have hwidth : width ≠ 8 := by omega
  have hdiff : ∀ i, masked width (Binary64.round
      (Binary64.round (Int.bmod (next i) (256 ^ width) : ℤ) - v.rawOld i)) = next i - last i := by
    intro i
    rw [round_signed short, inv.rawOld, masked_difference short (grows i).1 (grows i).2]
  refine ⟨_, by rw [histogramUse, histogramValues_counterBytes], ?_⟩
  simp only [if_neg inv.updates, if_true, if_neg hwidth]
  constructor
  · exact Nat.succ_ne_zero _
  · exact fun i => round_signed short (next i)
  · exact fun i => rfl
  · intro i
    have hnext := (grows i).1
    have hfirst := le i
    have htotal := small i
    have hsum := Binary64.round_of_int (n := (next i - first i : ℤ)) (by omega)
    dsimp only
    rw [hdiff, inv.histOld, inv.hist, ← hsum]
    congr 1
    push_cast
    ring

variable (scalefactor) in
/-- Every call that uses bytes adds what was gained, and the others change nothing. -/
theorem Accumulated.run (inv : Accumulated width first last v) (short : width ≤ 4)
    {outcomes : List ReadOutcome} {counters : List (Fin n → ℕ)}
    (reports : outcomes.filterMap ReadOutcome.bytes = counters.map (counterBytes width))
    (grows : (last :: counters).IsChain (Grows width)) (le : ∀ i, first i ≤ last i)
    (small : ∀ c ∈ counters, ∀ i, c i < first i + 2 ^ 53) :
    ∃ v', histogramReads width 0 scalefactor v outcomes = .ok v' ∧
      Accumulated width first (counters.getLastD last) v' := by
  induction outcomes generalizing v last counters with
  | nil =>
      obtain rfl := List.map_eq_nil_iff.mp reports.symm
      exact ⟨v, rfl, inv⟩
  | cons outcome outcomes ih =>
      cases hbytes : outcome.bytes with
      | none =>
          rw [List.filterMap_cons_none hbytes] at reports
          rw [histogramReads, histogramUpdate, hbytes]
          exact ih inv reports grows le small
      | some bytes =>
          rw [List.filterMap_cons_some hbytes] at reports
          obtain ⟨next, behind, rfl, rfl, hbehind⟩ := List.map_eq_cons_iff.mp reports.symm
          obtain ⟨hgrows, hchain⟩ := List.isChain_cons_cons.mp grows
          obtain ⟨v', hstep, hinv⟩ := inv.step scalefactor short hgrows le
            (small next List.mem_cons_self)
          rw [histogramReads, histogramUpdate, hbytes]
          simp only [hstep, List.getLastD_cons]
          exact ih hinv hbehind.symm hchain (fun i => (le i).trans (hgrows i).1)
            fun c hc => small c (List.mem_cons_of_mem _ hc)

variable (scalefactor) in
/-- Calls that use no bytes change nothing. -/
theorem histogramReads_first {outcomes : List ReadOutcome} {bytes : Bytes}
    {behind : List Bytes} (reports : outcomes.filterMap ReadOutcome.bytes = bytes :: behind) :
    ∃ outcomes', outcomes'.filterMap ReadOutcome.bytes = behind ∧
      histogramReads width 0 scalefactor v outcomes =
        match histogramUse width 0 scalefactor v bytes with
        | .error e => .error e
        | .ok v' => histogramReads width 0 scalefactor v' outcomes' := by
  induction outcomes with
  | nil => simp at reports
  | cons outcome outcomes ih =>
      cases hbytes : outcome.bytes with
      | none =>
          rw [List.filterMap_cons_none hbytes] at reports
          rw [histogramReads, histogramUpdate, hbytes]
          exact ih reports
      | some bytes' =>
          rw [List.filterMap_cons_some hbytes, List.cons.injEq] at reports
          obtain ⟨rfl, hbehind⟩ := reports
          refine ⟨outcomes, hbehind, ?_⟩
          rw [histogramReads, histogramUpdate, hbytes]

/-- After `histogram_clear` and any calls of `histogram_read`, the accumulated histogram is what
the counters have gained since the first histogram that was read. -/
theorem accumulated_exact (short : width = 1 ∨ width = 2 ∨ width = 4) (scalefactor : ℚ)
    {outcomes : List ReadOutcome} {counters : List (Fin n → ℕ)}
    (reports : outcomes.filterMap ReadOutcome.bytes =
      (first :: counters).map (counterBytes width))
    (grows : (first :: counters).IsChain (Grows width))
    (small : ∀ c ∈ counters, ∀ i, c i < first i + 2 ^ 53) :
    ∃ v, histogramReads width 0 scalefactor (histogramClear n) outcomes = .ok v ∧
      ∀ i, v.hist i = ((counters.getLastD first i - first i : ℤ) : ℚ) := by
  have hwidth : width ≤ 4 := by omega
  obtain ⟨outcomes', hbehind, hreads⟩ := histogramReads_first scalefactor
    (v := histogramClear n) reports
  obtain ⟨v, hfirst, hinv⟩ := histogramUse_first scalefactor first
    (v := histogramClear n) hwidth rfl fun _ => rfl
  obtain ⟨v', hrun, hend⟩ := hinv.run scalefactor hwidth hbehind grows
    (fun _ => le_rfl) small
  refine ⟨v', ?_, hend.hist⟩
  rw [hreads, hfirst]
  exact hrun

end

/-- Two bins of one byte wrap around, and one snapshot is read twice. -/
theorem accumulated_sample :
    ∃ v, histogramReads 1 0 1 (histogramClear 2)
        [.read (.snapshot 1) [250, 3] [], .unchanged, .read (.snapshot 2) [100, 130] [],
          .read (.snapshot 3) [90, 131] []] = .ok v ∧
      ∀ i, v.hist i = ((([![356, 130], ![602, 131]] : List (Fin 2 → ℕ)).getLastD ![250, 3] i -
        (![250, 3] : Fin 2 → ℕ) i : ℤ) : ℚ) := by
  have reports : ([.read (.snapshot 1) [250, 3] [], .unchanged, .read (.snapshot 2) [100, 130] [],
      .read (.snapshot 3) [90, 131] []] : List ReadOutcome).filterMap ReadOutcome.bytes =
        ([![250, 3], ![356, 130], ![602, 131]] : List (Fin 2 → ℕ)).map (counterBytes 1) := by
    decide
  have grows : ([![250, 3], ![356, 130], ![602, 131]] : List (Fin 2 → ℕ)).IsChain (Grows 1) := by
    simp [Grows, Fin.forall_fin_two]
  have small : ∀ c ∈ ([![356, 130], ![602, 131]] : List (Fin 2 → ℕ)), ∀ i,
      c i < (![250, 3] : Fin 2 → ℕ) i + 2 ^ 53 := by
    simp [Fin.forall_fin_two]
  exact accumulated_exact (.inl rfl) 1 reports grows small

end Amester.Sensor
