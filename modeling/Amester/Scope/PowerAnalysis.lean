/-
# The power analysis

An analysis looks at every record together with those before it: at the power of the last
millisecond, and at the mean power of the last 64 and the last 1000 milliseconds when a
counter says that the controller forms its mean. It keeps the extremes and counts each
power into a bin. The bins go up to 310 watts. A power that is higher, or less than a bin
below zero, gets a bin of its own, which nobody prints, but it is counted with the others.

Powers are doubles. What the program calls the counter is the value at position 13 of a
record.
-/

import Amester.Lib.Tally
import Amester.Scope.Length
import Mathlib.Data.Int.ConditionallyCompleteOrder
import Mathlib.Data.Int.Interval

namespace Amester.Scope

open Globals (historyStart)

/-! ## Bins -/

/-- The option for the width of a bin. -/
inductive BinSize
  | int (n : ℤ)
  | double (x : ℚ)
  deriving DecidableEq, Repr

def BinSize.value : BinSize → ℚ
  | .int n => Binary64.round n
  | .double x => x

/-- `int(310 / binsize)`, which raises for zero. -/
def BinSize.bins : BinSize → Option ℤ
  | .int n => if n = 0 then none else some (Int.fdiv 310 n)
  | .double x => if x = 0 then none else some (wide (Binary64.round (310 / x)))

/-- `int(power / binsize)` -/
def BinSize.index (binsize : BinSize) (power : ℚ) : ℤ :=
  wide (Binary64.round (power / binsize.value))

/-! ## Results -/

structure Extremes where
  maxpower : ℚ := 0
  maxtime : ℤ := 0
  minpower : ℚ := 9999
  mintime : ℤ := 0
  deriving DecidableEq, Repr

def Extremes.take (e : Extremes) (power : ℚ) (time : ℤ) : Extremes :=
  let e := if power > e.maxpower then { e with maxpower := power, maxtime := time } else e
  if power < e.minpower then { e with minpower := power, mintime := time } else e

/-- The highest step in one direction. -/
structure Step where
  maxpower : ℚ := 0
  maxtime : ℤ := 0
  deriving DecidableEq, Repr

def Step.take (s : Step) (step : ℚ) (time : ℤ) : Step :=
  if step > s.maxpower then ⟨step, time⟩ else s

/-- The results of a moving average. -/
structure Segment where
  extremes : Extremes := {}
  /-- The vectors of powers and times for plotting. -/
  vector : List (ℚ × ℤ) := []
  hist : Tally ℤ := .empty

/-- The results of an analysis. -/
structure Results where
  binsize : BinSize
  bins : ℤ
  extremes1ms : Extremes := {}
  hist1ms : Tally ℤ := .empty
  stepup : Step := {}
  stepdown : Step := {}
  segment1s : Segment := {}
  segment64ms : Segment := {}

/-- `ta_initialize` -/
def taInit (binsize : BinSize) : Option Results :=
  binsize.bins.map fun bins => { binsize := binsize, bins := bins }

/-! ## Processing a record -/

/-- `lindex` with an index from the end. -/
def lindexEnd (history : List Record) (k : ℕ) : Option Record := history.reverse[k]?

/-- The counter at position 13. -/
def rcount (rec : Record) : ℤ := rec.throttle0

/-- The power of the last millisecond. -/
def process1ms (history : List Record) (rec : Record) (r : Results) : Results :=
  match lindexEnd history 1 with
  | none => r
  | some prev1rec =>
    let power := Binary64.round ((rec.energy - prev1rec.energy : ℤ) / 10)
    { r with
      extremes1ms := r.extremes1ms.take power rec.bmcTime
      hist1ms := r.hist1ms.add (r.binsize.index power) }

/-- The steps between the powers of the last two milliseconds. -/
def processSteps (history : List Record) (rec : Record) (r : Results) : Results :=
  match lindexEnd history 1, lindexEnd history 2 with
  | some prev1rec, some prev2rec =>
    let power := Binary64.round ((rec.energy - prev1rec.energy : ℤ) / 10)
    let power2 := Binary64.round ((prev1rec.energy - prev2rec.energy : ℤ) / 10)
    let stepup := Binary64.round (power - power2)
    { r with
      stepup := r.stepup.take stepup rec.bmcTime
      stepdown := r.stepdown.take (0 - stepup) rec.bmcTime }
  | _, _ => r

/-- A moving average over so many milliseconds, counted when the low bits of the counter
have a given value. -/
def processSegment (n : ℕ) (marker : ℤ) (binsize : BinSize) (history : List Record) (rec : Record)
    (s : Segment) : Segment :=
  match lindexEnd history n with
  | none => s
  | some prevrec =>
    let power := Binary64.round (((rec.energy - prevrec.energy) / (n : ℤ) : ℤ) / 10)
    { extremes := s.extremes.take power rec.bmcTime
      vector := s.vector ++ [(power, rec.bmcTime)]
      hist := if rcount rec % 64 = marker then s.hist.add (binsize.index power) else s.hist }

/-- `ta_process_record`, with the history that ends with the record. -/
def taProcessRecord (history : List Record) (rec : Record) (r : Results) : Results :=
  let r := processSteps history rec (process1ms history rec r)
  let r := { r with segment1s := processSegment 1000 0x29 r.binsize history rec r.segment1s }
  { r with segment64ms := processSegment 64 0x21 r.binsize history rec r.segment64ms }

/-- Cull the history. -/
def cull (history : List Record) : List Record :=
  if history.length > 1000 then history.drop 1 else history

/-- Save a record, process it and cull the history. -/
def taTake (state : List Record × Results) (rec : Record) : List Record × Results :=
  (cull (state.1 ++ [rec]), taProcessRecord (state.1 ++ [rec]) rec state.2)

/-- Take all records of a list. -/
def taTakeAll (state : List Record × Results) (records : List Record) : List Record × Results :=
  records.foldl taTake state

/-! ## The analysis in the store -/

/-- The analysis that `ta_file` and `ta_records` run. -/
def powerAnalysis : Analysis Results where
  initial options :=
    match options "binsize" with
    | some (.int n) => ((taInit (.int n)).map fun r => [("results", .result r)]).getD []
    | _ => []
  processRecord fields rec :=
    match fields "history", fields "results" with
    | some (.records history), some (.result r) =>
      some [("results", .result (taProcessRecord history rec r))]
    | _, _ => none

/-- The history of an analysis, empty before it is primed. -/
def historyOf (g : Globals Results) (tag : Ident) : List Record :=
  match g.ta tag "history" with
  | some (.records history) => history
  | _ => []

private theorem saveRecord_eq (g : Globals Results) (tag : Ident) (rec : Record) :
    g.saveRecord tag rec =
      { g with ta := g.ta.set tag "history" (.records (historyOf g tag ++ [rec])) } := by
  unfold Globals.saveRecord historyOf
  rcases g.ta tag "history" with _ | cell
  · rfl
  · cases cell <;> rfl

/-- One record taken in the store is one record taken here. -/
theorem analyzeRecord_power {g : Globals Results} {tag : Ident} {r : Results}
    (results : g.ta tag "results" = some (.result r)) (rec : Record) :
    ∃ g', g.analyzeRecord powerAnalysis tag rec = .ok g' ∧
      historyOf g' tag = (taTake (historyOf g tag, r) rec).1 ∧
      g'.ta tag "results" = some (.result (taTake (historyOf g tag, r) rec).2) := by
  have hsave := saveRecord_eq g tag rec
  have hprocess : powerAnalysis.processRecord ((g.saveRecord tag rec).ta tag) rec =
      some [("results", .result (taProcessRecord (historyOf g tag ++ [rec]) rec r))] := by
    rw [hsave]
    simp [powerAnalysis, TclArray.set, results]
  unfold Globals.analyzeRecord
  dsimp only
  rw [hprocess]
  refine ⟨_, rfl, ?_⟩
  rw [hsave]
  generalize hhistory : historyOf g tag ++ [rec] = history
  unfold Globals.cullHistory taTake cull
  rw [hhistory]
  by_cases hlong : history.length > 1000
  · simp [TclArray.set, TclArray.setAll, hlong, historyOf]
  · simp [TclArray.set, TclArray.setAll, hlong, historyOf]

/-- Records taken in the store are records taken here. -/
theorem analyzeRecords_power {tag : Ident} (records : List Record) {g : Globals Results}
    {r : Results}
    (results : g.ta tag "results" = some (.result r)) :
    ∃ g', g.analyzeRecords powerAnalysis tag records = .ok g' ∧
      g'.ta tag "results" = some (.result (taTakeAll (historyOf g tag, r) records).2) := by
  induction records generalizing g r with
  | nil => exact ⟨g, rfl, results⟩
  | cons rec records ih =>
      obtain ⟨g₁, hrecord, hhistory, hresults⟩ := analyzeRecord_power results rec
      obtain ⟨g', hrecords, hrest⟩ := ih hresults
      refine ⟨g', ?_, ?_⟩
      · rw [Globals.analyzeRecords, hrecord]
        exact hrecords
      · rw [hrest, hhistory]
        rfl

private theorem foldl_saveRecord_history (tag : Ident) (records : List Record)
    (g : Globals Results) :
    historyOf (records.foldl (fun g rec => g.saveRecord tag rec) g) tag =
      historyOf g tag ++ records := by
  induction records generalizing g with
  | nil => rw [List.foldl_nil, List.append_nil]
  | cons rec records ih =>
      rw [List.foldl_cons, ih, List.append_cons]
      congr 1
      rw [saveRecord_eq]
      simp [historyOf, TclArray.set]

private theorem foldl_saveRecord_other {tag id : Ident} (other : id ≠ tag) (records : List Record)
    (g : Globals Results) :
    (records.foldl (fun g rec => g.saveRecord tag rec) g).ta id = g.ta id := by
  induction records generalizing g with
  | nil => rfl
  | cons rec records ih =>
      rw [List.foldl_cons, ih, saveRecord_eq]
      exact TclArray.set_of_ne other _ _

/-- What `ta_file` computes are the results of the records from its start to its end time. -/
theorem taFile_results {file : IncreasingFile} {start : ℤ} {length : StreamLength} {x : ℚ}
    (low : 0 ≤ start) (high : start ≤ file.last.bmcTime - file.first.bmcTime)
    (findable : Findable file (file.first.bmcTime + historyStart start))
    (number : length.number = some x) (pos : 0 < x) {files : String → Option BinaryFormat.Bytes}
    {filename : String} (callback : String) {g : Globals Results}
    (opens : files filename = some file.bytes)
    (fresh : g.ta (uid (g.uidCount + 1)) "history" = none) {n : ℤ} {r : Results}
    (binsize : g.ta "options".toList "binsize" = some (.int n)) (init : taInit (.int n) = some r) :
    let o := g.taFile powerAnalysis files filename start length callback
    o.error = none ∧ o.state.ta (uid (g.uidCount + 1)) "results" =
      some (.result (taTakeAll (history file start, r)
        (recordsUntil file start (analysisEnd file.toRecordFile start length))).2) := by
  have hsame := taFile_sameTa low high findable number pos powerAnalysis files filename callback g
    opens
  let tag := uid (g.uidCount + 1)
  let primed := (history file start).foldl (fun g rec => g.saveRecord tag rec)
    (begun start length callback g)
  have hoptions : primed.ta "options".toList = g.ta "options".toList := by
    have hbegun : (begun start length callback g).ta "options".toList = g.ta "options".toList :=
      TclArray.setAll_of_ne (uid_ne_options _).symm _
    rw [← hbegun]
    exact foldl_saveRecord_other (uid_ne_options _).symm _ _
  have hinitial : powerAnalysis.initial (primed.ta "options".toList) =
      [("results", .result r)] := by
    rw [hoptions]
    simp only [powerAnalysis, binsize, init, Option.map_some, Option.getD_some]
  have hready : primed.taInitialize powerAnalysis tag =
      { primed with ta := primed.ta.set tag "results" (.result r) } := by
    unfold Globals.taInitialize
    rw [hinitial]
    rfl
  have hhistory : historyOf (primed.taInitialize powerAnalysis tag) tag = history file start := by
    have hbegun : historyOf (begun start length callback g) tag = [] := by
      simp [historyOf, begun, tag, TclArray.setAll, TclArray.set, fresh]
    have hprimed : historyOf primed tag = history file start := by
      have h := foldl_saveRecord_history tag (history file start) (begun start length callback g)
      rwa [hbegun, List.nil_append] at h
    rw [← hprimed, hready]
    simp [historyOf, TclArray.set]
  have hresults : (primed.taInitialize powerAnalysis tag).ta tag "results" = some (.result r) := by
    rw [hready]
    simp [TclArray.set]
  obtain ⟨g', hrecords, hrest⟩ := analyzeRecords_power
    (recordsUntil file start (analysisEnd file.toRecordFile start length)) hresults
  rw [hhistory] at hrest
  have hanalysis : analysis powerAnalysis start length callback (history file start)
      (recordsUntil file start (analysisEnd file.toRecordFile start length)) g = .ok g' := hrecords
  rw [hanalysis] at hsame
  intro o
  exact ⟨hsame.1, (congrFun (congrFun hsame.2 tag) "results").trans hrest⟩

/-! ## Time scales -/

inductive Scale
  | ms1
  | ms64
  | s1
  deriving DecidableEq, Repr

/-- The records between the two whose energies are compared. -/
def Scale.span : Scale → ℕ
  | .ms1 => 1
  | .ms64 => 64
  | .s1 => 1000

/-- The record is counted at this scale. -/
def Scale.Counts (rec : Record) : Scale → Prop
  | .ms1 => True
  | .ms64 => rcount rec % 64 = 0x21
  | .s1 => rcount rec % 64 = 0x29

instance (rec : Record) : DecidablePred fun scale : Scale => scale.Counts rec := fun scale => by
  cases scale <;> unfold Scale.Counts <;> infer_instance

def Results.hist (r : Results) : Scale → Tally ℤ
  | .ms1 => r.hist1ms
  | .ms64 => r.segment64ms.hist
  | .s1 => r.segment1s.hist

/-- The bin of a power in tenths of a watt. -/
def BinSize.indexOf (binsize : BinSize) (tenths : ℤ) : ℤ :=
  binsize.index (Binary64.round (tenths / 10))

/-- The power of a record that is counted, in tenths of a watt. -/
def sample (scale : Scale) (history : List Record) (rec : Record) : List ℤ :=
  match lindexEnd history scale.span with
  | none => []
  | some prevrec =>
    if scale.Counts rec then [(rec.energy - prevrec.energy) / (scale.span : ℤ)] else []

/-- The powers of the records of a list that are counted. -/
def samples (scale : Scale) : List Record → List Record → List ℤ
  | _, [] => []
  | history, rec :: records =>
    sample scale (history ++ [rec]) rec ++ samples scale (cull (history ++ [rec])) records

/-! ## What is counted -/

section

variable (scale : Scale) (history : List Record) (rec : Record) (r : Results)

/-- The steps between powers touch no histogram. -/
theorem processSteps_hist : (processSteps history rec r).hist scale = r.hist scale := by
  unfold processSteps
  cases lindexEnd history 1 <;> cases lindexEnd history 2 <;> cases scale <;> rfl

private theorem processSteps_binsize : (processSteps history rec r).binsize = r.binsize := by
  unfold processSteps
  cases lindexEnd history 1 <;> cases lindexEnd history 2 <;> rfl

private theorem process1ms_binsize : (process1ms history rec r).binsize = r.binsize := by
  unfold process1ms
  cases lindexEnd history 1 <;> rfl

/-- The power of the last millisecond is counted at its scale only. -/
theorem process1ms_hist :
    (process1ms history rec r).hist scale =
      if scale = .ms1 then (r.hist scale).addAll ((sample scale history rec).map r.binsize.indexOf)
      else r.hist scale := by
  cases scale with
  | ms1 =>
      rw [if_pos rfl, sample, process1ms, Scale.span]
      cases lindexEnd history 1 with
      | none => rfl
      | some prev1rec =>
          simp only [Scale.Counts, if_true, Nat.cast_one, Int.ediv_one]
          rfl
  | ms64 =>
      unfold process1ms
      cases lindexEnd history 1 <;> rfl
  | s1 =>
      unfold process1ms
      cases lindexEnd history 1 <;> rfl

/-- A moving average is counted when the counter says so. -/
theorem processSegment_hist (n : ℕ) (marker : ℤ) (binsize : BinSize) (s : Segment)
    (span : scale.span = n) (counts : scale.Counts rec ↔ rcount rec % 64 = marker) :
    (processSegment n marker binsize history rec s).hist =
      s.hist.addAll ((sample scale history rec).map binsize.indexOf) := by
  rw [processSegment, sample, span]
  cases lindexEnd history n with
  | none => rfl
  | some prevrec =>
      by_cases hcounts : scale.Counts rec
      · simp only [if_pos hcounts, if_pos (counts.mp hcounts)]
        rfl
      · simp only [if_neg hcounts, if_neg (mt counts.mpr hcounts)]
        rfl

/-- Processing a record counts its power once at every scale, or not at all. -/
theorem taProcessRecord_hist :
    (taProcessRecord history rec r).hist scale =
      (r.hist scale).addAll ((sample scale history rec).map r.binsize.indexOf) := by
  have hbinsize : (processSteps history rec (process1ms history rec r)).binsize = r.binsize := by
    rw [processSteps_binsize, process1ms_binsize]
  have hsteps := processSteps_hist scale history rec (process1ms history rec r)
  rw [process1ms_hist] at hsteps
  generalize hsteps' : processSteps history rec (process1ms history rec r) = stepped
    at hbinsize hsteps
  have hprocess : taProcessRecord history rec r =
      { stepped with
        segment1s := processSegment 1000 0x29 stepped.binsize history rec stepped.segment1s
        segment64ms :=
          processSegment 64 0x21 stepped.binsize history rec stepped.segment64ms } := by
    rw [← hsteps']
    rfl
  rw [hprocess]
  cases scale with
  | ms1 => exact hsteps
  | ms64 =>
      have hsegment := processSegment_hist .ms64 history rec 64 0x21 stepped.binsize
        stepped.segment64ms rfl Iff.rfl
      have hbefore : stepped.segment64ms.hist = r.segment64ms.hist := hsteps
      rw [hbefore, hbinsize] at hsegment
      rw [Results.hist, hbinsize]
      exact hsegment
  | s1 =>
      have hsegment := processSegment_hist .s1 history rec 1000 0x29 stepped.binsize
        stepped.segment1s rfl Iff.rfl
      have hbefore : stepped.segment1s.hist = r.segment1s.hist := hsteps
      rw [hbefore, hbinsize] at hsegment
      rw [Results.hist, hbinsize]
      exact hsegment

/-- Processing a record changes neither the bin size nor the number of bins. -/
theorem taProcessRecord_bins :
    (taProcessRecord history rec r).binsize = r.binsize ∧
      (taProcessRecord history rec r).bins = r.bins := by
  unfold taProcessRecord processSteps process1ms
  cases lindexEnd history 1 <;> cases lindexEnd history 2 <;> exact ⟨rfl, rfl⟩

end

/-- A run counts all powers of its records. -/
theorem taTakeAll_hist (scale : Scale) (records history : List Record) (r : Results) :
    (taTakeAll (history, r) records).2.hist scale =
        (r.hist scale).addAll ((samples scale history records).map r.binsize.indexOf) ∧
      (taTakeAll (history, r) records).2.bins = r.bins := by
  induction records generalizing history r with
  | nil => exact ⟨rfl, rfl⟩
  | cons rec records ih =>
      obtain ⟨hbinsize, hbins⟩ := taProcessRecord_bins (history ++ [rec]) rec r
      obtain ⟨hhist, hrest⟩ := ih (cull (history ++ [rec]))
        (taProcessRecord (history ++ [rec]) rec r)
      rw [hbinsize, taProcessRecord_hist, ← Tally.addAll_append, ← List.map_append] at hhist
      exact ⟨hhist, hrest.trans hbins⟩

/-! ## Which powers are counted -/

private theorem lindexEnd_append (history history' : List Record) {k : ℕ}
    (inside : k < history'.length) :
    lindexEnd (history ++ history') k = lindexEnd history' k := by
  rw [lindexEnd, lindexEnd, List.reverse_append, List.getElem?_append_left (by simpa using inside)]

/-- The record so far from the end is none of those that are culled. -/
theorem lindexEnd_cull (history history' : List Record) {k : ℕ} (small : k ≤ 1000)
    (more : history' ≠ []) :
    lindexEnd (cull history ++ history') k = lindexEnd (history ++ history') k := by
  unfold cull
  split
  · have hsplit : history ++ history' = history.take 1 ++ (history.drop 1 ++ history') := by
      rw [← List.append_assoc, List.take_append_drop]
    have hpos := List.length_pos_iff.mpr more
    rw [hsplit, lindexEnd_append (history.take 1) _
      (by rw [List.length_append, List.length_drop]; omega)]
  · rfl

/-- A record of the list is counted with this power. The other record is as many records in
front of it as the scale has, in the list or in the history that was primed. -/
def Sampled (scale : Scale) (primed records : List Record) (tenths : ℤ) : Prop :=
  ∃ front rec rest prevrec, records = front ++ rec :: rest ∧ scale.Counts rec ∧
    lindexEnd (primed ++ front ++ [rec]) scale.span = some prevrec ∧
    tenths = (rec.energy - prevrec.energy) / (scale.span : ℤ)

theorem Scale.span_le (scale : Scale) : scale.span ≤ 1000 := by
  cases scale <;> decide

private theorem mem_sample {scale : Scale} {history : List Record} {rec : Record} {tenths : ℤ} :
    tenths ∈ sample scale history rec ↔
      scale.Counts rec ∧ ∃ prevrec, lindexEnd history scale.span = some prevrec ∧
        tenths = (rec.energy - prevrec.energy) / (scale.span : ℤ) := by
  unfold sample
  cases lindexEnd history scale.span with
  | none => simp
  | some prevrec =>
      by_cases hcounts : scale.Counts rec
      · simp [hcounts]
      · simp [hcounts]

theorem mem_samples_iff (scale : Scale) (records primed : List Record) (tenths : ℤ) :
    tenths ∈ samples scale primed records ↔ Sampled scale primed records tenths := by
  induction records generalizing primed with
  | nil =>
      apply iff_of_false List.not_mem_nil
      rintro ⟨front, rec, rest, prevrec, hrecords, -⟩
      exact absurd hrecords (by simp)
  | cons rec records ih =>
      rw [samples, List.mem_append, ih, mem_sample]
      constructor
      · rintro (⟨hcounts, prevrec, hprev, htenths⟩ |
          ⟨front, rec', rest, prevrec, rfl, hcounts, hprev, htenths⟩)
        · exact ⟨[], rec, records, prevrec, rfl, hcounts, by simpa using hprev, htenths⟩
        · refine ⟨rec :: front, rec', rest, prevrec, rfl, hcounts, ?_, htenths⟩
          rw [List.append_assoc, lindexEnd_cull _ _ scale.span_le (by simp)] at hprev
          simpa using hprev
      · rintro ⟨front, rec', rest, prevrec, hrecords, hcounts, hprev, htenths⟩
        cases front with
        | nil =>
            obtain ⟨rfl, rfl⟩ := List.cons.inj hrecords
            exact .inl ⟨hcounts, prevrec, by simpa using hprev, htenths⟩
        | cons first front =>
            obtain ⟨rfl, rfl⟩ := List.cons.inj hrecords
            refine .inr ⟨front, rec', rest, prevrec, rfl, hcounts, ?_, htenths⟩
            rw [List.append_assoc, lindexEnd_cull _ _ scale.span_le (by simp)]
            simpa using hprev

private theorem throttle0_interpolateFrom (P : ℤ → Prop) {first r : Record} {recs : List Record}
    (all : ∀ r ∈ first :: recs, P r.throttle0) (mem : r ∈ interpolateFrom first recs) :
    P r.throttle0 := by
  induction recs generalizing first with
  | nil => exact absurd mem List.not_mem_nil
  | cons second recs ih =>
      rw [interpolateFrom, List.mem_append, List.mem_cons] at mem
      have hrest : ∀ r ∈ second :: recs, P r.throttle0 :=
        fun r hr => all r (List.mem_cons_of_mem _ hr)
      rcases mem with hmissing | rfl | hmem
      · unfold missing at hmissing
        split at hmissing
        · obtain ⟨i, -, rfl⟩ := List.mem_map.mp hmissing
          exact all first List.mem_cons_self
        · exact absurd hmissing List.not_mem_nil
      · exact all r (List.mem_cons_of_mem _ List.mem_cons_self)
      · exact ih hrest hmem

/-- What stands at the position of the counter has four bits in every record of a trace, so
the moving averages are never counted. -/
theorem averages_never_counted (file : RecordFile) {r : Record}
    (mem : r ∈ interpolate file.records) {scale : Scale} (average : scale ≠ .ms1) :
    ¬ scale.Counts r := by
  have hfile : ∀ r ∈ file.records, 0 ≤ r.throttle0 ∧ r.throttle0 < 16 := by
    intro r hr
    obtain ⟨n, hlength, hread⟩ := exists_of_mem_fileRecords hr
    rw [traceGetRecnum, data2rec_eq hlength, Option.some.injEq] at hread
    subst hread
    exact ⟨Int.emod_nonneg _ (by norm_num), Int.emod_lt_of_pos _ (by norm_num)⟩
  obtain ⟨first, recs, hrecords⟩ := List.exists_cons_of_ne_nil file.records_ne_nil
  rw [hrecords] at mem hfile
  have hall : ∀ r ∈ first :: first :: recs, 0 ≤ r.throttle0 ∧ r.throttle0 < 16 := by
    intro r' hr'
    rcases List.mem_cons.mp hr' with rfl | hmem
    · exact hfile r' List.mem_cons_self
    · exact hfile r' hmem
  have hthrottle := throttle0_interpolateFrom (fun n => 0 ≤ n ∧ n < 16) hall mem
  cases scale with
  | ms1 => exact absurd rfl average
  | ms64 =>
      rw [Scale.Counts, rcount]
      omega
  | s1 =>
      rw [Scale.Counts, rcount]
      omega

/-! ## Which powers are reported -/

/-- A power, in tenths of a watt, by the width of a bin, in double precision. -/
def quotient (binsize : BinSize) (tenths : ℤ) : ℚ :=
  Binary64.round (Binary64.round (tenths / 10) / binsize.value)

/-- A power that is not a whole bin below zero, and less than the bins reach. An integer of 64
bits is made of the quotient, so this is modulo `2 ^ 64`. -/
def Reported (binsize : BinSize) (bins : ℤ) (tenths : ℤ) : Prop :=
  0 < bins ∧ ∃ k : ℤ, -1 < quotient binsize tenths - k * 2 ^ 64 ∧
    quotient binsize tenths - k * 2 ^ 64 < bins

/-- A truncated number is in a range that begins with 0 when the number is, or is less than
one below it. -/
theorem truncate_mem_iff {q : ℚ} {m : ℤ} (pos : 0 < m) :
    (0 ≤ Binary64.truncate q ∧ Binary64.truncate q < m) ↔ -1 < q ∧ q < m := by
  unfold Binary64.truncate
  split_ifs with hnonneg
  · rw [Int.floor_lt, Int.floor_nonneg]
    constructor
    · rintro ⟨-, hless⟩
      exact ⟨by linarith, hless⟩
    · rintro ⟨-, hless⟩
      exact ⟨hnonneg, hless⟩
  · have hneg : q < 0 := not_le.mp hnonneg
    have hceil : ⌈q⌉ ≤ 0 := Int.ceil_le.mpr (by simpa using hneg.le)
    have hpred : 0 ≤ ⌈q⌉ ↔ -1 < q := by
      have h := Int.lt_ceil (a := q) (z := -1)
      push_cast at h
      rw [← h]
      omega
    rw [hpred]
    have hm : (0 : ℚ) < m := by exact_mod_cast pos
    exact and_congr_right fun _ => iff_of_true (hceil.trans_lt pos) (hneg.trans hm)

/-- An integer that is made one of 64 bits comes into a range by a multiple of `2 ^ 64`. -/
theorem wide_int_mem_iff (n : ℤ) {m : ℤ} (le : m ≤ 2 ^ 63) :
    (0 ≤ wide (n : ℚ) ∧ wide (n : ℚ) < m) ↔
      ∃ k : ℤ, 0 ≤ n - k * 2 ^ 64 ∧ n - k * 2 ^ 64 < m := by
  rw [wide, Binary64.truncate_of_int, Int.bmod_def]
  constructor
  · rintro ⟨hlow, hhigh⟩
    refine ⟨n / 2 ^ 64, ?_⟩
    split_ifs at hlow hhigh <;> omega
  · rintro ⟨k, hlow, hhigh⟩
    split_ifs <;> omega

/-- A number of less than 54 bits comes into a range by no other multiple than 0. -/
theorem mem_iff_exists_of_small {q : ℚ} (small : |q| < 2 ^ 53) {m : ℤ} (le : m ≤ 2 ^ 63) :
    (-1 < q ∧ q < m) ↔ ∃ k : ℤ, -1 < q - k * 2 ^ 64 ∧ q - k * 2 ^ 64 < m := by
  have hsmall := abs_lt.mp small
  constructor
  · rintro ⟨hlow, hhigh⟩
    exact ⟨0, by simpa using hlow, by simpa using hhigh⟩
  · rintro ⟨k, hlow, hhigh⟩
    have hm : (m : ℚ) ≤ 2 ^ 63 := by exact_mod_cast le
    have hbelow : k < 1 := by
      have h : (k : ℚ) < 1 := by linarith
      exact_mod_cast h
    have habove : -1 < k := by
      have h : (-1 : ℚ) < k := by linarith
      exact_mod_cast h
    obtain rfl : k = 0 := by omega
    exact ⟨by simpa using hlow, by simpa using hhigh⟩

/-- An integer of 64 bits is in a range when a number behind it, a multiple of `2 ^ 64` away, is. -/
theorem wide_mem_iff {y : ℚ} {m : ℤ} (pos : 0 < m) (le : m ≤ 2 ^ 63) :
    (0 ≤ wide (Binary64.round y) ∧ wide (Binary64.round y) < m) ↔
      ∃ k : ℤ, -1 < Binary64.round y - k * 2 ^ 64 ∧ Binary64.round y - k * 2 ^ 64 < m := by
  by_cases large : 2 ^ 53 ≤ |Binary64.round y|
  · -- a double as large as that is an integer
    obtain ⟨n, hn⟩ : ∃ n : ℤ, Binary64.round y = n := Binary64.round_isInt large
    rw [hn, wide_int_mem_iff n le]
    refine exists_congr fun k => ?_
    have h : (n : ℚ) - k * 2 ^ 64 = ((n - k * 2 ^ 64 : ℤ) : ℚ) := by push_cast; rfl
    rw [h]
    norm_cast
  · have hsmall := not_le.mp large
    have hbounds := abs_lt.mp hsmall
    have htruncate : wide (Binary64.round y) = Binary64.truncate (Binary64.round y) := by
      refine wide_eq_truncate (-2 ^ 53) (2 ^ 53) ?_ ?_ (by norm_num) (by norm_num)
      · push_cast
        exact hbounds.1.le
      · push_cast
        exact hbounds.2.le
    rw [htruncate, truncate_mem_iff pos]
    exact mem_iff_exists_of_small hsmall le

private theorem bins_le {binsize : BinSize} {bins : ℤ} (number : binsize.bins = some bins) :
    bins ≤ 2 ^ 63 := by
  cases binsize with
  | int n =>
      rw [BinSize.bins] at number
      split at number
      · cases number
      · obtain rfl := Option.some.inj number
        have hdiv := Int.natAbs_ediv_le_natAbs 310 n
        rw [Int.fdiv_eq_ediv]
        split_ifs <;> omega
  | double x =>
      rw [BinSize.bins] at number
      split at number
      · cases number
      · obtain rfl := Option.some.inj number
        rw [wide]
        have h := Int.bmod_lt (x := Binary64.truncate (Binary64.round (310 / x))) (m := 2 ^ 64)
          (by norm_num)
        omega

/-- The bin of a power is printed. -/
theorem indexOf_mem_iff {binsize : BinSize} {bins : ℤ} (number : binsize.bins = some bins)
    (tenths : ℤ) : binsize.indexOf tenths ∈ Finset.Ico 0 bins ↔ Reported binsize bins tenths := by
  rw [Finset.mem_Ico, BinSize.indexOf, BinSize.index, Reported]
  by_cases pos : 0 < bins
  · rw [and_iff_right pos]
    exact wide_mem_iff pos (bins_le number)
  · apply iff_of_false
    · rintro ⟨hlow, hhigh⟩
      omega
    · exact fun h => pos h.1

/-- A power is more than a whole bin below zero, in double precision as well. -/
theorem neg_one_lt_quotient_iff {n : ℤ} (pos : 0 < n) (le : n ≤ 310) (tenths : ℤ) :
    -1 < quotient (.int n) tenths ↔ -(10 * n) < tenths := by
  have hn : (0 : ℚ) < n := by exact_mod_cast pos
  have hle : (n : ℚ) ≤ 310 := by exact_mod_cast le
  have hvalue : BinSize.value (.int n) = n := Binary64.round_of_int (by omega)
  rw [quotient, hvalue]
  constructor
  · intro hless
    by_contra hlow
    have htenths : ((tenths : ℤ) : ℚ) ≤ -(10 * n) := by exact_mod_cast not_lt.mp hlow
    have hpower : Binary64.round ((tenths : ℚ) / 10) ≤ ((-n : ℤ) : ℚ) :=
      Binary64.round_le (by omega) (by push_cast; linarith)
    push_cast at hpower
    have hquotient : Binary64.round (Binary64.round ((tenths : ℚ) / 10) / n) ≤ ((-1 : ℤ) : ℚ) := by
      apply Binary64.round_le (by decide)
      rw [div_le_iff₀ hn]
      push_cast
      linarith
    push_cast at hquotient
    linarith
  · intro hless
    have htenths : -(10 * (n : ℚ)) + 1 ≤ tenths := by exact_mod_cast hless
    have hpower : ((1 - 16 * n : ℤ) : ℚ) * 2 ^ (-4 : ℤ) ≤ Binary64.round ((tenths : ℚ) / 10) := by
      rw [← Binary64.round_of_dyadic (by omega) (-4)]
      apply Binary64.round_mono
      norm_num
      linarith
    have hquotient : ((1 - 2 ^ 13 : ℤ) : ℚ) * 2 ^ (-13 : ℤ) ≤
        Binary64.round (Binary64.round ((tenths : ℚ) / 10) / n) := by
      rw [← Binary64.round_of_dyadic (by norm_num) (-13)]
      apply Binary64.round_mono
      rw [le_div_iff₀ hn]
      norm_num at hpower ⊢
      linarith
    norm_num at hquotient
    linarith

/-- A power is below the end of the last bin, in double precision as well. -/
theorem quotient_lt_iff {n m : ℤ} (pos : 0 < n) (bins : 0 < m) (le : n * m ≤ 310) (tenths : ℤ) :
    quotient (.int n) tenths < m ↔ tenths < 10 * n * m := by
  have hn : (0 : ℚ) < n := by exact_mod_cast pos
  have hnm : n ≤ 310 ∧ m ≤ 310 := by constructor <;> nlinarith
  have hle : (n : ℚ) ≤ 310 := by exact_mod_cast hnm.1
  have hvalue : BinSize.value (.int n) = n := Binary64.round_of_int (by omega)
  rw [quotient, hvalue]
  constructor
  · intro hless
    by_contra hhigh
    have htenths : 10 * (n : ℚ) * m ≤ tenths := by exact_mod_cast not_lt.mp hhigh
    have hpower : ((n * m : ℤ) : ℚ) ≤ Binary64.round ((tenths : ℚ) / 10) := by
      apply Binary64.le_round
      · have hnonneg : 0 ≤ n * m := by positivity
        omega
      · push_cast
        linarith
    push_cast at hpower
    have hquotient : (m : ℚ) ≤ Binary64.round (Binary64.round ((tenths : ℚ) / 10) / n) := by
      apply Binary64.le_round (by omega)
      rw [le_div_iff₀ hn]
      linarith
    linarith
  · intro hless
    have htenths : (tenths : ℚ) ≤ 10 * n * m - 1 := by exact_mod_cast Int.le_sub_one_of_lt hless
    have hpower :
        Binary64.round ((tenths : ℚ) / 10) ≤ ((16 * (n * m) - 1 : ℤ) : ℚ) * 2 ^ (-4 : ℤ) := by
      have hnonneg : 0 ≤ n * m := by positivity
      rw [← Binary64.round_of_dyadic (by omega) (-4)]
      apply Binary64.round_mono
      norm_num
      linarith
    have hquotient : Binary64.round (Binary64.round ((tenths : ℚ) / 10) / n) ≤
        ((2 ^ 13 * m - 1 : ℤ) : ℚ) * 2 ^ (-13 : ℤ) := by
      rw [← Binary64.round_of_dyadic (by omega) (-13)]
      apply Binary64.round_mono
      rw [div_le_iff₀ hn]
      norm_num at hpower ⊢
      linarith
    norm_num at hquotient
    linarith

/-- The quotient by a whole number is below `2 ^ 53` when the power is. -/
theorem quotient_range {n : ℤ} (pos : 0 < n) (le : n ≤ 310) {tenths : ℤ}
    (small : tenths.natAbs < 2 ^ 53) :
    -2 ^ 53 < quotient (.int n) tenths ∧ quotient (.int n) tenths < 2 ^ 53 := by
  have hn : (1 : ℚ) ≤ n := by exact_mod_cast pos
  have hn' : (0 : ℚ) < n := by linarith
  have hvalue : BinSize.value (.int n) = n := Binary64.round_of_int (by omega)
  have htenths : ((1 - 2 ^ 53 : ℤ) : ℚ) ≤ tenths ∧ (tenths : ℚ) ≤ ((2 ^ 53 - 1 : ℤ) : ℚ) := by
    constructor
    · exact_mod_cast (by omega : 1 - 2 ^ 53 ≤ tenths)
    · exact_mod_cast (by omega : tenths ≤ 2 ^ 53 - 1)
  have hlow : ((1 - 2 ^ 53 : ℤ) : ℚ) ≤ Binary64.round ((tenths : ℚ) / 10) := by
    apply Binary64.le_round (by decide)
    rw [le_div_iff₀ (by norm_num)]
    norm_num at htenths ⊢
    linarith
  have hhigh : Binary64.round ((tenths : ℚ) / 10) ≤ ((2 ^ 53 - 1 : ℤ) : ℚ) := by
    apply Binary64.round_le (by decide)
    rw [div_le_iff₀ (by norm_num)]
    norm_num at htenths ⊢
    linarith
  rw [quotient, hvalue]
  constructor
  · have h := Binary64.le_round (n := 1 - 2 ^ 53) (q := Binary64.round ((tenths : ℚ) / 10) / n)
      (by decide) (by rw [le_div_iff₀ hn']; norm_num at hlow ⊢; nlinarith)
    norm_num at h ⊢
    linarith
  · have h := Binary64.round_le (n := 2 ^ 53 - 1) (q := Binary64.round ((tenths : ℚ) / 10) / n)
      (by decide) (by rw [div_le_iff₀ hn']; norm_num at hhigh ⊢; nlinarith)
    norm_num at h ⊢
    linarith

/-- With a bin size that is a whole number, a power is reported exactly if it is not a whole
bin below zero and below the end of the last bin. -/
theorem reported_int_iff {n : ℤ} (pos : 0 < n) (le : n ≤ 310) {tenths : ℤ}
    (small : tenths.natAbs < 2 ^ 53) :
    Reported (.int n) (310 / n) tenths ↔ -(10 * n) < tenths ∧ tenths < 10 * n * (310 / n) := by
  have hbins : 0 < 310 / n :=
    Int.lt_iff_add_one_le.mpr ((Int.le_ediv_iff_mul_le pos).mpr (by omega))
  have hle : n * (310 / n) ≤ 310 := Int.mul_ediv_self_le pos.ne'
  have hm : 310 / n ≤ 310 := by nlinarith
  obtain ⟨hlow, hhigh⟩ := quotient_range pos le small
  rw [← neg_one_lt_quotient_iff pos le, ← quotient_lt_iff pos hbins hle, Reported,
    and_iff_right hbins]
  have hcast : ((310 / n : ℤ) : ℚ) ≤ 310 := by exact_mod_cast hm
  constructor
  · rintro ⟨k, hk, hk'⟩
    have hbelow : k < 1 := by
      have h : (k : ℚ) < 1 := by linarith
      exact_mod_cast h
    have habove : -1 < k := by
      have h : (-1 : ℚ) < k := by linarith
      exact_mod_cast h
    obtain rfl : k = 0 := by omega
    exact ⟨by simpa using hk, by simpa using hk'⟩
  · rintro ⟨hk, hk'⟩
    exact ⟨0, by simpa using hk, by simpa using hk'⟩

/-! ## Nothing is lost -/

/-- The bins that are printed hold all that was counted at a scale. -/
def Lossless (scale : Scale) (r : Results) : Prop :=
  ∑ i ∈ Finset.Ico 0 r.bins, (r.hist scale).counts i = (r.hist scale).total

/-- An analysis loses nothing at a scale exactly if every power that it counts at that scale is
below the end of the last bin, and not by a whole bin below zero. -/
theorem lossless_iff {binsize : BinSize} {r : Results} (init : taInit binsize = some r)
    (primed records : List Record) (scale : Scale) :
    Lossless scale (taTakeAll (primed, r) records).2 ↔
      ∀ tenths, Sampled scale primed records tenths → Reported binsize r.bins tenths := by
  obtain ⟨bins, hbins, rfl⟩ := Option.map_eq_some_iff.mp init
  obtain ⟨hhist, hrest⟩ := taTakeAll_hist scale records primed { binsize := binsize, bins := bins }
  have hempty : Results.hist { binsize := binsize, bins := bins } scale = .empty := by
    cases scale <;> rfl
  rw [hempty] at hhist
  rw [Lossless, hhist, hrest, Tally.sum_counts_eq_total_iff]
  simp only [List.mem_map, forall_exists_index, and_imp, forall_apply_eq_imp_iff₂,
    indexOf_mem_iff hbins, mem_samples_iff]

/-- The last two powers are 309.5 and 310 watts. -/
def peakRecords : List Record :=
  [0, 0, 3095, 6195].map fun e => ⟨0, 0, 0, 0, [0, 0], [0, 0], 0, 0, e, 0, 0, 0, 0, 0, 0, 0, 0⟩

/-- Four records in bins of one watt. -/
theorem lossless_peak :
    Lossless .ms1 (taTakeAll ([], { binsize := .int 1, bins := 310 }) peakRecords).2 ↔
      ∀ tenths, Sampled .ms1 [] peakRecords tenths → Reported (.int 1) 310 tenths :=
  lossless_iff rfl [] peakRecords .ms1

/-- The power of 310 watts is counted, but not in a bin that is printed. -/
theorem peak_lost :
    ¬ ∀ (binsize : BinSize) (r : Results), taInit binsize = some r →
        ∀ (primed records : List Record) (scale : Scale),
          Lossless scale (taTakeAll (primed, r) records).2 := by
  intro lossless
  have h := lossless (.int 1) _ rfl [] peakRecords .ms1
  revert h
  unfold Lossless
  decide +kernel

end Amester.Scope
