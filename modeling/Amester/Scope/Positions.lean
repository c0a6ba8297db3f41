/-
# The positions of a record's fields

A record is a list of seventeen values that is made in one place and taken apart by
position in several others. The list was longer once: two more fields stood between the
temperature and the counters, one of them in the place of the demanded power. Where the
list is made and where records are interpolated the field was dropped. The places that
plot, analyse and export records still count it, so from there on they read one field too
far: the second throttle for the first, a throttle for the counter, and nothing at all for
the interpolation flag, and the export has no file name for one position.
-/

import Amester.Scope.Stream

namespace Amester.Scope

open BinaryFormat

/-! ## Records as lists -/

/-- A value in the list of a record. -/
inductive FieldValue
  | int (n : ℤ)
  /-- `0x` and digits -/
  | hex (digits : List Digit)
  /-- `0x` and a decimal number -/
  | hexInt (n : ℤ)
  deriving DecidableEq, Repr

/-- The list that `data2rec` returns. -/
def Record.toList (rec : Record) : List FieldValue :=
  [.int rec.before, .int rec.bmcTime, .int rec.perfCtr, .int rec.startStop, .hex rec.cpu0,
    .hex rec.cpu1, .hexInt rec.cpu2, .int rec.cpu3, .int rec.energy, .int rec.temp0,
    .int rec.demandPower, .int rec.pcount, .int rec.tcount, .int rec.throttle0,
    .int rec.throttle1, .int rec.lpc15, .int rec.isInterpolated]

/-- `lindex`, which gives nothing behind the end of a list. -/
def lindex (rec : List FieldValue) (i : ℕ) : Option FieldValue := rec[i]?

/-! ## Plotting -/

/-- What the loop of `graph_list` takes from a record and the one before it. -/
structure GraphPoint where
  fEnergy : Option FieldValue
  fBmcTime : Option FieldValue
  sEnergy : Option FieldValue
  sBmcTime : Option FieldValue
  interp : Option FieldValue
  temp0 : Option FieldValue
  temp1 : Option FieldValue
  throttle0 : Option FieldValue
  throttle1 : Option FieldValue
  debug : Option FieldValue
  tryCount : Option FieldValue
  deriving DecidableEq, Repr

def graphPoint (lastRecord record : List FieldValue) : GraphPoint where
  fEnergy := lindex lastRecord 8
  fBmcTime := lindex lastRecord 1
  sEnergy := lindex record 8
  sBmcTime := lindex record 1
  interp := lindex record 17
  temp0 := lindex record 9
  temp1 := lindex record 10
  throttle0 := lindex record 14
  throttle1 := lindex record 15
  debug := lindex record 11
  tryCount := lindex record 3

/-! ## Analysing -/

/-- What `ta_process_record` takes from a record. -/
structure AnalysisFields where
  energy : Option FieldValue
  bmcTime : Option FieldValue
  rcount : Option FieldValue
  deriving DecidableEq, Repr

def analysisFields (rec : List FieldValue) : AnalysisFields where
  energy := lindex rec 8
  bmcTime := lindex rec 1
  rcount := lindex rec 13

/-! ## Exporting -/

/-- `trace2ascii_split` has this many fields. -/
def splitFields : ℕ := 17

/-- The end of a field's file name. -/
def ext : ℕ → Option String
  | 0 => some "_tsc"
  | 1 => some "_bmc"
  | 2 => some "_perf_ctr"
  | 3 => some "_start_stop"
  | 4 => some "_cpu0"
  | 5 => some "_cpu1"
  | 6 => some "_cpu2"
  | 7 => some "_cpu3"
  | 8 => some "_energy"
  | 9 => some "_temp0"
  | 10 => some "_demand_power"
  | 12 => some "_pcount"
  | 13 => some "_tcount"
  | 14 => some "_throttle0"
  | 15 => some "_throttle1"
  | 16 => some "_lpc15"
  | 17 => some "_interpolated"
  | _ => none

/-- `%u` and `%lu`: the low bits as an unsigned number. -/
def formatUnsigned (bits : ℕ) : FieldValue → FieldValue
  | .int n => .int (n % 2 ^ bits)
  | text => text

/-- `ascii_record`, as the list of its words. -/
def asciiRecord (rec : List FieldValue) : List FieldValue :=
  rec.mapIdx fun i value =>
    if i = 0 then formatUnsigned 64 value
    else if 4 ≤ i ∧ i < 8 then value
    else formatUnsigned 32 value

/-- How `trace2ascii_split` ends. -/
inductive SplitResult
  /-- The stream is not opened or not read. -/
  | streamError (error : StreamError)
  /-- `can't read "ext": no such element in array`, after these files have been opened. -/
  | noExtension (opened : List String)
  /-- "Cannot open file" -/
  | cannotOpen (opened : List String) (file : String)
  /-- All records have been written, field by field, and the powers. -/
  | written (files : List (String × List (Option FieldValue))) (powers : List ℚ)
  deriving DecidableEq

/-- Open the files of the fields from a position on. A file that cannot be opened is reported
with its name, which raises if it has none. -/
def openOutputs (canOpen : String → Bool) (outfilename : String) :
    List ℕ → List String → Except SplitResult (List String)
  | [], opened => .ok opened
  | i :: positions, opened =>
    match ext i with
    | none => .error (.noExtension opened)
    | some suffix =>
      if canOpen (outfilename ++ suffix) then
        openOutputs canOpen outfilename positions (opened ++ [outfilename ++ suffix])
      else .error (.cannotOpen opened (outfilename ++ suffix))

/-- The power between two records, and 0 for the first. -/
def splitPowers : Option Record → List Record → List ℚ
  | _, [] => []
  | none, rec :: recs => 0 :: splitPowers (some rec) recs
  | some last, rec :: recs =>
    Binary64.round (((rec.energy - last.energy) / (rec.bmcTime - last.bmcTime) : ℤ) / 10) ::
      splitPowers (some rec) recs

/-- `trace2ascii_split` -/
def trace2asciiSplit (canOpen : String → Bool) (file : Bytes) (outfilename : String) (start : ℤ)
    (length : StreamLength) : SplitResult :=
  match streamOpen file start length with
  | .error e => .streamError e
  | .ok s =>
    match openOutputs canOpen outfilename (List.range splitFields) [] with
    | .error result => result
    | .ok names =>
      if canOpen (outfilename ++ "_power") then
        match readToEnd (⌊s.endtime⌋ - s.curtime + 2).toNat s with
        | none => .streamError .tooManyNested
        | some (.error e) => .streamError e
        | some (.ok recs) =>
          .written (names.mapIdx fun i name => (name, recs.map fun rec =>
            lindex (asciiRecord rec.toList) i)) (splitPowers none recs)
      else .cannotOpen names (outfilename ++ "_power")

/-! ## What the positions mean -/

/-- Plotting takes every quantity from where it is. -/
structure GraphAgrees (rec : Record) : Prop where
  energy : (graphPoint rec.toList rec.toList).sEnergy = some (.int rec.energy)
  bmcTime : (graphPoint rec.toList rec.toList).sBmcTime = some (.int rec.bmcTime)
  temp0 : (graphPoint rec.toList rec.toList).temp0 = some (.int rec.temp0)
  throttle0 : (graphPoint rec.toList rec.toList).throttle0 = some (.int rec.throttle0)
  throttle1 : (graphPoint rec.toList rec.toList).throttle1 = some (.int rec.throttle1)
  interp : (graphPoint rec.toList rec.toList).interp = some (.int rec.isInterpolated)

/-- The analysis takes the counter whose low bits mark the averages from where it is. -/
structure AnalysisAgrees (rec : Record) : Prop where
  energy : (analysisFields rec.toList).energy = some (.int rec.energy)
  bmcTime : (analysisFields rec.toList).bmcTime = some (.int rec.bmcTime)
  rcount : (analysisFields rec.toList).rcount = some (.int rec.tcount)

/-- The names of the exported fields, in the order of the list. -/
def fieldNames : List String :=
  ["_tsc", "_bmc", "_perf_ctr", "_start_stop", "_cpu0", "_cpu1", "_cpu2", "_cpu3", "_energy",
    "_temp0", "_demand_power", "_pcount", "_tcount", "_throttle0", "_throttle1", "_lpc15",
    "_interpolated"]

/-- Every position of the list is exported under the name of its field. -/
def ExportAgrees (rec : Record) : Prop :=
  splitFields = rec.toList.length ∧ ∀ i < rec.toList.length, ext i = fieldNames[i]?

/-- All consumers agree with the list that `data2rec` makes of these bytes. -/
def PositionsAgree (data : Bytes) : Prop :=
  ∃ rec, data2rec data = some rec ∧ GraphAgrees rec ∧ AnalysisAgrees rec ∧ ExportAgrees rec

/-- What plotting takes for the throttles and the flag. -/
theorem graphPoint_reads (last rec : Record) :
    graphPoint last.toList rec.toList =
      { fEnergy := some (.int last.energy)
        fBmcTime := some (.int last.bmcTime)
        sEnergy := some (.int rec.energy)
        sBmcTime := some (.int rec.bmcTime)
        interp := none
        temp0 := some (.int rec.temp0)
        temp1 := some (.int rec.demandPower)
        throttle0 := some (.int rec.throttle1)
        throttle1 := some (.int rec.lpc15)
        debug := some (.int rec.pcount)
        tryCount := some (.int rec.startStop) } := rfl

/-- The analysis takes the first throttle for the counter. -/
theorem analysisFields_reads (rec : Record) :
    analysisFields rec.toList =
      ⟨some (.int rec.energy), some (.int rec.bmcTime), some (.int rec.throttle0)⟩ := rfl

theorem not_graphAgrees (rec : Record) : ¬ GraphAgrees rec := by
  intro agrees
  have hinterp := agrees.interp
  rw [graphPoint_reads] at hinterp
  cases hinterp

/-- A throttle has four bits, the counter eight. They agree only by chance. -/
theorem analysisAgrees_iff (rec : Record) : AnalysisAgrees rec ↔ rec.throttle0 = rec.tcount := by
  constructor
  · intro agrees
    have hcount := agrees.rcount
    rw [analysisFields_reads] at hcount
    simpa using hcount
  · intro heq
    refine ⟨rfl, rfl, ?_⟩
    rw [analysisFields_reads, heq]

theorem not_exportAgrees (rec : Record) : ¬ ExportAgrees rec := by
  rintro ⟨-, hnames⟩
  exact absurd (hnames 11 (by decide : 11 < 17)) (by decide)

/-- A field without a name is not passed. -/
theorem openOutputs_of_noName (canOpen : String → Bool) (outfilename : String) {i : ℕ}
    (noName : ext i = none) {positions : List ℕ} (mem : i ∈ positions) (opened : List String) :
    ∃ result, openOutputs canOpen outfilename positions opened = .error result ∧
      ∀ files powers, result ≠ .written files powers := by
  induction positions generalizing opened with
  | nil => exact absurd mem List.not_mem_nil
  | cons j positions ih =>
      rw [openOutputs]
      cases hext : ext j with
      | none => exact ⟨_, rfl, nofun⟩
      | some suffix =>
          have hother : i ≠ j := by
            rintro rfl
            rw [noName] at hext
            cases hext
          have hrest := (List.mem_cons.mp mem).resolve_left hother
          simp only
          split
          · exact ih hrest _
          · exact ⟨_, rfl, nofun⟩

/-- The export does not write a record, whatever it is given. -/
theorem trace2asciiSplit_writes_nothing (canOpen : String → Bool) (file : Bytes)
    (outfilename : String) (start : ℤ) (length : StreamLength)
    (files : List (String × List (Option FieldValue))) (powers : List ℚ) :
    trace2asciiSplit canOpen file outfilename start length ≠ .written files powers := by
  have hmem : 11 ∈ List.range splitFields := by decide
  obtain ⟨result, hresult, hnot⟩ := openOutputs_of_noName canOpen outfilename rfl hmem []
  unfold trace2asciiSplit
  cases streamOpen file start length with
  | error e => exact nofun
  | ok s =>
      simp only [hresult]
      exact hnot files powers

/-- The consumers do not agree with the list of any record. Plotting has no interpolation
flag, the export has no name for a field, and the analysis has the counter only where it is
the same as the first throttle. -/
theorem positionsAgree_never (data : Bytes) (length : data.length = 32) :
    ¬ PositionsAgree data ∧
      ∃ rec, data2rec data = some rec ∧ ¬ GraphAgrees rec ∧
        (AnalysisAgrees rec ↔ rec.throttle0 = rec.tcount) ∧ ¬ ExportAgrees rec := by
  constructor
  · rintro ⟨rec, -, hgraph, -, -⟩
    exact not_graphAgrees rec hgraph
  · exact ⟨_, data2rec_eq length, not_graphAgrees _, analysisAgrees_iff _, not_exportAgrees _⟩

/-- A record of zeros. -/
theorem positionsAgree_never_zeros :
    ¬ PositionsAgree (List.replicate 32 0) ∧
      ∃ rec, data2rec (List.replicate 32 0) = some rec ∧ ¬ GraphAgrees rec ∧
        (AnalysisAgrees rec ↔ rec.throttle0 = rec.tcount) ∧ ¬ ExportAgrees rec :=
  positionsAgree_never (List.replicate 32 0) (by decide)

/-- Not even the record of a single byte value has its flag where plotting takes it from. -/
theorem positions_differ :
    ¬ ∀ data : Bytes, data.length = 32 → PositionsAgree data := by
  intro agree
  obtain ⟨rec, -, hgraph, -, -⟩ := agree (List.replicate 32 41) (by decide)
  exact not_graphAgrees rec hgraph

end Amester.Scope
