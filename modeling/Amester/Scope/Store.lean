/-
# The store of streams and analyses

All streams of the program are kept in one global array and all analyses in another. A
key is an identifier and the name of a field behind a comma; the identifiers come from
one counter. What is over is removed by a pattern, the identifier followed by a star.

An analysis reads a stream of its own and hands its results to a callback, which may run
anything in between. Analyses therefore end in the reverse order of their beginnings.
-/

import Amester.Ipmi.Request
import Amester.Lib.Glob
import Amester.Lib.Numeral
import Amester.Scope.Stream

namespace Amester.Scope

open BinaryFormat

universe u

/-! ## Identifiers and arrays -/

abbrev Ident := Glob.Text

/-- `uid_create` with the counter at a number. -/
def uid (n : ℕ) : Ident := 'u' :: Numeral.decimal n

/-- A global array with keys of an identifier, which has no comma, a comma and a field. -/
abbrev TclArray (ν : Type u) := Ident → String → Option ν

namespace TclArray

variable {ν : Type u}

def set (a : TclArray ν) (id : Ident) (field : String) (v : ν) : TclArray ν :=
  Function.update a id (Function.update (a id) field (some v))

/-- Set fields one after the other. -/
def setAll (a : TclArray ν) (id : Ident) (fields : List (String × ν)) : TclArray ν :=
  fields.foldl (fun a entry => a.set id entry.1 entry.2) a

/-- `array unset` with a pattern. -/
def unset (a : TclArray ν) (pattern : Glob.Text) : TclArray ν := fun id field =>
  if Glob.stringMatch pattern (id ++ ',' :: field.toList) then none else a id field

end TclArray

/-- A value in the array of streams. -/
inductive Cell
  | text (text : String)
  | int (n : ℤ)
  | double (x : ℚ)
  | length (length : StreamLength)
  | file (bytes : Bytes)
  | records (records : List Record)
  deriving DecidableEq

/-- A value in the array of analyses; `result` is one that an analysis computes. -/
inductive TaCell (ν : Type u)
  | text (text : String)
  | int (n : ℤ)
  | length (length : StreamLength)
  | records (records : List Record)
  | result (v : ν)

/-- What an analysis computes. It sets fields of its own only. -/
structure Analysis (ν : Type u) where
  /-- `ta_initialize`, from the options. -/
  initial : (String → Option (TaCell ν)) → List (String × TaCell ν)
  /-- `ta_process_record`, from the fields of the analysis, `none` when it raises. -/
  processRecord : (String → Option (TaCell ν)) → Record → Option (List (String × TaCell ν))

structure Globals (ν : Type u) where
  uidCount : ℕ := 0
  stream : TclArray Cell := fun _ _ => none
  streamids : Ident → Bool := fun _ => false
  ta : TclArray (TaCell ν)
  /-- The analyses whose callback is running, the innermost first: the tag and the stream
  that is closed behind the callback. -/
  running : List (Ident × Option Ident) := []

namespace Globals

variable {ν : Type u}

/-- Only the options are set. -/
def init : Globals ν where
  ta := TclArray.set (fun _ _ => none) "options".toList "binsize" (.int 1)

def uidCreate (g : Globals ν) : Ident × Globals ν :=
  (uid (g.uidCount + 1), { g with uidCount := g.uidCount + 1 })

/-! ## Streams -/

/-- The error of a missing record or field. -/
def noVariable : String := "can't read: no such variable"

def errorText : StreamError → String
  | .startBefore => "start before beginning"
  | .startAfter => "start after end of file"
  | .outOfTraceRange => "out_of_trace_range"
  | .nothingFound => "nothing_found"
  | .shouldNotHappen => "this should not happen"
  | .shouldNotHappen2 => "this should not happen 2"
  | .noVariable => noVariable
  | .tooManyNested => "too many nested evaluations"

/-- The fields that `streamOpen` sets, and its error. A stream that cannot be opened
leaves the fields behind that were set before. -/
def openFields (filename : String) (file : Option Bytes) (start : ℤ) (length : StreamLength) :
    List (String × Cell) × Option String :=
  let fields := [("filename", Cell.text filename), ("start", .int start),
    ("length", .length length), ("buf", .records [])]
  match file with
  | none => (fields, some "couldn't open")
  | some file =>
    let maxrec : ℤ := ((file.length : ℤ) - 32) / 32
    let fields := fields ++ [("file", .file file), ("position", .int 0),
      ("max", .int ((file.length : ℤ) - 32)), ("maxrec", .int maxrec)]
    match traceGetRecnum file 0 with
    | none => (fields, some noVariable)
    | some first =>
      let fields := fields ++ [("filestarttime", .int first.bmcTime)]
      match traceGetRecnum file maxrec.toNat with
      | none => (fields, some noVariable)
      | some last =>
        let starttime := first.bmcTime + start
        let after := length.after starttime last.bmcTime
        let endtime := if after > last.bmcTime then (last.bmcTime : ℚ) else after
        let fields := fields ++ [("fileendtime", .int last.bmcTime),
          ("starttime", .int starttime), ("endtime", .double endtime)]
        if starttime < first.bmcTime then (fields, some (errorText .startBefore))
        else if starttime > last.bmcTime then (fields, some (errorText .startAfter))
        else
          let fields := fields ++ [("curtime", .int starttime)]
          let s : Stream :=
            { file := file
              maxrec := maxrec.toNat
              filestarttime := first.bmcTime
              fileendtime := last.bmcTime
              starttime := starttime
              endtime := endtime
              curtime := starttime }
          match streamTime2rec s starttime with
          | .error e => (fields, some (errorText e))
          | .ok currec => (fields ++ [("currec", .int currec)], none)

/-- Open a stream under a new identifier. `files` are the files that can be opened. -/
def streamOpen (files : String → Option Bytes) (filename : String) (start : ℤ)
    (length : StreamLength) (g : Globals ν) : Ident × Outcome (Globals ν) :=
  let (streamid, g) := g.uidCreate
  let (fields, error) := openFields filename (files filename) start length
  let g := { g with stream := g.stream.setAll streamid fields }
  (streamid, match error with
    | some e => .raise g e
    | none => .ok { g with streamids := Function.update g.streamids streamid true })

/-- Close the file and delete all storage of the stream. -/
def streamClose (streamid : Ident) (g : Globals ν) : Outcome (Globals ν) :=
  if (g.stream streamid "file").isNone then .raise g noVariable
  else
    .ok { g with
      stream := g.stream.unset (streamid ++ ['*'])
      streamids := fun id => !Glob.stringMatch streamid id && g.streamids id }

/-- The stream with these fields. -/
def loadStream (fields : String → Option Cell) : Option Stream :=
  match fields "file", fields "maxrec", fields "filestarttime", fields "fileendtime",
    fields "starttime", fields "endtime", fields "curtime", fields "currec", fields "buf" with
  | some (.file file), some (.int maxrec), some (.int filestarttime), some (.int fileendtime),
    some (.int starttime), some (.double endtime), some (.int curtime), some (.int currec),
    some (.records buf) =>
    some
      { file := file
        maxrec := maxrec.toNat
        filestarttime := filestarttime
        fileendtime := fileendtime
        starttime := starttime
        endtime := endtime
        curtime := curtime
        currec := currec.toNat
        buf := buf }
  | _, _, _, _, _, _, _, _, _ => none

/-- The fields that reading changes. -/
def readFields (s : Stream) : List (String × Cell) :=
  [("buf", .records s.buf), ("curtime", .int s.curtime), ("currec", .int s.currec)]

/-- The next record of a stream, or nothing at its end. -/
def streamRead (streamid : Ident) (g : Globals ν) : Outcome (Globals ν) × Option Record :=
  match loadStream (g.stream streamid) with
  | none => (.raise g noVariable, none)
  | some s =>
    let read := Scope.streamRead s
    let g := { g with stream := g.stream.setAll streamid (readFields read.1) }
    match read.2 with
    | .error e => (.raise g (errorText e), none)
    | .ok rec => (.ok g, rec)

/-- What so many reads of a stream give. -/
def readTimes (streamid : Ident) : ℕ → Globals ν → List (Option String × Option Record)
  | 0, _ => []
  | n + 1, g =>
    let (outcome, rec) := g.streamRead streamid
    (outcome.error, rec) :: readTimes streamid n outcome.state

/-- The stored stream is the stream that is opened. -/
theorem loadStream_openFields {filename : String} {file : BinaryFormat.Bytes} {start : ℤ}
    {length : StreamLength} {s : Stream} (opened : Scope.streamOpen file start length = .ok s)
    (a : TclArray Cell) (id : Ident) :
    (openFields filename (some file) start length).2 = none ∧
      loadStream (a.setAll id (openFields filename (some file) start length).1 id) = some s := by
  have hmaxrec : (((file.length : ℤ) - 32) / 32).toNat = (file.length - 32) / 32 := by omega
  unfold Scope.streamOpen at opened
  dsimp only at opened
  split at opened
  · rename_i first last hfirst hlast
    by_cases hbefore : first.bmcTime + start < first.bmcTime
    · rw [if_pos hbefore] at opened
      exact absurd opened nofun
    · by_cases hafter : first.bmcTime + start > last.bmcTime
      · rw [if_neg hbefore, if_pos hafter] at opened
        exact absurd opened nofun
      · rw [if_neg hbefore, if_neg hafter] at opened
        simp only [openFields, hfirst, hmaxrec, hlast, if_neg hbefore, if_neg hafter]
        generalize streamTime2rec _ _ = found at opened ⊢
        cases found with
        | error e => exact absurd opened nofun
        | ok currec =>
            refine ⟨rfl, ?_⟩
            rw [← Except.ok.inj opened]
            simp [loadStream, TclArray.setAll, TclArray.set, hmaxrec]
  · exact absurd opened nofun

/-! ## Analyses -/

/-- Append a record to the history of an analysis. -/
def saveRecord (tag : Ident) (rec : Record) (g : Globals ν) : Globals ν :=
  let history := match g.ta tag "history" with
    | some (.records history) => history
    | _ => []
  { g with ta := g.ta.set tag "history" (.records (history ++ [rec])) }

/-- Drop the first record of a history of more than a thousand. -/
def cullHistory (tag : Ident) (g : Globals ν) : Globals ν :=
  match g.ta tag "history" with
  | some (.records history) =>
    if history.length > 1000 then
      { g with ta := g.ta.set tag "history" (.records (history.drop 1)) }
    else g
  | _ => g

/-- Read so many records into the history, or as many as there are. -/
def primeHistory (streamid tag : Ident) : ℕ → Globals ν → Outcome (Globals ν)
  | 0, g => .ok g
  | n + 1, g =>
    let (outcome, rec) := g.streamRead streamid
    outcome.andThen fun g =>
      match rec with
      | none => .ok g
      | some rec => primeHistory streamid tag n (g.saveRecord tag rec)

variable (A : Analysis ν)

/-- `ta_initialize`. -/
def taInitialize (tag : Ident) (g : Globals ν) : Globals ν :=
  { g with ta := g.ta.setAll tag (A.initial (g.ta "options".toList)) }

/-- Take one record into an analysis. -/
def analyzeRecord (tag : Ident) (rec : Record) (g : Globals ν) : Outcome (Globals ν) :=
  let g := g.saveRecord tag rec
  match A.processRecord (g.ta tag) rec with
  | none => .raise g "expr"
  | some fields => .ok (cullHistory tag { g with ta := g.ta.setAll tag fields })

/-- Take records into an analysis. -/
def analyzeRecords (tag : Ident) : List Record → Globals ν → Outcome (Globals ν)
  | [], g => .ok g
  | rec :: records, g =>
    (g.analyzeRecord A tag rec).andThen (analyzeRecords tag records)

/-- Take the rest of a stream into an analysis, with so many reads at most. -/
def analyzeStream (streamid tag : Ident) : ℕ → Globals ν → Outcome (Globals ν)
  | 0, g => .ok g
  | n + 1, g =>
    let (outcome, rec) := g.streamRead streamid
    outcome.andThen fun g =>
      match rec with
      | none => .ok g
      | some rec => (g.analyzeRecord A tag rec).andThen (analyzeStream streamid tag n)

/-- The number of reads after which a stream is at its end. -/
def readsLeft (streamid : Ident) (g : Globals ν) : ℕ :=
  match loadStream (g.stream streamid) with
  | none => 1
  | some s => (⌊s.endtime⌋ - s.curtime + 2).toNat

/-- The beginning of the history: a second before the start. -/
def historyStart (start : ℤ) : ℤ := if start - 1000 < 0 then 0 else start - 1000

/-- `$length + $start - $newstart` -/
def historyLength (start : ℤ) : StreamLength → StreamLength
  | .toEnd => .toEnd
  | .int n => .int (n + start - historyStart start)
  | .double x => .double (Binary64.round
      (Binary64.round (x + Binary64.round start) - Binary64.round (historyStart start)))

/-- `ta_file` up to its callback. -/
def taFile (files : String → Option Bytes) (filename : String) (start : ℤ)
    (length : StreamLength) (callback : String) (g : Globals ν) : Outcome (Globals ν) :=
  let (tag, g) := g.uidCreate
  let fields :=
    [("start", TaCell.int start), ("length", .length length), ("callback", .text callback)]
  let g := { g with ta := g.ta.setAll tag fields }
  let (streamid, opened) :=
    g.streamOpen files filename (historyStart start) (historyLength start length)
  opened.andThen fun g =>
  (g.primeHistory streamid tag (start - historyStart start).toNat).andThen fun g =>
  let g := g.taInitialize A tag
  (g.analyzeStream A streamid tag (g.readsLeft streamid)).andThen fun g =>
  (g.streamClose streamid).andThen fun g =>
  .ok { g with running := (tag, none) :: g.running }

/-- `ta_records` up to its callback. -/
def taRecords (files : String → Option Bytes) (filename : String) (records : List Record)
    (g : Globals ν) : Outcome (Globals ν) :=
  let completeRecords := interpolate records
  let (tag, g) := g.uidCreate
  match completeRecords.head?, completeRecords.getLast?, files filename with
  | some first, some last, file =>
    if last.bmcTime - first.bmcTime < 1 then .raise g "nothing to analyze"
    else
      match file.map fun file => traceGetRecnum file 0 with
      | none => .raise g "couldn't open"
      | some none => .raise g noVariable
      | some (some rec) =>
        let start := first.bmcTime - rec.bmcTime
        if start < 0 then .raise g "start before file"
        else
          let (streamid, opened) := g.streamOpen files filename (historyStart start)
            (historyLength start (.int completeRecords.length))
          opened.andThen fun g =>
          (g.primeHistory streamid tag (start - historyStart start).toNat).andThen fun g =>
          ((g.taInitialize A tag).analyzeRecords A tag completeRecords).andThen fun g =>
          .ok { g with running := (tag, some streamid) :: g.running }
  | _, _, _ => .raise g "syntax error in expression"

/-- What follows the callback of the innermost analysis: its storage is removed. -/
def taDone (g : Globals ν) : Outcome (Globals ν) :=
  match g.running with
  | [] => .ok g
  | (tag, stream) :: running =>
    let g := { g with running := running }
    let closed : Outcome (Globals ν) := match stream with
      | none => .ok g
      | some streamid => g.streamClose streamid
    closed.andThen fun g => .ok { g with ta := g.ta.unset (tag ++ ['*']) }

/-- The callback of the innermost analysis raises. -/
def taFail (g : Globals ν) : Globals ν := { g with running := g.running.drop 1 }

end Globals

end Amester.Scope
