/-
# The tables of the firmware

After it has asked for its version, a controller asks the firmware for its sensors, its
trace buffers and its parameters. Each of the three loops asks for the records from a
number on, takes as many records as the answer holds, and goes on behind them. A record
begins with a name that ends with a zero byte; fixed fields follow.

The fields are scanned into local variables of the loop. A field that the answer cuts
off leaves its variable as it was: with the value of an earlier record, or without one.
-/

import Amester.Lib.Paging
import Amester.Parm.Object
import Mathlib.Data.List.Sort

namespace Amester.Discovery

open BinaryFormat Parm

universe u

/-! ## Answers -/

/-- How a loop ends that does not come to its end. -/
inductive Failure
  /-- "can't read: no such variable" -/
  | noVariable (name : String)
  /-- "can't make for" goes to `bgerror`, and then the object without a name is called:
  "invalid command name" -/
  | noObject (num : ℕ)
  /-- "can't make for" goes to `bgerror`, and the loop returns. -/
  | cantMake (num : ℕ)
  /-- "Unknown parameter type= for parameter num=" -/
  | unknownType (typenum num : ℕ)
  /-- "Error code when getting number of parameters" -/
  | errorCode (err : ℤ)
  /-- "Error in response to get number of parameters" -/
  | errorInResponse (databytes : Bytes)
  deriving DecidableEq, Repr

/-- The loop has said itself what is wrong with the answers. -/
def Failure.Reported : Failure → Prop
  | .noVariable _ => False
  | _ => True

instance (e : Failure) : Decidable e.Reported := by
  cases e <;> unfold Failure.Reported <;> infer_instance

/-- The answer to the request for the records from number `i` on: `failed` is the branch
for an error status, and `record` reads a record of the answer. A request that is
repeated is answered from the cache, as it was before. -/
def take {τ : Type u} (send : SendSync) (request : ℕ → Bytes)
    (failed : ℕ → τ → Except Failure (ℕ × τ))
    (record : Bytes → ℕ → ℕ → τ → Except Failure (ℕ × τ)) (i : ℕ) (t : τ) :
    Except Failure (ℕ × τ) :=
  if (send (request i)).1 = 0 then
    let databytes := (send (request i)).2
    Paging.records (record databytes) databytes.length databytes.length 0 i t
  else failed i t

/-! ## Names -/

abbrev Name := Bytes

/-- The first zero byte from place `j` on, or the end. -/
def stringEnd (databytes : Bytes) (j : ℕ) : ℕ :=
  j + ((databytes.drop j).takeWhile (· ≠ 0)).length

/-- A field that is scanned with `A`: without the blanks and zero bytes at its end. -/
def stripped (bytes : Bytes) : Bytes :=
  (bytes.reverse.dropWhile fun b => b = 32 || b = 0).reverse

/-- The name of the record at place `j`. -/
def scannedName (databytes : Bytes) (j : ℕ) : Name :=
  stripped ((databytes.drop j).take (stringEnd databytes j - j))

/-- The end of the unit of the record at place `j`, which follows the name. -/
def unitEnd (databytes : Bytes) (j : ℕ) : ℕ := stringEnd databytes (stringEnd databytes j + 1)

/-- The unit of the record at place `j`. -/
def scannedUnit (databytes : Bytes) (j : ℕ) : Bytes :=
  let unitStart := stringEnd databytes j + 1
  (databytes.drop unitStart).take (unitEnd databytes j - unitStart)

/-- "translate illegal characters in name to legal characters" -/
def translate (name : Name) : Name := name.map fun b => if b = 45 then 95 else b

/-- `lappend`, unless it is in the list. -/
def appendNew {α : Type u} [DecidableEq α] (list : List α) (a : α) : List α :=
  if a ∈ list then list else list ++ [a]

/-- `lsort -ascii`. -/
def lsort (names : List Name) : List Name := names.insertionSort fun a b => a ≤ b

/-- Whether an object of a name can be made besides those made so far. -/
abbrev Maker := List Name → Name → Bool

/-! ## Scanned variables -/

/-- A variable behind a scan: its new value, or the one it had. -/
def scanned {α : Type u} (value : Value → Option α) (values : List Value) (k : ℕ)
    (old : Option α) : Option α :=
  (values[k]?.bind value).or old

def bytesValue : Value → Option Bytes
  | .bytes bytes => some bytes
  | _ => none

def intValue : Value → Option ℤ
  | .int n => some n
  | _ => none

/-- Read a variable. -/
def readVar {α : Type u} (name : String) : Option α → Except Failure α
  | none => .error (.noVariable name)
  | some a => .ok a

/-! ## Sensors -/

/-- A sensor object, with the bytes from which its frequency and its scale factor are
computed. -/
structure SensorObj where
  sensorname : Name
  sensornum : ℕ
  uValue : Bytes := []
  freq : Bytes := []
  scalefactor : Bytes := []
  deriving DecidableEq, Repr

/-- What `init_sensors` fills in and its two variables that outlive a record. An object is
known by its name. -/
structure Sensors where
  sensorobjsAll : List Name := []
  sensorListAll : List ℕ := []
  sensorListAllName : List Name := []
  sensornum2obj : ℕ → Option Name := fun _ => none
  objects : Name → Option SensorObj := fun _ => none
  dataFreq : Option Bytes := none
  dataScale : Option Bytes := none

/-- `numsensors_callback`. -/
def numsensorsCallback (databytes : Bytes) : ℕ := (signed (databytes.take 2) % 2 ^ 16).toNat

/-- `create_sensor`, or nothing if the object cannot be made. -/
def createSensor (make : Maker) (sensornum : ℕ) (sensorname : Name) (t : Sensors) :
    Option (Name × Sensors) :=
  let s := translate sensorname
  if make t.sensorobjsAll s then
    some (s, { t with
      sensorobjsAll := t.sensorobjsAll ++ [s]
      sensorListAll := appendNew t.sensorListAll sensornum
      sensorListAllName := appendNew t.sensorListAllName s
      sensornum2obj := Function.update t.sensornum2obj sensornum (some s)
      objects := Function.update t.objects s (some ⟨s, sensornum, [], [], []⟩) })
  else none

/-- `configure` of a sensor. -/
def configure (s : Name) (change : SensorObj → SensorObj) (t : Sensors) : Sensors :=
  { t with objects := Function.update t.objects s ((t.objects s).map change) }

/-- `units_callback`. -/
def unitsCallback (s : Name) (databytes : Bytes) : Sensors → Sensors :=
  configure s fun obj => { obj with uValue := stripped databytes }

/-- `freq_callback`. -/
def freqCallback (s : Name) (databytes : Bytes) : Sensors → Sensors :=
  configure s fun obj => { obj with freq := databytes }

/-- `scale_callback`. -/
def scaleCallback (s : Name) (databytes : Bytes) : Sensors → Sensors :=
  configure s fun obj => { obj with scalefactor := databytes }

/-- A record of the sensor table. -/
def sensorRecord (make : Maker) (databytes : Bytes) (i j : ℕ) (t : Sensors) :
    Except Failure (ℕ × Sensors) :=
  let values := scan [.bytes 4, .bytes 4] (databytes.drop (unitEnd databytes j + 1))
  let dataFreq := scanned bytesValue values 0 t.dataFreq
  let dataScale := scanned bytesValue values 1 t.dataScale
  match createSensor make i (scannedName databytes j) t with
  | none => .error (.noObject i)
  | some (s, t) =>
    match readVar "data_freq" dataFreq with
    | .error e => .error e
    | .ok freq =>
      match readVar "data_scale" dataScale with
      | .error e => .error e
      | .ok scale =>
        let t := unitsCallback s (scannedUnit databytes j) t
        let t := scaleCallback s scale (freqCallback s freq t)
        .ok (unitEnd databytes j + 9, { t with dataFreq, dataScale })

/-- The request for the sensors from number `i` on. -/
def sensorRequest (i : ℕ) : Bytes := 0x25 :: bigEndian 2 i ++ [5]

/-- The answers of `init_sensors`. The message for an error status reads a variable that
the method never sets, before it would leave the loop. -/
def takeSensors (send : SendSync) (make : Maker) :
    ℕ → Sensors → Except Failure (ℕ × Sensors) :=
  take send sensorRequest (fun _ _ => .error (.noVariable "_start_sensor"))
    (sensorRecord make)

/-- `init_sensors`, with so many answers at most. -/
def initSensors (send : SendSync) (make : Maker) (numsensors : ℕ) (fuel : ℕ) :
    Option (Except Failure Sensors) :=
  (Paging.run (takeSensors send make) numsensors fuel 0 {}).map fun r =>
    r.map fun t => { t with sensorListAllName := lsort t.sensorListAllName }

/-! ## Trace buffers -/

/-- A trace buffer object: its frequency is `mant` times ten to the `e`. -/
structure TraceObj where
  tracename : Name
  tracenum : ℕ
  mant : ℕ
  e : ℤ
  hasScom : ℤ
  deriving DecidableEq, Repr

/-- What `trace_init` fills in and its variables that outlive a record. -/
structure Traces where
  traceobjsAll : List TraceObj := []
  traceListAll : List ℕ := []
  traceListAllName : List Name := []
  m1 : Option ℤ := none
  m2 : Option ℤ := none
  m3 : Option ℤ := none
  e : Option ℤ := none
  hasScom : Option ℤ := none

/-- The mantissa of a frequency: three bytes. -/
def mantissa (m1 m2 m3 : ℤ) : ℕ :=
  ((m1 % 256).toNat * 256 + (m2 % 256).toNat) * 256 + (m3 % 256).toNat

/-- A record of the trace table. -/
def traceRecord (make : Maker) (databytes : Bytes) (i j : ℕ) (t : Traces) :
    Except Failure (ℕ × Traces) := do
  let nameEnd := stringEnd databytes j
  let values := scan [.int 1, .int 1, .int 1, .int 1, .int 1] (databytes.drop (nameEnd + 1))
  let m1 ← readVar "m1" (scanned intValue values 0 t.m1)
  let m2 ← readVar "m2" (scanned intValue values 1 t.m2)
  let m3 ← readVar "m3" (scanned intValue values 2 t.m3)
  let e ← readVar "e" (scanned intValue values 3 t.e)
  let hasScom ← readVar "has_scom" (scanned intValue values 4 t.hasScom)
  let tracename := translate (scannedName databytes j)
  if make (t.traceobjsAll.map TraceObj.tracename) tracename then
    return (nameEnd + 6,
      { traceobjsAll := t.traceobjsAll ++ [⟨tracename, i, mantissa m1 m2 m3, e, hasScom⟩]
        traceListAll := appendNew t.traceListAll i
        traceListAllName := appendNew t.traceListAllName tracename
        m1 := some (m1 % 256)
        m2 := some (m2 % 256)
        m3 := some (m3 % 256)
        e := some e
        hasScom := some hasScom })
  else .error (.cantMake i)

/-- The request for the trace buffers from number `i` on. -/
def traceRequest (i : ℕ) : Bytes := 0x30 :: bigEndian 1 i

/-- The answers of `trace_init`. An error status changes nothing. -/
def takeTraces (send : SendSync) (make : Maker) :
    ℕ → Traces → Except Failure (ℕ × Traces) :=
  take send traceRequest (fun i t => .ok (i, t)) (traceRecord make)

/-- `trace_init`, with so many answers at most. The count is a signed byte. -/
def traceInit (send : SendSync) (make : Maker) (traceCount : ℤ) (fuel : ℕ) :
    Option (Except Failure Traces) :=
  (Paging.run (takeTraces send make) traceCount fuel 0 {}).map fun r =>
    r.map fun t => { t with traceListAllName := lsort t.traceListAllName }

/-! ## Parameters -/

/-- What `init` fills in and its variables that outlive a record. -/
structure Parms where
  parmobjsAll : List (Name × ParmObj) := []
  parmListNameAll : List Name := []
  parmobjsAllSorted : List (Name × ParmObj) := []
  typenum : Option ℤ := none
  mode : Option ℤ := none
  vectorlength : Option ℤ := none
  length : ℤ := 0

/-- The name of a parameter as a text. -/
def nameText (name : Name) : String := String.ofList (name.map fun b => Char.ofNat b.toNat)

/-- The sixteen low bits. -/
def low16 (n : ℤ) : ℕ := (n % 2 ^ 16).toNat

theorem low16_lt (n : ℤ) : low16 n < 2 ^ 16 := by
  unfold low16
  omega

/-- The number of bytes of an element, or `none` for a type that has it in its record. -/
def elementLength : ParmType → Option ℤ
  | .uint8 | .int8 => some 1
  | .uint16 | .int16 => some 2
  | .uint32 | .int32 => some 4
  | .uint64 | .int64 => some 8
  | .string | .raw => none

/-- A record of the parameter table. -/
def parmRecord (make : Maker) (databytes : Bytes) (i j : ℕ) (t : Parms) :
    Except Failure (ℕ × Parms) := do
  let nameEnd := stringEnd databytes j
  let parmname := scannedName databytes j
  let values := scan [.int 1, .int 1, .int 4] (databytes.drop (nameEnd + 1))
  let typenum ← readVar "typenum" (scanned intValue values 0 t.typenum)
  let mode ← readVar "mode" (scanned intValue values 1 t.mode)
  let vectorlength ← readVar "vectorlength" (scanned intValue values 2 t.vectorlength)
  let typenum := (typenum % 256).toNat
  let j := nameEnd + 7
  match num2type typenum with
  | none => .error (.unknownType typenum i)
  | some type =>
    let (length, j) := match elementLength type with
      | some length => (length, j)
      | none =>
        ((scanned intValue (scan [.int 4] (databytes.drop j)) 0 (some t.length)).getD 0, j + 4)
    if make (t.parmobjsAll.map Prod.fst) parmname then
      return (j,
        { t with
          parmobjsAll := t.parmobjsAll ++ [(parmname,
            { name := nameText parmname
              number := i
              type := type
              mode := (mode % 256).toNat
              vectorsize := low16 vectorlength
              size := low16 length
              sizes_lt := ⟨low16_lt _, low16_lt _⟩ })]
          parmListNameAll := t.parmListNameAll ++ [parmname]
          typenum := some typenum
          mode := some (mode % 256)
          vectorlength := some (low16 vectorlength)
          length := low16 length })
    else .error (.cantMake i)

/-- The request for the parameters from number `i` on. -/
def parmRequest (i : ℕ) : Bytes := 0x41 :: bigEndian 2 i

/-- The answers of the loop of `init`. Each begins with `length` at zero, and an error
status changes nothing else. -/
def takeParms (send : SendSync) (make : Maker) (i : ℕ) (t : Parms) :
    Except Failure (ℕ × Parms) :=
  take send parmRequest (fun i t => .ok (i, t)) (parmRecord make) i { t with length := 0 }

/-- The number of parameters: the one the object was created with, or else the one the
firmware answers. -/
def askNumparms (send : SendSync) (numparms : ℤ) : Except Failure ℤ :=
  if numparms = 0 then
    let result := send [0x40]
    if result.1 ≠ 0 then .error (.errorCode result.1)
    else match scan [.int 2] result.2 with
      | [.int n] => .ok n
      | _ => .error (.errorInResponse result.2)
  else .ok numparms

/-- The loop of `init`, with so many answers at most, and the sorting behind it. -/
def parmLoop (send : SendSync) (make : Maker) (numparms : ℤ) (fuel : ℕ) :
    Option (Except Failure Parms) :=
  (Paging.run (takeParms send make) numparms fuel 0 {}).map fun r =>
    r.map fun t => { t with
      parmListNameAll := lsort t.parmListNameAll
      parmobjsAllSorted := (lsort t.parmListNameAll).filterMap fun name =>
        t.parmobjsAll.reverse.find? fun obj => obj.1 = name }

/-- `init` of the parameters. -/
def parmInit (send : SendSync) (make : Maker) (numparms : ℤ) (fuel : ℕ) :
    Option (Except Failure Parms) :=
  match askNumparms send numparms with
  | .error e => some (.error e)
  | .ok n => parmLoop send make n fuel

end Amester.Discovery
