/-
# Configuring a trace buffer

A trace buffer records entries of sensor fields, parameters and SCOMs. Its
configuration is asked for by names: `set_config` looks the names up, sends the
numbers to the firmware and reads back what the firmware has made of them. It
changes the selected sockets at once and the lists of fields at its end.

Sockets are selected by a bitmap of 32 bits, all of them if none is named. A SCOM
is recorded once for every socket.
-/

import Amester.Ipmi.Request
import Amester.Lib.Bitmap
import Amester.Parm.Object

namespace Amester.Trace

open BinaryFormat Parm

universe u

/-! ## What can be traced -/

/-- A sensor, with the factor by which its values are multiplied. -/
structure Sensor (β : Type u) where
  sensornum : ℕ
  scalefactor : β

inductive SensorField
  | value
  | min
  | max
  | acc
  | updates
  | test
  | rcnt
  deriving DecidableEq, Repr

namespace SensorField

/-- The field of a name. -/
def ofName : String → Option SensorField
  | "value" => some .value
  | "min" => some .min
  | "max" => some .max
  | "acc" => some .acc
  | "updates" => some .updates
  | "test" => some .test
  | "rcnt" => some .rcnt
  | _ => none

/-- The number of a field in a message. -/
def fnum : SensorField → ℕ
  | .value => 0
  | .min => 1
  | .max => 2
  | .acc => 3
  | .updates => 4
  | .test => 5
  | .rcnt => 6

/-- The number of bytes of a field. -/
def size : SensorField → ℕ
  | .value | .min | .max | .test => 2
  | .acc | .updates | .rcnt => 4

end SensorField

/-- An entry of the SCOM list: its mode, its address and its data. -/
structure Scom where
  mode : String
  address : String
  data : String
  deriving DecidableEq, Repr

/-- What the trace buffer finds outside of it. -/
structure Env (β : Type u) where
  /-- The sensor of a name, as an object or as a sensor of the controller. -/
  findSensor : String → Option (Sensor β)
  findParm : String → Option ParmObj
  /-- `expr` of a text with a leading `0x`, `none` when that raises. -/
  hexExpr : String → Option ℤ
  /-- The number that an operator makes of sixteen hexadecimal digits without that
  prefix, `none` when it raises. -/
  digitsNumber : List Digit → Option ℤ
  send : SendSync

/-- The errors of a trace buffer. -/
inductive TraceError
  /-- "is not capable of tracing SCOMs" -/
  | noScom
  /-- "too many fields in" -/
  | tooManyFields
  /-- "unknown sensor" -/
  | unknownSensor (s : String)
  /-- "Unknown sensor field" -/
  | unknownField (f : String)
  /-- "unknown parameter" -/
  | unknownParm (s : String)
  /-- "data not provided for write to SCOM" -/
  | noData (address : String)
  /-- "unknown SCOM mode for address" -/
  | unknownMode (mode address : String)
  /-- The address or the data is not an expression. -/
  | expression (text : String)
  /-- "integer value too large to represent" -/
  | tooLarge
  /-- "Error configuring: err=, resp=" -/
  | firmware (err : ℤ) (resp : Bytes)
  /-- "can't read: no such variable" -/
  | noVariable
  /-- An operand is not a number. -/
  | notANumber
  /-- A parameter cannot be parsed. -/
  | parm (error : ReadError)

/-! ## The trace buffer -/

/-- A value of an entry. -/
inductive FieldValue (β : Type u)
  | scaled (v : β)
  | int (n : ℤ)
  | hex (digits : List Digit)
  | parm (v : ParmValue)

structure TraceBuffer (β : Type u) where
  tracenum : ℕ
  hasScom : Bool
  /-- -1 at the beginning, 32 bits later. -/
  tbUserSocketsBitmap : ℕ := 2 ^ 32 - 1
  tbSensorList : List (Sensor β × SensorField) := []
  tbParmList : List ParmObj := []
  tbScomList : List Scom := []
  tbEntrySize : ℕ := 0
  tbWrite : ℕ := 0
  tbRead : ℕ := 0
  tbChipsMax : ℕ := 0
  tbBytes : Bytes := []
  tbEntries : List (List (FieldValue β)) := []

variable {β : Type u}

/-- The layout of the firmware's answer. -/
def configFields : List Field := List.replicate 8 (.int 4) ++ List.replicate 9 (.int 1)

/-- Read the state of the trace buffer from the firmware. The answer's status is not
looked at. -/
def getConfig (env : Env β) (tb : TraceBuffer β) : Except TraceError (TraceBuffer β) :=
  match scan configFields (env.send [0x3f, byteOf tb.tracenum]).2 with
  | [.int _, .int _, .int entrySize, .int _, .int _, .int write, .int _, .int read, .int _,
      .int _, .int _, .int _, .int _, .int _, .int _, .int chipsMax, .int _] =>
    .ok { tb with
      tbEntrySize := (entrySize % 2 ^ 32).toNat
      tbWrite := (write % 2 ^ 32).toNat
      tbRead := (read % 2 ^ 32).toNat
      tbChipsMax := (chipsMax % 2 ^ 8).toNat }
  | _ => .error .noVariable

/-! ## set_config -/

/-- The sensor and the field of one request. -/
def sensorRequest (env : Env β) : List String → Except TraceError (Sensor β × SensorField)
  | [s] =>
    match env.findSensor s with
    | none => .error (.unknownSensor s)
    | some sobj => .ok (sobj, .value)
  | [s, f] =>
    match env.findSensor s with
    | none => .error (.unknownSensor s)
    | some sobj =>
      match SensorField.ofName f with
      | none => .error (.unknownField f)
      | some field => .ok (sobj, field)
  | _ => .error .tooManyFields

def parmRequest (env : Env β) (s : String) : Except TraceError ParmObj :=
  match env.findParm s with
  | none => .error (.unknownParm s)
  | some sobj => .ok sobj

/-- The SCOM of one request, and its bytes in the message. -/
def scomRequest (env : Env β) (request : List String) : Except TraceError (Scom × Bytes) :=
  let scom? :=
    match request with
    | [a] => some (⟨"r", a, ""⟩ : Scom)
    | [mode, a] => some ⟨mode, a, ""⟩
    | [mode, a, d] => some ⟨mode, a, d⟩
    | _ => none
  match scom? with
  | none => .error .tooManyFields
  | some scom =>
    if scom.mode = "r" then
      match env.hexExpr scom.address with
      | none => .error (.expression scom.address)
      | some a =>
        match formatInts 4 [a] with
        | none => .error .tooLarge
        | some address => .ok (scom, 0 :: address)
    else if scom.mode = "w" then
      if scom.data = "" then .error (.noData scom.address)
      else
        match env.hexExpr scom.address with
        | none => .error (.expression scom.address)
        | some a =>
          match env.hexExpr scom.data with
          | none => .error (.expression scom.data)
          | some d =>
            match formatInts 4 [a], formatInts 8 [d] with
            | some address, some data => .ok (scom, 1 :: (address ++ data))
            | _, _ => .error .tooLarge
    else .error (.unknownMode scom.mode scom.address)

/-- The requests of a list, up to the first that fails. -/
def requests {ρ γ : Type} {γ' : Type u} (f : ρ → Except γ γ') :
    List ρ → Except γ (List γ')
  | [] => .ok []
  | r :: rs =>
    match f r with
    | .error e => .error e
    | .ok x => (requests f rs).map (x :: ·)

/-- The bitmap of the selected sockets, -1 for all. -/
def socketBitmap (sockets : List ℕ) : ℤ :=
  if sockets = [] then -1 else Bitmap.ofPositions sockets

/-- The part of the message for the sensors. -/
def sensorCodes (sensors : List (Sensor β × SensorField)) : Option Bytes :=
  (formatInts 2 (sensors.map fun t => (t.1.sensornum : ℤ))).map fun numbers =>
    numbers ++ sensors.map fun t => byteOf t.2.fnum

/-- The configuration message, `none` when a number in it is too large. -/
def configMessage (tracenum : ℕ) (sensors : List (Sensor β × SensorField))
    (parms : List ParmObj) (scoms : List (Scom × Bytes)) (bitmap : ℤ) : Option Bytes := do
  let msgSensors ← sensorCodes sensors
  let msgParm ← formatInts 2 (parms.map fun p => (p.number : ℤ))
  let socketBitmap ← formatInts 4 [bitmap]
  some ([0x31, byteOf tracenum] ++ bigEndian 2 sensors.length ++ bigEndian 2 parms.length ++
    bigEndian 2 scoms.length ++ socketBitmap ++ msgSensors ++ msgParm ++ scoms.flatMap Prod.snd)

/-- Remember the selected sockets. -/
def TraceBuffer.selectSockets (tb : TraceBuffer β) (sockets : List ℕ) : TraceBuffer β :=
  { tb with tbUserSocketsBitmap := (socketBitmap sockets % 2 ^ 32).toNat }

/-- Configure the trace buffer by names. -/
def setConfig (env : Env β) (sensorFieldList : List (List String)) (parmList : List String)
    (scomList : List (List String)) (sockets : List ℕ) (tb : TraceBuffer β) :
    TraceBuffer β × Option TraceError :=
  if scomList ≠ [] ∧ tb.hasScom = false then (tb, some .noScom)
  else
    match requests (sensorRequest env) sensorFieldList with
    | .error e => (tb.selectSockets sockets, some e)
    | .ok sensors =>
      match requests (parmRequest env) parmList with
      | .error e => (tb.selectSockets sockets, some e)
      | .ok parms =>
        match requests (scomRequest env) scomList with
        | .error e => (tb.selectSockets sockets, some e)
        | .ok scoms =>
          match configMessage tb.tracenum sensors parms scoms (socketBitmap sockets) with
          | none => (tb.selectSockets sockets, some .tooLarge)
          | some message =>
            let result := env.send message
            if result.1 ≠ 0 then
              (tb.selectSockets sockets, some (.firmware result.1 result.2))
            else
              match getConfig env (tb.selectSockets sockets) with
              | .error e => (tb.selectSockets sockets, some e)
              | .ok tb =>
                ({ tb with
                  tbSensorList := sensors
                  tbParmList := parms
                  tbScomList := scoms.map Prod.fst }, none)

end Amester.Trace
