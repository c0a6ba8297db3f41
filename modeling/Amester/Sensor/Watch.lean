/-
# Watching sensors

A controller keeps a list of watched sensors and a queue of those that wait for
new data. It asks the firmware for a batch from the front of the queue; when the
data arrives, each sensor of the batch is updated and put back on the queue, and
the next batch is asked for. A change of the list starts a new generation: every
command carries the generation in which it was sent.

The commands are answered in any order, at any time, with any status and any
bytes. This is the controller of a host that is neither the local host nor an
emtagent; there an updated sensor returns to the queue at once.
-/

import Amester.Ipmi.Request

namespace Amester.Sensor

open BinaryFormat

universe u v

/-- The sensors of a controller, by name and by number. -/
structure Catalog (α : Type u) where
  /-- `find object` with the sensor's name. -/
  findObject : String → Option α
  sensornum2obj : ℕ → Option α
  sensornum : α → ℕ
  sensornum_of_number : ∀ n x, sensornum2obj n = some x → sensornum x = n
  number_of_name : ∀ name x, findObject name = some x → sensornum2obj (sensornum x) = some x

/-- A command for the data of a batch of sensors, as its callback knows it. -/
structure WatchCommand (α : Type u) where
  generation : ℕ
  sensorlist : List α
  deriving DecidableEq

/-- What the controller does to the outside. -/
inductive Effect (α : Type u)
  | sent (databytes : Bytes)
  /-- The sensor has new data. -/
  | updated (sensor : α) (databytes : Bytes)
  deriving DecidableEq

/-- The update, if the effect is one. -/
def Effect.updated? {α : Type u} : Effect α → Option (α × Bytes)
  | .updated sensor databytes => some (sensor, databytes)
  | .sent _ => none

/-- The number of bytes the firmware returns for a sensor. -/
def sensorWatchBytespersensor : ℕ := 24

structure State (α : Type u) where
  sensorobjs : List α := []
  sensorWatchQueue : List α := []
  sensorWatchLimit : ℤ := 1
  sensorWatchGeneration : ℕ := 0
  /-- The commands whose response is still to come. -/
  outstanding : List (WatchCommand α) := []
  effects : List (Effect α) := []

namespace State

variable {α : Type u} (s : State α)

/-- Append to the log. -/
def emit (e : Effect α) : State α := { s with effects := s.effects ++ [e] }

/-- The updates so far, in order. -/
def updates : List (α × Bytes) := s.effects.filterMap Effect.updated?

/-- The outstanding commands of the current generation. -/
def current : List (WatchCommand α) :=
  s.outstanding.filter fun c => c.generation = s.sensorWatchGeneration

/-- The sensors whose data has been asked for in the current generation. -/
def batch : List α := s.current.flatMap WatchCommand.sensorlist

/-- Put sensors at the end of the queue. -/
def sensorWatchEnque (sensors : List α) : State α :=
  { s with sensorWatchQueue := s.sensorWatchQueue ++ sensors }

/-- A new list is being made. Responses to earlier commands are to be ignored. -/
def nextGeneration : State α :=
  { s with sensorWatchGeneration := s.sensorWatchGeneration + 1 }

end State

variable {α : Type u}

/-- The size of a batch. -/
def sensorWatchInit (messageSize messageReturnSize : ℕ) (s : State α) : State α :=
  { s with
    sensorWatchLimit :=
      min ((messageSize - 1 : ℤ) / 2) (messageReturnSize / sensorWatchBytespersensor : ℕ) }

/-- The command that asks for the data of some sensors. -/
def watchCommandBytes (cat : Catalog α) (sensors : List α) : Bytes :=
  0x07 :: sensors.flatMap fun x => bigEndian 2 (cat.sensornum x)

/-- Ask for the data of a batch from the queue, if a sensor is waiting. -/
def sensorWatchCmd (cat : Catalog α) (s : State α) : State α :=
  if s.sensorWatchQueue = [] then s
  else
    let sensorlist := s.sensorWatchQueue.take s.sensorWatchLimit.toNat
    { s.emit (.sent (watchCommandBytes cat sensorlist)) with
      sensorWatchQueue := s.sensorWatchQueue.drop s.sensorWatchLimit.toNat
      outstanding := s.outstanding ++ [⟨s.sensorWatchGeneration, sensorlist⟩] }

/-- Restart the monitoring of all sensors. -/
def sensorWatchStart (cat : Catalog α) (s : State α) : State α :=
  sensorWatchCmd cat ({ s with sensorWatchQueue := [] }.sensorWatchEnque s.sensorobjs)

/-- Append the sensors with these numbers to the list, those already on it only if
`again`; an unknown number raises. -/
def appendSensors [DecidableEq α] (cat : Catalog α) (again : Bool) :
    List ℕ → State α → Outcome (State α)
  | [], s => .ok s
  | sensornum :: r_num, s =>
    match cat.sensornum2obj sensornum with
    | none => .raise s "can't read sensornum2obj: no such element in array"
    | some x =>
      appendSensors cat again r_num
        (if again = false ∧ x ∈ s.sensorobjs then s
        else { s with sensorobjs := s.sensorobjs ++ [x] })

/-- Watch the sensors with these numbers. -/
def setSensorListNum [DecidableEq α] (cat : Catalog α) (r_num : List ℕ) (s : State α) :
    Outcome (State α) :=
  (appendSensors cat true r_num { s.nextGeneration with sensorobjs := [] }).andThen fun s =>
    .ok (sensorWatchStart cat s)

/-- Watch the sensors with these numbers too. -/
def addSensorListNum [DecidableEq α] (cat : Catalog α) (r_num : List ℕ) (s : State α) :
    Outcome (State α) :=
  (appendSensors cat false r_num s.nextGeneration).andThen fun s => .ok (sensorWatchStart cat s)

/-- The different numbers of the sensors with these names; `none` if there is no
sensor of one of the names. -/
def numbersOfNames (cat : Catalog α) : List String → List ℕ → Option (List ℕ)
  | [], r_num => some r_num
  | sensorname :: sensors, r_num =>
    match cat.findObject sensorname with
    | none => none
    | some x =>
      numbersOfNames cat sensors
        (if cat.sensornum x ∈ r_num then r_num else r_num ++ [cat.sensornum x])

/-- Watch the sensors with these names; an unknown name changes nothing. -/
def setSensorList [DecidableEq α] (cat : Catalog α) (sensors : List String) (s : State α) :
    Outcome (State α) :=
  match numbersOfNames cat sensors [] with
  | none => .ok s
  | some r_num => setSensorListNum cat r_num s

def addSensorList [DecidableEq α] (cat : Catalog α) (sensors : List String) (s : State α) :
    Outcome (State α) :=
  match numbersOfNames cat sensors [] with
  | none => .ok s
  | some r_num => addSensorListNum cat r_num s

/-- Update a sensor and put it back on the queue. -/
def sensorDataCallback (x : α) (databytes : Bytes) (s : State α) : State α :=
  (s.emit (.updated x databytes)).sensorWatchEnque [x]

/-- Give every sensor of a batch its bytes. -/
def updateSensors {σ : Type v} (callback : α → Bytes → σ → σ) : List α → Bytes → σ → σ
  | [], _, s => s
  | x :: sensorlist, databytes, s =>
    updateSensors callback sensorlist (databytes.drop sensorWatchBytespersensor)
      (callback x (databytes.take sensorWatchBytespersensor) s)

/-- Handle the response to a command. An error restarts the monitoring whatever the
generation of the command, and a response of wrong length is dropped. -/
def sensorWatchCallback (cat : Catalog α) (status : ℤ) (databytes : Bytes) (c : WatchCommand α)
    (s : State α) : State α :=
  if status ≠ 0 then sensorWatchStart cat s
  else if c.sensorlist.length * sensorWatchBytespersensor ≠ databytes.length then s
  else if c.generation ≠ s.sensorWatchGeneration then s
  else sensorWatchCmd cat (updateSensors sensorDataCallback c.sensorlist databytes s)

end Amester.Sensor
