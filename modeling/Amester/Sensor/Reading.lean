/-
# The data of a sensor

The firmware sends twenty-four bytes for a sensor: when it was sampled, how often, and its
accumulated, last, least and greatest value. All of them are unsigned, and the values are
multiplied by the scale factor of the sensor.
-/

import Amester.Ipmi.Request
import Mathlib.Logic.Function.Basic

namespace Amester.Sensor

open BinaryFormat

universe u v

/-! ## Updating a sensor -/

/-- What a sensor keeps of its data. Scaled values are of any type. -/
structure Reading (β : Type u) where
  timestamp : ℤ
  updates : ℤ
  valueAcc : β
  value : β
  min : β
  max : β
  statusreg : ℤ
  deriving DecidableEq

section

variable {α : Type v} {β : Type u}

/-- The fields of the data in their order: the variable that is scanned, and what is made of
it. The values are scaled. -/
def readingFields (scaled : ℤ → β) : List (String × (ℤ → Reading β → Reading β)) :=
  [("_timestamp", fun n r => { r with timestamp := n % 2 ^ 32 }),
    ("_updates", fun n r => { r with updates := n % 2 ^ 32 }),
    ("_value_acc", fun n r => { r with valueAcc := scaled (n % 2 ^ 64) }),
    ("_value", fun n r => { r with value := scaled (n % 2 ^ 16) }),
    ("_min", fun n r => { r with min := scaled (n % 2 ^ 16) }),
    ("_max", fun n r => { r with max := scaled (n % 2 ^ 16) })]

/-- Set one field after the other. A variable that was not scanned raises. -/
def setFields : List (String × (ℤ → Reading β → Reading β)) → List Value → Reading β →
    Outcome (Reading β)
  | [], _, r => .ok r
  | (_, set) :: fields, .int n :: values, r => setFields fields values (set n r)
  | (name, _) :: _, _, r => .raise r ("can't read \"" ++ name ++ "\": no such variable")

/-- Process the bytes for a sensor. The status register is scanned into its place, and keeps
its value if it is not there. -/
def sensorUpdate (scaled : ℤ → β) (status : ℤ) (databytes : Bytes) (r : Reading β) :
    Outcome (Reading β) :=
  if status ≠ 0 then .ok r
  else
    let values : List Value :=
      scan [.int 4, .int 4, .int 8, .int 2, .int 2, .int 2, .int 2] databytes
    let r := match (values[6]? : Option Value) with
      | some (.int statusreg) => { r with statusreg := statusreg }
      | _ => r
    setFields (readingFields scaled) values r

/-- The field of so many bytes at a place. -/
def fieldAt (bytes : Bytes) (place width : ℕ) : Bytes := (bytes.drop place).take width

/-- The reading that complete bytes say: unsigned integers, and scaled ones. -/
def readingOf (scaled : ℤ → β) (bytes : Bytes) : Reading β where
  timestamp := unsigned (fieldAt bytes 0 4)
  updates := unsigned (fieldAt bytes 4 4)
  valueAcc := scaled (unsigned (fieldAt bytes 8 8))
  value := scaled (unsigned (fieldAt bytes 16 2))
  min := scaled (unsigned (fieldAt bytes 18 2))
  max := scaled (unsigned (fieldAt bytes 20 2))
  statusreg := signed (fieldAt bytes 22 2)

theorem signed_fieldAt_emod {bytes : Bytes} {place width : ℕ}
    (inside : place + width ≤ bytes.length) :
    signed (fieldAt bytes place width) % 256 ^ width = unsigned (fieldAt bytes place width) := by
  have hlength : (fieldAt bytes place width).length = width := by
    rw [fieldAt, List.length_take, List.length_drop]
    omega
  have hmod := signed_emod (fieldAt bytes place width)
  rwa [hlength] at hmod

/-- Scanning the field at a place. -/
theorem scan_fieldAt {bytes : Bytes} {place width : ℕ} (inside : place + width ≤ bytes.length)
    (fields : List Field) :
    scan (.int width :: fields) (bytes.drop place) =
      .int (signed (fieldAt bytes place width)) :: scan fields (bytes.drop (place + width)) := by
  rw [scan, Field.size, if_neg (by rw [List.length_drop]; omega), Field.convert, List.drop_drop,
    fieldAt]

/-- Complete bytes are split into their fields. -/
theorem scan_reading {bytes : Bytes} (complete : bytes.length = 24) :
    scan [.int 4, .int 4, .int 8, .int 2, .int 2, .int 2, .int 2] bytes =
      [.int (signed (fieldAt bytes 0 4)), .int (signed (fieldAt bytes 4 4)),
        .int (signed (fieldAt bytes 8 8)), .int (signed (fieldAt bytes 16 2)),
        .int (signed (fieldAt bytes 18 2)), .int (signed (fieldAt bytes 20 2)),
        .int (signed (fieldAt bytes 22 2))] := by
  rw [← List.drop_zero (l := bytes), scan_fieldAt (by omega), scan_fieldAt (by omega),
    scan_fieldAt (by omega), scan_fieldAt (by omega), scan_fieldAt (by omega),
    scan_fieldAt (by omega), scan_fieldAt (by omega), scan_nil, List.drop_zero]

/-- Every field of complete bytes becomes what its bytes say. -/
theorem sensorUpdate_eq (scaled : ℤ → β) {bytes : Bytes} (complete : bytes.length = 24)
    (r : Reading β) : sensorUpdate scaled 0 bytes r = .ok (readingOf scaled bytes) := by
  have h₀ : signed (fieldAt bytes 0 4) % 2 ^ 32 = unsigned (fieldAt bytes 0 4) :=
    signed_fieldAt_emod (by omega)
  have h₁ : signed (fieldAt bytes 4 4) % 2 ^ 32 = unsigned (fieldAt bytes 4 4) :=
    signed_fieldAt_emod (by omega)
  have h₂ : signed (fieldAt bytes 8 8) % 2 ^ 64 = unsigned (fieldAt bytes 8 8) :=
    signed_fieldAt_emod (by omega)
  have h₃ : signed (fieldAt bytes 16 2) % 2 ^ 16 = unsigned (fieldAt bytes 16 2) :=
    signed_fieldAt_emod (by omega)
  have h₄ : signed (fieldAt bytes 18 2) % 2 ^ 16 = unsigned (fieldAt bytes 18 2) :=
    signed_fieldAt_emod (by omega)
  have h₅ : signed (fieldAt bytes 20 2) % 2 ^ 16 = unsigned (fieldAt bytes 20 2) :=
    signed_fieldAt_emod (by omega)
  rw [sensorUpdate, if_neg (not_not.mpr rfl), scan_reading complete]
  simp only [readingFields, setFields, h₀, h₁, h₂, h₃, h₄, h₅]
  rfl

/-- The readings of all sensors after one of them was given bytes. -/
def record [DecidableEq α] (scaled : α → ℤ → β) (readings : α → Reading β) (x : α)
    (databytes : Bytes) : α → Reading β :=
  Function.update readings x (sensorUpdate (scaled x) 0 databytes (readings x)).state

/-- Complete bytes change the reading of their sensor to what they say. -/
theorem record_eq [DecidableEq α] (scaled : α → ℤ → β) (readings : α → Reading β) (x : α)
    {bytes : Bytes} (complete : bytes.length = 24) :
    record scaled readings x bytes = Function.update readings x (readingOf (scaled x) bytes) := by
  rw [record, sensorUpdate_eq (scaled x) complete]
  rfl

end

end Amester.Sensor
