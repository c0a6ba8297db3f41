/-
# Queued IPMI requests and the in-progress table

Every host type keeps its requests in the same two places: a list of items
waiting to be sent and a table of messages that have been handed to the host.
An item is the ten-element list that `ipmi_queue` builds; the table stores the
same ten values under the item's tag, and the identifier of its timeout timer
when one was started.

The callback is a type parameter. No host type inspects a callback beyond
asking whether it is empty, so a callback may carry whatever identifies its
request.

A Tcl command that raises keeps the changes it made before; `Outcome` is the
state it leaves together with the error.
-/

import Amester.Lib.BinaryFormat
import Amester.Lib.PriorityQueue

namespace Amester

open BinaryFormat

universe u v

/-- A two-digit hexadecimal string, by the values of its digits. Both cases of
a letter spell the same digit. -/
structure Hex2 where
  /-- The first digit. -/
  hi : Digit
  /-- The second digit. -/
  lo : Digit
  deriving DecidableEq, Repr

namespace Hex2

/-- The value of `expr 0x..`. -/
def value (h : Hex2) : ℤ := 16 * h.hi.val + h.lo.val

/-- The byte of `binary format H2`. -/
def byte (h : Hex2) : UInt8 := byteOfDigits h.hi h.lo

theorem byte_toNat (h : Hex2) : (h.byte.toNat : ℤ) = h.value := by
  simp [byte, value, byteOfDigits_toNat]

/-- Tcl's `== n` for a single digit: the string is read as an integer, and of
the two-digit strings only `0n` is that integer. -/
def eqDigit (h : Hex2) (n : Digit) : Bool := h.hi = 0 && h.lo = n

theorem eqDigit_iff (h : Hex2) (n : Digit) : h.eqDigit n = true ↔ h = ⟨0, n⟩ := by
  obtain ⟨hi, lo⟩ := h
  simp only [eqDigit, Hex2.mk.injEq, Bool.and_eq_true]
  constructor
  · rintro ⟨hhi, hlo⟩
    exact ⟨of_decide_eq_true hhi, of_decide_eq_true hlo⟩
  · rintro ⟨hhi, hlo⟩
    exact ⟨decide_eq_true hhi, decide_eq_true hlo⟩

end Hex2

/-- The arguments with which a request enters a queue. -/
structure Request (κ : Type u) where
  rssa : Hex2
  chan : Hex2
  lun : Hex2
  netfn : Hex2
  cmd : Hex2
  data : Bytes
  callback : Option κ := none
  priority : ℤ := 1
  /-- The timeout in milliseconds; `none` asks for the host's default. -/
  timeout : Option ℤ := none

/-- The list that `ipmi_queue` puts on the queue. -/
structure Item (κ : Type u) where
  priority : ℤ
  tag : String
  callback : Option κ
  timeout : ℤ
  rssa : Hex2
  chan : Hex2
  lun : Hex2
  netfn : Hex2
  cmd : Hex2
  data : Bytes
  deriving DecidableEq

/-- The item of a request under a tag, with the default timeout filled in. -/
def Request.item {κ : Type u} (r : Request κ) (tag : String) (default : ℤ) : Item κ where
  priority := r.priority
  tag := tag
  callback := r.callback
  timeout := r.timeout.getD default
  rssa := r.rssa
  chan := r.chan
  lun := r.lun
  netfn := r.netfn
  cmd := r.cmd
  data := r.data

/-- The entries `inprogress(tag,*)` of one message. -/
structure InProgress (κ : Type u) extends Item κ where
  /-- `inprogress(tag,after)`, set only when a timer was started. -/
  after : Option ℕ
  deriving DecidableEq

/-- The arguments with which a message in progress is put back on the queue. -/
def InProgress.repost {κ : Type u} (e : InProgress κ) : Request κ where
  rssa := e.rssa
  chan := e.chan
  lun := e.lun
  netfn := e.netfn
  cmd := e.cmd
  data := e.data
  callback := e.callback
  priority := e.priority
  timeout := some e.timeout

/-- Reposting under the same tag rebuilds the item, whatever the host's default
timeout has become. -/
theorem InProgress.repost_item {κ : Type u} (e : InProgress κ) (default : ℤ) :
    e.repost.item e.tag default = e.toItem := rfl

/-- `array unset inprogress "$tag,*"`. -/
def unsetTag {κ : Type u} (tag : String) (table : List (InProgress κ)) :
    List (InProgress κ) :=
  table.filter fun e => e.tag ≠ tag

/-- `info exists inprogress($tag,tag)`, with the entry it finds. -/
def lookupTag {κ : Type u} (tag : String) (table : List (InProgress κ)) :
    Option (InProgress κ) :=
  table.find? fun e => e.tag = tag

/-- The state a command leaves and, if it raised, its error. -/
structure Outcome (σ : Type u) where
  state : σ
  error : Option String := none

namespace Outcome

variable {σ : Type u}

/-- A command that returns normally. -/
def ok (s : σ) : Outcome σ := ⟨s, none⟩

/-- A command that raises. -/
def raise (s : σ) (error : String) : Outcome σ := ⟨s, some error⟩

/-- Go on with the next command unless this one raised. -/
def andThen (r : Outcome σ) (next : σ → Outcome σ) : Outcome σ :=
  match r.error with
  | none => next r.state
  | some error => ⟨r.state, some error⟩

@[simp]
theorem ok_state (s : σ) : (ok s).state = s := rfl

@[simp]
theorem ok_error (s : σ) : (ok s).error = none := rfl

@[simp]
theorem raise_state (s : σ) (error : String) : (raise s error).state = s := rfl

@[simp]
theorem ok_andThen (s : σ) (next : σ → Outcome σ) : (ok s).andThen next = next s := rfl

/-- After a command that returned normally the next one runs. -/
theorem andThen_of_ok {r : Outcome σ} (returned : r.error = none) (next : σ → Outcome σ) :
    r.andThen next = next r.state := by
  rw [andThen, returned]

/-- After a command that raised nothing runs. -/
theorem andThen_of_raised {r : Outcome σ} (raised : r.error ≠ none) (next : σ → Outcome σ) :
    r.andThen next = r := by
  obtain ⟨state, error⟩ := r
  cases error with
  | none => exact absurd rfl raised
  | some error => rfl

/-- A property of states survives a sequence when both commands keep it. -/
theorem andThen_state {P : σ → Prop} {r : Outcome σ} {next : σ → Outcome σ}
    (first : P r.state) (second : P r.state → P (next r.state).state) :
    P (r.andThen next).state := by
  unfold andThen
  cases r.error with
  | none => exact second first
  | some error => exact first

end Outcome

end Amester
