/-
# Reading a histogram

The firmware keeps snapshots of a histogram. One is read piece by piece: a message asks for so
many bytes from an offset on, and the answer begins with the tag of the snapshot and the number
of bytes that follow. If the tag changes in between, reading begins again.

The status of an answer is not tested, and its fields are scanned into variables. So an answer
that is too short leaves the piece before in its place, and it is appended once more.
-/

import Amester.Lib.BinaryFormat
import Amester.Lib.WhileLoop

namespace Amester.Sensor

open BinaryFormat

/-! ## Messages -/

/-- `tag`, `oldtag` or `hist_last_tag`. -/
inductive Tag
  | empty
  | unknown
  | snapshot (n : ℤ)
  deriving DecidableEq, Repr

/-- What `send_sync` returns. -/
structure Reply where
  status : ℤ
  databytes : Bytes
  deriving DecidableEq, Repr

/-- A message that was sent, and what came back. -/
structure Exchange where
  request : Bytes
  reply : Reply
  deriving DecidableEq, Repr

/-- The message that asks for a piece of the histogram. -/
def histogramRequest (sensornum offset numbytes : ℤ) : Bytes :=
  0x10 :: (bigEndian 2 sensornum ++ bigEndian 2 offset ++ bigEndian 2 numbytes)

/-- The tag of the snapshot that an answer comes from. -/
def Reply.tag (reply : Reply) : Option ℤ :=
  if 2 ≤ reply.databytes.length then some (signed (reply.databytes.take 2)) else none

/-- The number of bytes that an answer says to have. -/
def Reply.size (reply : Reply) : ℤ := signed ((reply.databytes.drop 2).take 2)

/-- The bytes of an answer. -/
def Reply.chunk (reply : Reply) : Bytes := reply.databytes.drop 4

/-- The offset that a message asks for. -/
def Exchange.offset (e : Exchange) : ℕ := unsigned ((e.request.drop 3).take 2)

/-! ## The loop -/

/-- What a sensor knows of its histogram. -/
structure Histogram where
  hasHist : Bool
  sensornum : ℤ
  numBins : ℤ
  bytesPerBin : ℤ
  lastTag : Tag
  deriving DecidableEq, Repr

/-- The number of bytes to read: two bins are for what is outside the others. -/
def Histogram.total (h : Histogram) : ℤ := h.bytesPerBin * (2 + h.numBins)

/-- The variables of `histogram_read`, with the messages sent since it began and the number of
all messages. -/
structure Snapshot where
  nested : ℕ
  sent : ℕ
  exchanges : List Exchange := []
  numbytes : ℤ := 24
  offset : ℤ := 0
  len : ℤ
  oldtag : Tag := .empty
  tag : Tag := .unknown
  size : Option ℤ := none
  chars : Option (List Digit) := none
  histogrambytes : List Digit := []
  deriving DecidableEq

/-- What ends the loop before the histogram is complete. -/
inductive ReadStop
  /-- The snapshot is the one that was read last. -/
  | unchanged
  | raised (message : String)
  deriving DecidableEq, Repr

/-- `histogram_read` begins. So many nested calls are left. -/
def Histogram.begin (h : Histogram) (nested sent : ℕ) : Snapshot :=
  { nested := nested, sent := sent, len := h.total }

/-- `binary scan` of an answer. A field that is not there keeps its variable. -/
def Snapshot.scan (s : Snapshot) (reply : Reply) : Snapshot :=
  match BinaryFormat.scan [.int 2, .int 2, .hexRest] reply.databytes with
  | [.int tag, .int size, .hex chars] =>
    { s with tag := .snapshot tag, size := some size, chars := some chars }
  | [.int tag, .int size] => { s with tag := .snapshot tag, size := some size }
  | [.int tag] => { s with tag := .snapshot tag }
  | _ => s

/-- The piece is appended. -/
def Snapshot.append (s : Snapshot) (chars : List Digit) (size : ℤ) (e : Exchange) : Snapshot :=
  { s with
    exchanges := s.exchanges ++ [e]
    histogrambytes := s.histogrambytes ++ chars
    len := s.len - size
    offset := s.offset + size
    numbytes := if s.len - size < 24 then s.len - size else s.numbytes
    oldtag := s.tag }

/-- One round of the loop. `replies` are the answers to all messages. -/
def readStep (h : Histogram) (replies : ℕ → Reply) (s : Snapshot) : Except ReadStop Snapshot :=
  let e : Exchange := ⟨histogramRequest h.sensornum s.offset s.numbytes, replies s.sent⟩
  let s : Snapshot := { s.scan (replies s.sent) with sent := s.sent + 1 }
  if s.tag = h.lastTag then .error .unchanged
  else if s.oldtag ≠ s.tag ∧ s.oldtag ≠ .empty then
    match s.nested with
    | 0 => .error (.raised "too many nested evaluations (infinite loop?)")
    | nested + 1 => .ok (h.begin nested s.sent)
  else
    match s.chars, s.size with
    | none, _ => .error (.raised "can't read \"chars\": no such variable")
    | some _, none => .error (.raised "can't read \"size\": no such variable")
    | some chars, some size => .ok (s.append chars size e)

/-- How `histogram_read` goes on. -/
inductive ReadOutcome
  | noHistogram
  | unchanged
  | raised (message : String)
  /-- There is no type for so many bytes a bin. -/
  | unreadable (tag : Tag)
  /-- The bytes are used. -/
  | read (tag : Tag) (bytes : Bytes) (exchanges : List Exchange)
  deriving DecidableEq

/-- There is a type for so many bytes a bin. -/
abbrev Histogram.Readable (h : Histogram) : Prop := h.bytesPerBin ∈ [1, 2, 4, 8]

/-- What comes after the loop. -/
def Histogram.outcome (h : Histogram) : Except ReadStop Snapshot → ReadOutcome
  | .error .unchanged => .unchanged
  | .error (.raised message) => .raised message
  | .ok s =>
    if h.Readable then .read s.tag (bytesOfDigits s.histogrambytes) s.exchanges
    else .unreadable s.tag

/-- `histogram_read` up to the use of the bytes, if it is over after so many messages. -/
def histogramRead (h : Histogram) (limit : ℕ) (replies : ℕ → Reply) (fuel : ℕ) :
    Option ReadOutcome :=
  if h.hasHist = false then some .noHistogram
  else
    (WhileLoop.run (fun s : Snapshot => 0 < s.len) (readStep h replies) fuel
      (h.begin limit 0)).map h.outcome

/-! ## What a round does -/

section

variable {h : Histogram} {replies : ℕ → Reply} {s : Snapshot} {reply : Reply}

/-- The tag after an answer was scanned. -/
def Snapshot.newTag (s : Snapshot) (reply : Reply) : Tag := (reply.tag.map Tag.snapshot).getD s.tag

/-- The size after an answer was scanned. -/
def Snapshot.newSize (s : Snapshot) (reply : Reply) : Option ℤ :=
  if 4 ≤ reply.databytes.length then some reply.size else s.size

/-- The characters after an answer was scanned. -/
def Snapshot.newChars (s : Snapshot) (reply : Reply) : Option (List Digit) :=
  if 4 ≤ reply.databytes.length then some (hexDigits reply.chunk) else s.chars

/-- The answer is from the snapshot that is read, or the first of one. -/
structure Snapshot.Appends (h : Histogram) (s : Snapshot) (reply : Reply) : Prop where
  changed : s.newTag reply ≠ h.lastTag
  same : s.oldtag = s.newTag reply ∨ s.oldtag = .empty

/-- The answer is from another snapshot. -/
structure Snapshot.Restarts (h : Histogram) (s : Snapshot) (reply : Reply) : Prop where
  changed : s.newTag reply ≠ h.lastTag
  other : s.oldtag ≠ s.newTag reply
  begun : s.oldtag ≠ .empty

theorem scan_reply (reply : Reply) :
    BinaryFormat.scan [.int 2, .int 2, .hexRest] reply.databytes =
      if reply.databytes.length < 2 then []
      else .int (signed (reply.databytes.take 2)) ::
        if reply.databytes.length < 4 then []
        else [.int reply.size, .hex (hexDigits reply.chunk)] := by
  simp only [BinaryFormat.scan, Field.size, Field.convert, List.length_drop, List.drop_drop,
    lt_irrefl, if_false]
  split_ifs with hnone hcut hshort hwhole
  · rfl
  · rfl
  · omega
  · omega
  · have hall : (reply.databytes.drop (2 + 2)).take (reply.databytes.length - (2 + 2)) =
        reply.databytes.drop 4 := List.take_of_length_le List.length_drop.le
    rw [hall, Reply.size, Reply.chunk]

theorem Snapshot.scan_eq (s : Snapshot) (reply : Reply) :
    s.scan reply = { s with
      tag := s.newTag reply
      size := s.newSize reply
      chars := s.newChars reply } := by
  rw [Snapshot.scan, scan_reply, newTag, Reply.tag, newSize, newChars]
  by_cases whole : 4 ≤ reply.databytes.length
  · rw [if_neg (by omega), if_neg (by omega), if_pos (by omega), if_pos whole, if_pos whole]
    rfl
  · rw [if_pos (by omega : reply.databytes.length < 4), if_neg whole, if_neg whole]
    by_cases short : reply.databytes.length < 2
    · rw [if_pos short, if_neg (by omega)]
      rfl
    · rw [if_neg short, if_pos (by omega)]
      rfl

/-- The variables after a piece was appended. -/
def Snapshot.appended (h : Histogram) (s : Snapshot) (reply : Reply) (chars : List Digit)
    (size : ℤ) : Snapshot :=
  ({ s with
    sent := s.sent + 1
    tag := s.newTag reply
    size := some size
    chars := some chars } : Snapshot).append chars size
      ⟨histogramRequest h.sensornum s.offset s.numbytes, reply⟩

/-- The ways a round can go. -/
theorem readStep_cases (h : Histogram) (replies : ℕ → Reply) (s : Snapshot) :
    (s.newTag (replies s.sent) = h.lastTag ∧ readStep h replies s = .error .unchanged) ∨
    (s.Restarts h (replies s.sent) ∧ s.nested = 0 ∧
      ∃ m, readStep h replies s = .error (.raised m)) ∨
    (∃ nested, s.Restarts h (replies s.sent) ∧ s.nested = nested + 1 ∧
      readStep h replies s = .ok (h.begin nested (s.sent + 1))) ∨
    (s.Appends h (replies s.sent) ∧
      (s.newSize (replies s.sent) = none ∨ s.newChars (replies s.sent) = none) ∧
      ∃ m, readStep h replies s = .error (.raised m)) ∨
    (∃ size chars, s.Appends h (replies s.sent) ∧ s.newSize (replies s.sent) = some size ∧
      s.newChars (replies s.sent) = some chars ∧
      readStep h replies s = .ok (s.appended h (replies s.sent) chars size)) := by
  have hscan := s.scan_eq (replies s.sent)
  by_cases hlast : s.newTag (replies s.sent) = h.lastTag
  · refine .inl ⟨hlast, ?_⟩
    simp only [readStep, hscan, if_pos hlast]
  by_cases hother : s.oldtag ≠ s.newTag (replies s.sent) ∧ s.oldtag ≠ .empty
  · have hrestart : s.Restarts h (replies s.sent) := ⟨hlast, hother.1, hother.2⟩
    cases hnested : s.nested with
    | zero =>
        refine .inr (.inl ⟨hrestart, rfl, "too many nested evaluations (infinite loop?)", ?_⟩)
        simp only [readStep, hscan, if_neg hlast, if_pos hother, hnested]
    | succ nested =>
        refine .inr (.inr (.inl ⟨nested, hrestart, rfl, ?_⟩))
        simp only [readStep, hscan, if_neg hlast, if_pos hother, hnested]
  · have happends : s.Appends h (replies s.sent) := by
      refine ⟨hlast, ?_⟩
      by_contra hneither
      rw [not_or] at hneither
      exact hother hneither
    cases hchars : s.newChars (replies s.sent) with
    | none =>
        refine .inr (.inr (.inr (.inl ⟨happends, .inr rfl,
          "can't read \"chars\": no such variable", ?_⟩)))
        simp only [readStep, hscan, if_neg hlast, if_neg hother, hchars]
    | some chars =>
        cases hsize : s.newSize (replies s.sent) with
        | none =>
            refine .inr (.inr (.inr (.inl ⟨happends, .inl rfl,
              "can't read \"size\": no such variable", ?_⟩)))
            simp only [readStep, hscan, if_neg hlast, if_neg hother, hchars, hsize]
        | some size =>
            refine .inr (.inr (.inr (.inr ⟨size, chars, happends, rfl, rfl, ?_⟩)))
            simp only [readStep, hscan, if_neg hlast, if_neg hother, hchars, hsize,
              Snapshot.appended]

end

end Amester.Sensor
