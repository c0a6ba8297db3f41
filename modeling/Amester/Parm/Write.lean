/-
# Writing a parameter

A value is written as its bytes, in chunks: a message carries the offset of its chunk and
the chunk, and the answer says how many bytes of it the firmware took. The next chunk
begins behind them.

The error status of an answer is not looked at, and an answer that is too short leaves the
count of the answer before. So what the firmware did not take may be passed over. The
results are that a firmware which takes something of every chunk ends up with the value,
and exactly when the recorded value can be trusted.
-/

import Amester.Lib.WhileLoop
import Amester.Parm.Codec

namespace Amester.Parm

open BinaryFormat

/-! ## Messages -/

/-- The errors of writing a parameter. -/
inductive WriteError
  /-- "expected integer but got" and the like, of `binary format` -/
  | format
  /-- "can't read: no such variable" -/
  | noVariable (name : String)
  /-- "bad field specifier" -/
  | badSpecifier
  deriving DecidableEq, Repr

/-- A message and its answer: an error status and bytes. -/
structure Exchange where
  message : Bytes
  reply : ℤ × Bytes
  deriving DecidableEq, Repr

/-- What the firmware answers to the messages in their order. -/
abbrev SendWrites := ℕ → Bytes → ℤ × Bytes

/-- The command that writes a chunk to an offset. -/
def writeCommand (number offset : ℕ) (chunk : Bytes) : Bytes :=
  0x43 :: (bigEndian 2 number ++ (bigEndian 4 offset ++ chunk))

theorem length_writeCommand (number offset : ℕ) (chunk : Bytes) :
    (writeCommand number offset chunk).length = 7 + chunk.length := by
  rw [writeCommand, List.length_cons, List.length_append, List.length_append,
    length_bigEndian, length_bigEndian]
  omega

/-- The count of an answer, if it is there. -/
def scanWritten (reply : ℤ × Bytes) : Option ℤ :=
  if 4 ≤ reply.2.length then some (signed (reply.2.take 4)) else none

namespace Exchange

variable (x : Exchange)

/-- The offset in a message. -/
def offset : ℕ := unsigned ((x.message.drop 3).take 4)

/-- The chunk in a message. -/
def chunk : Bytes := x.message.drop 7

/-- The count in an answer. -/
def count : ℕ := unsigned (x.reply.2.take 4)

/-- The firmware's copy after it took the counted bytes of the chunk. -/
def store (copy : Bytes) : Bytes :=
  copy.take x.offset ++ x.chunk.take x.count ++
    copy.drop (x.offset + (x.chunk.take x.count).length)

@[simp]
theorem chunk_mk (number offset : ℕ) (chunk : Bytes) (reply : ℤ × Bytes) :
    (mk (writeCommand number offset chunk) reply).chunk = chunk := by
  rw [Exchange.chunk, writeCommand, ← List.append_assoc]
  exact @List.drop_left' _ (0x43 :: (bigEndian 2 number ++ bigEndian 4 offset)) chunk 7 (by simp)

theorem offset_mk (number : ℕ) {offset : ℕ} (small : offset < 256 ^ 4) (chunk : Bytes)
    (reply : ℤ × Bytes) : (mk (writeCommand number offset chunk) reply).offset = offset := by
  have hdrop : (writeCommand number offset chunk).drop 3 = bigEndian 4 offset ++ chunk :=
    @List.drop_left' _ (0x43 :: bigEndian 2 number) (bigEndian 4 offset ++ chunk) 3 (by simp)
  rw [Exchange.offset, hdrop, List.take_left' (length_bigEndian 4 _)]
  exact unsigned_bigEndian_of_lt small

end Exchange

/-! ## The loop -/

/-- The variables of the loop that sends the chunks, and what has been sent. -/
structure Writing where
  index : ℕ := 0
  written : Option ℤ := none
  exchanges : List Exchange := []
  deriving DecidableEq, Repr

/-- What writing leaves behind. -/
structure Outcome where
  result : Except WriteError Unit
  /-- The recorded value. -/
  value : Option ParmValue
  exchanges : List Exchange
  deriving DecidableEq

namespace ParmObj

variable (obj : ParmObj) (messageSize : ℕ) (send : SendWrites)

/-- One round of the loop. -/
def writeStep (cache : Bytes) (w : Writing) :
    Except (WriteError × List Exchange) Writing :=
  -- the command byte, the number and the index take seven bytes
  let contentSize : ℤ := messageSize - 7
  let bytesleft : ℤ := obj.bytecount - w.index
  let payloadsize := if bytesleft > contentSize then contentSize else bytesleft
  if payloadsize < 0 then .error (.badSpecifier, w.exchanges)
  else
    let input := (cache.drop w.index).take payloadsize.toNat
    let message := writeCommand obj.number w.index input
    let reply := send w.exchanges.length message
    let exchanges := w.exchanges ++ [⟨message, reply⟩]
    -- the status is not looked at, and a short answer leaves `written` as it was
    match (scanWritten reply).or w.written with
    | none => .error (.noVariable "written", exchanges)
    | some written =>
      let written := written % 2 ^ 32
      .ok ⟨w.index + written.toNat, some written, exchanges⟩

/-- Write a new value in place of the recorded one, with at most `fuel` messages. -/
def write (fuel : ℕ) (value : Option ParmValue) (newvalue : ParmValue) : Option Outcome :=
  match obj.encode newvalue with
  | none => some ⟨.error .format, value, []⟩
  | some cache =>
    -- the text of both errors asks for a variable that is not there
    if cache.length < obj.bytecount then some ⟨.error (.noVariable "valuesize"), value, []⟩
    else if obj.bytecount < cache.length then
      some ⟨.error (.noVariable "valuesize"), value, []⟩
    else
      (WhileLoop.run (fun w : Writing => w.index < obj.bytecount)
        (obj.writeStep messageSize send cache) fuel {}).map fun result =>
          match result with
          | .ok w => ⟨.ok (), some newvalue, w.exchanges⟩
          | .error (e, exchanges) => ⟨.error e, value, exchanges⟩

/-! ## The size of the value -/

variable {obj messageSize send} {fuel : ℕ} {value : Option ParmValue} {newvalue : ParmValue}
variable {cache : Bytes}

/-- A value of another size is an error before anything is sent. -/
theorem write_of_wrong_size (encoded : obj.encode newvalue = some cache)
    (wrong : cache.length ≠ obj.bytecount) :
    obj.write messageSize send fuel value newvalue =
      some ⟨.error (.noVariable "valuesize"), value, []⟩ := by
  simp only [write, encoded]
  obtain hless | hmore := Nat.lt_or_gt_of_ne wrong
  · rw [if_pos hless]
  · rw [if_neg (Nat.lt_asymm hmore), if_pos hmore]

theorem write_of_size (encoded : obj.encode newvalue = some cache)
    (size : cache.length = obj.bytecount) :
    obj.write messageSize send fuel value newvalue =
      (WhileLoop.run (fun w : Writing => w.index < obj.bytecount)
        (obj.writeStep messageSize send cache) fuel {}).map fun result =>
          match result with
          | .ok w => ⟨.ok (), some newvalue, w.exchanges⟩
          | .error (e, exchanges) => ⟨.error e, value, exchanges⟩ := by
  simp only [write, encoded, size, Nat.lt_irrefl, if_false]

/-- The bytes that a message has room for, of those that are left. -/
def chunkSize (obj : ParmObj) (messageSize index : ℕ) : ℕ :=
  min (messageSize - 7) (obj.bytecount - index)

/-- A round sends the next chunk and goes on by the count of the answer, or by that of the
answer before. -/
theorem writeStep_eq (room : 7 ≤ messageSize) {w : Writing} (inside : w.index ≤ obj.bytecount)
    {reply : ℤ × Bytes} {written : ℤ}
    (answer : reply = send w.exchanges.length (writeCommand obj.number w.index
      ((cache.drop w.index).take (obj.chunkSize messageSize w.index))))
    (count : (scanWritten reply).or w.written = some written) :
    obj.writeStep messageSize send cache w =
      .ok ⟨w.index + (written % 2 ^ 32).toNat, some (written % 2 ^ 32), w.exchanges ++
        [⟨writeCommand obj.number w.index
          ((cache.drop w.index).take (obj.chunkSize messageSize w.index)), reply⟩]⟩ := by
  have hchunk : (if ((obj.bytecount : ℤ) - w.index > messageSize - 7) then
      (messageSize : ℤ) - 7 else obj.bytecount - w.index) =
        (obj.chunkSize messageSize w.index : ℕ) := by
    rw [chunkSize]
    split <;> omega
  simp only [writeStep, hchunk, Int.toNat_natCast]
  rw [if_neg (by omega), ← answer, count]

/-! ## A firmware that takes something of every chunk -/

/-- The firmware takes between one and all bytes of a chunk, and says how many. -/
def TakesSome (send : SendWrites) : Prop :=
  ∀ k message, 7 < message.length → ∃ (count : ℕ) (rest : Bytes),
    1 ≤ count ∧ count ≤ message.length - 7 ∧ send k message = (0, bigEndian 4 count ++ rest)

/-- The firmware has the value up to the index, and its old copy behind. -/
structure Stored (obj : ParmObj) (messageSize : ℕ) (cache copy : Bytes) (w : Writing) :
    Prop where
  inside : w.index ≤ obj.bytecount
  copied : w.exchanges.foldl (fun copy x => x.store copy) copy =
    cache.take w.index ++ copy.drop w.index
  fits : ∀ x ∈ w.exchanges, x.message.length = 7 + x.chunk.length ∧
    x.message.length ≤ messageSize

/-- Storing the beginning of what comes next. -/
theorem store_eq {cache copy : Bytes} {offset taken : ℕ} {x : Exchange}
    (inside : offset + taken ≤ cache.length)
    (at_offset : x.offset = offset)
    (next : x.chunk.take x.count = (cache.drop offset).take taken) :
    x.store (cache.take offset ++ copy.drop offset) =
      cache.take (offset + taken) ++ copy.drop (offset + taken) := by
  have hlength : (cache.take offset).length = offset := by
    rw [List.length_take]
    omega
  have htaken : ((cache.drop offset).take taken).length = taken := by
    rw [List.length_take, List.length_drop]
    omega
  have hbehind : (cache.take offset ++ copy.drop offset).drop (offset + taken) =
      copy.drop (offset + taken) := by
    rw [← List.drop_drop, List.drop_left' hlength, List.drop_drop]
  rw [Exchange.store, at_offset, next, htaken, List.take_left' hlength, hbehind, List.take_add]

/-- A masked count is the count. -/
theorem toNat_signed_bigEndian {count : ℕ} (small : count < 256 ^ 4) :
    (signed (bigEndian 4 count) % 2 ^ 32).toNat = count := by
  have hmod := signed_emod (bigEndian 4 (count : ℤ))
  rw [length_bigEndian, unsigned_bigEndian_of_lt small] at hmod
  have hmod' : signed (bigEndian 4 (count : ℤ)) % 2 ^ 32 = count := hmod
  rw [hmod', Int.toNat_natCast]

/-- A round stores more of the value. -/
theorem Stored.step (room : 7 < messageSize) (takes : TakesSome send)
    (size : cache.length = obj.bytecount) {copy : Bytes} (copySize : copy.length = obj.bytecount)
    {w : Writing} (stored : Stored obj messageSize cache copy w)
    (less : w.index < obj.bytecount) :
    ∃ w', obj.writeStep messageSize send cache w = .ok w' ∧
      Stored obj messageSize cache copy w' ∧
      obj.bytecount - w'.index < obj.bytecount - w.index := by
  let input := (cache.drop w.index).take (obj.chunkSize messageSize w.index)
  have hinput : input.length = obj.chunkSize messageSize w.index := by
    rw [List.length_take, List.length_drop, size, chunkSize]
    omega
  have hmessage := length_writeCommand obj.number w.index input
  have hchunk : 0 < obj.chunkSize messageSize w.index := by
    rw [chunkSize]
    omega
  have hfits : obj.chunkSize messageSize w.index ≤ messageSize - 7 := Nat.min_le_left _ _
  have hleft : obj.chunkSize messageSize w.index ≤ obj.bytecount - w.index :=
    Nat.min_le_right _ _
  have hsmall := obj.bytecount_lt
  obtain ⟨count, rest, hpos, hle, hsend⟩ :=
    takes w.exchanges.length (writeCommand obj.number w.index input) (by omega)
  have hcount : ((bigEndian 4 count ++ rest).take 4) = bigEndian 4 count :=
    List.take_left' (length_bigEndian 4 _)
  have hcountLt : count < 256 ^ 4 := by omega
  have hscan : scanWritten (0, bigEndian 4 count ++ rest) = some (signed (bigEndian 4 count)) := by
    rw [scanWritten, if_pos (by simp), hcount]
  have hcount' : (scanWritten (0, bigEndian 4 count ++ rest)).or w.written =
      some (signed (bigEndian 4 count)) := by rw [hscan, Option.some_or]
  have hstep := writeStep_eq room.le less.le hsend.symm hcount'
  rw [toNat_signed_bigEndian hcountLt] at hstep
  refine ⟨_, hstep, ⟨?_, ?_, ?_⟩, ?_⟩
  · simp only
    omega
  · rw [List.foldl_append, stored.copied, List.foldl_cons, List.foldl_nil]
    refine store_eq (by omega)
      (Exchange.offset_mk _ (by omega) _ _) ?_
    rw [Exchange.chunk_mk, Exchange.count, hcount, unsigned_bigEndian_of_lt hcountLt,
      List.take_take, Nat.min_eq_left (by omega)]
  · intro x hx
    obtain hx | hx := List.mem_append.mp hx
    · exact stored.fits x hx
    · obtain rfl := List.mem_singleton.mp hx
      rw [Exchange.chunk_mk]
      refine ⟨hmessage, ?_⟩
      calc (writeCommand obj.number w.index input).length = 7 + input.length := hmessage
        _ ≤ messageSize := by omega
  · simp only
    omega

/-- A value of the right size ends up in the firmware, in messages of the right size. A
value of another size, and one that has no bytes, is an error before anything is sent. -/
theorem write_chunks (obj : ParmObj) (messageSize : ℕ) (send : SendWrites)
    (value : Option ParmValue) (newvalue : ParmValue) :
    (7 < messageSize → TakesSome send → ∀ cache, obj.encode newvalue = some cache →
      cache.length = obj.bytecount → ∀ copy : Bytes, copy.length = obj.bytecount →
      ∀ fuel, obj.bytecount ≤ fuel → ∃ exchanges,
        obj.write messageSize send fuel value newvalue =
          some ⟨.ok (), some newvalue, exchanges⟩ ∧
        exchanges.foldl (fun copy x => x.store copy) copy = cache ∧
        ∀ x ∈ exchanges, x.message.length = 7 + x.chunk.length ∧
          x.message.length ≤ messageSize) ∧
    ((∀ cache, obj.encode newvalue = some cache → cache.length ≠ obj.bytecount) → ∀ fuel,
      ∃ e, obj.write messageSize send fuel value newvalue = some ⟨.error e, value, []⟩) := by
  constructor
  · intro room takes cache hencode hsize copy hcopy fuel enough
    have hstart : Stored obj messageSize cache copy {} := by
      refine ⟨Nat.zero_le _, ?_, nofun⟩
      rw [List.take_zero, List.drop_zero]
      rfl
    obtain ⟨w, hrun, hstored, hover⟩ := WhileLoop.run_total
      (Stored obj messageSize cache copy) (fun w => obj.bytecount - w.index)
      (fun w hw hless => hw.step room takes hsize hcopy hless) hstart
      (Nat.le_trans (Nat.sub_le _ _) enough)
    refine ⟨w.exchanges, ?_, ?_, hstored.fits⟩
    · rw [write_of_size hencode hsize, hrun]
      rfl
    · have hall : obj.bytecount ≤ w.index := Nat.le_of_not_lt hover
      rw [hstored.copied, List.take_of_length_le (by omega), List.drop_eq_nil_of_le (by omega),
        List.append_nil]
  · intro hsize fuel
    cases hencode : obj.encode newvalue with
    | none => exact ⟨.format, by simp only [write, hencode]⟩
    | some cache => exact ⟨_, write_of_wrong_size hencode (hsize cache hencode)⟩

/-- A firmware that takes one byte of every chunk. -/
theorem takesSome_one : TakesSome fun _ _ => (0, [0, 0, 0, 1]) := by
  have hbytes : ([0, 0, 0, 1] : Bytes) = bigEndian 4 ((1 : ℕ) : ℤ) ++ [] := by decide +kernel
  intro k message hlong
  exact ⟨1, [], Nat.le_refl 1, by omega, congrArg (Prod.mk 0) hbytes⟩

/-- The four bytes of two strings are there in the end. -/
theorem write_chunks_sample : ∃ exchanges,
    sensorNames.write 9 (fun _ _ => (0, [0, 0, 0, 1])) 4 none (.words [[97, 98], [99]]) =
      some ⟨.ok (), some (.words [[97, 98], [99]]), exchanges⟩ ∧
    exchanges.foldl (fun copy x => x.store copy) [7, 7, 7, 7] = [97, 98, 99, 0] ∧
    ∀ x ∈ exchanges, x.message.length = 7 + x.chunk.length ∧ x.message.length ≤ 9 :=
  (write_chunks sensorNames 9 (fun _ _ => (0, [0, 0, 0, 1])) none (.words [[97, 98], [99]])).1
    (by decide) takesSome_one [97, 98, 99, 0] (by decide) (by decide) [7, 7, 7, 7] (by decide) 4
    (by decide)

end ParmObj

end Amester.Parm
