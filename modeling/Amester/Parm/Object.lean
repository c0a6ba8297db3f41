/-
# Parameters and reading one of them

A parameter has a number under which the firmware knows it, a type, and a size:
a vector of elements of so many bytes each. Its raw bytes are turned into a value
by its type. Reading a parameter asks for its bytes from an offset on until all
of them have come.

A parameter is created from a configuration record in which the two sizes are
masked to 16 bits, so no parameter has more bytes than a 32-bit offset reaches.
-/

import Amester.Lib.BinaryFormat
import Amester.Lib.WhileLoop

namespace Amester.Parm

open BinaryFormat

/-! ## Parameters -/

/-- The types of parameters. -/
inductive ParmType
  | uint8
  | uint16
  | uint32
  | uint64
  | int8
  | int16
  | int32
  | int64
  | string
  | raw
  deriving DecidableEq, Repr

/-- The type of a type number. -/
def num2type : ℕ → Option ParmType
  | 0 => some .uint8
  | 1 => some .uint16
  | 2 => some .uint32
  | 3 => some .uint64
  | 4 => some .int8
  | 5 => some .int16
  | 6 => some .int32
  | 7 => some .int64
  | 8 => some .string
  | 9 => some .raw
  | _ => none

/-- A parameter. The table has its two sizes in numbers of two bytes. -/
structure ParmObj where
  name : String
  number : ℕ
  type : ParmType
  mode : ℕ := 0
  vectorsize : ℕ
  size : ℕ
  sizes_lt : vectorsize < 2 ^ 16 ∧ size < 2 ^ 16
  deriving DecidableEq

namespace ParmObj

variable (obj : ParmObj)

/-- The number of raw bytes. -/
def bytecount : ℕ := obj.vectorsize * obj.size

/-- Every offset into a parameter fits the offset field of a command. -/
theorem bytecount_lt : obj.bytecount < 256 ^ 4 := by
  have hvector : obj.vectorsize ≤ 2 ^ 16 - 1 := Nat.le_sub_one_of_lt obj.sizes_lt.1
  have hsize : obj.size ≤ 2 ^ 16 - 1 := Nat.le_sub_one_of_lt obj.sizes_lt.2
  calc obj.vectorsize * obj.size ≤ (2 ^ 16 - 1) * (2 ^ 16 - 1) := Nat.mul_le_mul hvector hsize
    _ < 256 ^ 4 := by norm_num

end ParmObj

/-! ## Values -/

/-- The value of a parameter. -/
inductive ParmValue
  | ints (ns : List ℤ)
  | words (words : List Bytes)
  | hex (digits : List Digit)
  deriving DecidableEq, Repr

/-- Integers of so many bytes, read as unsigned. -/
def uints (width : ℕ) (bytes : Bytes) : List ℤ :=
  (scanInts width bytes).map (· % 256 ^ width)

/-- The errors of reading a parameter and of the bulk read. -/
inductive ReadError
  /-- "Cannot read unknown parameter" -/
  | unknownParameter (name : String)
  /-- "Error=, index=, cmdlist=" -/
  | status (err : ℤ) (index : ℕ) (cmdlist : List ℕ)
  /-- "expected bytes = , but were returned for index=, cmdlist=" -/
  | byteCount (expectedbytes : ℤ) (returned : ℕ) (index : ℕ) (cmdlist : List ℕ)
  /-- "Zero bytes read while processing" -/
  | zeroBytes (name : String)
  /-- "Got partial result for, which is position of in response" -/
  | partialResult (name : String) (number iter count : ℕ)
  /-- "can't read: no such variable" -/
  | noVariable (name : String)
  deriving DecidableEq, Repr

/-- The end of the word of a string parameter that is looked at from index `j` on:
its first zero byte, or the end of the parameter. A scan behind the last byte
leaves the variable `xx` as it was. -/
def wordEnd (bytes : Bytes) (bytecount : ℕ) :
    ℕ → ℕ → Option UInt8 → Except ReadError (ℕ × Option UInt8)
  | 0, j, xx => .ok (j, xx)
  | fuel + 1, j, xx =>
    if j < bytecount then
      match bytes[j]?.or xx with
      | none => .error (.noVariable "xx")
      | some x => if x = 0 then .ok (j, some x) else wordEnd bytes bytecount fuel (j + 1) (some x)
    else .ok (j, xx)

/-- The words of a string parameter, `size` bytes apart. A word that is not
contained in the bytes leaves the variable `word` as it was. -/
def scanWords (bytes : Bytes) (bytecount size : ℕ) :
    ℕ → ℕ → Option UInt8 → Option Bytes → Except ReadError (List Bytes)
  | 0, _, _, _ => .ok []
  | fuel + 1, index, xx, word =>
    if index < bytecount then
      match wordEnd bytes bytecount bytecount index xx with
      | .error e => .error e
      | .ok (j, xx) =>
        let wordLen := j - index
        let scanned :=
          if wordLen ≤ (bytes.drop index).length then some ((bytes.drop index).take wordLen)
          else word
        match scanned with
        | none => .error (.noVariable "word")
        | some w =>
          (scanWords bytes bytecount size fuel (index + size) xx (some w)).map (w :: ·)
    else .ok []

/-- The value of raw bytes. -/
def ParmObj.parse (obj : ParmObj) (bytes : Bytes) : Except ReadError ParmValue :=
  match obj.type with
  | .uint8 => .ok (.ints (uints 1 bytes))
  | .uint16 => .ok (.ints (uints 2 bytes))
  | .uint32 => .ok (.ints (uints 4 bytes))
  | .uint64 => .ok (.ints (uints 8 bytes))
  | .int8 => .ok (.ints (scanInts 1 bytes))
  | .int16 => .ok (.ints (scanInts 2 bytes))
  | .int32 => .ok (.ints (scanInts 4 bytes))
  | .int64 => .ok (.ints (scanInts 8 bytes))
  | .string =>
    (scanWords bytes obj.bytecount obj.size obj.bytecount 0 none none).map .words
  | .raw => .ok (.hex (hexDigits bytes))

def ParmObj.updateFromRaw (obj : ParmObj) (rawbytes : Bytes) : Except ReadError ParmValue :=
  obj.parse rawbytes

/-! ## The value of complete bytes

With all bytes of the parameter there, no scan fails and every word can be read
off the bytes. -/

/-- The words of complete bytes. A word starts `size` bytes behind the start of the
one before and goes on to the next zero byte, or to the end. -/
def stringWords (size : ℕ) : ℕ → Bytes → List Bytes
  | 0, _ => []
  | fuel + 1, bytes =>
    if bytes = [] then []
    else (bytes.takeWhile (· ≠ 0)) :: stringWords size fuel (bytes.drop size)

/-- The value of at least the bytes of the parameter. -/
def ParmObj.valueOf (obj : ParmObj) (bytes : Bytes) : ParmValue :=
  match obj.type with
  | .uint8 => .ints (uints 1 bytes)
  | .uint16 => .ints (uints 2 bytes)
  | .uint32 => .ints (uints 4 bytes)
  | .uint64 => .ints (uints 8 bytes)
  | .int8 => .ints (scanInts 1 bytes)
  | .int16 => .ints (scanInts 2 bytes)
  | .int32 => .ints (scanInts 4 bytes)
  | .int64 => .ints (scanInts 8 bytes)
  | .string => .words (stringWords obj.size obj.bytecount (bytes.take obj.bytecount))
  | .raw => .hex (hexDigits bytes)

/-- The word from an index on ends behind its bytes that are not zero. -/
theorem wordEnd_eq {bytes : Bytes} {bytecount : ℕ} (complete : bytecount ≤ bytes.length)
    {fuel j : ℕ} (inside : j ≤ bytecount) (enough : bytecount ≤ fuel + j) (xx : Option UInt8) :
    ∃ xx', wordEnd bytes bytecount fuel j xx =
      .ok (j + (((bytes.take bytecount).drop j).takeWhile (· ≠ 0)).length, xx') := by
  induction fuel generalizing j xx with
  | zero =>
      obtain rfl : j = bytecount := by omega
      exact ⟨xx, by simp [wordEnd]⟩
  | succ fuel ih =>
      rw [wordEnd]
      by_cases hj : j < bytecount
      · have hlt : j < bytes.length := Nat.lt_of_lt_of_le hj complete
        have hget : bytes[j]? = some bytes[j] := List.getElem?_eq_getElem hlt
        have hdrop : (bytes.take bytecount).drop j =
            bytes[j] :: (bytes.take bytecount).drop (j + 1) := by
          rw [List.drop_eq_getElem_cons (by simp; omega), List.getElem_take]
        rw [if_pos hj, hget, Option.some_or]
        by_cases hzero : bytes[j] = 0
        · exact ⟨some bytes[j], by simp [hzero, hdrop]⟩
        · obtain ⟨xx', hrest⟩ := ih (j := j + 1) hj (by omega) (some bytes[j])
          refine ⟨xx', ?_⟩
          simp only [hzero, if_false]
          rw [hrest, hdrop, List.takeWhile_cons_of_pos (by simpa using hzero), List.length_cons]
          congr 2
          omega
      · obtain rfl : j = bytecount := by omega
        exact ⟨xx, by simp⟩

/-- The word from an index on is a part of the bytes. -/
theorem take_takeWhile_length (bytes : Bytes) (bytecount index : ℕ) :
    (bytes.drop index).take (((bytes.take bytecount).drop index).takeWhile (· ≠ 0)).length =
      ((bytes.take bytecount).drop index).takeWhile (· ≠ 0) := by
  have hword : ((bytes.take bytecount).drop index).takeWhile (· ≠ 0) <+: bytes.drop index :=
    (List.takeWhile_prefix _).trans ((List.take_prefix bytecount bytes).drop index)
  exact (List.prefix_iff_eq_take.mp hword).symm

/-- Scanning the words of complete bytes. -/
theorem scanWords_eq {bytes : Bytes} {bytecount : ℕ} (complete : bytecount ≤ bytes.length)
    (size fuel index : ℕ) (xx : Option UInt8) (word : Option Bytes) :
    scanWords bytes bytecount size fuel index xx word =
      .ok (stringWords size fuel ((bytes.take bytecount).drop index)) := by
  induction fuel generalizing index xx word with
  | zero => rfl
  | succ fuel ih =>
      rw [scanWords, stringWords]
      by_cases hindex : index < bytecount
      · have hne : (bytes.take bytecount).drop index ≠ [] := by
          rw [← List.length_pos_iff, List.length_drop, List.length_take]
          omega
        obtain ⟨xx', hend⟩ := wordEnd_eq complete hindex.le (Nat.le_add_right _ _) xx
        have hword := take_takeWhile_length bytes bytecount index
        have hfits : (((bytes.take bytecount).drop index).takeWhile (· ≠ 0)).length ≤
            (bytes.drop index).length := by
          rw [← hword, List.length_take]
          exact Nat.min_le_right _ _
        rw [if_pos hindex, if_neg hne, hend]
        simp only [Nat.add_sub_cancel_left, if_pos hfits, hword]
        rw [ih, List.drop_drop]
        rfl
      · have hnil : (bytes.take bytecount).drop index = [] := by
          rw [← List.length_eq_zero_iff, List.length_drop, List.length_take]
          omega
        rw [if_neg hindex, if_pos hnil]

theorem ParmObj.parse_eq {obj : ParmObj} {bytes : Bytes}
    (complete : obj.bytecount ≤ bytes.length) : obj.parse bytes = .ok (obj.valueOf bytes) := by
  rw [ParmObj.parse, ParmObj.valueOf]
  cases obj.type with
  | string =>
      simp only [scanWords_eq complete, List.drop_zero]
      rfl
  | _ => rfl

/-! ## Reading -/

/-- What a synchronous command returns: an error code and bytes. -/
abbrev SendSync := Bytes → ℤ × Bytes

/-- The command that reads from an offset into the first of the parameters. -/
def readCommand (offset : ℕ) (cmdlist : List ℕ) : Bytes :=
  0x42 :: (bigEndian 4 offset ++ cmdlist.flatMap fun number : ℕ => bigEndian 2 number)

/-- One round of reading: the bytes so far determine the offset. -/
def ParmObj.readStep (obj : ParmObj) (send : SendSync) (cache : Bytes) :
    Except ReadError Bytes :=
  let result := send (readCommand cache.length [obj.number])
  if result.1 ≠ 0 then .error (.status result.1 cache.length [obj.number])
  else .ok (cache ++ result.2)

/-- Read a parameter, with at most `fuel` commands. -/
def ParmObj.read (obj : ParmObj) (send : SendSync) (fuel : ℕ) :
    Option (Except ReadError ParmValue) :=
  (WhileLoop.run (fun cache : Bytes => cache.length < obj.bytecount) (obj.readStep send) fuel
    []).map fun result => result.bind obj.updateFromRaw

/-- The firmware keeps a value for each known parameter and reads it out: a command
is answered with the bytes of the listed parameters from the offset on, as many
as a response holds. -/
structure Serves (send : SendSync) (messageReturnSize : ℕ) (known : ParmObj → Prop)
    (value : ParmObj → Bytes) : Prop where
  length : ∀ obj, known obj → (value obj).length = obj.bytecount
  read : ∀ obj objs offset, known obj → (∀ o ∈ objs, known o) → offset < obj.bytecount →
    send (readCommand offset ((obj :: objs).map ParmObj.number)) =
      (0, (((obj :: objs).flatMap value).drop offset).take messageReturnSize)

section

variable {send : SendSync} {messageReturnSize : ℕ} {known : ParmObj → Prop}
variable {value : ParmObj → Bytes}

/-- A round of reading adds the next bytes of the value. -/
theorem ParmObj.readStep_eq (serves : Serves send messageReturnSize known value) {obj : ParmObj}
    (hknown : known obj) {k : ℕ} (hk : k < obj.bytecount) :
    obj.readStep send ((value obj).take k) =
      .ok ((value obj).take (k + messageReturnSize)) := by
  have hlength : ((value obj).take k).length = k := by
    rw [List.length_take, serves.length obj hknown]
    exact Nat.min_eq_left hk.le
  have hread := serves.read obj [] k hknown (by simp) hk
  simp only [List.map_cons, List.map_nil, List.flatMap_cons, List.flatMap_nil,
    List.append_nil] at hread
  simp only [ParmObj.readStep, hlength, hread, ne_eq, not_true_eq_false, if_false]
  rw [List.take_add]

/-- Reading a known parameter ends with its value. -/
theorem ParmObj.read_eq (serves : Serves send messageReturnSize known value)
    (returns : 0 < messageReturnSize) {obj : ParmObj} (hknown : known obj) {fuel : ℕ}
    (enough : obj.bytecount ≤ fuel) :
    obj.read send fuel = some (.ok (obj.valueOf (value obj))) := by
  have hlength := serves.length obj hknown
  have hkeeps : ∀ cache : Bytes, cache = (value obj).take cache.length →
      cache.length < obj.bytecount → ∃ cache', obj.readStep send cache = .ok cache' ∧
        cache' = (value obj).take cache'.length ∧
        obj.bytecount - cache'.length < obj.bytecount - cache.length := by
    intro cache hcache hless
    refine ⟨(value obj).take (cache.length + messageReturnSize), ?_, ?_, ?_⟩
    · rw [← ParmObj.readStep_eq serves hknown hless, ← hcache]
    · simp
    · rw [List.length_take, hlength]
      omega
  have htotal : ∃ cache, WhileLoop.run (fun cache : Bytes => cache.length < obj.bytecount)
      (obj.readStep send) fuel [] = some (.ok cache) ∧
      cache = (value obj).take cache.length ∧ ¬ cache.length < obj.bytecount :=
    WhileLoop.run_total (fun cache : Bytes => cache = (value obj).take cache.length)
      (fun cache => obj.bytecount - cache.length) hkeeps (by simp) (by simpa using enough)
  obtain ⟨cache, hrun, hcache, hover⟩ := htotal
  have hall : cache = value obj := by
    rw [hcache]
    exact List.take_of_length_le (by omega)
  rw [ParmObj.read, hrun, hall, Option.map_some]
  exact congrArg some (ParmObj.parse_eq hlength.ge)

end

end Amester.Parm
