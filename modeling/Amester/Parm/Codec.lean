/-
# Writing a value as bytes and parsing it

The bytes that are written for a value, and what parsing makes of them. Integers, and
raw parameters, survive the way in both directions.

A string is cut off at its first zero byte, and the search for it goes on to the end of
the parameter instead of the end of the element. So a string that fills its element runs
on into the following ones, unless the next is empty.
-/

import Amester.Lib.Elements
import Amester.Parm.Object

namespace Amester.Parm

open BinaryFormat

/-! ## Encoding -/

/-- The bytes of an integer type. -/
def intWidth : ParmType → Option ℕ
  | .uint8 | .int8 => some 1
  | .uint16 | .int16 => some 2
  | .uint32 | .int32 => some 4
  | .uint64 | .int64 => some 8
  | .string | .raw => none

/-- The integers of a type. -/
def inType (n : ℤ) : ParmType → Prop
  | .uint8 => 0 ≤ n ∧ n < 2 ^ 8
  | .uint16 => 0 ≤ n ∧ n < 2 ^ 16
  | .uint32 => 0 ≤ n ∧ n < 2 ^ 32
  | .uint64 => 0 ≤ n ∧ n < 2 ^ 64
  | .int8 => -2 ^ 7 ≤ n ∧ n < 2 ^ 7
  | .int16 => -2 ^ 15 ≤ n ∧ n < 2 ^ 15
  | .int32 => -2 ^ 31 ≤ n ∧ n < 2 ^ 31
  | .int64 => -2 ^ 63 ≤ n ∧ n < 2 ^ 63
  | .string | .raw => False

namespace ParmObj

variable (obj : ParmObj)

/-- The bytes that `write` makes of a value. A value that has not the form of the type, or
an integer that is too large, is an error of `binary format`. -/
def encode (newvalue : ParmValue) : Option Bytes :=
  match obj.type, newvalue with
  | .uint8, .ints ns => formatInts 1 ns
  | .uint16, .ints ns => formatInts 2 ns
  | .uint32, .ints ns => formatInts 4 ns
  | .uint64, .ints ns => formatInts 8 ns
  | .int8, .ints ns => formatInts 1 ns
  | .int16, .ints ns => formatInts 2 ns
  | .int32, .ints ns => formatInts 4 ns
  | .int64, .ints ns => formatInts 8 ns
  | .string, .words ws => some (ws.flatMap (formatA obj.size))
  | .raw, .hex digits => some (bytesOfDigits digits)
  | _, _ => none

/-- An element of an integer type has the bytes of the type. `init` creates no other
parameters. -/
def Configured : Prop := ∀ width, intWidth obj.type = some width → obj.size = width

instance : Decidable obj.Configured :=
  match h : intWidth obj.type with
  | none => .isTrue fun _ hwidth => absurd (h.symm.trans hwidth) nofun
  | some width =>
    decidable_of_iff (obj.size = width)
      ⟨fun hsize _ hwidth => hsize.trans (Option.some.inj (h.symm.trans hwidth)),
        fun configured => configured width h⟩

/-- The values of a parameter: so many integers of the type, so many strings that fit and
have no zero byte, or raw bytes of the full size. -/
def InRange : ParmValue → Prop
  | .ints ns => (intWidth obj.type).isSome ∧ ns.length = obj.vectorsize ∧
      ∀ n ∈ ns, inType n obj.type
  | .words ws => obj.type = .string ∧ ws.length = obj.vectorsize ∧
      ∀ w ∈ ws, w.length ≤ obj.size ∧ 0 ∉ w
  | .hex digits => obj.type = .raw ∧ digits.length = 2 * obj.bytecount

/-- No string runs on into the next: one that fills its element is followed by an empty
one, if any. Elements without bytes hold no strings at all. -/
def Apart : ParmValue → Prop
  | .words ws => (obj.size = 0 → ws = []) ∧
      ws.IsChain fun w next => w.length = obj.size → next = []
  | _ => True

/-- The elements of the bytes of a parameter. -/
def elements (bytes : Bytes) : List Bytes :=
  BinaryFormat.elements obj.size obj.vectorsize bytes

/-- No element of the bytes runs on into the next. -/
def ElementsApart (bytes : Bytes) : Prop :=
  (obj.size = 0 → obj.vectorsize = 0) ∧
    (obj.elements bytes).IsChain fun c next => 0 ∉ c → untilZero next = []

/-- The bytes of a parameter in which what follows the first zero of a string is zero. -/
def settled (bytes : Bytes) : Bytes :=
  match obj.type with
  | .string => (obj.elements bytes).flatMap fun c => formatA obj.size (untilZero c)
  | _ => bytes

/-! ## Integers -/

variable {obj}

/-- Parsing an integer type: the integers as they are, or made unsigned. -/
theorem parse_of_intWidth {width : ℕ} (isInt : intWidth obj.type = some width) :
    ∃ unsign : ℤ → ℤ, (∀ n, unsign n ≡ n [ZMOD 256 ^ width]) ∧
      (∀ n, inType n obj.type → unsign (Int.bmod n (256 ^ width)) = n) ∧
      (∀ n, -(256 ^ width : ℤ) ≤ 2 * n → 2 * n < 256 ^ width → Formats (unsign n)) ∧
      ∀ bytes, obj.parse bytes = .ok (.ints ((scanInts width bytes).map unsign)) := by
  have hbmod (n : ℤ) : Int.bmod n (256 ^ width) % (256 : ℤ) ^ width = n % 256 ^ width := by
    simpa using Int.bmod_emod (x := n) (m := 256 ^ width)
  cases htype : obj.type
  case string | raw =>
    rw [htype] at isInt
    exact absurd isInt nofun
  case uint8 | uint16 | uint32 | uint64 =>
    refine ⟨(· % 256 ^ width), fun n => Int.mod_modEq n _, fun n hn => ?_, fun n _ _ => ?_,
      fun bytes => ?_⟩
    · refine (hbmod n).trans ?_
      rw [htype] at isInt
      cases isInt
      exact Int.emod_eq_of_lt hn.1 hn.2
    · rw [htype] at isInt
      cases isInt
      simp only [Formats]
      omega
    · rw [htype] at isInt
      cases isInt
      simp only [parse, htype]
      rfl
  case int8 | int16 | int32 | int64 =>
    refine ⟨id, fun n => Int.ModEq.refl n, fun n hn => ?_, fun n hlow hhigh => ?_,
      fun bytes => ?_⟩
    · rw [htype] at isInt
      cases isInt
      obtain ⟨hlow, hhigh⟩ := hn
      exact Int.bmod_eq_of_le (by norm_num; omega) (by norm_num; omega)
    · rw [htype] at isInt
      cases isInt
      simp only [Formats, id]
      omega
    · rw [htype] at isInt
      cases isInt
      simp only [parse, htype, List.map_id]

/-- The integers of a type are not too large. -/
theorem formats_of_inType {n : ℤ} {type : ParmType} (inRange : inType n type) : Formats n := by
  unfold Formats
  cases type with
  | string | raw => exact inRange.elim
  | _ =>
      simp only [inType] at inRange
      omega

private theorem encode_of_intWidth {width : ℕ} (isInt : intWidth obj.type = some width)
    {ns : List ℤ} (formats : ∀ n ∈ ns, Formats n) :
    obj.encode (.ints ns) = some (ns.flatMap (bigEndian width)) := by
  rw [← formatInts_of_formats formats]
  cases htype : obj.type <;> rw [htype] at isInt <;> cases isInt <;> simp only [encode, htype]

private theorem length_flatMap_bigEndian (width : ℕ) (ns : List ℤ) :
    (ns.flatMap (bigEndian width)).length = ns.length * width := by
  induction ns with
  | nil => simp
  | cons n ns ih =>
      rw [List.flatMap_cons, List.length_append, length_bigEndian, ih, List.length_cons,
        Nat.succ_mul, Nat.add_comm]

private theorem intWidth_pos {type : ParmType} {width : ℕ} (isInt : intWidth type = some width) :
    0 < width := by
  cases type <;> cases isInt <;> decide

/-! ## Strings -/

/-- The words of elements are the texts that run on. -/
theorem stringWords_flatten {size : ℕ} (pos : 0 < size) {cs : List Bytes}
    (sizes : ∀ c ∈ cs, c.length = size) {fuel : ℕ} (enough : cs.length ≤ fuel) :
    stringWords size fuel cs.flatten = runOn cs := by
  induction cs generalizing fuel with
  | nil => cases fuel <;> rfl
  | cons c cs ih =>
      obtain ⟨fuel, rfl⟩ : ∃ m, fuel = m + 1 := ⟨fuel - 1, by simp at enough; omega⟩
      have hc : c.length = size := sizes c List.mem_cons_self
      have hne : (c :: cs).flatten ≠ [] := by
        rw [← List.length_pos_iff, List.flatten_cons, List.length_append]
        omega
      have hrest : ((c :: cs).flatten).drop size = cs.flatten := by
        rw [List.flatten_cons, List.drop_left' hc]
      rw [stringWords, if_neg hne, hrest,
        ih (fun c hc => sizes c (List.mem_cons_of_mem _ hc)) (by simpa using enough)]
      rfl

/-- Parsing the bytes of a string parameter. -/
theorem parse_of_string (isString : obj.type = .string) (pos : 0 < obj.size)
    {cs : List Bytes} (count : cs.length = obj.vectorsize)
    (sizes : ∀ c ∈ cs, c.length = obj.size) :
    obj.parse cs.flatten = .ok (.words (runOn cs)) := by
  have hlength : cs.flatten.length = obj.bytecount := by
    rw [length_flatten_of_sizes sizes, count]
    rfl
  have henough : cs.length ≤ obj.bytecount := by
    rw [count]
    exact Nat.le_mul_of_pos_right _ pos
  rw [parse_eq hlength.ge, valueOf, isString, List.take_of_length_le hlength.le]
  exact congrArg (Except.ok ∘ ParmValue.words) (stringWords_flatten pos sizes henough)

/-- A parameter without bytes has no words. -/
theorem parse_of_empty (isString : obj.type = .string) (empty : obj.bytecount = 0)
    (bytes : Bytes) : obj.parse bytes = .ok (.words []) := by
  rw [parse, isString, empty]
  rfl

/-- Elements with bytes are parsed to their own texts if none runs on into the next. -/
theorem parse_flatten_eq_iff (isString : obj.type = .string) (pos : 0 < obj.size)
    {cs : List Bytes} (count : cs.length = obj.vectorsize)
    (sizes : ∀ c ∈ cs, c.length = obj.size) :
    obj.parse cs.flatten = .ok (.words (cs.map untilZero)) ↔
      cs.IsChain fun c next => 0 ∉ c → untilZero next = [] := by
  have hne : ∀ c ∈ cs, c ≠ [] := by
    intro c hc
    rw [← List.length_pos_iff, sizes c hc]
    exact pos
  rw [parse_of_string isString pos count sizes, ← runOn_eq_iff hne, Except.ok.injEq,
    ParmValue.words.injEq]

/-! ## Both directions -/

section

variable {ns : List ℤ} {ws : List Bytes} {digits : List Digit} {bytes : Bytes}

private theorem parse_encode_ints (configured : obj.Configured) (inRange : obj.InRange (.ints ns)) :
    ∃ bytes, obj.encode (.ints ns) = some bytes ∧ bytes.length = obj.bytecount ∧
      obj.parse bytes = .ok (.ints ns) := by
  obtain ⟨hsome, hlength, htype⟩ := inRange
  obtain ⟨width, hwidth⟩ := Option.isSome_iff_exists.mp hsome
  obtain ⟨unsign, -, hback, -, hparse⟩ := parse_of_intWidth hwidth
  refine ⟨ns.flatMap (bigEndian width),
    encode_of_intWidth hwidth fun n hn => formats_of_inType (htype n hn), ?_, ?_⟩
  · rw [length_flatMap_bigEndian, hlength, bytecount, configured width hwidth]
  · rw [hparse, scanInts_flatMap_bigEndian (intWidth_pos hwidth), List.map_map]
    congr 2
    exact List.map_congr_left (fun n hn => hback n (htype n hn)) |>.trans (List.map_id ns)

private theorem parse_encode_words (inRange : obj.InRange (.words ws)) :
    ∃ bytes, obj.encode (.words ws) = some bytes ∧ bytes.length = obj.bytecount ∧
      (obj.parse bytes = .ok (.words ws) ↔ obj.Apart (.words ws)) := by
  obtain ⟨hstring, hlength, hwords⟩ := inRange
  have hsizes : ∀ c ∈ ws.map (formatA obj.size), c.length = obj.size := by
    intro c hc
    obtain ⟨w, -, rfl⟩ := List.mem_map.mp hc
    exact length_formatA obj.size w
  have hcount : (ws.map (formatA obj.size)).length = obj.vectorsize := by
    rw [List.length_map, hlength]
  have hown : (ws.map (formatA obj.size)).map untilZero = ws := by
    rw [List.map_map]
    exact (List.map_congr_left fun w hw =>
      untilZero_formatA (hwords w hw).1 (hwords w hw).2).trans (List.map_id ws)
  refine ⟨(ws.map (formatA obj.size)).flatten, ?_, ?_, ?_⟩
  · simp only [encode, hstring, List.flatMap_def]
  · rw [length_flatten_of_sizes hsizes, hcount, bytecount]
  · obtain hzero | hpos := Nat.eq_zero_or_pos obj.size
    · rw [parse_of_empty hstring (by rw [bytecount, hzero, Nat.mul_zero])]
      simp only [Apart, hzero, forall_const, Except.ok.injEq, ParmValue.words.injEq]
      constructor
      · rintro rfl
        exact ⟨rfl, List.isChain_nil⟩
      · exact fun h => h.1.symm
    · have hparse := parse_flatten_eq_iff hstring hpos hcount hsizes
      rw [hown] at hparse
      rw [hparse, Apart, List.isChain_map]
      have hchain : (ws.IsChain fun w next =>
            0 ∉ formatA obj.size w → untilZero (formatA obj.size next) = []) ↔
          ws.IsChain fun w next => w.length = obj.size → next = [] := by
        refine List.IsChain.iff_of_mem_imp fun w next hw hnext => ?_
        obtain ⟨hfits, hfree⟩ := hwords w hw
        rw [zero_mem_formatA_iff hfits hfree,
          untilZero_formatA (hwords next hnext).1 (hwords next hnext).2]
        have hfull : ¬ w.length < obj.size ↔ w.length = obj.size := by omega
        rw [hfull]
      rw [hchain]
      exact ⟨fun h => ⟨fun h0 => absurd h0 hpos.ne', h⟩, And.right⟩

private theorem parse_encode_hex (inRange : obj.InRange (.hex digits)) :
    ∃ bytes, obj.encode (.hex digits) = some bytes ∧ bytes.length = obj.bytecount ∧
      obj.parse bytes = .ok (.hex digits) := by
  obtain ⟨hraw, hlength⟩ := inRange
  refine ⟨bytesOfDigits digits, by simp only [encode, hraw], ?_, ?_⟩
  · rw [length_bytesOfDigits, hlength]
    omega
  · simp only [parse, hraw]
    rw [hexDigits_bytesOfDigits ⟨obj.bytecount, by omega⟩]

private theorem encode_parse_ints {width : ℕ} (configured : obj.Configured)
    (isInt : intWidth obj.type = some width) (length : bytes.length = obj.bytecount) :
    ∃ v, obj.parse bytes = .ok v ∧ obj.encode v = some bytes := by
  obtain ⟨unsign, hcongr, -, hformats, hparse⟩ := parse_of_intWidth isInt
  rw [bytecount, configured width isInt] at length
  refine ⟨_, hparse bytes, ?_⟩
  have hall : ∀ n ∈ (scanInts width bytes).map unsign, Formats n := by
    intro n hn
    obtain ⟨m, hm, rfl⟩ := List.mem_map.mp hn
    obtain ⟨hlow, hhigh⟩ := scanInts_range hm
    exact hformats m hlow hhigh
  rw [encode_of_intWidth isInt hall,
    flatMap_bigEndian_scanInts (intWidth_pos isInt) length hcongr]

private theorem encode_parse_string (isString : obj.type = .string)
    (length : bytes.length = obj.bytecount) :
    ∃ v, obj.parse bytes = .ok v ∧ obj.encode v = some (obj.settled bytes) := by
  have hsettled : obj.settled bytes =
      (obj.elements bytes).flatMap fun c => formatA obj.size (untilZero c) := by
    simp only [settled, isString]
  rw [hsettled]
  obtain hzero | hpos := Nat.eq_zero_or_pos obj.size
  · refine ⟨_, parse_of_empty isString (by rw [bytecount, hzero, Nat.mul_zero]) bytes, ?_⟩
    simp only [encode, isString, hzero, List.flatMap_nil, Option.some.injEq]
    refine (List.flatMap_eq_nil_iff.mpr fun c _ => ?_).symm
    exact List.length_eq_zero_iff.mp (length_formatA 0 _)
  · have hsizes : ∀ c ∈ obj.elements bytes, c.length = obj.size := length_of_mem_elements length
    have hparse := parse_of_string isString hpos (length_elements _ _ bytes) hsizes
    rw [flatten_elements length] at hparse
    refine ⟨_, hparse, ?_⟩
    simp only [encode, isString]
    exact congrArg some (flatMap_formatA_runOn hsizes)

end

private theorem settled_of_ne_string (notString : obj.type ≠ .string) (bytes : Bytes) :
    obj.settled bytes = bytes := by
  rw [settled]
  split
  · contradiction
  · rfl

/-- Every value in range is written as bytes of the full size, which are parsed to the
value just if no string runs on into the next. All bytes of the full size are parsed to
a value that is written as these bytes, up to what follows the first zero of a string.
The strings are those of the elements just if no element runs on into the next. -/
theorem codec_iff (configured : obj.Configured) :
    (∀ v, obj.InRange v → ∃ bytes, obj.encode v = some bytes ∧
      bytes.length = obj.bytecount ∧ (obj.parse bytes = .ok v ↔ obj.Apart v)) ∧
    ∀ bytes : Bytes, bytes.length = obj.bytecount →
      (∃ v, obj.parse bytes = .ok v ∧ obj.encode v = some (obj.settled bytes)) ∧
      (obj.type = .string →
        (obj.parse bytes = .ok (.words ((obj.elements bytes).map untilZero)) ↔
          obj.ElementsApart bytes)) := by
  constructor
  · intro v hv
    cases v with
    | ints ns =>
        obtain ⟨bytes, hencode, hlength, hparse⟩ := parse_encode_ints configured hv
        exact ⟨bytes, hencode, hlength, iff_of_true hparse trivial⟩
    | words ws => exact parse_encode_words hv
    | hex digits =>
        obtain ⟨bytes, hencode, hlength, hparse⟩ := parse_encode_hex hv
        exact ⟨bytes, hencode, hlength, iff_of_true hparse trivial⟩
  · intro bytes hlength
    constructor
    · cases hwidth : intWidth obj.type with
      | some width =>
          have hns : obj.type ≠ .string := by
            intro hstring
            rw [hstring] at hwidth
            simp [intWidth] at hwidth
          rw [settled_of_ne_string hns]
          exact encode_parse_ints configured hwidth hlength
      | none =>
          cases htype : obj.type with
          | string => exact encode_parse_string htype hlength
          | raw =>
              rw [settled_of_ne_string (by simp [htype])]
              refine ⟨.hex (hexDigits bytes), by simp only [parse, htype], ?_⟩
              simp only [encode, htype, bytesOfDigits_hexDigits]
          | _ =>
              simp [htype, intWidth] at hwidth
    · intro hstring
      rw [ElementsApart]
      obtain hzero | hpos := Nat.eq_zero_or_pos obj.size
      · rw [parse_of_empty hstring (by rw [bytecount, hzero, Nat.mul_zero])]
        rw [Except.ok.injEq, ParmValue.words.injEq, eq_comm, List.map_eq_nil_iff,
          ← List.length_eq_zero_iff, elements, length_elements]
        constructor
        · intro hnone
          rw [hnone]
          exact ⟨fun _ => rfl, List.isChain_nil⟩
        · exact fun h => h.1 hzero
      · have hsizes : ∀ c ∈ obj.elements bytes, c.length = obj.size :=
          length_of_mem_elements hlength
        have hiff := parse_flatten_eq_iff hstring hpos (length_elements _ _ bytes) hsizes
        rw [flatten_elements hlength] at hiff
        rw [elements, hiff]
        exact ⟨fun h => ⟨fun h0 => absurd h0 hpos.ne', h⟩, And.right⟩

end ParmObj

/-! ## A parameter of two strings of two bytes -/

def sensorNames : ParmObj where
  name := "names"
  number := 0
  type := .string
  vectorsize := 2
  size := 2
  sizes_lt := by decide

/-- A string that fills its element and the empty one behind it are parsed. -/
theorem codec_iff_apart : ∃ bytes, sensorNames.encode (.words [[97, 98], []]) = some bytes ∧
    bytes.length = 4 ∧ sensorNames.parse bytes = .ok (.words [[97, 98], []]) := by
  have hconfigured : sensorNames.Configured := by decide
  have hcodec := ParmObj.codec_iff hconfigured
  obtain ⟨bytes, hencode, hlength, hparse⟩ :=
    hcodec.1 (.words [[97, 98], []]) ⟨rfl, rfl, by simp [sensorNames]⟩
  exact ⟨bytes, hencode, hlength, hparse.mpr ⟨nofun, by simp [sensorNames]⟩⟩

/-- The strings `ab` and `c` are parsed to `abc` and `c`. -/
theorem full_string_runs_on : sensorNames.InRange (.words [[97, 98], [99]]) ∧
    sensorNames.encode (.words [[97, 98], [99]]) = some [97, 98, 99, 0] ∧
    sensorNames.parse [97, 98, 99, 0] = .ok (.words [[97, 98, 99], [99]]) ∧
    sensorNames.parse [97, 98, 99, 0] ≠ .ok (.words [[97, 98], [99]]) :=
  ⟨⟨rfl, rfl, by simp [sensorNames]⟩, by decide, by decide, by decide⟩

end Amester.Parm
