/-
# Fixed-width integers in byte strings and their scanning

Byte strings are lists of bytes. An integer of either sign is written as its
low bytes, most significant first, and read back as the signed value of those
bytes, so writing and reading agree modulo the width. A layout is a list of
fields; scanning converts field after field and stops at the first field for
which too few bytes are left, so the number of values says how many fields were
found.
-/

import Mathlib.Data.Int.Bitwise
import Mathlib.Data.Int.ModEq
import Mathlib.Data.List.Basic
import Mathlib.Tactic.Linarith
import Mathlib.Tactic.Positivity
import Mathlib.Tactic.Ring

namespace BinaryFormat

abbrev Bytes := List UInt8

/-! ## Integers as bytes -/

/-- The byte of an integer's low eight bits. -/
def byteOf (n : ℤ) : UInt8 := UInt8.ofNat (n % 256).toNat

theorem byteOf_toNat (n : ℤ) : ((byteOf n).toNat : ℤ) = n % 256 := by
  have hlow : 0 ≤ n % 256 := Int.emod_nonneg n (by decide)
  have hhigh : n % 256 < 256 := Int.emod_lt_of_pos n (by decide)
  rw [byteOf, UInt8.toNat_ofNat', Nat.mod_eq_of_lt (by omega)]
  omega

theorem byteOf_natCast_toNat (b : UInt8) : byteOf (b.toNat : ℤ) = b := by
  apply UInt8.toNat_inj.mp
  have hb := b.toNat_lt
  have h := byteOf_toNat (b.toNat : ℤ)
  omega

/-- The `width` low bytes of an integer, most significant first. -/
def bigEndian : ℕ → ℤ → Bytes
  | 0, _ => []
  | width + 1, n => byteOf (n / 256 ^ width) :: bigEndian width n

/-- The unsigned integer spelled by bytes, most significant first. -/
def unsigned : Bytes → ℕ
  | [] => 0
  | b :: bytes => b.toNat * 256 ^ bytes.length + unsigned bytes

/-- The two's complement integer spelled by bytes, most significant first. -/
def signed (bytes : Bytes) : ℤ := Int.bmod (unsigned bytes) (256 ^ bytes.length)

@[simp]
theorem length_bigEndian (width : ℕ) (n : ℤ) : (bigEndian width n).length = width := by
  induction width with
  | zero => rfl
  | succ width ih => simp [bigEndian, ih]

theorem unsigned_lt (bytes : Bytes) : unsigned bytes < 256 ^ bytes.length := by
  induction bytes with
  | nil => simp [unsigned]
  | cons b bytes ih =>
      have hb := b.toNat_lt
      rw [unsigned, List.length_cons, pow_succ]
      nlinarith

theorem emod_mul_eq (n a b : ℤ) (ha : 0 < a) :
    n % (a * b) = a * (n / a % b) + n % a := by
  have hdiv : n / a / b = n / (a * b) := Int.ediv_ediv_of_nonneg ha.le
  have h1 := Int.emod_def n (a * b)
  have h2 := Int.emod_def (n / a) b
  have h3 := Int.emod_def n a
  rw [h1, h2, h3, hdiv]
  ring

/-- Writing keeps the low bytes of the integer. -/
theorem unsigned_bigEndian (width : ℕ) (n : ℤ) :
    (unsigned (bigEndian width n) : ℤ) = n % 256 ^ width := by
  induction width with
  | zero => simp [bigEndian, unsigned]
  | succ width ih =>
      have hpow : (0 : ℤ) < 256 ^ width := by positivity
      rw [bigEndian, unsigned, length_bigEndian, pow_succ,
        emod_mul_eq n (256 ^ width) 256 hpow]
      push_cast
      rw [ih, byteOf_toNat]
      ring

theorem unsigned_bigEndian_of_lt {width : ℕ} {n : ℕ} (h : n < 256 ^ width) :
    unsigned (bigEndian width n) = n := by
  have hn := unsigned_bigEndian width n
  rw [Int.emod_eq_of_lt (by omega) (by exact_mod_cast h)] at hn
  exact_mod_cast hn

/-- Reading after writing gives the signed value of the low bytes. -/
theorem signed_bigEndian (width : ℕ) (n : ℤ) :
    signed (bigEndian width n) = Int.bmod n (256 ^ width) := by
  rw [signed, unsigned_bigEndian, length_bigEndian]
  have h := Int.emod_bmod (x := n) (n := 256 ^ width)
  push_cast at h
  exact h

/-- Integers in the signed range of the width survive writing and reading. -/
theorem signed_bigEndian_of_range {width : ℕ} {n : ℤ}
    (hlow : -(256 ^ width : ℤ) ≤ 2 * n) (hhigh : 2 * n < (256 ^ width : ℤ)) :
    signed (bigEndian width n) = n := by
  rw [signed_bigEndian]
  apply Int.bmod_eq_of_le_mul_two <;> push_cast <;> omega

/-- The signed reading of bytes is congruent to the unsigned one. -/
theorem signed_emod (bytes : Bytes) :
    signed bytes % 256 ^ bytes.length = unsigned bytes := by
  have hlt := unsigned_lt bytes
  have h := Int.bmod_emod (x := (unsigned bytes : ℤ)) (m := 256 ^ bytes.length)
  push_cast at h
  rw [signed, h]
  exact Int.emod_eq_of_lt (by omega) (by exact_mod_cast hlt)

/-- The signed value is the unsigned one while the top bit is clear. -/
theorem signed_eq (bytes : Bytes) :
    signed bytes = if 2 * unsigned bytes < 256 ^ bytes.length then (unsigned bytes : ℤ)
      else unsigned bytes - 256 ^ bytes.length := by
  have hlt := unsigned_lt bytes
  rw [signed, Int.bmod_eq_emod]
  have hmod : (unsigned bytes : ℤ) % ((256 ^ bytes.length : ℕ) : ℤ) = unsigned bytes :=
    Int.emod_eq_of_lt (by omega) (by exact_mod_cast hlt)
  rw [hmod]
  generalize hn : unsigned bytes = n at *
  have hcast : ((256 ^ bytes.length : ℕ) : ℤ) = 256 ^ bytes.length := by push_cast; rfl
  rw [← hcast]
  generalize 256 ^ bytes.length = m at *
  split_ifs <;> omega

/-- A signed value has one bit less than its bytes. -/
theorem signed_range (bytes : Bytes) :
    -(256 ^ bytes.length : ℤ) ≤ 2 * signed bytes ∧ 2 * signed bytes < 256 ^ bytes.length := by
  have hlt : (unsigned bytes : ℤ) < 256 ^ bytes.length := by exact_mod_cast unsigned_lt bytes
  rw [signed_eq]
  split_ifs with hsmall
  · have hcast : (2 * unsigned bytes : ℤ) < 256 ^ bytes.length := by exact_mod_cast hsmall
    constructor <;> omega
  · have hcast : (256 ^ bytes.length : ℤ) ≤ 2 * unsigned bytes := by
      exact_mod_cast Nat.le_of_not_lt hsmall
    constructor <;> omega

/-! ## Bits -/

/-- A number whose last bit is split off, modulo a power of two. -/
theorem bit_emod (k : ℕ) (c : Bool) (n : ℤ) :
    Int.bit c n % 2 ^ (k + 1) = 2 * (n % 2 ^ k) + if c then 1 else 0 := by
  rw [pow_succ', emod_mul_eq _ 2 (2 ^ k) (by decide), Int.bit_val]
  cases c with
  | false => simp
  | true =>
      have hdiv : (2 * n + 1) / 2 = n := by omega
      simp [hdiv]

/-- The low bits of a disjunction come from the low bits of its parts. -/
theorem lor_emod (k : ℕ) {a b a' b' : ℤ} (ha : a % 2 ^ k = a' % 2 ^ k)
    (hb : b % 2 ^ k = b' % 2 ^ k) : Int.lor a b % 2 ^ k = Int.lor a' b' % 2 ^ k := by
  induction k generalizing a b a' b' with
  | zero => simp
  | succ k ih =>
      have hbit (c c' : Bool) (n n' : ℤ) : Int.bit c n % 2 ^ (k + 1) =
          Int.bit c' n' % 2 ^ (k + 1) ↔ c = c' ∧ n % 2 ^ k = n' % 2 ^ k := by
        rw [bit_emod, bit_emod]
        cases c <;> cases c' <;> simp <;> omega
      rw [← Int.bit_decomp a, ← Int.bit_decomp a', hbit] at ha
      rw [← Int.bit_decomp b, ← Int.bit_decomp b', hbit] at hb
      rw [← Int.bit_decomp a, ← Int.bit_decomp a', ← Int.bit_decomp b, ← Int.bit_decomp b',
        Int.lor_bit, Int.lor_bit, hbit]
      exact ⟨by rw [ha.1, hb.1], ih ha.2 hb.2⟩

/-! ## Hexadecimal digits -/

abbrev Digit := Fin 16

instance neZeroSixteen : NeZero 16 := ⟨by decide⟩

/-- The two digits of a byte, high digit first. -/
def digitsOf (b : UInt8) : List Digit :=
  [⟨b.toNat / 16, by have := b.toNat_lt; omega⟩,
    ⟨b.toNat % 16, Nat.mod_lt _ (by decide)⟩]

/-- All digits of a byte string. -/
def hexDigits (bytes : Bytes) : List Digit := bytes.flatMap digitsOf

@[simp]
theorem length_hexDigits (bytes : Bytes) : (hexDigits bytes).length = 2 * bytes.length := by
  induction bytes with
  | nil => rfl
  | cons b bytes ih =>
      simp only [hexDigits, List.flatMap_cons, List.length_append, List.length_cons,
        digitsOf, List.length_nil] at ih ⊢
      omega

/-- The byte with the given high and low digit. -/
def byteOfDigits (high low : Digit) : UInt8 := UInt8.ofNat (16 * high.val + low.val)

theorem byteOfDigits_toNat (high low : Digit) :
    (byteOfDigits high low).toNat = 16 * high.val + low.val := by
  rw [byteOfDigits, UInt8.toNat_ofNat', Nat.mod_eq_of_lt (by omega)]

theorem digitsOf_byteOfDigits (high low : Digit) :
    digitsOf (byteOfDigits high low) = [high, low] := by
  simp only [digitsOf, byteOfDigits_toNat, List.cons.injEq, and_true]
  constructor <;> apply Fin.ext <;> simp only [] <;> omega

/-- Digits written two to a byte; a last odd digit is the high digit of a byte
whose low digit is zero. -/
def bytesOfDigits : List Digit → Bytes
  | [] => []
  | [high] => [byteOfDigits high 0]
  | high :: low :: digits => byteOfDigits high low :: bytesOfDigits digits

@[simp]
theorem length_bytesOfDigits (digits : List Digit) :
    (bytesOfDigits digits).length = (digits.length + 1) / 2 := by
  fun_induction bytesOfDigits digits with
  | case1 => rfl
  | case2 high => simp
  | case3 high low digits ih =>
      simp only [List.length_cons, ih]
      omega

/-- Whole bytes give their digits back. -/
theorem hexDigits_bytesOfDigits {digits : List Digit} (even : Even digits.length) :
    hexDigits (bytesOfDigits digits) = digits := by
  fun_induction bytesOfDigits digits with
  | case1 => rfl
  | case2 high => simp at even
  | case3 high low digits ih =>
      have htail : Even digits.length := by
        simpa [Nat.even_add_one] using even
      have hdigits := ih htail
      simp only [hexDigits] at hdigits ⊢
      rw [List.flatMap_cons, hdigits, digitsOf_byteOfDigits]
      rfl

theorem byteOfDigits_digitsOf (b : UInt8) :
    byteOfDigits ⟨b.toNat / 16, by have := b.toNat_lt; omega⟩
      ⟨b.toNat % 16, Nat.mod_lt _ (by decide)⟩ = b := by
  apply UInt8.toNat_inj.mp
  rw [byteOfDigits_toNat]
  exact Nat.div_add_mod b.toNat 16

/-- The digits of bytes give the bytes back. -/
theorem bytesOfDigits_hexDigits (bytes : Bytes) : bytesOfDigits (hexDigits bytes) = bytes := by
  induction bytes with
  | nil => rfl
  | cons b bytes ih =>
      have hb := byteOfDigits_digitsOf b
      simp only [hexDigits] at ih ⊢
      rw [List.flatMap_cons, digitsOf, List.cons_append, List.cons_append, List.nil_append,
        bytesOfDigits, ih, hb]

theorem bytesOfDigits_replicate_zero (n : ℕ) :
    bytesOfDigits (List.replicate (2 * n) 0) = List.replicate n 0 := by
  induction n with
  | zero => rfl
  | succ n ih =>
      have hdouble : 2 * (n + 1) = 2 * n + 1 + 1 := by ring
      rw [hdouble, List.replicate_succ, List.replicate_succ, bytesOfDigits, ih,
        List.replicate_succ]
      rfl

/-! ## Numbers as digits -/

/-- The digits of a number, without leading zeros; `fuel` bounds their count. -/
def digitsFrom (base : ℕ) : ℕ → ℕ → List Digit
  | 0, _ => []
  | fuel + 1, n =>
    if n = 0 then [] else digitsFrom base fuel (n / base) ++ [Fin.ofNat 16 (n % base)]

/-- `format "%x"`: the digits of the low bits, as many as a C `long` has. -/
def formatX (longBits : ℕ) (n : ℤ) : List Digit :=
  let digits := digitsFrom 16 longBits (n % 2 ^ longBits).toNat
  List.replicate (1 - digits.length) 0 ++ digits

/-- `format "%02x"`: the digits of the low 32 bits, at least two of them. -/
def format02x (n : ℤ) : List Digit :=
  let digits := digitsFrom 16 8 (n % 2 ^ 32).toNat
  List.replicate (2 - digits.length) 0 ++ digits

/-- `expr 0x$digits` -/
def hexValue (digits : List Digit) : ℕ := digits.foldl (fun n d => 16 * n + d.val) 0

theorem hexValue_digitsOf (b : UInt8) : hexValue (digitsOf b) = b.toNat := by
  simp only [hexValue, digitsOf, List.foldl_cons, List.foldl_nil]
  omega

theorem hexValue_digitsFrom (fuel n : ℕ) (small : n < 16 ^ fuel) :
    hexValue (digitsFrom 16 fuel n) = n := by
  induction fuel generalizing n with
  | zero =>
      obtain rfl : n = 0 := by simpa using small
      rfl
  | succ fuel ih =>
      rw [digitsFrom]
      split_ifs with hzero
      · rw [hzero]
        rfl
      · have hdiv : n / 16 < 16 ^ fuel := by
          rw [Nat.div_lt_iff_lt_mul (by decide)]
          simpa [pow_succ] using small
        have hrest := ih (n / 16) hdiv
        rw [hexValue] at hrest ⊢
        have hdigit : (Fin.ofNat 16 (n % 16)).val = n % 16 := by simp
        rw [List.foldl_append, hrest, List.foldl_cons, List.foldl_nil, hdigit]
        omega

theorem hexValue_zeros (count : ℕ) (digits : List Digit) :
    hexValue (List.replicate count 0 ++ digits) = hexValue digits := by
  induction count with
  | zero => rfl
  | succ count ih =>
      rw [List.replicate_succ, List.cons_append, ← ih]
      rfl

/-- A number that a `long` can have keeps its value. -/
theorem hexValue_formatX {longBits n : ℕ} (small : n < 2 ^ longBits) :
    hexValue (formatX longBits n) = n := by
  have hkept : ((n : ℤ) % 2 ^ longBits).toNat = n := by
    rw [Int.emod_eq_of_lt (by omega) (by exact_mod_cast small), Int.toNat_natCast]
  have hsmall : n < 16 ^ longBits := small.trans_le (Nat.pow_le_pow_left (by decide) _)
  rw [formatX, hexValue_zeros, hkept, hexValue_digitsFrom longBits n hsmall]

theorem formatX_ne_nil (longBits : ℕ) (n : ℤ) : formatX longBits n ≠ [] := by
  intro hempty
  rw [formatX, List.append_eq_nil_iff] at hempty
  obtain ⟨hzeros, hdigits⟩ := hempty
  rw [hdigits] at hzeros
  exact absurd hzeros (by decide)

/-- The digits of a byte are those of its number. -/
theorem format02x_toNat (b : UInt8) : format02x b.toNat = digitsOf b := by
  have hall : ∀ n : Fin 256, format02x n.val = digitsOf (UInt8.ofNat n.val) := by
    decide +kernel
  have hb := hall ⟨b.toNat, b.toNat_lt⟩
  rwa [UInt8.ofNat_toNat] at hb

/-! ## Layouts -/

/-- One field of a layout. -/
inductive Field
  /-- A signed integer of so many bytes, most significant first. -/
  | int (width : ℕ)
  /-- A signed integer of so many bytes, least significant first. -/
  | intLE (width : ℕ)
  /-- So many bytes. -/
  | bytes (count : ℕ)
  /-- All remaining bytes. -/
  | rest
  /-- So many hexadecimal digits, high digit of a byte first. -/
  | hex (count : ℕ)
  /-- The digits of all remaining bytes. -/
  | hexRest
  deriving DecidableEq, Repr

/-- A converted field. -/
inductive Value
  | int (n : ℤ)
  | bytes (bytes : Bytes)
  | hex (digits : List Digit)
  deriving DecidableEq, Repr

/-- The number of bytes a field takes from so many available ones. -/
def Field.size (available : ℕ) : Field → ℕ
  | .int width | .intLE width => width
  | .bytes count => count
  | .rest | .hexRest => available
  | .hex count => (count + 1) / 2

/-- The value of a field whose bytes are present. -/
def Field.convert (taken : Bytes) : Field → Value
  | .int _ => .int (signed taken)
  | .intLE _ => .int (signed taken.reverse)
  | .bytes _ | .rest => .bytes taken
  | .hex count => .hex ((hexDigits taken).take count)
  | .hexRest => .hex (hexDigits taken)

/-- Convert fields in order, up to the first for which bytes are missing. -/
def scan : List Field → Bytes → List Value
  | [], _ => []
  | field :: fields, bytes =>
      if bytes.length < field.size bytes.length then []
      else field.convert (bytes.take (field.size bytes.length)) ::
        scan fields (bytes.drop (field.size bytes.length))

@[simp]
theorem scan_nil (bytes : Bytes) : scan [] bytes = [] := rfl

/-- A field whose bytes stand at the front is converted and scanning goes on
behind it. -/
theorem scan_append {field : Field} {taken : Bytes} (fields : List Field)
    (remaining : Bytes)
    (hsize : field.size (taken ++ remaining).length = taken.length) :
    scan (field :: fields) (taken ++ remaining) =
      field.convert taken :: scan fields remaining := by
  rw [scan, hsize, List.take_left, List.drop_left]
  simp

/-- Digits that fill whole bytes are scanned back. -/
theorem scan_hex_digits (count : ℕ) (digits : List Digit) (length : digits.length = count)
    (even : Even count) (fields : List Field) (remaining : Bytes) :
    scan (.hex count :: fields) (bytesOfDigits digits ++ remaining) =
      .hex digits :: scan fields remaining := by
  subst length
  rw [scan_append fields remaining (by simp [Field.size])]
  simp [Field.convert, hexDigits_bytesOfDigits even]

/-- Scanning whole bytes as digits. -/
theorem scan_hex_bytes (count : ℕ) (bytes : Bytes) (length : 2 * bytes.length = count)
    (fields : List Field) (remaining : Bytes) :
    scan (.hex count :: fields) (bytes ++ remaining) =
      .hex (hexDigits bytes) :: scan fields remaining := by
  subst length
  rw [scan_append fields remaining (by simp [Field.size]; omega)]
  have hall : (hexDigits bytes).take (2 * bytes.length) = hexDigits bytes :=
    List.take_of_length_le (by simp)
  rw [Field.convert, hall]

/-- An integer in the signed range of its width is scanned back. -/
theorem scan_int (width : ℕ) (n : ℤ) (hlow : -(256 ^ width : ℤ) ≤ 2 * n)
    (hhigh : 2 * n < (256 ^ width : ℤ)) (fields : List Field) (remaining : Bytes) :
    scan (.int width :: fields) (bigEndian width n ++ remaining) =
      .int n :: scan fields remaining := by
  rw [scan_append fields remaining (by simp [Field.size]), Field.convert,
    signed_bigEndian_of_range hlow hhigh]

/-- A single byte is scanned as its signed value. -/
theorem scan_int_byte (b : UInt8) (fields : List Field) (remaining : Bytes) :
    scan (.int 1 :: fields) (b :: remaining) = .int (signed [b]) :: scan fields remaining := by
  have hsize : (Field.int 1).size ([b] ++ remaining).length = [b].length := rfl
  exact scan_append fields remaining hsize

theorem scan_rest (bytes : Bytes) : scan [.rest] bytes = [.bytes bytes] := by
  simp [scan, Field.size, Field.convert]

theorem scan_of_short {field : Field} {bytes : Bytes} (fields : List Field)
    (h : bytes.length < field.size bytes.length) : scan (field :: fields) bytes = [] := by
  simp [scan, h]

/-- Integers that are all there are all converted, and scanning goes on behind them. -/
theorem scan_ints_append (widths : List ℕ) (fields : List Field) {bytes : Bytes}
    (enough : widths.sum ≤ bytes.length) :
    ∃ ns : List ℤ, ns.length = widths.length ∧
      scan (widths.map .int ++ fields) bytes =
        ns.map .int ++ scan fields (bytes.drop widths.sum) := by
  induction widths generalizing bytes with
  | nil => exact ⟨[], rfl, rfl⟩
  | cons width widths ih =>
      rw [List.sum_cons] at enough
      have hrest : widths.sum ≤ (bytes.drop width).length := by
        rw [List.length_drop]
        omega
      obtain ⟨ns, hlength, hscan⟩ := ih hrest
      refine ⟨signed (bytes.take width) :: ns, by rw [List.length_cons, hlength]; rfl, ?_⟩
      rw [List.map_cons, List.cons_append, scan, Field.size, if_neg (by omega), hscan,
        List.drop_drop, List.sum_cons]
      rfl

theorem scan_ints_whole (widths : List ℕ) {bytes : Bytes} (enough : widths.sum ≤ bytes.length) :
    ∃ ns : List ℤ, ns.length = widths.length ∧ scan (widths.map .int) bytes = ns.map .int := by
  obtain ⟨ns, hlength, hscan⟩ := scan_ints_append widths [] enough
  rw [List.append_nil, scan_nil, List.append_nil] at hscan
  exact ⟨ns, hlength, hscan⟩

/-- Of integers that are cut off the last one is not converted, and nothing behind it. -/
theorem scan_ints_append_cut (widths : List ℕ) (fields : List Field) {bytes : Bytes}
    (cut : bytes.length < widths.sum) :
    (scan (widths.map .int ++ fields) bytes).length < widths.length := by
  induction widths generalizing bytes with
  | nil => exact absurd cut (Nat.not_lt_zero _)
  | cons width widths ih =>
      rw [List.sum_cons] at cut
      rw [List.map_cons, List.cons_append, scan, Field.size]
      split
      · exact Nat.succ_pos _
      · rw [List.length_cons, List.length_cons]
        exact Nat.succ_lt_succ (ih (by rw [List.length_drop]; omega))

theorem scan_ints_cut (widths : List ℕ) {bytes : Bytes} (cut : bytes.length < widths.sum) :
    (scan (widths.map .int) bytes).length < widths.length := by
  have hcut := scan_ints_append_cut widths [] cut
  rwa [List.append_nil] at hcut

/-! ## Repeated integers -/

/-- All signed integers of so many bytes each; bytes left over are not converted. -/
def scanInts (width : ℕ) (bytes : Bytes) : List ℤ :=
  (List.range (bytes.length / width)).map fun i => signed ((bytes.drop (i * width)).take width)

/-- The integers that `binary format` takes: those whose magnitude has at most 64 bits. -/
def Formats (n : ℤ) : Prop := n.natAbs < 2 ^ 64

instance : DecidablePred Formats := fun n => inferInstanceAs (Decidable (n.natAbs < 2 ^ 64))

/-- `binary format` of all integers of a list. One that is too large is an error. -/
def formatInts (width : ℕ) (ns : List ℤ) : Option Bytes :=
  if ∀ n ∈ ns, Formats n then some (ns.flatMap (bigEndian width)) else none

theorem formatInts_of_formats {width : ℕ} {ns : List ℤ} (formats : ∀ n ∈ ns, Formats n) :
    formatInts width ns = some (ns.flatMap (bigEndian width)) :=
  if_pos formats

/-- Integers that were scanned have the range of their width. -/
theorem scanInts_range {width : ℕ} {bytes : Bytes} {n : ℤ} (scanned : n ∈ scanInts width bytes) :
    -(256 ^ width : ℤ) ≤ 2 * n ∧ 2 * n < 256 ^ width := by
  obtain ⟨i, hi, rfl⟩ := List.mem_map.mp scanned
  have hlength : ((bytes.drop (i * width)).take width).length = width := by
    have hcount : (i + 1) * width ≤ bytes.length :=
      le_trans (Nat.mul_le_mul_right width (List.mem_range.mp hi))
        (Nat.div_mul_le_self bytes.length width)
    rw [Nat.succ_mul] at hcount
    rw [List.length_take, List.length_drop]
    omega
  have hrange := signed_range ((bytes.drop (i * width)).take width)
  rwa [hlength] at hrange

/-! ## Sums of bytes -/

/-- The sum of a byte string's signed bytes. -/
def signedSum (bytes : Bytes) : ℤ := (bytes.map fun b => signed [b]).sum

/-- The sum of a byte string's unsigned bytes. -/
def byteSum (bytes : Bytes) : ℤ := (bytes.map fun b => (b.toNat : ℤ)).sum

@[simp]
theorem byteSum_nil : byteSum [] = 0 := rfl

@[simp]
theorem byteSum_cons (b : UInt8) (bytes : Bytes) :
    byteSum (b :: bytes) = b.toNat + byteSum bytes := by
  simp [byteSum]

@[simp]
theorem byteSum_append (first second : Bytes) :
    byteSum (first ++ second) = byteSum first + byteSum second := by
  simp [byteSum]

/-- Summing signed bytes instead of unsigned ones changes nothing modulo 256. -/
theorem signedSum_modEq (bytes : Bytes) : signedSum bytes ≡ byteSum bytes [ZMOD 256] := by
  induction bytes with
  | nil => exact Int.ModEq.refl _
  | cons b bytes ih =>
      have hb : signed [b] ≡ (b.toNat : ℤ) [ZMOD 256] := by
        have h := signed_emod [b]
        simp only [List.length_singleton, pow_one, unsigned, List.length_nil, pow_zero,
          mul_one, add_zero] at h
        rw [Int.ModEq, h, Int.emod_eq_of_lt (by omega) (by exact_mod_cast b.toNat_lt)]
      simpa [signedSum, byteSum] using hb.add ih

end BinaryFormat
