/-
# Readers of byte strings

A reader takes what it needs from the front of a byte string and leaves the rest, or
fails when bytes are missing. Readers are put together in the order of a layout.

The law of a reader is about a string that begins with something written: the reader
gives what was written and leaves what follows. The laws of put-together readers
follow from those of their parts.
-/

import Amester.Lib.BinaryFormat

namespace BinaryFormat

/-- Take something from the front of a byte string. -/
abbrev Reader := StateT Bytes Option

namespace Reader

variable {β γ : Type}

/-- So many bytes. -/
def bytes (count : ℕ) : Reader Bytes := fun available =>
  if available.length < count then none
  else some (available.take count, available.drop count)

/-- A signed integer of so many bytes. -/
def int (width : ℕ) : Reader ℤ := do
  let taken ← bytes width
  pure (signed taken)

/-- So many things of one kind. -/
def many (r : Reader β) : ℕ → Reader (List β)
  | 0 => pure []
  | count + 1 => do
    let x ← r
    let xs ← many r count
    pure (x :: xs)

/-- Signed integers of so many bytes each. -/
def ints (width count : ℕ) : Reader (List ℤ) := many (int width) count

/-- Something that lies within so many bytes. -/
def within (count : ℕ) (r : Reader β) : Reader β := do
  let taken ← bytes count
  fun available => (r.run taken).map fun read => (read.1, available)

/-- The reader finds something written in front. -/
def Reads (r : Reader β) (written : Bytes) (x : β) : Prop :=
  ∀ remaining, r.run (written ++ remaining) = some (x, remaining)

theorem Reads.of_eq {r : Reader β} {written : Bytes} {x y : β} (h : r.Reads written x)
    (same : x = y) : r.Reads written y := by
  subst same
  exact h

theorem Reads.bind {r : Reader β} {next : β → Reader γ} {first second : Bytes} {x : β} {y : γ}
    (hfirst : r.Reads first x) (hsecond : (next x).Reads second y) :
    Reads (r >>= next) (first ++ second) y := by
  intro remaining
  rw [List.append_assoc, StateT.run_bind, hfirst]
  exact hsecond remaining

theorem Reads.pure (x : β) : Reads (pure x) [] x := by
  intro remaining
  rfl

/-- The last reader of a layout. -/
theorem Reads.last {r : Reader β} {next : β → γ} {written : Bytes} {x : β}
    (h : r.Reads written x) : Reads (r >>= fun x => Pure.pure (next x)) written (next x) := by
  intro remaining
  rw [StateT.run_bind, h]
  rfl

theorem Reads.bytes (taken : Bytes) : (bytes taken.length).Reads taken taken := by
  intro remaining
  have hread : Reader.bytes taken.length (taken ++ remaining) = some (taken, remaining) := by
    rw [Reader.bytes, if_neg (by simp), List.take_left, List.drop_left]
  exact hread

theorem Reads.int {width : ℕ} {taken : Bytes} (length : taken.length = width) :
    (int width).Reads taken (signed taken) := by
  subst length
  exact (Reads.bytes taken).last

theorem Reads.many {δ : Type} {r : Reader β} {write : δ → Bytes} {value : δ → β} {xs : List δ}
    (each : ∀ x ∈ xs, r.Reads (write x) (value x)) :
    (many r xs.length).Reads (xs.flatMap write) (xs.map value) := by
  induction xs with
  | nil => exact Reads.pure []
  | cons x xs ih =>
      have hfirst := each x List.mem_cons_self
      have hrest := ih fun y hy => each y (List.mem_cons_of_mem _ hy)
      rw [List.flatMap_cons, List.map_cons, List.length_cons]
      exact hfirst.bind hrest.last

/-- Single bytes are read as their signed values. -/
theorem Reads.ints_bytes {count : ℕ} {taken : Bytes} (length : taken.length = count) :
    (ints 1 count).Reads taken (taken.map fun b => signed [b]) := by
  subst length
  have hmany : (Reader.many (Reader.int 1) taken.length).Reads (taken.flatMap fun b => [b])
      (taken.map fun b => signed [b]) := Reads.many fun b _ => Reads.int rfl
  rwa [List.flatMap_singleton'] at hmany

theorem Reads.within {r : Reader β} {written : Bytes} {x : β} {count : ℕ}
    (h : r.Reads written x) (length : written.length = count) :
    (within count r).Reads written x := by
  subst length
  intro remaining
  have hread := h []
  rw [List.append_nil] at hread
  rw [Reader.within, StateT.run_bind, Reads.bytes written remaining]
  show (r.run written).map (fun read => (read.1, remaining)) = some (x, remaining)
  rw [hread]
  rfl

end Reader

/-! ## Writing back what was read -/

/-- Writing looks at the low bytes only. -/
theorem bigEndian_congr {width : ℕ} {n m : ℤ} (congr : n ≡ m [ZMOD 256 ^ width]) :
    bigEndian width n = bigEndian width m := by
  induction width with
  | zero => rfl
  | succ width ih =>
      have hlow : n ≡ m [ZMOD 256 ^ width] := congr.of_dvd (pow_dvd_pow 256 (Nat.le_succ width))
      rw [bigEndian, bigEndian, ih hlow]
      congr 1
      have hpow : (0 : ℤ) < 256 ^ width := by positivity
      have htop : n / 256 ^ width % 256 = m / 256 ^ width % 256 := by
        have hn := emod_mul_eq n (256 ^ width) 256 hpow
        have hm := emod_mul_eq m (256 ^ width) 256 hpow
        have hboth : n % (256 ^ width * 256) = m % (256 ^ width * 256) := by
          rw [← pow_succ]
          exact congr
        have hsame : n % 256 ^ width = m % 256 ^ width := hlow
        rw [hn, hm, hsame] at hboth
        have hscaled := add_right_cancel hboth
        exact Int.eq_of_mul_eq_mul_left hpow.ne' hscaled
      rw [byteOf, byteOf, htop]

theorem bigEndian_unsigned (bytes : Bytes) : bigEndian bytes.length (unsigned bytes) = bytes := by
  induction bytes with
  | nil => rfl
  | cons b bytes ih =>
      have hpow : (0 : ℤ) < 256 ^ bytes.length := by positivity
      have hlt : (unsigned bytes : ℤ) < 256 ^ bytes.length := by exact_mod_cast unsigned_lt bytes
      rw [unsigned, List.length_cons, bigEndian]
      push_cast
      have hdiv : ((b.toNat : ℤ) * 256 ^ bytes.length + unsigned bytes) / 256 ^ bytes.length =
          b.toNat := by
        rw [add_comm, Int.add_mul_ediv_right _ _ hpow.ne', Int.ediv_eq_zero_of_lt (by omega) hlt,
          zero_add]
      have hcongr : (b.toNat : ℤ) * 256 ^ bytes.length + unsigned bytes ≡ unsigned bytes
          [ZMOD 256 ^ bytes.length] := by
        rw [Int.ModEq, add_comm, Int.add_mul_emod_self_right]
      rw [hdiv, byteOf_natCast_toNat, bigEndian_congr hcongr, ih]

/-- Bytes read as a signed integer are written back. -/
theorem bigEndian_signed (bytes : Bytes) : bigEndian bytes.length (signed bytes) = bytes := by
  have hcongr : signed bytes ≡ unsigned bytes [ZMOD 256 ^ bytes.length] := by
    rw [Int.ModEq, signed_emod, Int.emod_eq_of_lt (by omega) (by exact_mod_cast unsigned_lt bytes)]
  rw [bigEndian_congr hcongr, bigEndian_unsigned]

theorem bigEndian_signed_byte (b : UInt8) : bigEndian 1 (signed [b]) = [b] :=
  bigEndian_signed [b]

/-- Single bytes read as signed integers are written back. -/
theorem flatMap_bigEndian_signed (taken : Bytes) :
    (taken.map fun b => signed [b]).flatMap (bigEndian 1) = taken := by
  induction taken with
  | nil => rfl
  | cons b taken ih =>
      rw [List.map_cons, List.flatMap_cons, bigEndian_signed_byte, ih]
      rfl

/-- The low bits of a byte's signed value are the byte. -/
theorem signed_byte_emod (b : UInt8) : signed [b] % 2 ^ 8 = b.toNat := by
  have h := signed_emod [b]
  simpa [unsigned] using h

end BinaryFormat
