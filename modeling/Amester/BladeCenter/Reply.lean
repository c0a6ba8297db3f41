/-
# Messages on the wire

`send` writes a header of six bytes, the command and the data, and the management module replies
in the same format. `net_process_msg` reads the header, takes the two lengths from it and reads
as many bytes. The length of the command is one byte, scanned as a signed number, and of the two
bytes for the data no more than the low sixteen bits are written.

A connection that ends inside a message gives less than was asked for, and reading goes on with
that.
-/

import Amester.BladeCenter.CommandTable

namespace Amester.BladeCenter

open BinaryFormat

/-! ## Headers -/

structure Header where
  type : ℤ
  cmdLen : ℤ
  databytesLen : ℤ
  status : ℤ
  reserved : ℤ
  deriving DecidableEq, Repr

/-- `binary scan $line "c1c1s1c1c1"`. -/
def headerItems (line : Bytes) : List Value :=
  scan [.int 1, .int 1, .intLE 2, .int 1, .int 1] line

/-- The five items, `none` if there are fewer. -/
def scanHeader (line : Bytes) : Option Header :=
  match headerItems line with
  | [.int type, .int cmdLen, .int databytesLen, .int status, .int reserved] =>
    some ⟨type, cmdLen, databytesLen % 65536, status, reserved⟩
  | _ => none

/-- The variables `cmd_len` and `databytes_len`, `none` if they keep the empty text. -/
def scanLengths (line : Bytes) : Option ℤ × Option ℤ :=
  match headerItems line with
  | _ :: .int cmdLen :: .int databytesLen :: _ => (some cmdLen, some (databytesLen % 65536))
  | [_, .int cmdLen] => (some cmdLen, none)
  | _ => (none, none)

/-- What `net_process_msg` reads, `none` where reading raises. -/
structure Input where
  /-- `fconfigure -error` has a text. -/
  error : Bool := false
  line : Option Bytes
  cmdbytes : Option Bytes
  databytes : Option Bytes
  deriving DecidableEq

/-- `read $sock $count`: up to so many bytes, and an error without a number or with a negative
one. -/
def readCount (stream : Bytes) : Option ℤ → Option Bytes × Bytes
  | none => (none, stream)
  | some count =>
    if count < 0 then (none, stream)
    else (some (stream.take count.toNat), stream.drop count.toNat)

/-- Read a message off a stream that ends. -/
def readInput (stream : Bytes) : Input × Bytes :=
  let lengths := scanLengths (stream.take 6)
  let cmd := readCount (stream.drop 6) lengths.1
  let data := readCount cmd.2 lengths.2
  ({ line := some (stream.take 6), cmdbytes := cmd.1, databytes := data.1 }, data.2)

/-! ## Messages -/

/-- A message in either direction. -/
structure Reply where
  type : UInt8
  status : UInt8
  reserved : UInt8
  cmdbytes : Bytes
  databytes : Bytes
  deriving DecidableEq

namespace Reply

variable (r : Reply)

/-- The header, as `send` writes it. -/
def header : Bytes :=
  bigEndian 1 r.type.toNat ++ bigEndian 1 r.cmdbytes.length ++ short r.databytes.length ++
    bigEndian 1 r.status.toNat ++ bigEndian 1 r.reserved.toNat

def encode : Bytes := r.header ++ r.cmdbytes ++ r.databytes

/-- What is to be read of the message. -/
def input : Input :=
  { line := some r.header, cmdbytes := some r.cmdbytes, databytes := some r.databytes }

/-- The lengths fit into the header. -/
structure Fits : Prop where
  cmd : r.cmdbytes.length < 128
  data : r.databytes.length < 65536

instance : Decidable r.Fits :=
  decidable_of_iff (r.cmdbytes.length < 128 ∧ r.databytes.length < 65536)
    ⟨fun h => ⟨h.1, h.2⟩, fun h => ⟨h.1, h.2⟩⟩

end Reply

/-- `send` writes a message of this format. -/
theorem send_encode {type : UInt8} {cmd : DotCmd} {databytes : Bytes} {callback : String}
    {priority : ℤ} {s : State} {m : Message}
    (sent : send type.toNat cmd databytes callback priority s = .ok m) :
    m.msg = (Reply.mk type 0 0 (cmd.map UInt8.ofNat) databytes).encode := by
  unfold send at sent
  split_ifs at sent with hrefused
  obtain rfl := Except.ok.inj sent
  rw [Reply.encode, Reply.header]
  rfl

/-! ## Reading -/

private theorem length_short (n : ℤ) : (short n).length = 2 := by simp [short]

theorem Reply.length_header (r : Reply) : r.header.length = 6 := by
  simp [header, length_short]

/-- The items of a header. -/
theorem headerItems_header (r : Reply) :
    headerItems r.header = [.int (signed [r.type]), .int (Int.bmod r.cmdbytes.length 256),
      .int (Int.bmod r.databytes.length 65536), .int (signed [r.status]),
      .int (signed [r.reserved])] := by
  have hbyte : ∀ b : UInt8, bigEndian 1 b.toNat = [b] := fun b => by
    simp [bigEndian, byteOf_natCast_toNat]
  have hcmd : Int.bmod r.cmdbytes.length 256 = signed (bigEndian 1 r.cmdbytes.length) := by
    rw [signed_bigEndian, pow_one]
  have hdata : Int.bmod r.databytes.length 65536 =
      signed (short r.databytes.length).reverse := by
    rw [short, List.reverse_reverse, signed_bigEndian]
    norm_num
  rw [headerItems, Reply.header, hbyte, hbyte, hbyte, hcmd, hdata]
  simp only [List.append_assoc]
  rw [scan_append _ _ (by simp [Field.size]), scan_append _ _ (by simp [Field.size]),
    scan_append _ _ (by simp [Field.size, length_short]),
    scan_append _ _ (by simp [Field.size])]
  rfl

private theorem bmod_short_emod (n : ℕ) : Int.bmod n 65536 % 65536 = (n : ℤ) % 65536 :=
  Int.bmod_emod

theorem scanHeader_header (r : Reply) :
    scanHeader r.header = some {
      type := signed [r.type]
      cmdLen := Int.bmod r.cmdbytes.length 256
      databytesLen := (r.databytes.length : ℤ) % 65536
      status := signed [r.status]
      reserved := signed [r.reserved] } := by
  rw [scanHeader, headerItems_header]
  simp only [bmod_short_emod]

private theorem scanLengths_header (r : Reply) :
    scanLengths r.header =
      (some (Int.bmod r.cmdbytes.length 256), some ((r.databytes.length : ℤ) % 65536)) := by
  rw [scanLengths, headerItems_header]
  simp only [bmod_short_emod]

private theorem readCount_length (taken rest : Bytes) :
    readCount (taken ++ rest) (some taken.length) = (some taken, rest) := by
  rw [readCount, if_neg (by omega), Int.toNat_natCast, List.take_left, List.drop_left]

/-- What is read behind a header. -/
theorem readInput_encode (r : Reply) (rest : Bytes) :
    readInput (r.encode ++ rest) =
      let cmd := readCount (r.cmdbytes ++ (r.databytes ++ rest))
        (some (Int.bmod r.cmdbytes.length 256))
      let data := readCount cmd.2 (some ((r.databytes.length : ℤ) % 65536))
      ({ line := some r.header, cmdbytes := cmd.1, databytes := data.1 }, data.2) := by
  have htake : (r.encode ++ rest).take 6 = r.header := by
    rw [Reply.encode, List.append_assoc, List.append_assoc, ← r.length_header, List.take_left]
  have hdrop : (r.encode ++ rest).drop 6 = r.cmdbytes ++ (r.databytes ++ rest) := by
    rw [Reply.encode, List.append_assoc, List.append_assoc, ← r.length_header, List.drop_left]
  rw [readInput, htake, hdrop, scanLengths_header]

private theorem readInput_of_fits {r : Reply} (fits : r.Fits) (rest : Bytes) :
    readInput (r.encode ++ rest) = (r.input, rest) := by
  have hcmd : Int.bmod r.cmdbytes.length 256 = r.cmdbytes.length := by
    have hsmall := fits.cmd
    apply Int.bmod_eq_of_le_mul_two <;> push_cast <;> omega
  have hdata : (r.databytes.length : ℤ) % 65536 = r.databytes.length := by
    have hsmall := fits.data
    omega
  rw [readInput_encode, hcmd, hdata, readCount_length]
  simp only [readCount_length]
  rfl

/-- A message is read back, and what follows it is left, exactly if its lengths fit into the
header. -/
theorem readInput_encode_iff (r : Reply) :
    (∀ rest, readInput (r.encode ++ rest) = (r.input, rest)) ↔ r.Fits := by
  refine ⟨fun hreads => ?_, fun fits rest => readInput_of_fits fits rest⟩
  have hread := hreads []
  rw [readInput_encode, List.append_nil, Prod.mk.injEq, Reply.input, Input.mk.injEq] at hread
  obtain ⟨⟨-, -, hcmd, hdata⟩, -⟩ := hread
  have hbmod := Int.bmod_lt (x := r.cmdbytes.length) (m := 256) (by decide)
  have hcmdlen : r.cmdbytes.length < 128 := by
    rw [readCount] at hcmd
    split_ifs at hcmd with hneg
    have hlength := congrArg List.length (Option.some_inj.mp hcmd)
    rw [List.length_take] at hlength
    omega
  refine ⟨hcmdlen, ?_⟩
  have hsame : Int.bmod r.cmdbytes.length 256 = r.cmdbytes.length := by
    apply Int.bmod_eq_of_le_mul_two <;> push_cast <;> omega
  rw [hsame, readCount_length] at hdata
  rw [readCount, if_neg (by omega)] at hdata
  have hlength := congrArg List.length (Option.some_inj.mp hdata)
  rw [List.length_take] at hlength
  omega

end Amester.BladeCenter
