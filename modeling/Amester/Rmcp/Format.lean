/-
# IPMI requests over RMCP

Both versions of the protocol wrap the same IPMI request as NETC, each with a header
and a trailer of its own. The encoder was written a second time for them, and differs
in one place: it turns the address into a number by scanning the text of the address
instead of its byte, so it takes the first character's code, and reads the two digits
of that code as a decimal number.

That is the address for two addresses only. For one of them, `20`, that of the service
processor, all three encoders agree.
-/

import Amester.Netc.WireFormat

namespace Amester.Rmcp

open BinaryFormat Netc

/-! ## Addresses as they are written -/

/-- The code of a hexadecimal digit's character. -/
def hexChar (capital : Bool) (d : Digit) : UInt8 :=
  UInt8.ofNat (if d < 10 then 48 + d else if capital then 55 + d else 87 + d)

/-- A two-digit hexadecimal string with the case of its letters. -/
structure HexText extends Hex2 where
  hiCapital : Bool := false
  loCapital : Bool := false
  deriving DecidableEq, Repr

def HexText.text (h : HexText) : Bytes := [hexChar h.hiCapital h.hi, hexChar h.loCapital h.lo]

/-- Digits as `expr` reads them: a decimal number, or no number at all. -/
def decimalValue (digits : List Digit) : Option ℤ :=
  if digits.all (· < 10) then some (digits.foldl (fun n d => 10 * n + d.val) 0) else none

/-- `binary scan $rssa "H2" rssavalue`: it scans the text. -/
def rssavalue (rssa : HexText) : Option ℤ :=
  match scan [.hex 2] rssa.text with
  | [.hex digits] => decimalValue digits
  | _ => none

/-! ## The request -/

/-- The first checksum. -/
def check1 (rssavalue : ℤ) (netfn lun : Hex2) : ℤ := -((rssavalue + netfnlun netfn lun) % 256)

/-- The second checksum, reduced at every byte. -/
def check2 (cmd : Hex2) (data : Bytes) : ℤ :=
  -((datastring cmd data).foldl (fun check2 byte => (check2 + signed [byte]) % 256) 0)

/-- `ipmipayload`; an address that is no number raises. -/
def ipmipayload (rssa : HexText) (lun netfn cmd : Hex2) (data : Bytes) : Option Bytes :=
  (rssavalue rssa).map fun value =>
    [rssa.byte] ++ bigEndian 1 (netfnlun netfn lun) ++ bigEndian 1 (check1 value netfn lun) ++
      datastring cmd data ++ bigEndian 1 (check2 cmd data)

/-! ## Packets -/

/-- The fields of the object that a packet names. -/
structure Session where
  ipmiAuthtype : ℤ := 0
  ipmiAuthcode : Option ℤ := none
  ipmiSessSeqIn : ℤ := 0
  ipmiSessId : ℤ := 0
  managedSystemSessId : ℤ := 0

/-- The parts of a packet. -/
structure Packet where
  rmcphead : Bytes
  ipmisessionhead : Bytes
  ipmipayload : Bytes
  sesstrail : Bytes
  deriving DecidableEq

/-- What is sent. -/
def Packet.outmsg (p : Packet) : Bytes :=
  p.rmcphead ++ p.ipmisessionhead ++ p.ipmipayload ++ p.sesstrail

/-- `binary format i`, `s`: the least significant byte first. -/
def littleEndian (width : ℕ) (n : ℤ) : Bytes := (bigEndian width n).reverse

/-- Version 6, sequence number 255 and class 7. -/
def rmcphead : Bytes := bigEndian 1 6 ++ bigEndian 1 0 ++ bigEndian 1 255 ++ bigEndian 1 7

def rmcp15FormatIpmiPacket (s : Session) (rssa : HexText) (_chan lun netfn cmd : Hex2)
    (data : Bytes) : Option Packet :=
  (ipmipayload rssa lun netfn cmd data).map fun payload =>
    { rmcphead := rmcphead
      ipmisessionhead := bigEndian 1 s.ipmiAuthtype ++ littleEndian 4 s.ipmiSessSeqIn ++
        littleEndian 4 s.ipmiSessId ++ bigEndian 1 payload.length
      ipmipayload := payload
      sesstrail := s.ipmiAuthcode.elim [] (bigEndian 1) }

/-- The format of RMCP+ takes the next sequence number. -/
def rmcp20FormatIpmiPacket (s : Session) (rssa : HexText) (_chan lun netfn cmd : Hex2)
    (data : Bytes) : Option (Packet × Session) :=
  (ipmipayload rssa lun netfn cmd data).map fun payload =>
    let s := { s with ipmiSessSeqIn := s.ipmiSessSeqIn + 1 }
    ({ rmcphead := rmcphead
       ipmisessionhead := bigEndian 1 6 ++ bigEndian 1 0 ++ littleEndian 4 s.managedSystemSessId ++
         littleEndian 4 s.ipmiSessSeqIn ++ littleEndian 2 payload.length
       ipmipayload := payload
       sesstrail := [] }, s)

/-! ## The address -/

/-- The number that the scan of the text gives: a letter counts by its own code. -/
theorem rssavalue_eq (rssa : HexText) :
    rssavalue rssa = some (if rssa.hi < 10 then (30 + rssa.hi.val : ℤ)
      else if rssa.hiCapital then 31 + rssa.hi.val else 51 + rssa.hi.val) := by
  have hdigits : ∀ (capital : Bool) (d : Digit),
      decimalValue (digitsOf (hexChar capital d)) =
        some (if d < 10 then (30 + d.val : ℤ)
          else if capital then 31 + d.val else 51 + d.val) := by
    decide +kernel
  have hscan : scan [.hex 2] rssa.text = [.hex (digitsOf (hexChar rssa.hiCapital rssa.hi))] := by
    have hbytes := scan_hex_bytes 2 [hexChar rssa.hiCapital rssa.hi] rfl []
      [hexChar rssa.loCapital rssa.lo]
    rw [scan_nil] at hbytes
    exact hbytes
  rw [rssavalue, hscan]
  exact hdigits rssa.hiCapital rssa.hi

/-- Modulo 256 that number is the address for `1f` and `20` only. -/
theorem rssavalue_agrees_iff {rssa : HexText} {n : ℤ} (h : rssavalue rssa = some n) :
    n % 256 = rssa.value % 256 ↔ rssa.value = 0x1f ∨ rssa.value = 0x20 := by
  rw [rssavalue_eq] at h
  obtain rfl := Option.some.inj h
  have hhi := rssa.hi.isLt
  have hlo := rssa.lo.isLt
  have hlt : rssa.hi < 10 ↔ rssa.hi.val < 10 := Fin.lt_def
  have haddress : rssa.value % 256 = rssa.value :=
    Int.emod_eq_of_lt (by rw [Hex2.value]; omega) (by rw [Hex2.value]; omega)
  have hsmall : ∀ n : ℤ, 0 ≤ n → n < 256 → n % 256 = n := fun n => Int.emod_eq_of_lt
  rw [haddress, Hex2.value]
  simp only [hlt]
  split_ifs
  · rw [hsmall _ (by omega) (by omega)]
    omega
  · rw [hsmall _ (by omega) (by omega)]
    omega
  · rw [hsmall _ (by omega) (by omega)]
    omega

/-! ## Agreement with NETC -/

/-- The checksum that is reduced at every byte is the one that is reduced once. -/
theorem check2_eq (cmd : Hex2) (data : Bytes) : check2 cmd data = Netc.check2 cmd data := by
  have hfold : ∀ (bytes : Bytes) (start : ℤ),
      bytes.foldl (fun check2 byte => (check2 + signed [byte]) % 256) (start % 256) =
        (start + signedSum bytes) % 256 := by
    intro bytes
    induction bytes with
    | nil => simp [signedSum]
    | cons b bytes ih =>
        intro start
        have hstart : (start % 256 + signed [b]) % 256 = (start + signed [b]) % 256 := by
          rw [Int.emod_add_emod]
        rw [List.foldl_cons, hstart, ih]
        simp [signedSum, add_assoc]
  have hzero := hfold (datastring cmd data) 0
  rw [Int.zero_emod, zero_add] at hzero
  rw [check2, hzero, Netc.check2]

theorem bigEndian_one_eq_iff (m n : ℤ) : bigEndian 1 m = bigEndian 1 n ↔ m % 256 = n % 256 := by
  constructor
  · intro h
    rw [← byteSum_bigEndian_one m, ← byteSum_bigEndian_one n, h]
  · intro h
    have hbyte : byteOf m = byteOf n := by rw [byteOf, byteOf, h]
    simp [bigEndian, hbyte]

/-- The requests are the same exactly when the address was read as the same number. -/
theorem ipmipayload_eq_iff {rssa : HexText} {n : ℤ} (h : rssavalue rssa = some n)
    (lun netfn cmd : Hex2) (data : Bytes) :
    ipmipayload rssa lun netfn cmd data =
        some (ipmiPayload rssa.toHex2 lun netfn cmd data) ↔
      n % 256 = rssa.value % 256 := by
  have hcheck : bigEndian 1 (check1 n netfn lun) =
      bigEndian 1 (Netc.check1 rssa.toHex2 netfn lun) ↔ n % 256 = rssa.value % 256 := by
    rw [bigEndian_one_eq_iff, check1, Netc.check1]
    omega
  rw [ipmipayload, h, Option.map_some, Option.some.injEq, ipmiPayload, check2_eq]
  rw [List.append_left_inj, List.append_left_inj, List.append_right_inj, hcheck]

/-- Each of the two checksums makes its bytes sum to zero. -/
def Checked (payload : Bytes) : Prop :=
  byteSum (payload.take 3) % 256 = 0 ∧ byteSum (payload.drop 3) % 256 = 0

instance (payload : Bytes) : Decidable (Checked payload) :=
  inferInstanceAs (Decidable (_ ∧ _))

/-- The three formatters embed the same request, and its checksums are right in each. -/
structure FormattersAgree (s : Session) (rssa : HexText) (chan lun netfn cmd : Hex2)
    (data : Bytes) : Prop where
  rmcp15 : (rmcp15FormatIpmiPacket s rssa chan lun netfn cmd data).map Packet.ipmipayload =
    some (ipmiPayload rssa.toHex2 lun netfn cmd data)
  rmcp20 : (rmcp20FormatIpmiPacket s rssa chan lun netfn cmd data).map (·.1.ipmipayload) =
    some (ipmiPayload rssa.toHex2 lun netfn cmd data)
  checked15 : ∀ p, rmcp15FormatIpmiPacket s rssa chan lun netfn cmd data = some p →
    Checked p.ipmipayload
  checked20 : ∀ p, rmcp20FormatIpmiPacket s rssa chan lun netfn cmd data = some p →
    Checked p.1.ipmipayload
  checked : Checked (ipmiPayload rssa.toHex2 lun netfn cmd data)

theorem rmcp15_payload (s : Session) (rssa : HexText) (chan lun netfn cmd : Hex2)
    (data : Bytes) :
    (rmcp15FormatIpmiPacket s rssa chan lun netfn cmd data).map Packet.ipmipayload =
      ipmipayload rssa lun netfn cmd data := by
  rw [rmcp15FormatIpmiPacket]
  cases ipmipayload rssa lun netfn cmd data <;> rfl

theorem rmcp20_payload (s : Session) (rssa : HexText) (chan lun netfn cmd : Hex2)
    (data : Bytes) :
    (rmcp20FormatIpmiPacket s rssa chan lun netfn cmd data).map (·.1.ipmipayload) =
      ipmipayload rssa lun netfn cmd data := by
  rw [rmcp20FormatIpmiPacket]
  cases ipmipayload rssa lun netfn cmd data <;> rfl

theorem ipmiPayload_checked (rssa lun netfn cmd : Hex2) (data : Bytes) :
    Checked (ipmiPayload rssa lun netfn cmd data) :=
  ⟨ipmiPayload_check1 rssa lun netfn cmd data, ipmiPayload_check2 rssa lun netfn cmd data⟩

/-- The formatters agree for the addresses `1f` and `20`. -/
theorem formatters_agree_iff (s : Session) (rssa : HexText) (chan lun netfn cmd : Hex2)
    (data : Bytes) :
    FormattersAgree s rssa chan lun netfn cmd data ↔
      rssa.value = 0x1f ∨ rssa.value = 0x20 := by
  have hvalue := rssavalue_eq rssa
  rw [← rssavalue_agrees_iff hvalue, ← ipmipayload_eq_iff hvalue lun netfn cmd data]
  constructor
  · intro h
    rw [← rmcp15_payload s rssa chan]
    exact h.rmcp15
  · intro h
    have h15 := (rmcp15_payload s rssa chan lun netfn cmd data).trans h
    have h20 := (rmcp20_payload s rssa chan lun netfn cmd data).trans h
    refine ⟨h15, h20, ?_, ?_, ipmiPayload_checked _ _ _ _ _⟩
    · intro p hp
      rw [hp, Option.map_some, Option.some.injEq] at h15
      rw [h15]
      exact ipmiPayload_checked _ _ _ _ _
    · intro p hp
      rw [hp, Option.map_some, Option.some.injEq] at h20
      rw [h20]
      exact ipmiPayload_checked _ _ _ _ _

/-- The address `22` is summed as 32. -/
theorem rmcp_misreads_address :
    ¬FormattersAgree {} { hi := 2, lo := 2 } ⟨0, 0⟩ ⟨0, 0⟩ ⟨3, 10⟩ ⟨3, 12⟩ [0x1c] := by
  intro h
  have hrmcp := h.rmcp15
  revert hrmcp
  decide +kernel

end Amester.Rmcp
