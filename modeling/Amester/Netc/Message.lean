/-
# NETC messages and the IPMI packets inside them

A NETC message is a 24-byte header and a body of at least 16 bytes; shorter
bodies are padded with zeros and the header counts the padding. An IPMI request
travels in the body behind two reserved bytes and its own length, and carries
one checksum over its first two bytes and one over the rest. The receiver scans
the same header layout and takes the completion status and the data out of the
body.

Building and scanning are separate code here as in the source; the results in
`Netc.WireFormat` relate them.
-/

import Amester.Ipmi.Request
import Mathlib.Data.Int.Bitwise

namespace Amester.Netc

open BinaryFormat

/-! ## Building -/

/-- `binary format H<count>`: the first `count` digits, missing ones zero. -/
def formatHex (count : ℕ) (digits : List Digit) : Bytes :=
  bytesOfDigits ((digits ++ List.replicate count 0).take count)

/-- The number of pad bytes after so much data. -/
def pads (dataLength : ℕ) : ℕ := if dataLength < 16 then 16 - dataLength else 0

/-- The header fields in front of the data. `messageNum` is the object's
message counter and `seq` the random sequence number. -/
def netcHeader (messageNum seq : ℤ) (function operation flag : List Digit)
    (dataLength : ℕ) : Bytes :=
  formatHex 6 [13, 14, 12, 10, 15, 15] ++
    formatHex 2 [0, 0] ++
    bigEndian 4 (24 + dataLength + pads dataLength) ++
    bigEndian 4 messageNum ++
    formatHex 4 function ++
    formatHex 2 flag ++
    bigEndian 1 (pads dataLength) ++
    bigEndian 4 seq ++
    formatHex 4 operation ++
    formatHex 4 [0, 0, 0, 0]

/-- Build a NETC message. -/
def createNetcMessage (messageNum seq : ℤ) (function operation flag : List Digit)
    (data : Bytes) : Bytes :=
  if 0 < pads data.length then
    netcHeader messageNum seq function operation flag data.length ++ data ++
      formatHex (2 * pads data.length) [0]
  else
    netcHeader messageNum seq function operation flag data.length ++ data

/-- The byte with the network function and the LUN, as the integer the source
computes from the signed bytes. -/
def netfnlun (netfn lun : Hex2) : ℤ :=
  Int.lor (signed [netfn.byte] * 4) (signed [lun.byte])

/-- The first checksum. -/
def check1 (rssa netfn lun : Hex2) : ℤ := -((rssa.value + netfnlun netfn lun) % 256)

/-- Software identifier, sequence number, command and data: what the second
checksum covers. -/
def datastring (cmd : Hex2) (data : Bytes) : Bytes :=
  bigEndian 1 0 ++ bigEndian 1 0 ++ [cmd.byte] ++ data

/-- The second checksum, summed over signed bytes. -/
def check2 (cmd : Hex2) (data : Bytes) : ℤ := -(signedSum (datastring cmd data) % 256)

/-- The IPMI request without its length. -/
def ipmiPayload (rssa lun netfn cmd : Hex2) (data : Bytes) : Bytes :=
  [rssa.byte] ++ bigEndian 1 (netfnlun netfn lun) ++ bigEndian 1 (check1 rssa netfn lun) ++
    datastring cmd data ++ bigEndian 1 (check2 cmd data)

/-- The body of an IPMI message: two reserved bytes, the length and the request. -/
def ipmiBody (rssa lun netfn cmd : Hex2) (data : Bytes) : Bytes :=
  formatHex 4 [0, 0, 0, 0] ++
    bigEndian 2 (ipmiPayload rssa lun netfn cmd data).length ++
    ipmiPayload rssa lun netfn cmd data

/-- Build the NETC message of an IPMI request: function 0005, operation 90E1,
flag 08. -/
def netc20FormatIpmiPacket (messageNum seq : ℤ) (rssa _chan lun netfn cmd : Hex2)
    (data : Bytes) : Bytes :=
  createNetcMessage messageNum seq [0, 0, 0, 5] [9, 0, 14, 1] [0, 8]
    (ipmiBody rssa lun netfn cmd data)

/-! ## Scanning -/

/-- The fields of a received NETC message. -/
structure NetcPacket where
  nceye : List Digit
  ncvers : List Digit
  nclen : ℤ
  nccaller : List Digit
  ncfunc : List Digit
  ncflags : List Digit
  ncpad : ℤ
  ncseq : List Digit
  ncop : List Digit
  ncstatus : List Digit
  ncdata : Bytes
  deriving DecidableEq

/-- The receiver's layout of a NETC message. -/
def netcLayout : List Field :=
  [.hex 6, .hex 2, .int 4, .hex 8, .hex 4, .hex 2, .int 1, .hex 8, .hex 4, .hex 4, .rest]

/-- Scan a message; `none` when a field is missing. -/
def scanNetcPacket (packet : Bytes) : Option NetcPacket :=
  match scan netcLayout packet with
  | [.hex nceye, .hex ncvers, .int nclen, .hex nccaller, .hex ncfunc, .hex ncflags,
      .int ncpad, .hex ncseq, .hex ncop, .hex ncstatus, .bytes ncdata] =>
    some ⟨nceye, ncvers, nclen, nccaller, ncfunc, ncflags, ncpad, ncseq, ncop, ncstatus,
      ncdata⟩
  | _ => none

/-- Decode the answer to the version request. The session only depends on
whether this raises: a field that was not scanned is an unset variable in the
lines that report it, and a negative length is no field count. -/
def decodeVersion (ncdata : Bytes) : Except String Unit :=
  match scan [.hex 2, .hex 2, .hex 4, .hex 4, .hex 2, .hex 2, .int 2, .rest] ncdata with
  | [_, _, _, _, _, _, .int mtmLength, .bytes remainder] =>
    if mtmLength < 0 then .error "bad field specifier -"
    else
      match scan [.bytes mtmLength.toNat, .int 2, .rest] remainder with
      | [_, .int serialLength, .bytes remainder] =>
        if serialLength < 0 then .error "bad field specifier -"
        else
          match scan [.bytes serialLength.toNat, .bytes 2, .hex 4, .rest] remainder with
          | [_, _, _, .bytes remainder] =>
            match scan [.hex 4, .hex 2, .hex 2, .hex 2, .hex 2, .hex 2, .hex 2, .hex 8]
                remainder with
            | [_, _, _, _, _, _, _, _] => .ok ()
            | _ => .error "can't read microseconds: no such variable"
          | _ => .error "can't read reserved2: no such variable"
      | _ => .error "can't read serialLength: no such variable"
  | _ => .error "can't read remainder: no such variable"

/-- The loop of `processGetNodeConfig` from the node at `offset` on. From the
second node on every variable is set, so a node that is cut off leaves the
length and the location code length of the node before. -/
def nodeConfigFrom (data : Bytes) : ℕ → ℕ → Option (ℕ × ℕ) → Except String Unit
  | 0, _, _ => .ok ()
  | n + 1, offset, stale =>
    let head : List Value :=
      scan [.int 2, .int 2, .int 1, .int 1, .int 2, .int 2] (data.drop offset)
    let masked (i : ℕ) : Option ℕ :=
      match head[i]? with
      | some (Value.int x) => some (x % 65536).toNat
      | _ => none
    match (masked 0).or (stale.map Prod.fst), (masked 5).or (stale.map Prod.snd) with
    | some length, some nodelocationcodelen =>
      let body : List Value :=
        scan [.bytes nodelocationcodelen, .hex 8, .hex 4, .hex 4, .hex 4, .hex 4, .hex 8]
          (data.drop (offset + 10))
      if body.length < 7 && stale.isNone then
        .error "can't read hotupgradesupportedfru: no such variable"
      else nodeConfigFrom data n (offset + length) (some (length, nodelocationcodelen))
    | _, _ => .error "can't read nodelocationcodelen: no such variable"

/-- Decode the node configuration, which the source only reports. -/
def processGetNodeConfig (data : Bytes) : Except String Unit :=
  match scan [.int 2, .int 2] data with
  | [.int offset, .int n] =>
    if n ≤ 0 then .ok ()
    else if offset < 0 then .error "missing count for @ field specifier"
    else nodeConfigFrom data n.toNat offset.toNat none
  | _ => .error "can't read n: no such variable"

/-- The layout with which an IPMI response is scanned: reserved, length, six
header bytes, the completion status and the rest. -/
def ipmiLayout : List Field :=
  [.int 2, .int 2, .int 1, .int 1, .int 1, .int 1, .int 1, .int 1, .int 1, .rest]

/-- The completion status and the data bytes of an IPMI response. A response
too short for its length field or for the data it announces raises; one too
short for a status leaves the status empty. -/
def decodeIpmi (ncdata : Bytes) : Except String (Option ℤ × Bytes) :=
  let values : List Value := scan ipmiLayout ncdata
  let status :=
    match values[8]? with
    | some (Value.int status) => some status
    | _ => none
  match values[1]? with
  | some (Value.int len) =>
    if 8 < len then
      match values[9]? with
      | some (Value.bytes rest) =>
        -- `binary scan` leaves the empty databytes alone when the count is too large
        if rest.length < (len - 8).toNat then .ok (status, [])
        else .ok (status, rest.take (len - 8).toNat)
      | _ => .error "can't read rest: no such variable"
    else .ok (status, [])
  | _ => .error "can't read len: no such variable"

/-- The response that is made up for a get-device-identifier request. -/
def fakeDeviceId : Bytes :=
  [0x00, 0x00, 0x00, 0x09, 0x00, 0xec, 0x14, 0x20, 0x00, 0x3b, 0x00, 0xe4, 0xa5]

example : decodeIpmi fakeDeviceId = .ok (some 0, [0xe4]) := by decide +kernel

end Amester.Netc
