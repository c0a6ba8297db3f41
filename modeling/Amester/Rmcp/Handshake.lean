/-
# The packets of a connection over RMCP+

Before any message is sent, a connection is opened by a ping, a request for the capabilities of the
channel, and the exchange of RMCP+: the request for a session and the messages RAKP 1 and 3, each
when the answer to the one before it has come. What a packet says is read off its bytes here,
whatever state the object is in; a field that is not there makes the reading raise as soon as
something uses it.
-/

import Amester.Lib.Elements
import Amester.Rmcp.Format

namespace Amester.Rmcp

open BinaryFormat

/-! ## What is written -/

/-- The fields of the object that the packets of the exchange name. -/
structure Keys extends Session where
  ipmiSessSeqOut : ℤ := 0
  ipmiPriv : ℤ := 4
  /-- `managed_system_random`, which has no value before it is read. -/
  managedSystemRandom : Option Bytes := none
  rakpTag : ℤ := 0
  username : Bytes := [0x61, 0x64, 0x6d, 0x69, 0x6e]
  authenabledmd5 : Bool := false
  /-- 0 for none and 2 for RAKP-HMAC-MD5. -/
  authalg : ℤ := 0

/-- An ASF ping. -/
def pingmsg : Bytes :=
  [6, 0, 255, 6].flatMap (bigEndian 1) ++ bigEndian 4 4542 ++ [128, 0, 0, 0].flatMap (bigEndian 1)

/-- A packet of RMCP+ outside a session. -/
def rmcpplusPacket (payloadtype : ℤ) (ipmipayload : Bytes) : Bytes :=
  rmcphead ++ bigEndian 1 6 ++ bigEndian 1 payloadtype ++ bigEndian 4 0 ++ bigEndian 4 0 ++
    littleEndian 2 ipmipayload.length ++ ipmipayload

/-- The proposal of an algorithm: its kind, the length 8 and its number. -/
def proposal (payloadtype algorithm : ℤ) : Bytes :=
  bigEndian 1 payloadtype ++ bigEndian 2 0 ++ bigEndian 1 8 ++ bigEndian 1 algorithm ++
    bigEndian 3 0

/-- The tag and the algorithm of a request for a session. -/
def Keys.opening (k : Keys) : Keys :=
  { k with rakpTag := k.rakpTag + 1, authalg := if k.authenabledmd5 then 2 else 0 }

def rmcpplusOpenSessionPacket (k : Keys) : Bytes :=
  rmcpplusPacket 16 (bigEndian 1 k.rakpTag ++ bigEndian 1 0 ++ bigEndian 2 0 ++
    [0x14, 0xe2, 0x38, 0x64] ++ proposal 0 k.authalg ++ proposal 1 0 ++ proposal 2 0)

def Keys.nextTag (k : Keys) : Keys := { k with rakpTag := k.rakpTag + 1 }

def rakp1Packet (k : Keys) : Bytes :=
  rmcpplusPacket 18 (bigEndian 1 k.rakpTag ++ bigEndian 3 0 ++
    littleEndian 4 k.managedSystemSessId ++
    [0x11111111, 0x22222222, 0x33333333, 0x44444444].flatMap (littleEndian 4) ++
    bigEndian 1 0x14 ++ littleEndian 2 0 ++ bigEndian 1 k.username.length ++ k.username)

/-- The code that RAKP 3 carries; `none` when there is no random number or `::md5::hmac` raises. -/
def Keys.authCode (hmac : Bytes → Option Bytes) (k : Keys) : Option Bytes :=
  if k.authalg = 2 then k.managedSystemRandom.bind fun random => hmac (formatA 16 random)
  else some []

def rakp3Packet (k : Keys) (authCode : Bytes) : Bytes :=
  rmcpplusPacket 20 (bigEndian 1 k.rakpTag ++ bigEndian 1 0 ++ littleEndian 2 0 ++
    littleEndian 4 k.managedSystemSessId ++ authCode)

/-- `rmcp1.5_send` to the service processor, with the function App. -/
def rmcp15Send (k : Keys) (cmd : Hex2) (data : Bytes) : Bytes :=
  ((rmcp15FormatIpmiPacket k.toSession { hi := 2, lo := 0 } ⟨0, 0⟩ ⟨0, 0⟩ ⟨0, 6⟩ cmd data).map
    Packet.outmsg).getD []

/-- Get Channel Authentication Capabilities. -/
def capabilitiesRequest (k : Keys) : Bytes := rmcp15Send k ⟨3, 8⟩ [0x8e, 0x04]

/-- What a session challenge sets. -/
def Keys.challenged (k : Keys) (tempsessid : ℤ) : Keys :=
  { k with ipmiSessId := tempsessid, ipmiSessSeqOut := 1, ipmiAuthtype := 4, ipmiAuthcode := none }

/-- Activate Session, with an empty password. -/
def activateRequest (k : Keys) : Bytes :=
  rmcp15Send k ⟨3, 10⟩ (bigEndian 1 4 ++ bigEndian 1 k.ipmiPriv ++ List.replicate 16 0 ++
    littleEndian 4 k.ipmiSessSeqOut)

/-! ## What is read -/

/-- What a packet says. -/
inductive Reading
  /-- No packet of RMCP: `rmcp_process` returns. -/
  | dropped
  | raises
  /-- Nothing that the object does something about. -/
  | ignored
  | pong
  /-- A completion code outside a session. -/
  | refused
  /-- The first byte about authentication. -/
  | capabilities (auth1 : ℤ)
  | challenge (tempsessid : ℤ)
  /-- The session is opened; a packet that is cut short has no identifier. -/
  | openSession (managedSystemSessId : Option ℤ)
  | rakp2 (managedSystemRandom : Option Bytes)
  | rakp4
  /-- The response to a message; the status is empty in a packet that is cut short. -/
  | response (status : Option ℤ) (databytes : Bytes)
  deriving DecidableEq

/-- One signed byte. -/
def scanByte (offset : ℕ) (packet : Bytes) : Option ℤ :=
  match scan [.int 1] (packet.drop offset) with
  | [.int n] => some n
  | _ => none

/-- A packet of ASF. -/
def readAsf (packet : Bytes) : Reading :=
  match scan [.int 4, .int 1, .int 1, .int 1, .int 1] (packet.drop 4) with
  | [.int _, .int type, .int _, .int _, .int _] => if type = 0x40 then .pong else .ignored
  | _ => .raises

/-- A response of the function App outside a session, with the number of bytes behind its length. -/
def readApp (datalen cmd : ℤ) (packet : Bytes) : Reading :=
  if cmd = 56 then
    if datalen ≠ 9 then .raises
    else
      match scan [.int 1, .int 1, .int 1, .int 1, .bytes 3, .int 1] (packet.drop 21) with
      | [.int _, .int auth1, .int _, .int _, .bytes _, .int _] => .capabilities auth1
      | _ => .raises
  else if cmd = 57 then
    if datalen ≠ 21 then .raises
    else
      match scan [.intLE 4, .bytes 16] (packet.drop 21) with
      | [.int tempsessid, .bytes _] => .challenge tempsessid
      | _ => .raises
  else .ignored

/-- A packet without authentication. -/
def readAuthNone (packet : Bytes) : Reading :=
  match scan (List.replicate 8 (.int 1)) (packet.drop 13) with
  | [.int ipmilen, .int _, .int netfnlun, .int _, .int _, .int _, .int cmd, .int cc] =>
    if cc % 256 ≠ 0 then .refused
    else if netfnlun >>> 2 = 7 then readApp (ipmilen - 7) cmd packet
    else .ignored
  | _ => .raises

/-- The response to a message: its length, its status and its data, if they are all there. -/
def readResponse (packet : Bytes) : Reading :=
  match scan [.intLE 2] (packet.drop 14) with
  | [.int len] =>
    let databytes :=
      if 8 < len ∧ (len - 8).toNat ≤ (packet.drop 23).length then
        (packet.drop 23).take (len - 8).toNat
      else []
    .response (scanByte 22 packet) databytes
  | _ => .raises

def readRmcpPlus (packet : Bytes) : Reading :=
  match scanByte 5 packet with
  | some 17 =>
    match scanByte 17 packet with
    | none => .raises
    | some statuscode =>
      if statuscode = 0 then
        match scan [.intLE 4] (packet.drop 24) with
        | [.int managedSystemSessId] => .openSession (some managedSystemSessId)
        | _ => .openSession none
      else .ignored
  | some 19 =>
    match scanByte 17 packet with
    | none => .raises
    | some statuscode =>
      if statuscode = 0 then
        match scan [.intLE 4, .bytes 16] (packet.drop 20) with
        | [.int _, .bytes managedSystemRandom] => .rakp2 (some managedSystemRandom)
        | _ => .rakp2 none
      else .ignored
  | some 21 =>
    match scanByte 17 packet with
    | none => .raises
    | some statuscode => if statuscode = 0 then .rakp4 else .ignored
  | some 0 => readResponse packet
  | some _ => .ignored
  | none => .raises

/-- A packet of IPMI. -/
def readIpmi (packet : Bytes) : Reading :=
  match scanByte 4 packet with
  | some 0 => readAuthNone packet
  | some 6 => readRmcpPlus packet
  | _ => .raises

def readPacket (packet : Bytes) : Reading :=
  match scanByte 0 packet with
  | none => .raises -- the version is written to the log
  | some version =>
    if version ≠ 6 then .dropped
    else
      match scan [.int 1, .int 1, .int 1] (packet.drop 1) with
      | [.int _, .int _, .int cls] =>
        if cls = 6 then readAsf packet
        else if cls = 7 then readIpmi packet
        else .ignored
      | _ => .raises -- so is the class

end Amester.Rmcp
