/-
# What a callback is told of a response

A response is a list of numbers: a sequence number, the command, the status, a count of
two bytes, the data and a checksum of two bytes. The data are converted by `format %02x`,
which gives every byte two digits. The status is put into the packet by `binary format H2`,
which takes the first two digits of its decimal text for hexadecimal ones.

So the data arrive as they were sent, whatever their number, and zero is the only status
that does.
-/

import Amester.OpenBmc.Session

namespace Amester.OpenBmc

open BinaryFormat

universe u

/-! ## Responses -/

/-- A response of the firmware. -/
structure Response where
  sequence : UInt8
  command : UInt8
  status : UInt8
  countHigh : UInt8
  countLow : UInt8
  data : Bytes
  checksumHigh : UInt8
  checksumLow : UInt8
  deriving DecidableEq, Repr

/-- The list under `data` in the body of the reply. -/
def Response.dictData (r : Response) : List ℤ :=
  ([r.sequence, r.command, r.status, r.countHigh, r.countLow] ++ r.data ++
    [r.checksumHigh, r.checksumLow]).map fun b => (b.toNat : ℤ)

/-- The reply whose body is the response. -/
def Response.reply (r : Response) : HttpReply := ⟨true, some r.dictData⟩

/-- `[lrange $DictData 5 end-2]`. -/
theorem Response.dictData_data (r : Response) :
    (r.dictData.take (r.dictData.length - 2)).drop 5 = r.data.map fun b => (b.toNat : ℤ) := by
  have hlength : r.dictData.length - 2 = r.data.length + 5 := by simp [dictData]
  rw [hlength, List.drop_take, dictData]
  simp

/-! ## Packets -/

theorem bytesOfDigits_format02x (bytes : Bytes) :
    bytesOfDigits ((bytes.map fun b => (b.toNat : ℤ)).flatMap format02x) = bytes := by
  have hdigits : (bytes.map fun b => (b.toNat : ℤ)).flatMap format02x = hexDigits bytes := by
    rw [List.flatMap_map, hexDigits]
    exact List.flatMap_congr fun b _ => format02x_toNat b
  rw [hdigits, bytesOfDigits_hexDigits]

/-- `binary format H2 $l_status`. -/
def statusByte (status : UInt8) : UInt8 :=
  match (decimalDigits status.toNat).getD [] with
  | high :: low :: _ => byteOfDigits high low
  | [digit] => byteOfDigits digit 0
  | [] => 0

/-- A status is some digits, of which the first two make a byte. -/
theorem decimalDigits_status (status : UInt8) :
    ∃ digits, decimalDigits status.toNat = some digits ∧
      bytesOfDigits ((digits ++ [0]).take 2) = [statusByte status] := by
  have hall : ∀ n : Fin 256,
      (decimalDigits n.val).map (fun digits => bytesOfDigits ((digits ++ [0]).take 2)) =
        some [statusByte (UInt8.ofNat n.val)] := by
    decide +kernel
  have hstatus := hall ⟨status.toNat, status.toNat_lt⟩
  rw [UInt8.ofNat_toNat] at hstatus
  exact Option.map_eq_some_iff.mp hstatus

/-- The packet of a response: a byte made of the status, and the data. -/
theorem Response.packet_reply (r : Response) :
    r.reply.packet = some (statusByte r.status :: r.data) := by
  obtain ⟨digits, hdigits, hbyte⟩ := decimalDigits_status r.status
  have hstatus : r.dictData[2]? = some (r.status.toNat : ℤ) := rfl
  simp only [reply, HttpReply.packet, Option.bind_eq_bind, Option.bind_some, if_true, hstatus,
    hdigits, r.dictData_data, bytesOfDigits_format02x, hbyte]
  rfl

theorem answer_packet {κ : Type u} (item origin : Item κ) (b : UInt8) (data : Bytes) (s : State κ) :
    s.answer item origin (b :: data) = s.emit (.answered item origin (some (signed [b])) data) := by
  rw [State.answer, scan_int_byte, scan_rest]

/-- The byte that is made of a status has its value for zero only. -/
theorem statusByte_unchanged_iff (status : UInt8) :
    signed [statusByte status] = status.toNat ∨ signed [statusByte status] = signed [status] ↔
      status = 0 := by
  have hall : ∀ n : Fin 256,
      signed [statusByte (UInt8.ofNat n.val)] = (UInt8.ofNat n.val).toNat ∨
          signed [statusByte (UInt8.ofNat n.val)] = signed [UInt8.ofNat n.val] ↔
        UInt8.ofNat n.val = 0 := by
    decide +kernel
  have hstatus := hall ⟨status.toNat, status.toNat_lt⟩
  rwa [UInt8.ofNat_toNat] at hstatus

/-! ## Callbacks -/

section Process

variable {κ : Type u}

/-- The message in progress whose callback takes the next packet, and the session behind
it: its timer is cancelled, its entries are cleared and the next message is sent. -/
structure Awaiting (result : SendResult) (s : State κ) (e : InProgress κ) (s' : State κ) :
    Prop where
  inProgress : lookupTag (s.inprogressQ.headD "") s.inprogress = some e
  started : e.tag ∈ s.startTimes
  next : ∃ timer, e.after = some timer ∧ ipmiDequeue result (s.freeSlot e timer) = .ok s'

variable {result : SendResult} {s s' : State κ} {e : InProgress κ}

theorem Awaiting.process_packet (h : Awaiting result s e s') (origin : Item κ) (packet : Bytes) :
    openbmcProcessPacket result origin packet s = .ok (s'.answer e.toItem origin packet) := by
  obtain ⟨timer, harmed, hnext⟩ := h.next
  rw [openbmcProcessPacket, openbmcProcessPacketWith, h.inProgress]
  simp only [h.started, not_true_eq_false, if_false, harmed, hnext]
  rfl

/-- A response runs the callback with a status made of its status and with its data. -/
theorem Awaiting.process_response (h : Awaiting result s e s') (origin : Item κ) (r : Response) :
    openbmcProcess result origin r.reply s =
      .ok (s'.emit (.answered e.toItem origin (some (signed [statusByte r.status])) r.data)) := by
  rw [openbmcProcess, r.packet_reply]
  simp only []
  rw [h.process_packet, answer_packet]

/-- The callback of the message in progress is run with the status of the response, as a
signed or an unsigned byte, and with its data. -/
def Decodes (result : SendResult) (origin : Item κ) (r : Response) (s : State κ) (e : InProgress κ)
    (s' : State κ) : Prop :=
  ∃ status : ℤ, (status = r.status.toNat ∨ status = signed [r.status]) ∧
    openbmcProcess result origin r.reply s =
      .ok (s'.emit (.answered e.toItem origin (some status) r.data))

/-- Of the responses those with status zero are handed on unchanged. -/
theorem decodes_iff (origin : Item κ) (r : Response) (awaiting : Awaiting result s e s') :
    Decodes result origin r s e s' ↔ r.status = 0 := by
  rw [← statusByte_unchanged_iff, Decodes, awaiting.process_response]
  constructor
  · rintro ⟨status, hvalue, hsame⟩
    have heffects := congrArg (fun r => r.state.effects) hsame
    have hanswer := List.append_cancel_left heffects
    have hstatus : signed [statusByte r.status] = status := by simpa using hanswer
    rw [hstatus]
    exact hvalue
  · intro hunchanged
    exact ⟨signed [statusByte r.status], hunchanged, rfl⟩

end Process

/-- A message in progress. -/
def occInfo : InProgress Unit where
  priority := 1
  tag := "0"
  callback := some ()
  timeout := 120000
  rssa := ⟨2, 0⟩
  chan := ⟨0, 0⟩
  lun := ⟨0, 1⟩
  netfn := ⟨3, 10⟩
  cmd := ⟨3, 12⟩
  data := [0x01]
  after := some 1

/-- A session that waits for the response to it. -/
def waitingSession : State Unit :=
  { inprogress := [occInfo], inprogressQ := ["0"], startTimes := ["0"], openbmcSock := 1
    openbmcStatus := .connected, afters := [1], nextAfter := 2 }

theorem waitingSession_awaiting :
    Awaiting .failed waitingSession occInfo (waitingSession.freeSlot occInfo 1) where
  inProgress := rfl
  started := by decide
  next := ⟨1, rfl, rfl⟩

/-- A response with this status and two bytes of data. -/
def responseOf (status : UInt8) : Response := ⟨66, 0x3c, status, 0, 2, [7, 9], 0, 1⟩

/-- The status 194 arrives as 25. -/
theorem status_changed :
    openbmcProcess .failed occInfo.toItem (responseOf 194).reply waitingSession =
        .ok ((waitingSession.freeSlot occInfo 1).emit
          (.answered occInfo.toItem occInfo.toItem (some 25) [7, 9])) ∧
      ¬ Decodes .failed occInfo.toItem (responseOf 194) waitingSession occInfo
        (waitingSession.freeSlot occInfo 1) := by
  have hprocess := waitingSession_awaiting.process_response occInfo.toItem (responseOf 194)
  have hstatus : signed [statusByte (responseOf 194).status] = 25 := by decide +kernel
  rw [hstatus] at hprocess
  refine ⟨hprocess, ?_⟩
  rintro ⟨status, hvalue, hsame⟩
  rw [hprocess] at hsame
  have heffects := List.append_cancel_left (congrArg (fun r => r.state.effects) hsame)
  obtain rfl : 25 = status := by simpa using heffects
  exact absurd hvalue (by decide)

theorem status_zero_decodes :
    Decodes .failed occInfo.toItem (responseOf 0) waitingSession occInfo
        (waitingSession.freeSlot occInfo 1) ↔ (responseOf 0).status = 0 :=
  decodes_iff occInfo.toItem (responseOf 0) waitingSession_awaiting

end Amester.OpenBmc
