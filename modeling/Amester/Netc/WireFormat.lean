/-
# The wire format, written and read

A message is one header and one body, and the receiver's scan gives back what
the builder put in: the codes, the payload and the padding that the header
announces. The two checksums of an IPMI request each complete their range to
zero modulo 256, although one of them is summed over signed bytes. In the other
direction a response whose length field counts what follows it is decoded to
its completion status and its data, and these reach the callback.
-/

import Amester.Netc.Conservation

namespace Amester.Netc

open BinaryFormat

universe u

variable {κ : Type u}

/-! ## Messages -/

/-- The padding of a body: zeros up to sixteen bytes. -/
def padding (dataLength : ℕ) : Bytes := List.replicate (pads dataLength) 0

private theorem formatHex_of_length {count : ℕ} {digits : List Digit}
    (length : digits.length = count) :
    formatHex count digits = bytesOfDigits digits := by
  rw [formatHex, List.take_append_of_le_length length.ge, ← length, List.take_length]

private theorem scan_formatHex (count : ℕ) (digits : List Digit) (length : digits.length = count)
    (even : Even count) (fields : List Field) (remaining : Bytes) :
    scan (.hex count :: fields) (formatHex count digits ++ remaining) =
      .hex digits :: scan fields remaining := by
  rw [formatHex_of_length length, scan_hex_digits count digits length even]

private theorem formatHex_zero (n : ℕ) : formatHex (2 * n) [0] = List.replicate n 0 := by
  have hzeros : ([0] ++ List.replicate (2 * n) 0 : List Digit).take (2 * n) =
      List.replicate (2 * n) 0 := by
    change (0 :: List.replicate (2 * n) 0 : List Digit).take (2 * n) = _
    rw [← List.replicate_succ, List.take_replicate]
    congr 1
    omega
  rw [formatHex, hzeros, bytesOfDigits_replicate_zero]

/-- Both branches of the builder append the padding, which may be empty. -/
theorem createNetcMessage_eq (messageNum seq : ℤ) (function operation flag : List Digit)
    (data : Bytes) :
    createNetcMessage messageNum seq function operation flag data =
      netcHeader messageNum seq function operation flag data.length ++
        (data ++ padding data.length) := by
  unfold createNetcMessage
  split
  · rw [formatHex_zero, padding, List.append_assoc]
  · rename_i hnone
    have hpads : pads data.length = 0 := by omega
    rw [padding, hpads, List.replicate_zero, List.append_nil]

@[simp]
theorem length_formatHex (count : ℕ) (digits : List Digit) :
    (formatHex count digits).length = (count + 1) / 2 := by
  simp [formatHex]

private theorem length_createNetcMessage (messageNum seq : ℤ)
    (function operation flag : List Digit) (data : Bytes) :
    (createNetcMessage messageNum seq function operation flag data).length =
      24 + data.length + pads data.length := by
  rw [createNetcMessage_eq]
  simp [netcHeader, padding]
  omega

private theorem pads_le (dataLength : ℕ) : pads dataLength ≤ 16 := by
  unfold pads
  split <;> omega

private theorem le_length_padded (dataLength : ℕ) : 16 ≤ dataLength + pads dataLength := by
  unfold pads
  split <;> omega

/-- The receiver's scan of a message that was built. -/
theorem scanNetcPacket_createNetcMessage (messageNum seq : ℤ)
    {function operation flag : List Digit} (hfunction : function.length = 4)
    (hoperation : operation.length = 4) (hflag : flag.length = 2) {data : Bytes}
    (short : data.length < 2 ^ 30) :
    scanNetcPacket (createNetcMessage messageNum seq function operation flag data) =
      some
        { nceye := [13, 14, 12, 10, 15, 15]
          ncvers := [0, 0]
          nclen := (createNetcMessage messageNum seq function operation flag data).length
          nccaller := hexDigits (bigEndian 4 messageNum)
          ncfunc := function
          ncflags := flag
          ncpad := pads data.length
          ncseq := hexDigits (bigEndian 4 seq)
          ncop := operation
          ncstatus := [0, 0, 0, 0]
          ncdata := data ++ padding data.length } := by
  have hpads := pads_le data.length
  have hscan : scan netcLayout
      (createNetcMessage messageNum seq function operation flag data) =
      [.hex [13, 14, 12, 10, 15, 15], .hex [0, 0],
        .int (24 + data.length + pads data.length), .hex (hexDigits (bigEndian 4 messageNum)),
        .hex function, .hex flag, .int (pads data.length), .hex (hexDigits (bigEndian 4 seq)),
        .hex operation, .hex [0, 0, 0, 0], .bytes (data ++ padding data.length)] := by
    rw [createNetcMessage_eq, netcHeader, netcLayout]
    simp only [List.append_assoc]
    rw [scan_formatHex 6 _ rfl (by decide), scan_formatHex 2 _ rfl (by decide),
      scan_int 4 _ (by omega) (by omega), scan_hex_bytes 8 (bigEndian 4 messageNum) (by simp),
      scan_formatHex 4 function hfunction (by decide),
      scan_formatHex 2 flag hflag (by decide),
      scan_int 1 _ (by omega) (by omega), scan_hex_bytes 8 (bigEndian 4 seq) (by simp),
      scan_formatHex 4 operation hoperation (by decide), scan_formatHex 4 _ rfl (by decide),
      scan_rest]
  rw [scanNetcPacket, hscan, length_createNetcMessage]
  push_cast
  rfl

/-! ## IPMI requests -/

@[simp]
theorem length_ipmiPayload (rssa lun netfn cmd : Hex2) (data : Bytes) :
    (ipmiPayload rssa lun netfn cmd data).length = data.length + 7 := by
  simp [ipmiPayload, datastring]
  omega

@[simp]
theorem length_ipmiBody (rssa lun netfn cmd : Hex2) (data : Bytes) :
    (ipmiBody rssa lun netfn cmd data).length = data.length + 11 := by
  simp [ipmiBody]
  omega

theorem byteSum_bigEndian_one (n : ℤ) : byteSum (bigEndian 1 n) = n % 256 := by
  simp [bigEndian, byteOf_toNat]

/-- The byte of network function and LUN: the low bits of the integer that the source
computes from signed bytes. -/
theorem byteOf_netfnlun (netfn lun : Hex2) :
    byteOf (netfnlun netfn lun) = netfn.byte <<< 2 ||| lun.byte := by
  have hlor : netfnlun netfn lun % 2 ^ 8 =
      Int.lor ((netfn.byte.toNat * 4 : ℕ) : ℤ) ((lun.byte.toNat : ℕ) : ℤ) % 2 ^ 8 := by
    refine lor_emod 8 ?_ ?_
    · have hsigned := signed_emod [netfn.byte]
      simp [unsigned] at hsigned
      push_cast
      omega
    · have hsigned := signed_emod [lun.byte]
      simp [unsigned] at hsigned
      omega
  have hnat : Int.lor ((netfn.byte.toNat * 4 : ℕ) : ℤ) ((lun.byte.toNat : ℕ) : ℤ) =
      ((netfn.byte.toNat * 4 ||| lun.byte.toNat : ℕ) : ℤ) := rfl
  have hlow := byteOf_toNat (netfnlun netfn lun)
  rw [show (256 : ℤ) = 2 ^ 8 from rfl, hlor, hnat] at hlow
  have hbyte : (byteOf (netfnlun netfn lun)).toNat =
      (netfn.byte.toNat * 4 ||| lun.byte.toNat) % 2 ^ 8 := by
    exact_mod_cast hlow
  apply UInt8.toNat_inj.mp
  rw [hbyte, Nat.or_mod_two_pow]
  simp [Nat.shiftLeft_eq]

theorem bigEndian_one (n : ℤ) : bigEndian 1 n = [byteOf n] := by
  simp [bigEndian]

/-- The bytes of a request. -/
theorem ipmiPayload_eq (rssa lun netfn cmd : Hex2) (data : Bytes) :
    ipmiPayload rssa lun netfn cmd data =
      [rssa.byte, netfn.byte <<< 2 ||| lun.byte, byteOf (check1 rssa netfn lun)] ++
        ([0, 0, cmd.byte] ++ data ++ [byteOf (check2 cmd data)]) := by
  have hzero : byteOf 0 = 0 := by decide
  simp only [ipmiPayload, datastring, bigEndian_one, byteOf_netfnlun, hzero, List.cons_append,
    List.nil_append]

/-- The bytes of a body: two reserved bytes and the length go in front of the request. -/
theorem ipmiBody_eq (rssa lun netfn cmd : Hex2) (data : Bytes) :
    ipmiBody rssa lun netfn cmd data =
      [0, 0] ++ bigEndian 2 (data.length + 7) ++ ipmiPayload rssa lun netfn cmd data := by
  rw [ipmiBody, length_ipmiPayload]
  push_cast
  rfl

/-- The first two bytes and the first checksum. -/
theorem check1_sum (rssa lun netfn : Hex2) :
    byteSum [rssa.byte, netfn.byte <<< 2 ||| lun.byte, byteOf (check1 rssa netfn lun)] % 256 =
      0 := by
  rw [← byteOf_netfnlun]
  simp only [byteSum_cons, byteSum_nil, byteOf_toNat, Hex2.byte_toNat, check1]
  omega

/-- The other bytes and the second checksum. -/
theorem check2_sum (cmd : Hex2) (data : Bytes) :
    byteSum ([0, 0, cmd.byte] ++ data ++ [byteOf (check2 cmd data)]) % 256 = 0 := by
  have hsum : signedSum (datastring cmd data) % 256 = byteSum (datastring cmd data) % 256 :=
    signedSum_modEq (datastring cmd data)
  have hbytes : [0, 0, cmd.byte] ++ data = datastring cmd data := by
    rw [datastring, bigEndian_one]
    rfl
  rw [hbytes, byteSum_append, byteSum_cons, byteSum_nil, byteOf_toNat, check2]
  omega

theorem ipmiPayload_check1 (rssa lun netfn cmd : Hex2) (data : Bytes) :
    byteSum ((ipmiPayload rssa lun netfn cmd data).take 3) % 256 = 0 := by
  rw [ipmiPayload_eq]
  exact check1_sum rssa lun netfn

theorem ipmiPayload_check2 (rssa lun netfn cmd : Hex2) (data : Bytes) :
    byteSum ((ipmiPayload rssa lun netfn cmd data).drop 3) % 256 = 0 := by
  rw [ipmiPayload_eq]
  exact check2_sum cmd data

/-! ## IPMI responses -/

/-- An IPMI response: two reserved bytes, the length of what follows it, six
header bytes, the completion status, the data, a checksum, and whatever padding
the message carries. -/
structure IpmiResponse where
  reserved : ℤ
  head : Bytes
  status : UInt8
  databytes : Bytes
  check2 : UInt8
  padding : Bytes
  head_length : head.length = 6

/-- The value of the length field. -/
def IpmiResponse.len (r : IpmiResponse) : ℕ := 8 + r.databytes.length

def IpmiResponse.ncdata (r : IpmiResponse) : Bytes :=
  bigEndian 2 r.reserved ++ bigEndian 2 r.len ++ r.head ++ [r.status] ++ r.databytes ++
    [r.check2] ++ r.padding

/-- The receiver's scan of a response. -/
theorem scan_ncdata (r : IpmiResponse) (len : r.len ≤ 32767) :
    ∃ reserved rqaddr netfnlun check1 rsaddr rqseqlun cmd : ℤ,
      scan ipmiLayout r.ncdata =
        [.int reserved, .int r.len, .int rqaddr, .int netfnlun, .int check1, .int rsaddr,
          .int rqseqlun, .int cmd, .int (signed [r.status]),
          .bytes (r.databytes ++ ([r.check2] ++ r.padding))] := by
  obtain ⟨a, b, c, d, e, f, hhead⟩ : ∃ a b c d e f, r.head = [a, b, c, d, e, f] := by
    match r.head, r.head_length with
    | [a, b, c, d, e, f], _ => exact ⟨a, b, c, d, e, f, rfl⟩
  have hreserved : (Field.int 2).size (bigEndian 2 r.reserved ++ (bigEndian 2 r.len ++
      (r.head ++ ([r.status] ++ (r.databytes ++ ([r.check2] ++ r.padding)))))).length =
      (bigEndian 2 r.reserved).length := by
    simp [Field.size]
  refine ⟨signed (bigEndian 2 r.reserved), signed [a], signed [b], signed [c], signed [d],
    signed [e], signed [f], ?_⟩
  rw [ipmiLayout, IpmiResponse.ncdata]
  simp only [List.append_assoc]
  rw [scan_append _ _ hreserved, Field.convert, scan_int 2 _ (by omega) (by omega), hhead]
  simp only [List.cons_append, List.nil_append, scan_int_byte, scan_rest]

/-- Status and data come out as they went in; checksum and padding stay behind. -/
theorem decodeIpmi_ncdata (r : IpmiResponse) (len : r.len ≤ 32767) :
    decodeIpmi r.ncdata = .ok (some (signed [r.status]), r.databytes) := by
  obtain ⟨_, _, _, _, _, _, _, hscan⟩ := scan_ncdata r len
  have hcount : ((r.len : ℤ) - 8).toNat = r.databytes.length := by
    simp [IpmiResponse.len]
  simp only [decodeIpmi, hscan, List.getElem?_cons_succ, List.getElem?_cons_zero, hcount]
  split
  · simp [List.take_left']
  · rename_i hnone
    have hempty : r.databytes = [] := by
      have hlen : r.len = 8 + r.databytes.length := rfl
      exact List.eq_nil_of_length_eq_zero (by omega)
    rw [hempty]

/-! ## The callback -/

/-- A response that can be decoded reaches the callback. -/
theorem runCallback_of_decoded {item : Item κ} {callback : κ}
    (hcallback : item.callback = some callback) {ncdata databytes : Bytes}
    {status : Option ℤ} (decoded : decodeIpmi ncdata = .ok (status, databytes))
    (s : State κ) :
    runCallback item ncdata s = .ok (s.emit (.ranCallback item status databytes)) := by
  simp [runCallback, decoded, hcallback]

/-- In a session whose messages have timeouts a dequeue does not raise: each
message that is answered on the spot has a timer to cancel and a response that
can be decoded. -/
theorem ipmiDequeueFrom_error {accepted : List (Item κ)} (msgq : List (Item κ)) :
    ∀ s : State κ, Inv accepted s → s.ipmiMsgq = msgq →
      (ipmiDequeueFrom msgq s).error = none := by
  induction msgq with
  | nil => exact fun s h _ => rfl
  | cons item rest ih =>
      intro s h hmsgq
      unfold ipmiDequeueFrom
      split_ifs with hnetwork htags hstatus hlookup hfake
      · rfl
      · rfl
      · rfl
      · rfl
      · simp only [ne_eq, not_not] at htags hstatus
        obtain ⟨hbegin, htable, hrest, hfsp⟩ :=
          h.beginMessage hmsgq htags (h.connected hstatus)
        have hfree := hbegin.freeSlot htable hfsp s.nextAfter
        have hdecode : decodeIpmi fakeDeviceId = .ok (some 0, [0xe4]) := by decide +kernel
        simp only [processIpmiWith, hbegin.lookup htable,
          Outcome.andThen_of_ok (ih _ hfree hrest), runCallback, hdecode]
        split <;> rfl
      · rfl

/-- Handling a response: the slot is cleared, the next message sent, and then
the callback runs with the response's status and data. -/
theorem processIpmi_ncdata {s : State κ} {e : InProgress κ} {timer : ℕ} {callback : κ}
    (inprogress : lookupTag (s.inprogressQ.headD "") s.inprogress = some e)
    (after : e.after = some timer) (hcallback : e.callback = some callback)
    (r : IpmiResponse) (len : r.len ≤ 32767) :
    processIpmi r.ncdata s = (ipmiDequeue (s.freeSlot e timer)).andThen fun t =>
      .ok (t.emit (.ranCallback e.toItem (some (signed [r.status])) r.databytes)) := by
  have hrun : runCallback e.toItem r.ncdata = fun t =>
      .ok (t.emit (.ranCallback e.toItem (some (signed [r.status])) r.databytes)) :=
    funext fun t => runCallback_of_decoded hcallback (decodeIpmi_ncdata r len) t
  simp only [processIpmi, processIpmiWith, inprogress, after, hrun]

/-- In a session that has kept its invariant the dequeue in between returns, so
the callback does run. -/
theorem processIpmi_ranCallback {accepted : List (Item κ)} {s : State κ}
    (h : Inv accepted s) {e : InProgress κ} {callback : κ} (inprogress : s.inprogress = [e])
    (answer : s.fsp = []) (hcallback : e.callback = some callback) (r : IpmiResponse)
    (len : r.len ≤ 32767) :
    ∃ t : State κ, processIpmi r.ncdata s =
      .ok (t.emit (.ranCallback e.toItem (some (signed [r.status])) r.databytes)) := by
  have hmem : e ∈ s.inprogress := by simp [inprogress]
  obtain ⟨timer, htimer⟩ := Option.isSome_iff_exists.mp (h.timers e hmem)
  have hfree := h.freeSlot inprogress answer timer
  have hreturned : (ipmiDequeue (s.freeSlot e timer)).error = none :=
    ipmiDequeueFrom_error _ _ hfree rfl
  rw [processIpmi_ncdata (h.lookup inprogress) htimer hcallback r len,
    Outcome.andThen_of_ok hreturned]
  exact ⟨_, rfl⟩

/-- The request that went in, the codes and the padding, as the receiver scans them. -/
structure Scanned (message : Bytes) (rssa lun netfn cmd : Hex2) (data : Bytes)
    (sum1 sum2 : UInt8) (packet : NetcPacket) : Prop where
  scanned : scanNetcPacket message = some packet
  length : packet.nclen = message.length
  body_length : 16 ≤ packet.ncdata.length
  function : packet.ncfunc = [0, 0, 0, 5]
  flag : packet.ncflags = [0, 8]
  operation : packet.ncop = [9, 0, 14, 1]
  pad_nonneg : 0 ≤ packet.ncpad
  /-- Two reserved bytes, the length, the request with its two checksums, and zeros. -/
  body : packet.ncdata =
    ([0, 0] : Bytes) ++ bigEndian 2 (data.length + 7) ++
      ([rssa.byte, netfn.byte <<< 2 ||| lun.byte, sum1] ++ ([0, 0, cmd.byte] ++ data ++ [sum2])) ++
      List.replicate packet.ncpad.toNat 0

/-- A built request is scanned back to its codes and its padded body. -/
theorem netc20FormatIpmiPacket_scanned (messageNum seq : ℤ)
    (rssa chan lun netfn cmd : Hex2) {data : Bytes} (short : data.length < 32000) :
    ∃ packet, Scanned (netc20FormatIpmiPacket messageNum seq rssa chan lun netfn cmd data)
      rssa lun netfn cmd data (byteOf (check1 rssa netfn lun)) (byteOf (check2 cmd data))
      packet := by
  have hbody : (ipmiBody rssa lun netfn cmd data).length < 2 ^ 30 := by
    rw [length_ipmiBody]
    omega
  refine ⟨_, scanNetcPacket_createNetcMessage messageNum seq rfl rfl rfl hbody, rfl, ?_, rfl,
    rfl, rfl, Int.natCast_nonneg _, ?_⟩
  · rw [List.length_append, padding, List.length_replicate]
    exact le_length_padded _
  · rw [padding, Int.toNat_natCast, ipmiBody_eq, ipmiPayload_eq]

/-- The wire format in both directions. A built request has the announced
length, at least sixteen body bytes, the codes, and a body of the bytes that went
in, their length, two checksums that close their ranges and the padding. The
response to the message in progress is handed to its callback as its completion
status and its data: last, after the next message was sent, and always in a
session with its invariant. -/
theorem wire_format :
    (∀ (messageNum seq : ℤ) (rssa chan lun netfn cmd : Hex2) (data : Bytes),
      data.length < 32000 →
        ∃ sum1 sum2 packet,
          Scanned (netc20FormatIpmiPacket messageNum seq rssa chan lun netfn cmd data)
            rssa lun netfn cmd data sum1 sum2 packet ∧
          byteSum [rssa.byte, netfn.byte <<< 2 ||| lun.byte, sum1] % 256 = 0 ∧
          byteSum ([0, 0, cmd.byte] ++ data ++ [sum2]) % 256 = 0) ∧
      ∀ r : IpmiResponse, r.len ≤ 32767 → ∀ (s : State κ) (e : InProgress κ) (callback : κ),
        e.callback = some callback →
          (∀ timer, lookupTag (s.inprogressQ.headD "") s.inprogress = some e →
            e.after = some timer →
            processIpmi r.ncdata s = (ipmiDequeue (s.freeSlot e timer)).andThen fun t =>
              .ok (t.emit (.ranCallback e.toItem (some (signed [r.status])) r.databytes))) ∧
          ∀ accepted, Inv accepted s → s.inprogress = [e] → s.fsp = [] →
            ∃ t : State κ, processIpmi r.ncdata s =
              .ok (t.emit (.ranCallback e.toItem (some (signed [r.status])) r.databytes)) := by
  refine ⟨fun messageNum seq rssa chan lun netfn cmd data short => ?_,
    fun r len s e callback hcallback => ⟨fun timer inprogress after => ?_,
      fun accepted h inprogress answer => ?_⟩⟩
  · obtain ⟨packet, hscanned⟩ :=
      netc20FormatIpmiPacket_scanned messageNum seq rssa chan lun netfn cmd short
    exact ⟨_, _, packet, hscanned, check1_sum rssa lun netfn, check2_sum cmd data⟩
  · exact processIpmi_ncdata inprogress after hcallback r len
  · exact processIpmi_ranCallback h inprogress answer hcallback r len

/-- A message in progress. -/
def sampleEntry : InProgress ℕ :=
  { priority := 1, tag := "0", callback := some 5, timeout := 120000, rssa := ⟨2, 0⟩,
    chan := ⟨0, 0⟩, lun := ⟨0, 0⟩, netfn := ⟨3, 10⟩, cmd := ⟨3, 12⟩, data := [1, 2],
    after := some 1 }

/-- An answer with status 0xc1, one data byte and two bytes of padding. -/
def sampleResponse : IpmiResponse := ⟨0, [0, 0, 0, 0, 0, 0], 0xc1, [9], 0, [0, 0], rfl⟩

theorem wire_format_sample :
    (∃ sum1 sum2 packet,
      Scanned (netc20FormatIpmiPacket 1 77 ⟨2, 0⟩ ⟨0, 0⟩ ⟨0, 0⟩ ⟨3, 10⟩ ⟨3, 12⟩ [1, 2])
        ⟨2, 0⟩ ⟨0, 0⟩ ⟨3, 10⟩ ⟨3, 12⟩ [1, 2] sum1 sum2 packet ∧
      byteSum [0x20, 0xe8, sum1] % 256 = 0 ∧ byteSum [0, 0, 0x3c, 1, 2, sum2] % 256 = 0) ∧
      ∃ t : State ℕ, processIpmi sampleResponse.ncdata
          { inprogressQ := ["0"], inprogress := [sampleEntry], netcSock := 7 } =
        .ok (t.emit (.ranCallback sampleEntry.toItem (some (signed [0xc1])) [9])) := by
  obtain ⟨requests, responses⟩ := @wire_format ℕ
  have hinv : Inv [sampleEntry.toItem]
      { inprogressQ := ["0"], inprogress := [sampleEntry], netcSock := 7 } := by
    refine ⟨⟨List.Perm.refl _, Or.inr ⟨sampleEntry, rfl⟩, nofun, ?_, List.Pairwise.nil⟩, rfl,
      ?_, fun _ => by decide, Or.inl rfl, nofun⟩
    · intro e he
      obtain rfl := List.mem_singleton.mp he
      exact ⟨rfl, by decide⟩
    · intro e he
      obtain rfl := List.mem_singleton.mp he
      rfl
  exact ⟨requests 1 77 ⟨2, 0⟩ ⟨0, 0⟩ ⟨0, 0⟩ ⟨3, 10⟩ ⟨3, 12⟩ [1, 2] (by decide),
    (responses sampleResponse (by decide) _ sampleEntry 5 rfl).2 _ hinv rfl rfl⟩

end Amester.Netc
