/-
# How a request is addressed to an OCC

Discovery names an OCC by two hexadecimal digits, and the program carries this
name as the `lun` of every request to it. Each host type turns the name into
the routing field of what it sends in its own way: POWER8 over NETC puts it in
front of the data with `binary format c` and also into the byte of the network
function, openpower wraps the request in a pass-thru command with
`binary format H2`, and openbmc puts it into a URL with `format %d`.

Hexadecimal digits are no integer syntax: `format %d` and `binary format c` take
"08" for a malformed octal number and "10" for ten.
-/

import Amester.Netc.WireFormat
import Amester.OpenBmc.Session

namespace Amester.Routing

open BinaryFormat OpenBmc Netc

universe u

variable {κ : Type u}

/-! ## What is sent -/

/-- What leaves the program: a message on the NETC connection, the bytes of the
tool's `raw` command, or a post to the URL of an OCC. -/
inductive Wire
  | netc (message : Bytes)
  | raw (legacyMode : Bool) (command : Bytes)
  | post (occNum : ℕ) (body : List ℕ)
  deriving DecidableEq, Repr

/-- The routing field as the receiver reads it. A host in legacy mode has one
OCC and no routing field. -/
def Wire.routing : Wire → Option ℤ
  | .netc message => message[34]?.map fun b => (b.toNat : ℤ)
  | .raw true _ => none
  | .raw false command => command[2]?.map fun b => (b.toNat : ℤ)
  | .post occNum _ => some (occNum : ℤ)

/-- The network function as the receiver reads it; a post carries none. -/
def Wire.netfn : Wire → Option ℤ
  | .netc message => message[29]?.map fun b => (b.toNat : ℤ) / 4
  | .raw _ command => command[0]?.map fun b => (b.toNat : ℤ)
  | .post _ _ => none

/-! ## The send paths -/

/-- The host types, with the system type P8 for netc. The methods of openbmc2
are those of openbmc under other names. -/
inductive Path
  | netc
  | openpower (legacyMode : Bool)
  | openbmc
  | openbmc2
  deriving DecidableEq, Repr

/-- `ipmi_send` of a P8 host: `binary format ca* $lun $data`, where `c` reads its
argument the way `format %d` does. -/
def netcRequest (r : Request κ) : Option (Request κ) :=
  (formatD r.lun).map fun occ => { r with data := bigEndian 1 occ ++ r.data }

/-- `netc2.0_send`; nothing is sent for a get-device-identifier request. -/
def netc20Send (messageNum seq : ℤ) (item : Item κ) : Option Wire :=
  let outmsg :=
    netc20FormatIpmiPacket messageNum seq item.rssa item.chan item.lun item.netfn item.cmd
      item.data
  if item.netfn.eqDigit 6 && item.cmd.eqDigit 1 then none else some (.netc outmsg)

/-- `ipmi_send` of an openpower host: the request becomes the data of a pass-thru
command. -/
def openpowerRequest (legacyMode : Bool) (r : Request κ) : Request κ :=
  { r with
    netfn := ⟨3, 10⟩
    cmd := ⟨0, 13⟩
    data :=
      if legacyMode then [0x41, r.cmd.byte, 0x00] ++ r.data
      else [r.lun.byte, 0x41, r.cmd.byte, 0x00] ++ r.data }

/-- `doipmi`: the words of the tool's `raw` command, as bytes. -/
def doipmiCommand (legacyMode : Bool) (item : Item κ) : Wire :=
  .raw legacyMode ([item.netfn.byte, item.cmd.byte] ++ item.data)

/-- `openbmc_send`: `none` when the answer is made up. -/
def openbmcSend (item : Item κ) : Except String (Option Wire) :=
  if fakesDeviceId item then .ok none
  else
    match formatD item.lun with
    | none => .error "expected integer"
    | some occNum => .ok (some (.post occNum (pssThruData item)))

/-- The method of `openbmc2`. -/
def openbmc2Send : Item κ → Except String (Option Wire) := openbmcSend

/-- What the object's own state adds to a request on its way out. -/
structure Session where
  tag : String
  timeout : ℤ
  messageNum : ℤ
  seq : ℤ

/-- What comes of a request: it raises, nothing is sent, or something is. -/
def transmit (path : Path) (s : Session) (r : Request κ) : Except String (Option Wire) :=
  match path with
  | .netc =>
    match netcRequest r with
    | none => .error "expected integer"
    | some r => .ok (netc20Send s.messageNum s.seq (r.item s.tag s.timeout))
  | .openpower legacyMode =>
    .ok (some (doipmiCommand legacyMode
      ((openpowerRequest legacyMode r).item s.tag s.timeout)))
  | .openbmc => openbmcSend (r.item s.tag s.timeout)
  | .openbmc2 => openbmc2Send (r.item s.tag s.timeout)

/-- The openbmc session posts what `openbmcSend` makes of the message. -/
theorem openbmcSendWith_posted {dequeue : OpenBmc.State κ → Outcome (OpenBmc.State κ)}
    {item : Item κ} {occNum : ℕ} {body : List ℕ}
    (posted : openbmcSend item = .ok (some (.post occNum body))) (token : ℕ)
    (s : OpenBmc.State κ) :
    ∃ t : OpenBmc.State κ, openbmcSendWith dequeue (.started token) item s = .ok t ∧
      t.effects = s.effects ++ [.posted occNum body item] := by
  unfold openbmcSend at posted
  unfold openbmcSendWith
  cases hfake : fakesDeviceId item with
  | true => simp [hfake] at posted
  | false =>
      cases hlun : formatD item.lun with
      | none => simp [hfake, hlun] at posted
      | some n =>
          simp only [hfake, hlun, Except.ok.injEq, Option.some.injEq, Wire.post.injEq,
            Bool.false_eq_true, if_false] at posted
          obtain ⟨rfl, rfl⟩ := posted
          exact ⟨_, rfl, rfl⟩

/-! ## The property -/

/-- A request reaches its OCC: nothing raises, the routing field carries the
value of the OCC's number, and the network function, where the message has one,
is the one asked for. -/
def Routed (path : Path) (s : Session) (r : Request κ) : Prop :=
  ∃ wire, transmit path s r = .ok (some wire) ∧ wire.routing = some r.lun.value ∧
    ∀ netfn ∈ wire.netfn, netfn = r.netfn.value

/-- A number that decimal, octal and hexadecimal readers agree on. -/
def SmallOcc (lun : Hex2) : Prop := lun.hi = 0 ∧ lun.lo.val ≤ 7

/-- The request is one that the host itself answers. -/
def GetsDeviceId (r : Request κ) : Prop := r.netfn = ⟨0, 6⟩ ∧ r.cmd = ⟨0, 1⟩

/-- When a request reaches its OCC. Over NETC the network function has six bits
and an OCC number of 4 to 7 sets the lowest of them. -/
def Routable (path : Path) (r : Request κ) : Prop :=
  match path with
  | .netc =>
    SmallOcc r.lun ∧ ¬GetsDeviceId r ∧ r.netfn.hi.val ≤ 3 ∧
      (r.lun.lo.val ≤ 3 ∨ r.netfn.lo.val % 2 = 1)
  | .openpower legacyMode => legacyMode = false ∧ r.netfn = ⟨3, 10⟩
  | .openbmc | .openbmc2 => SmallOcc r.lun ∧ ¬GetsDeviceId r

instance (lun : Hex2) : Decidable (SmallOcc lun) := inferInstanceAs (Decidable (_ ∧ _))

/-! ## The numbers -/

theorem Hex2.ext_value {h h' : Hex2} (value : h.value = h'.value) : h = h' := by
  obtain ⟨hi, lo⟩ := h
  obtain ⟨hi', lo'⟩ := h'
  simp only [Hex2.value] at value
  have hhi : hi.val = hi'.val := by omega
  have hlo : lo.val = lo'.val := by omega
  rw [Fin.ext hhi, Fin.ext hlo]

/-- `format %d` gives the value of a number just for the small ones. -/
theorem formatD_value_iff (lun : Hex2) :
    (∃ occ : ℕ, formatD lun = some occ ∧ (occ : ℤ) = lun.value) ↔ SmallOcc lun := by
  obtain ⟨hi, lo⟩ := lun
  simp only [formatD, SmallOcc, Hex2.value]
  by_cases hhi : hi = 0
  · by_cases hlo : lo.val ≤ 7
    · simp [hhi, hlo]
    · simp [hhi, hlo]
  · have hpos : hi.val ≠ 0 := fun h => hhi (Fin.ext h)
    rw [if_neg hhi]
    split_ifs with hdigits
    · simp only [Option.some.injEq, exists_eq_left', hhi, false_and, iff_false]
      push_cast
      omega
    · simp [hhi]

theorem formatD_le {lun : Hex2} {occ : ℕ} (h : formatD lun = some occ) : occ ≤ 99 := by
  unfold formatD at h
  split_ifs at h with hhi hlo hdigits
  · simp only [Option.some.injEq] at h
    omega
  · simp only [Option.some.injEq] at h
    omega

theorem fakesDeviceId_iff (r : Request κ) (tag : String) (timeout : ℤ) :
    fakesDeviceId (r.item tag timeout) = true ↔ GetsDeviceId r := by
  simp only [fakesDeviceId, Bool.and_eq_true, Hex2.eqDigit_iff, Request.item, GetsDeviceId]

/-- The byte with the network function and a small OCC number still carries the
function just when the number leaves it alone. -/
theorem netfnlun_netfn_iff (netfn lun : Hex2) (small : SmallOcc lun) :
    ((byteOf (netfnlun netfn lun)).toNat : ℤ) / 4 = netfn.value ↔
      netfn.hi.val ≤ 3 ∧ (lun.lo.val ≤ 3 ∨ netfn.lo.val % 2 = 1) := by
  obtain ⟨hi, lo⟩ := lun
  obtain ⟨nhi, nlo⟩ := netfn
  obtain ⟨hhi, hlo⟩ := small
  simp only at hhi hlo
  subst hhi
  revert lo nhi nlo
  decide +kernel

/-! ## The bytes of a NETC message -/

theorem length_netcHeader (messageNum seq : ℤ) (function operation flag : List Digit)
    (dataLength : ℕ) :
    (netcHeader messageNum seq function operation flag dataLength).length = 24 := by
  simp [netcHeader, length_formatHex]

/-- A byte of the body, counted from the header on. -/
theorem createNetcMessage_getElem? (messageNum seq : ℤ) (function operation flag : List Digit)
    {data : Bytes} {i : ℕ} (bound : i < data.length) :
    (createNetcMessage messageNum seq function operation flag data)[24 + i]? = data[i]? := by
  have hheader := length_netcHeader messageNum seq function operation flag data.length
  unfold createNetcMessage
  split_ifs with hpads
  · rw [List.append_assoc, List.getElem?_append_right (by omega), hheader,
      Nat.add_sub_cancel_left, List.getElem?_append_left bound]
  · rw [List.getElem?_append_right (by omega), hheader, Nat.add_sub_cancel_left]

theorem bigEndian_one (n : ℤ) : bigEndian 1 n = [byteOf n] := by
  simp [bigEndian]

/-- The bytes of a body that address the request. -/
theorem ipmiBody_address (rssa lun netfn cmd : Hex2) (occ : ℤ) (data : Bytes) :
    (ipmiBody rssa lun netfn cmd (bigEndian 1 occ ++ data))[5]? =
        some (byteOf (netfnlun netfn lun)) ∧
      (ipmiBody rssa lun netfn cmd (bigEndian 1 occ ++ data))[10]? = some (byteOf occ) := by
  have hreserved : formatHex 4 [0, 0, 0, 0] = [0, 0] := by decide
  have hlength : ∀ n : ℤ, bigEndian 2 n = [byteOf (n / 256), byteOf n] := by
    intro n
    simp [bigEndian]
  simp only [ipmiBody, ipmiPayload, datastring, hreserved, hlength, bigEndian_one]
  exact ⟨rfl, rfl⟩

/-- Where the message of a P8 host carries the OCC and the network function. -/
theorem netcMessage_address (messageNum seq : ℤ) (rssa chan lun netfn cmd : Hex2) (occ : ℤ)
    (data : Bytes) :
    (Wire.netc (netc20FormatIpmiPacket messageNum seq rssa chan lun netfn cmd
        (bigEndian 1 occ ++ data))).routing = some (occ % 256) ∧
      (Wire.netc (netc20FormatIpmiPacket messageNum seq rssa chan lun netfn cmd
        (bigEndian 1 occ ++ data))).netfn =
          some (((byteOf (netfnlun netfn lun)).toNat : ℤ) / 4) := by
  obtain ⟨hfunction, hrouting⟩ := ipmiBody_address rssa lun netfn cmd occ data
  have hlength : 11 ≤ (ipmiBody rssa lun netfn cmd (bigEndian 1 occ ++ data)).length := by
    rw [length_ipmiBody, List.length_append, length_bigEndian]
    omega
  constructor
  · rw [Wire.routing, netc20FormatIpmiPacket,
      createNetcMessage_getElem? messageNum seq _ _ _ (i := 10) (by omega), hrouting,
      Option.map_some, byteOf_toNat]
  · rw [Wire.netfn, netc20FormatIpmiPacket,
      createNetcMessage_getElem? messageNum seq _ _ _ (i := 5) (by omega), hfunction,
      Option.map_some]

/-! ## The paths -/

theorem netc_routed_iff (s : Session) (r : Request κ) :
    Routed .netc s r ↔ Routable .netc r := by
  have hvalue := formatD_value_iff r.lun
  cases hformat : formatD r.lun with
  | none =>
      -- the number is no integer, so the request raises
      have hlarge : ¬SmallOcc r.lun := by
        rintro hsmall
        obtain ⟨occ, hocc, -⟩ := hvalue.mpr hsmall
        simp [hformat] at hocc
      have hraises : transmit .netc s r = .error "expected integer" := by
        simp [transmit, netcRequest, hformat]
      constructor
      · rintro ⟨wire, hsent, -⟩
        rw [hraises] at hsent
        cases hsent
      · rintro ⟨hsmall, -⟩
        exact absurd hsmall hlarge
  | some occ =>
      have hfakes := fakesDeviceId_iff r s.tag s.timeout
      have hsends : transmit .netc s r =
          .ok (if fakesDeviceId (r.item s.tag s.timeout) then none
            else some (.netc (netc20FormatIpmiPacket s.messageNum s.seq r.rssa r.chan r.lun
              r.netfn r.cmd (bigEndian 1 occ ++ r.data)))) := by
        simp only [transmit, netcRequest, hformat]
        rfl
      obtain ⟨hrouting, hnetfn⟩ := netcMessage_address s.messageNum s.seq r.rssa r.chan r.lun
        r.netfn r.cmd occ r.data
      have hocc : (occ : ℤ) % 256 = occ := by
        have hle := formatD_le hformat
        omega
      rw [hocc] at hrouting
      by_cases hdevice : GetsDeviceId r
      · rw [if_pos (hfakes.mpr hdevice)] at hsends
        constructor
        · rintro ⟨wire, hsent, -⟩
          rw [hsends] at hsent
          cases hsent
        · rintro ⟨-, hother, -⟩
          exact absurd hdevice hother
      · rw [if_neg (mt hfakes.mp hdevice)] at hsends
        constructor
        · rintro ⟨wire, hsent, hvalueOf, hfunction⟩
          rw [hsends] at hsent
          cases hsent
          rw [hrouting] at hvalueOf
          have hsmall : SmallOcc r.lun :=
            hvalue.mp ⟨occ, hformat, Option.some.inj hvalueOf⟩
          have hkept := (netfnlun_netfn_iff r.netfn r.lun hsmall).mp
            (hfunction _ (by rw [hnetfn]; rfl))
          exact ⟨hsmall, hdevice, hkept⟩
        · rintro ⟨hsmall, -, hkept⟩
          obtain ⟨occ', hformat', hoccvalue⟩ := hvalue.mpr hsmall
          rw [hformat, Option.some.injEq] at hformat'
          subst hformat'
          refine ⟨_, hsends, by rw [hrouting, hoccvalue], ?_⟩
          intro netfn hmem
          rw [hnetfn, Option.mem_some_iff] at hmem
          rw [← hmem]
          exact (netfnlun_netfn_iff r.netfn r.lun hsmall).mpr hkept

theorem openpower_routed_iff (legacyMode : Bool) (s : Session) (r : Request κ) :
    Routed (.openpower legacyMode) s r ↔ Routable (.openpower legacyMode) r := by
  cases legacyMode with
  | true =>
      constructor
      · rintro ⟨wire, hsent, hrouting, -⟩
        cases hsent
        cases hrouting
      · rintro ⟨hlegacy, -⟩
        cases hlegacy
  | false =>
      have hfunction : ((Hex2.byte ⟨3, 10⟩).toNat : ℤ) = (⟨3, 10⟩ : Hex2).value :=
        Hex2.byte_toNat _
      constructor
      · rintro ⟨wire, hsent, -, hnetfn⟩
        cases hsent
        have hvalue : ((Hex2.byte ⟨3, 10⟩).toNat : ℤ) = r.netfn.value := hnetfn _ rfl
        rw [hfunction] at hvalue
        exact ⟨rfl, (Hex2.ext_value hvalue).symm⟩
      · rintro ⟨-, hnetfn⟩
        refine ⟨_, rfl, ?_, ?_⟩
        · show some ((r.lun.byte.toNat : ℤ)) = some r.lun.value
          rw [Hex2.byte_toNat]
        · intro netfn hmem
          cases hmem
          rw [hnetfn]
          exact hfunction

theorem openbmc_routed_iff (s : Session) (r : Request κ) :
    Routed .openbmc s r ↔ SmallOcc r.lun ∧ ¬GetsDeviceId r := by
  have hfakes := fakesDeviceId_iff r s.tag s.timeout
  have hvalue := formatD_value_iff r.lun
  by_cases hdevice : GetsDeviceId r
  · have hsends : transmit .openbmc s r = .ok none := by
      simp only [transmit, openbmcSend, hfakes.mpr hdevice, if_true]
    constructor
    · rintro ⟨wire, hsent, -⟩
      rw [hsends] at hsent
      cases hsent
    · rintro ⟨-, hother⟩
      exact absurd hdevice hother
  · have hsends : transmit .openbmc s r =
        match formatD r.lun with
        | none => .error "expected integer"
        | some occNum => .ok (some (.post occNum (pssThruData (r.item s.tag s.timeout)))) := by
      rw [transmit, openbmcSend, if_neg (mt hfakes.mp hdevice)]
      rfl
    constructor
    · rintro ⟨wire, hsent, hrouting, -⟩
      rw [hsends] at hsent
      cases hformat : formatD r.lun with
      | none => simp [hformat] at hsent
      | some occNum =>
          simp only [hformat, Except.ok.injEq, Option.some.injEq] at hsent
          subst hsent
          exact ⟨hvalue.mp ⟨occNum, hformat, Option.some.inj hrouting⟩, hdevice⟩
    · rintro ⟨hsmall, -⟩
      obtain ⟨occNum, hformat, hocc⟩ := hvalue.mpr hsmall
      rw [hformat] at hsends
      refine ⟨_, hsends, congrArg some hocc, ?_⟩
      intro netfn hmem
      cases hmem

/-- A request reaches its OCC, with its network function, just when the condition
of its path holds; and requests that do are told apart by their routing fields
when they are for different OCCs. -/
theorem occ_routed_iff :
    (∀ (path : Path) (s : Session) (r : Request κ), Routed path s r ↔ Routable path r) ∧
      ∀ (path : Path) (s s' : Session) (r r' : Request κ) (wire wire' : Wire),
        Routable path r → Routable path r' → r.lun ≠ r'.lun →
          transmit path s r = .ok (some wire) → transmit path s' r' = .ok (some wire') →
            wire.routing ≠ wire'.routing := by
  have hrouted : ∀ (path : Path) (s : Session) (r : Request κ),
      Routed path s r ↔ Routable path r := by
    intro path s r
    cases path with
    | netc => exact netc_routed_iff s r
    | openpower legacyMode => exact openpower_routed_iff legacyMode s r
    | openbmc => exact openbmc_routed_iff s r
    | openbmc2 => exact openbmc_routed_iff s r
  refine ⟨hrouted, ?_⟩
  intro path s s' r r' wire wire' hroutable hroutable' hdifferent hsent hsent' hsame
  obtain ⟨sent, heq, hrouting, -⟩ := (hrouted path s r).mpr hroutable
  obtain ⟨sent', heq', hrouting', -⟩ := (hrouted path s' r').mpr hroutable'
  rw [hsent, Except.ok.injEq, Option.some.injEq] at heq
  rw [hsent', Except.ok.injEq, Option.some.injEq] at heq'
  subst heq heq'
  rw [hrouting, hrouting', Option.some.injEq] at hsame
  exact hdifferent (Hex2.ext_value hsame)

/-! ## Numbers that are not small -/

/-- A version request to an OCC. -/
def versionRequest (lun : Hex2) : Request ℕ where
  rssa := ⟨2, 0⟩
  chan := ⟨0, 0⟩
  lun := lun
  netfn := ⟨3, 10⟩
  cmd := ⟨3, 12⟩
  data := [0x1c]

/-- The state of a session on its way to the first request. -/
def sampleSession : Session := ⟨"0", 120000, 1, 7⟩

theorem occ_routed_sample :
    ∃ wire wire' : Wire,
      transmit .netc sampleSession (versionRequest ⟨0, 2⟩) = .ok (some wire) ∧
        transmit .netc sampleSession (versionRequest ⟨0, 3⟩) = .ok (some wire') ∧
          wire.routing ≠ wire'.routing := by
  have hother : ∀ lun, ¬GetsDeviceId (versionRequest lun) := by
    rintro lun ⟨hnetfn, -⟩
    have hcode : (⟨3, 10⟩ : Hex2) = ⟨0, 6⟩ := hnetfn
    exact absurd hcode (by decide)
  refine ⟨_, _, rfl, rfl, ?_⟩
  exact occ_routed_iff.2 .netc sampleSession sampleSession (versionRequest ⟨0, 2⟩)
    (versionRequest ⟨0, 3⟩) _ _
    ⟨by decide, hother _, by decide, by decide⟩ ⟨by decide, hother _, by decide, by decide⟩
    (by decide) rfl rfl

/-- OCC 08 raises on POWER8, openbmc takes OCC 10 for number ten, and on POWER8
OCC 04 turns network function 3a into 3b. -/
theorem occ_not_routed :
    (¬Routed .netc sampleSession (versionRequest ⟨0, 8⟩) ∧
        transmit .netc sampleSession (versionRequest ⟨0, 8⟩) = .error "expected integer") ∧
      (¬Routed .openbmc sampleSession (versionRequest ⟨1, 0⟩) ∧
        ∃ body, transmit .openbmc sampleSession (versionRequest ⟨1, 0⟩) =
          .ok (some (.post 10 body))) ∧
      ¬Routed .netc sampleSession (versionRequest ⟨0, 4⟩) ∧
        ∃ message, transmit .netc sampleSession (versionRequest ⟨0, 4⟩) =
          .ok (some (.netc message)) ∧ (Wire.netc message).netfn = some 0x3b := by
  refine ⟨⟨?_, rfl⟩, ⟨?_, _, rfl⟩, ?_, _, rfl, ?_⟩
  · rw [netc_routed_iff]
    rintro ⟨hsmall, -⟩
    exact absurd hsmall (by decide)
  · rw [openbmc_routed_iff]
    rintro ⟨hsmall, -⟩
    exact absurd hsmall (by decide)
  · rw [netc_routed_iff]
    rintro ⟨-, -, -, hbits⟩
    exact absurd hbits (by decide)
  · decide +kernel

end Amester.Routing
