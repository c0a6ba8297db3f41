/-
# Partitions of a POWER7 machine

The firmware keeps a table of core groups, the partitions. A record of the table is
read into a partition object and written from it. Two firmware levels, 740Q and 760,
lay out the same head and differ behind it, so the code has two classes; here they
are one definition with what differs as a parameter.

In front of the two classes' definitions are the readers of the parts they share, and
behind them the records as they stand in the table.
-/

import Amester.Lib.ByteReader

namespace Amester.Partition

open BinaryFormat BinaryFormat.Reader

/-! ## Partition objects -/

/-- The fields of a partition in front of its `dps_t` structure. -/
structure Head where
  phypFmin : ℤ
  phypFmax : ℤ
  phypFtarget : ℤ
  esPolicy : ℤ
  ncores : ℤ
  corelist : List ℤ
  coreListValid : List ℤ
  id : ℤ
  valid : ℤ
  perfmode : ℤ
  pad1 : ℤ
  deriving DecidableEq

/-- The fields of `dps_t` that both classes have in front. -/
structure Dps where
  fmaxScaleFactor : ℤ
  freqRequest : ℤ
  utilSpeedRequest : ℤ
  pfloorSpeedRequest : ℤ
  dipsSpeedRequest : ℤ
  thutil : ℤ
  tlutil : ℤ
  pfval : ℤ
  stepUp : ℤ
  stepDown : ℤ
  sampleCountUtil : ℤ
  epsilonPerc : ℤ
  alphaUp : ℤ
  alphaDown : ℤ
  utilSensorSel : ℤ
  type : ℤ
  deriving DecidableEq

/-- What is behind the head in a `partition_740Q`. -/
structure Tail740Q extends Dps where
  softBoundaries : ℤ
  paddps : List ℤ
  deriving DecidableEq

/-- What is behind the head in a `partition_760`. -/
structure Tail760 extends Dps where
  thdUtilScale : ℤ
  softBoundaries : ℤ
  paddps : List ℤ
  followSysmode : ℤ
  pad2 : List ℤ
  deriving DecidableEq

/-- A partition with one of the two tails. -/
structure Object (D : Type) where
  head : Head
  tail : D
  deriving DecidableEq

/-- `SSSccc${core_count}cccc`. All but the list of cores and the pad byte are made
unsigned. -/
def scanHead (coreCount : ℕ) : Reader Head := do
  let phypFmin ← int 2
  let phypFmax ← int 2
  let phypFtarget ← int 2
  let esPolicy ← int 1
  let ncores ← int 1
  let corelist ← ints 1 coreCount
  let id ← int 1
  let valid ← int 1
  let perfmode ← int 1
  let pad1 ← int 1
  pure {
    phypFmin := phypFmin % 2 ^ 16
    phypFmax := phypFmax % 2 ^ 16
    phypFtarget := phypFtarget % 2 ^ 16
    esPolicy := esPolicy % 2 ^ 8
    ncores := ncores % 2 ^ 8
    corelist := corelist
    coreListValid := corelist.take (ncores % 2 ^ 8).toNat
    id := id % 2 ^ 8
    valid := valid % 2 ^ 8
    perfmode := perfmode % 2 ^ 8
    pad1 := pad1 }

/-- `ISSSSSSSSSSSSScc`. -/
def scanDps : Reader Dps := do
  let fmaxScaleFactor ← int 4
  let freqRequest ← int 2
  let utilSpeedRequest ← int 2
  let pfloorSpeedRequest ← int 2
  let dipsSpeedRequest ← int 2
  let thutil ← int 2
  let tlutil ← int 2
  let pfval ← int 2
  let stepUp ← int 2
  let stepDown ← int 2
  let sampleCountUtil ← int 2
  let epsilonPerc ← int 2
  let alphaUp ← int 2
  let alphaDown ← int 2
  let utilSensorSel ← int 1
  let type ← int 1
  pure {
    fmaxScaleFactor := fmaxScaleFactor % 2 ^ 32
    freqRequest := freqRequest % 2 ^ 16
    utilSpeedRequest := utilSpeedRequest % 2 ^ 16
    pfloorSpeedRequest := pfloorSpeedRequest % 2 ^ 16
    dipsSpeedRequest := dipsSpeedRequest % 2 ^ 16
    thutil := thutil % 2 ^ 16
    tlutil := tlutil % 2 ^ 16
    pfval := pfval % 2 ^ 16
    stepUp := stepUp % 2 ^ 16
    stepDown := stepDown % 2 ^ 16
    sampleCountUtil := sampleCountUtil % 2 ^ 16
    epsilonPerc := epsilonPerc % 2 ^ 16
    alphaUp := alphaUp % 2 ^ 16
    alphaDown := alphaDown % 2 ^ 16
    utilSensorSel := utilSensorSel % 2 ^ 8
    type := type % 2 ^ 8 }

def scanTail740Q : Reader Tail740Q :=
  within 36 do
    let dps ← scanDps
    let softBoundaries ← int 1
    let paddps ← ints 1 3
    pure { dps with softBoundaries := softBoundaries % 2 ^ 8, paddps := paddps }

/-- The `dps_t` of a `partition_760`; `follow_sysmode` and the second pad follow it. -/
def scanDps760 : Reader (ℤ → List ℤ → Tail760) :=
  within 36 do
    let dps ← scanDps
    let thdUtilScale ← int 1
    let softBoundaries ← int 1
    let paddps ← ints 1 2
    pure fun followSysmode pad2 =>
      { dps with
        thdUtilScale := thdUtilScale % 2 ^ 8
        softBoundaries := softBoundaries % 2 ^ 8
        paddps := paddps
        followSysmode := followSysmode
        pad2 := pad2 }

def scanTail760 : Reader Tail760 := do
  let dpsT ← scanDps760
  let followSysmode ← int 1
  let pad2 ← ints 1 3
  pure (dpsT followSysmode pad2)

/-- Format the first integers of a list as single bytes; too short a list raises. -/
def formatBytes (count : ℕ) (ns : List ℤ) : Option Bytes :=
  if ns.length < count then none else some ((ns.take count).flatMap (bigEndian 1))

/-- The list of cores is filled up with the number of cores, which is the number of
no core. -/
def fillCorelist (coreCount : ℕ) (coreListValid : List ℤ) : List ℤ :=
  coreListValid ++ List.replicate (coreCount - coreListValid.length) (coreCount : ℤ)

def formatHead (coreCount : ℕ) (head : Head) : Bytes :=
  bigEndian 2 head.phypFmin ++ bigEndian 2 head.phypFmax ++ bigEndian 2 head.phypFtarget ++
    bigEndian 1 head.esPolicy ++ bigEndian 1 head.coreListValid.length ++
    ((fillCorelist coreCount head.coreListValid).take coreCount).flatMap (bigEndian 1) ++
    bigEndian 1 head.id ++ bigEndian 1 head.valid ++ bigEndian 1 head.perfmode ++
    bigEndian 1 head.pad1

def formatDps (dps : Dps) : Bytes :=
  bigEndian 4 dps.fmaxScaleFactor ++ bigEndian 2 dps.freqRequest ++
    bigEndian 2 dps.utilSpeedRequest ++ bigEndian 2 dps.pfloorSpeedRequest ++
    bigEndian 2 dps.dipsSpeedRequest ++ bigEndian 2 dps.thutil ++ bigEndian 2 dps.tlutil ++
    bigEndian 2 dps.pfval ++ bigEndian 2 dps.stepUp ++ bigEndian 2 dps.stepDown ++
    bigEndian 2 dps.sampleCountUtil ++ bigEndian 2 dps.epsilonPerc ++
    bigEndian 2 dps.alphaUp ++ bigEndian 2 dps.alphaDown ++ bigEndian 1 dps.utilSensorSel ++
    bigEndian 1 dps.type

def formatTail740Q (tail : Tail740Q) : Option Bytes := do
  let paddps ← formatBytes 3 tail.paddps
  pure (formatDps tail.toDps ++ bigEndian 1 tail.softBoundaries ++ paddps)

def formatTail760 (tail : Tail760) : Option Bytes := do
  let paddps ← formatBytes 2 tail.paddps
  let pad2 ← formatBytes 3 tail.pad2
  pure (formatDps tail.toDps ++ bigEndian 1 tail.thdUtilScale ++
    bigEndian 1 tail.softBoundaries ++ paddps ++ bigEndian 1 tail.followSysmode ++ pad2)

/-- What the two classes do differently. -/
structure PartitionClass (D : Type) where
  /-- What the object keeps as its pad byte, from `perfmode` and the byte it has read. -/
  pad1 : ℤ → ℤ → ℤ
  scanTail : Reader D
  formatTail : D → Option Bytes

/-- The pad byte is kept. -/
def partition740Q : PartitionClass Tail740Q where
  pad1 _ pad1 := pad1
  scanTail := scanTail740Q
  formatTail := formatTail740Q

/-- The pad byte is set from `perfmode`. -/
def partition760 : PartitionClass Tail760 where
  pad1 perfmode _ := perfmode % 2 ^ 8
  scanTail := scanTail760
  formatTail := formatTail760

/-- Read a record. One that is cut off raises. -/
def setBytes {D : Type} (cls : PartitionClass D) (coreCount : ℕ) : Reader (Object D) := do
  let head ← scanHead coreCount
  let tail ← cls.scanTail
  pure ⟨{ head with pad1 := cls.pad1 head.perfmode head.pad1 }, tail⟩

/-- Write a record. -/
def getBytes {D : Type} (cls : PartitionClass D) (coreCount : ℕ) (partition : Object D) :
    Option Bytes := do
  let tail ← cls.formatTail partition.tail
  pure (formatHead coreCount partition.head ++ tail)

/-! ## Records of the table -/

def u16 (x : UInt16) : Bytes := bigEndian 2 x.toNat

def u32 (x : UInt32) : Bytes := bigEndian 4 x.toNat

@[simp]
theorem length_u16 (x : UInt16) : (u16 x).length = 2 := length_bigEndian 2 _

@[simp]
theorem length_u32 (x : UInt32) : (u32 x).length = 4 := length_bigEndian 4 _

/-- The head of a record. -/
structure RecordHead (coreCount : ℕ) where
  phypFmin : UInt16
  phypFmax : UInt16
  phypFtarget : UInt16
  esPolicy : UInt8
  ncores : UInt8
  corelist : List UInt8
  id : UInt8
  valid : UInt8
  perfmode : UInt8
  pad1 : UInt8
  corelist_length : corelist.length = coreCount

structure RecordDps where
  fmaxScaleFactor : UInt32
  freqRequest : UInt16
  utilSpeedRequest : UInt16
  pfloorSpeedRequest : UInt16
  dipsSpeedRequest : UInt16
  thutil : UInt16
  tlutil : UInt16
  pfval : UInt16
  stepUp : UInt16
  stepDown : UInt16
  sampleCountUtil : UInt16
  epsilonPerc : UInt16
  alphaUp : UInt16
  alphaDown : UInt16
  utilSensorSel : UInt8
  type : UInt8

structure RecordTail740Q extends RecordDps where
  softBoundaries : UInt8
  paddps : List UInt8
  paddps_length : paddps.length = 3

structure RecordTail760 extends RecordDps where
  thdUtilScale : UInt8
  softBoundaries : UInt8
  paddps : List UInt8
  followSysmode : UInt8
  pad2 : List UInt8
  paddps_length : paddps.length = 2
  pad2_length : pad2.length = 3

namespace RecordHead

variable {coreCount : ℕ} (r : RecordHead coreCount)

/-- The bytes in front of the pad byte. -/
def front : Bytes :=
  u16 r.phypFmin ++ u16 r.phypFmax ++ u16 r.phypFtarget ++ [r.esPolicy] ++ [r.ncores] ++
    r.corelist ++ [r.id] ++ [r.valid] ++ [r.perfmode]

def encode : Bytes := r.front ++ [r.pad1]

/-- The valid entries of the list of cores. -/
def cores : List UInt8 := r.corelist.take r.ncores.toNat

/-- The head as `scanHead` reads it. -/
def object : Head where
  phypFmin := r.phypFmin.toNat
  phypFmax := r.phypFmax.toNat
  phypFtarget := r.phypFtarget.toNat
  esPolicy := r.esPolicy.toNat
  ncores := r.ncores.toNat
  corelist := r.corelist.map fun b => signed [b]
  coreListValid := r.cores.map fun b => signed [b]
  id := r.id.toNat
  valid := r.valid.toNat
  perfmode := r.perfmode.toNat
  pad1 := signed [r.pad1]

/-- The head with another pad byte, and nothing behind the valid cores. -/
def resent (pad1 : UInt8) : RecordHead coreCount where
  phypFmin := r.phypFmin
  phypFmax := r.phypFmax
  phypFtarget := r.phypFtarget
  esPolicy := r.esPolicy
  ncores := r.ncores
  corelist := r.cores ++ List.replicate (coreCount - r.cores.length) (byteOf coreCount)
  id := r.id
  valid := r.valid
  perfmode := r.perfmode
  pad1 := pad1
  corelist_length := by
    have hle : r.cores.length ≤ coreCount := by
      rw [cores, List.length_take, r.corelist_length]
      exact Nat.min_le_right _ _
    rw [List.length_append, List.length_replicate]
    omega

/-- The heads are the same except behind their valid cores. -/
def Alike (r r' : RecordHead coreCount) : Prop :=
  r'.cores = r.cores ∧
    r' = { r with corelist := r'.corelist, corelist_length := r'.corelist_length }

private theorem length_front : r.front.length = coreCount + 11 := by
  simp only [front, List.length_append, length_u16, List.length_singleton, r.corelist_length]
  omega

theorem length_encode : r.encode.length = coreCount + 12 := by
  rw [encode, List.length_append, length_front, List.length_singleton]

end RecordHead

def RecordDps.encode (r : RecordDps) : Bytes :=
  u32 r.fmaxScaleFactor ++ u16 r.freqRequest ++ u16 r.utilSpeedRequest ++
    u16 r.pfloorSpeedRequest ++ u16 r.dipsSpeedRequest ++ u16 r.thutil ++ u16 r.tlutil ++
    u16 r.pfval ++ u16 r.stepUp ++ u16 r.stepDown ++ u16 r.sampleCountUtil ++
    u16 r.epsilonPerc ++ u16 r.alphaUp ++ u16 r.alphaDown ++ [r.utilSensorSel] ++ [r.type]

def RecordDps.object (r : RecordDps) : Dps where
  fmaxScaleFactor := r.fmaxScaleFactor.toNat
  freqRequest := r.freqRequest.toNat
  utilSpeedRequest := r.utilSpeedRequest.toNat
  pfloorSpeedRequest := r.pfloorSpeedRequest.toNat
  dipsSpeedRequest := r.dipsSpeedRequest.toNat
  thutil := r.thutil.toNat
  tlutil := r.tlutil.toNat
  pfval := r.pfval.toNat
  stepUp := r.stepUp.toNat
  stepDown := r.stepDown.toNat
  sampleCountUtil := r.sampleCountUtil.toNat
  epsilonPerc := r.epsilonPerc.toNat
  alphaUp := r.alphaUp.toNat
  alphaDown := r.alphaDown.toNat
  utilSensorSel := r.utilSensorSel.toNat
  type := r.type.toNat

theorem RecordDps.length_encode (r : RecordDps) : r.encode.length = 32 := by
  simp only [encode, List.length_append, length_u16, length_u32, List.length_singleton]

def RecordTail740Q.encode (r : RecordTail740Q) : Bytes :=
  r.toRecordDps.encode ++ [r.softBoundaries] ++ r.paddps

def RecordTail740Q.object (r : RecordTail740Q) : Tail740Q where
  toDps := r.toRecordDps.object
  softBoundaries := r.softBoundaries.toNat
  paddps := r.paddps.map fun b => signed [b]

def RecordTail760.encode (r : RecordTail760) : Bytes :=
  r.toRecordDps.encode ++ [r.thdUtilScale] ++ [r.softBoundaries] ++ r.paddps ++
    [r.followSysmode] ++ r.pad2

def RecordTail760.object (r : RecordTail760) : Tail760 where
  toDps := r.toRecordDps.object
  thdUtilScale := r.thdUtilScale.toNat
  softBoundaries := r.softBoundaries.toNat
  paddps := r.paddps.map fun b => signed [b]
  followSysmode := signed [r.followSysmode]
  pad2 := r.pad2.map fun b => signed [b]

/-! ## Reading records -/

/-- An unsigned integer is read by masking the signed one. -/
theorem signed_u16_emod (x : UInt16) : signed (u16 x) % 2 ^ 16 = x.toNat := by
  have h := signed_emod (u16 x)
  rw [u16, unsigned_bigEndian_of_lt x.toNat_lt, length_bigEndian] at h
  exact h

private theorem signed_u32_emod (x : UInt32) : signed (u32 x) % 2 ^ 32 = x.toNat := by
  have h := signed_emod (u32 x)
  rw [u32, unsigned_bigEndian_of_lt x.toNat_lt, length_bigEndian] at h
  exact h

private theorem reads_u16 (x : UInt16) : (int 2).Reads (u16 x) (signed (u16 x)) :=
  Reads.int (length_u16 x)

private theorem reads_u8 (x : UInt8) : (int 1).Reads [x] (signed [x]) := Reads.int rfl

theorem reads_head {coreCount : ℕ} (r : RecordHead coreCount) :
    (scanHead coreCount).Reads r.encode r.object := by
  rw [RecordHead.encode, RecordHead.front]
  simp only [List.append_assoc]
  refine Reads.of_eq ((reads_u16 _).bind <| (reads_u16 _).bind <| (reads_u16 _).bind <|
    (reads_u8 _).bind <| (reads_u8 _).bind <| (Reads.ints_bytes r.corelist_length).bind <|
    (reads_u8 _).bind <| (reads_u8 _).bind <| (reads_u8 _).bind <| (reads_u8 _).last) ?_
  simp only [signed_u16_emod, signed_byte_emod, Int.toNat_natCast, ← List.map_take]
  rfl

private theorem reads_dps (r : RecordDps) : scanDps.Reads r.encode r.object := by
  rw [RecordDps.encode]
  simp only [List.append_assoc]
  refine Reads.of_eq ((Reads.int (length_u32 _)).bind <| (reads_u16 _).bind <|
    (reads_u16 _).bind <| (reads_u16 _).bind <| (reads_u16 _).bind <| (reads_u16 _).bind <|
    (reads_u16 _).bind <| (reads_u16 _).bind <| (reads_u16 _).bind <| (reads_u16 _).bind <|
    (reads_u16 _).bind <| (reads_u16 _).bind <| (reads_u16 _).bind <| (reads_u16 _).bind <|
    (reads_u8 _).bind <| (reads_u8 _).last) ?_
  simp only [signed_u16_emod, signed_u32_emod, signed_byte_emod]
  rfl

theorem reads_tail740Q (r : RecordTail740Q) : scanTail740Q.Reads r.encode r.object := by
  rw [scanTail740Q]
  apply Reads.within
  · rw [RecordTail740Q.encode]
    simp only [List.append_assoc]
    refine Reads.of_eq ((reads_dps _).bind <| (reads_u8 _).bind <|
      (Reads.ints_bytes r.paddps_length).last) ?_
    simp only [signed_byte_emod]
    rfl
  · simp only [RecordTail740Q.encode, List.length_append, RecordDps.length_encode,
      List.length_singleton, r.paddps_length]

private theorem reads_dps760 (r : RecordTail760) :
    scanDps760.Reads (r.toRecordDps.encode ++ [r.thdUtilScale] ++ [r.softBoundaries] ++ r.paddps)
      fun followSysmode pad2 => { r.object with followSysmode := followSysmode, pad2 := pad2 } := by
  rw [scanDps760]
  apply Reads.within
  · simp only [List.append_assoc]
    refine Reads.of_eq ((reads_dps _).bind <| (reads_u8 _).bind <| (reads_u8 _).bind <|
      (Reads.ints_bytes r.paddps_length).last) ?_
    simp only [signed_byte_emod]
    rfl
  · simp only [List.length_append, RecordDps.length_encode, List.length_singleton,
      r.paddps_length]

theorem reads_tail760 (r : RecordTail760) : scanTail760.Reads r.encode r.object := by
  have hencode : r.encode = (r.toRecordDps.encode ++ [r.thdUtilScale] ++ [r.softBoundaries] ++
      r.paddps) ++ ([r.followSysmode] ++ r.pad2) := by
    simp only [RecordTail760.encode, List.append_assoc]
  rw [hencode]
  exact (reads_dps760 r).bind <| (reads_u8 _).bind <| (Reads.ints_bytes r.pad2_length).last

/-! ## Writing records -/

theorem bigEndian_toNat_byte (x : UInt8) : bigEndian 1 x.toNat = [x] := by
  have h := bigEndian_unsigned [x]
  simpa [unsigned] using h

private theorem formatBytes_signed {count : ℕ} {taken : Bytes} (length : taken.length = count) :
    formatBytes count (taken.map fun b => signed [b]) = some taken := by
  subst length
  have hall : (taken.map fun b => signed [b]).take taken.length = taken.map fun b => signed [b] :=
    List.take_of_length_le (by simp)
  rw [formatBytes, if_neg (by simp), hall, flatMap_bigEndian_signed]

private theorem formatDps_object (r : RecordDps) : formatDps r.object = r.encode := by
  simp only [formatDps, RecordDps.object, RecordDps.encode, bigEndian_toNat_byte, u16, u32]

theorem formatTail740Q_object (r : RecordTail740Q) : formatTail740Q r.object = some r.encode := by
  simp only [formatTail740Q, RecordTail740Q.object, RecordTail740Q.encode, bigEndian_toNat_byte,
    formatDps_object, formatBytes_signed r.paddps_length]
  rfl

theorem formatTail760_object (r : RecordTail760) : formatTail760 r.object = some r.encode := by
  simp only [formatTail760, RecordTail760.object, RecordTail760.encode, bigEndian_toNat_byte,
    formatDps_object, formatBytes_signed r.paddps_length, formatBytes_signed r.pad2_length,
    bigEndian_signed_byte]
  rfl

/-- The list of cores that is written. -/
theorem fillCorelist_object {coreCount : ℕ} (r : RecordHead coreCount) (pad1 : UInt8) :
    ((fillCorelist coreCount (r.cores.map fun b => signed [b])).take coreCount).flatMap
      (bigEndian 1) = (r.resent pad1).corelist := by
  have hlength : (fillCorelist coreCount (r.cores.map fun b => signed [b])).length = coreCount := by
    have hfilled := (r.resent pad1).corelist_length
    rw [RecordHead.resent, List.length_append, List.length_replicate] at hfilled
    rw [fillCorelist, List.length_append, List.length_replicate, List.length_map]
    exact hfilled
  have hfill : bigEndian 1 (coreCount : ℤ) = [byteOf coreCount] := by
    simp [bigEndian]
  rw [List.take_of_length_le hlength.le, fillCorelist, List.flatMap_append,
    flatMap_bigEndian_signed, List.length_map, List.flatMap_replicate, hfill]
  simp [RecordHead.resent]

/-- A head is written with its pad byte. -/
theorem formatHead_object {coreCount : ℕ} (r : RecordHead coreCount)
    (fits : r.ncores.toNat ≤ coreCount) {p : ℤ} {pad1 : UInt8} (hpad : bigEndian 1 p = [pad1]) :
    formatHead coreCount { r.object with pad1 := p } = (r.resent pad1).encode := by
  have hncores : ((r.cores.map fun b => signed [b]).length : ℤ) = r.ncores.toNat := by
    rw [List.length_map, RecordHead.cores, List.length_take, r.corelist_length,
      Nat.min_eq_left fits]
  simp only [formatHead, RecordHead.object, hncores, fillCorelist_object r pad1,
    bigEndian_toNat_byte, hpad]
  rfl

end Amester.Partition
