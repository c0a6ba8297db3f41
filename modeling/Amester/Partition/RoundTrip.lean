/-
# Reading the partition table and writing it back

A table of the firmware is read into objects and written from them without a change
between. The fields, the lists of cores, the map and the capping groups come back as
they were. The pad byte of a record comes back in the 740Q layout; in the 760 layout
the object keeps `perfmode` in its place, so the byte is lost unless the two are equal.

Writing also gives up on a table in which a record lists a core twice, or lists a
number from 128 on, which is read as a negative one.
-/

import Amester.Partition.Table

namespace Amester.Partition

open BinaryFormat BinaryFormat.Reader

/-! ## Tables of the firmware -/

/-- The tail of a record for each class. -/
structure Layout {D : Type} (cls : PartitionClass D) (T : Type) where
  encodeTail : T → Bytes
  tailObject : T → D
  tailLength : ℕ
  /-- The pad byte that is written for `perfmode` and the pad byte that was read. -/
  pad1 : UInt8 → UInt8 → UInt8
  length_tail : ∀ t, (encodeTail t).length = tailLength
  reads_tail : ∀ t, cls.scanTail.Reads (encodeTail t) (tailObject t)
  format_tail : ∀ t, cls.formatTail (tailObject t) = some (encodeTail t)
  format_pad1 : ∀ perfmode p : UInt8,
    bigEndian 1 (cls.pad1 perfmode.toNat (signed [p])) = [pad1 perfmode p]

def layout740Q : Layout partition740Q RecordTail740Q where
  encodeTail := RecordTail740Q.encode
  tailObject := RecordTail740Q.object
  tailLength := 36
  pad1 _ p := p
  length_tail t := by
    simp only [RecordTail740Q.encode, List.length_append, RecordDps.length_encode,
      List.length_singleton, t.paddps_length]
  reads_tail := reads_tail740Q
  format_tail := formatTail740Q_object
  format_pad1 _ p := bigEndian_signed_byte p

private theorem length_tail760 (t : RecordTail760) : t.encode.length = 40 := by
  simp only [RecordTail760.encode, List.length_append, RecordDps.length_encode,
    List.length_singleton, t.paddps_length, t.pad2_length]

private theorem format_perfmode760 (perfmode : UInt8) :
    bigEndian 1 ((perfmode.toNat : ℤ) % 2 ^ 8) = [perfmode] := by
  have hlow : (perfmode.toNat : ℤ) % 2 ^ 8 = perfmode.toNat :=
    Int.emod_eq_of_lt (by omega) (by exact_mod_cast perfmode.toNat_lt)
  rw [hlow, bigEndian_toNat_byte]

def layout760 : Layout partition760 RecordTail760 where
  encodeTail := RecordTail760.encode
  tailObject := RecordTail760.object
  tailLength := 40
  pad1 perfmode _ := perfmode
  length_tail := length_tail760
  reads_tail := reads_tail760
  format_tail := formatTail760_object
  format_pad1 perfmode _ := format_perfmode760 perfmode

/-- A record of the table. -/
structure Record (T : Type) (coreCount : ℕ) where
  head : RecordHead coreCount
  tail : T

/-- A table with as many records and cores as the parameters say. -/
structure RecordTable (T : Type) (parms : Parms) where
  core2part : List UInt16
  records : List (Record T parms.coreCount)
  groups : Bytes
  padend : Bytes
  core2part_length : core2part.length = parms.coreCount
  records_length : records.length = parms.partMaxPart
  groups_length : groups.length = 5 * (parms.coreCount + 6)

/-- The numbers of the cores that a record lists. -/
def RecordHead.coreNumbers {coreCount : ℕ} (r : RecordHead coreCount) : List ℕ :=
  r.cores.map UInt8.toNat

namespace Layout

variable {D T : Type} {cls : PartitionClass D} (L : Layout cls T) {coreCount : ℕ}

def encode (r : Record T coreCount) : Bytes := r.head.encode ++ L.encodeTail r.tail

/-- The object that a record is read into. -/
def object (r : Record T coreCount) : Object D where
  head := { r.head.object with
    pad1 := cls.pad1 r.head.object.perfmode r.head.object.pad1 }
  tail := L.tailObject r.tail

/-- The record that an object is written as. -/
def resent (r : Record T coreCount) : Record T coreCount where
  head := r.head.resent (L.pad1 r.head.perfmode r.head.pad1)
  tail := r.tail

private theorem reads_record (r : Record T coreCount) :
    (setBytes cls coreCount).Reads (L.encode r) (L.object r) :=
  (reads_head r.head).bind (L.reads_tail r.tail).last

private theorem getBytes_object {r : Record T coreCount} (fits : r.head.ncores.toNat ≤ coreCount) :
    getBytes cls coreCount (L.object r) = some (L.encode (L.resent r)) := by
  have hhead := formatHead_object r.head fits (L.format_pad1 r.head.perfmode r.head.pad1)
  rw [getBytes, object, L.format_tail]
  show some (formatHead coreCount _ ++ L.encodeTail r.tail) = some (L.encode (L.resent r))
  rw [encode, resent, ← hhead]
  rfl

theorem length_encode (r : Record T coreCount) :
    (L.encode r).length = coreCount + 12 + L.tailLength := by
  rw [encode, List.length_append, RecordHead.length_encode, L.length_tail]

variable {parms : Parms}

/-- The bytes of a table. -/
def bytes (w : RecordTable T parms) : Bytes :=
  w.core2part.flatMap u16 ++ (w.records.flatMap L.encode ++ (w.groups ++ w.padend))

/-- What a table is read into. -/
def table (w : RecordTable T parms) (old : List (Object D)) : Table D where
  partMaxPart := parms.partMaxPart
  coreCount := parms.coreCount
  core2partList := w.core2part.map fun x => signed (u16 x)
  partitionObjectList := w.records.map L.object ++ old.drop parms.partMaxPart
  capgroupbytes := w.groups ++ w.padend
  padend := w.padend

end Layout

/-! ## What a round trip should do -/

/-- The tables have the same fields, pads, valid cores, map and capping groups. -/
structure RecordTable.Alike {T : Type} {parms : Parms} (w w' : RecordTable T parms) : Prop where
  core2part : w'.core2part = w.core2part
  records : List.Forall₂ (fun r r' => r.head.Alike r'.head ∧ r'.tail = r.tail)
    w.records w'.records
  groups : w'.groups = w.groups
  padend : w'.padend = w.padend

/-- The table without what is behind the valid cores of its partitions. -/
def Table.seen {D : Type} (t : Table D) : Table D :=
  { t with partitionObjectList := t.partitionObjectList.map fun p =>
      { p with head := { p.head with corelist := [] } } }

/-- The table that was read is sent back as one that is like it, as long as it, and
read into the same objects. -/
def RoundTrip {D T : Type} {cls : PartitionClass D} (L : Layout cls T) {parms : Parms}
    (w : RecordTable T parms) : Prop :=
  ∃ t sent w' t', read cls parms (hexDigits (L.bytes w)) [] = some t ∧
    write cls t = some sent ∧
    sent = hexDigits (L.bytes w') ∧
    (L.bytes w').length = (L.bytes w).length ∧
    w.Alike w' ∧
    read cls parms sent t.partitionObjectList = some t' ∧
    t'.seen = t.seen

/-- The identifier of the first partition that lists a core, or that of none. -/
def RecordTable.owner {T : Type} {parms : Parms} (w : RecordTable T parms) (c : ℕ) : ℕ :=
  match w.records.find? fun r => c ∈ r.head.coreNumbers with
  | some r => r.head.id.toNat
  | none => 63

/-- A table as the firmware makes it. -/
structure WellFormed {T : Type} {parms : Parms} (w : RecordTable T parms) : Prop where
  ncores : ∀ r ∈ w.records, r.head.ncores.toNat ≤ parms.coreCount
  owned : w.records.Pairwise fun r r' => ∀ c < parms.coreCount,
    c ∈ r.head.coreNumbers → c ∉ r'.head.coreNumbers
  core2part : ∀ c < parms.coreCount, (w.core2part[c]?).map UInt16.toNat = some (w.owner c)

/-- When the lists of cores can be written. -/
structure CoresMet {T : Type} {parms : Parms} (w : RecordTable T parms) : Prop where
  cores : ∀ r ∈ w.records, ∀ c ∈ r.head.coreNumbers, c < parms.coreCount ∧ c < 128
  once : ∀ r ∈ w.records, r.head.id.toNat ≠ 63 → r.head.coreNumbers.Nodup

/-! ## Reading -/

private theorem reads_ints_u16 {count : ℕ} {xs : List UInt16} (length : xs.length = count) :
    (ints 2 count).Reads (xs.flatMap u16) (xs.map fun x => signed (u16 x)) := by
  subst length
  exact Reads.many fun x _ => Reads.int (length_u16 x)

/-- Five capping groups are enough to show them. -/
theorem showsCappingGroups_of_length {coreCount : ℕ} {capgroupbytes : Bytes}
    (enough : 5 * (coreCount + 6) ≤ capgroupbytes.length) :
    showsCappingGroups coreCount capgroupbytes = true := by
  have hwhole : ([2, 2, 1] : List ℕ).sum ≤ capgroupbytes.length := by
    simp only [List.sum_cons, List.sum_nil]
    omega
  obtain ⟨ns, hlength, hscan⟩ := scan_ints_whole [2, 2, 1] hwhole
  obtain ⟨fmin, fmax, ncores, rfl⟩ := List.length_eq_three.mp hlength
  have hfields : ([2, 2, 1] : List ℕ).map Field.int = [.int 2, .int 2, .int 1] := rfl
  rw [hfields] at hscan
  simp only [showsCappingGroups, hscan, List.map_cons, List.map_nil, decide_eq_true_eq]
  right
  omega

section

variable {D T : Type} {cls : PartitionClass D} (L : Layout cls T) {parms : Parms}

/-- A table is read into the objects of its records. -/
theorem read_bytes (w : RecordTable T parms) (old : List (Object D)) :
    read cls parms (hexDigits (L.bytes w)) old = some (L.table w old) := by
  have hmap := reads_ints_u16 w.core2part_length
    (w.records.flatMap L.encode ++ (w.groups ++ w.padend))
  have hrecords : (many (setBytes cls parms.coreCount) w.records.length).Reads
      (w.records.flatMap L.encode) (w.records.map L.object) :=
    Reads.many fun r _ => L.reads_record r
  rw [w.records_length] at hrecords
  have hshows : showsCappingGroups parms.coreCount (w.groups ++ w.padend) = true := by
    apply showsCappingGroups_of_length
    rw [List.length_append, w.groups_length]
    exact Nat.le_add_right _ _
  have hpadend : (w.groups ++ w.padend).drop (5 * (parms.coreCount + 6)) = w.padend := by
    rw [← w.groups_length, List.drop_left]
  rw [read, bytesOfDigits_hexDigits, Layout.bytes, hmap]
  simp only [bind, Option.bind, hrecords (w.groups ++ w.padend), hshows, hpadend, if_true]
  rfl

/-! ## Writing -/

/-- The records that a table is written as. -/
def Layout.resentTable (w : RecordTable T parms) : RecordTable T parms where
  core2part := w.core2part
  records := w.records.map L.resent
  groups := w.groups
  padend := w.padend
  core2part_length := w.core2part_length
  records_length := by rw [List.length_map, w.records_length]
  groups_length := w.groups_length

/-- The claims of the objects of a table. -/
def Layout.claims (w : RecordTable T parms) : List (ℤ × ℤ) :=
  Partition.claims (w.records.map L.object)

private theorem mapM_getBytes {coreCount : ℕ} {records : List (Record T coreCount)}
    (fits : ∀ r ∈ records, r.head.ncores.toNat ≤ coreCount) :
    (records.map L.object).mapM (getBytes cls coreCount) =
      some (records.map fun r => L.encode (L.resent r)) := by
  induction records with
  | nil => rfl
  | cons r records ih =>
      have hrest := ih fun r' hr' => fits r' (List.mem_cons_of_mem _ hr')
      rw [List.map_cons, List.mapM_cons, L.getBytes_object (fits r List.mem_cons_self), hrest]
      rfl

/-- What is written depends on whether the claims can be met. -/
theorem write_table (w : RecordTable T parms)
    (fits : ∀ r ∈ w.records, r.head.ncores.toNat ≤ parms.coreCount) (old : List (Object D)) :
    write cls (L.table w old) =
      ((L.claims w).foldlM meet (List.replicate parms.coreCount invalidCoreGroup)).map
        fun core2partList => hexDigits (core2partList.flatMap (bigEndian 2) ++
          ((w.records.map L.resent).flatMap L.encode ++ (w.groups ++ w.padend))) := by
  have htake : ((L.table w old).partitionObjectList).take (L.table w old).partMaxPart =
      w.records.map L.object := by
    have hlength : (w.records.map L.object).length = parms.partMaxPart := by
      rw [List.length_map, w.records_length]
    show (w.records.map L.object ++ old.drop parms.partMaxPart).take parms.partMaxPart = _
    rw [← hlength, List.take_left]
  have hflatten : (w.records.map fun r => L.encode (L.resent r)).flatten =
      (w.records.map L.resent).flatMap L.encode := by
    rw [List.flatMap_map]
    rfl
  rw [write, htake, claimCores_eq]
  show ((L.claims w).foldlM meet (List.replicate parms.coreCount invalidCoreGroup)).bind _ = _
  cases (L.claims w).foldlM meet (List.replicate parms.coreCount invalidCoreGroup) with
  | none => rfl
  | some core2partList =>
      show ((w.records.map L.object).mapM (getBytes cls parms.coreCount)).bind _ = _
      rw [mapM_getBytes L fits, ← hflatten]
      simp only [Option.bind_some, Option.map_some, List.append_assoc]
      rfl

/-! ## The owners of the cores of a table -/

/-- A byte is read as a core from 0 on only if it is less than 128. -/
theorem signed_byte_eq_iff (b : UInt8) (k : ℕ) :
    signed [b] = (k : ℤ) ↔ b.toNat = k ∧ k < 128 := by
  have hb := b.toNat_lt
  have hbmod : signed [b] = Int.bmod b.toNat 256 := by simp [signed, unsigned]
  rw [hbmod, Int.bmod_def]
  split_ifs with hlow
  · push_cast at hlow ⊢
    omega
  · push_cast at hlow ⊢
    omega

private theorem signed_byte_inj {b b' : UInt8} (same : signed [b] = signed [b']) : b = b' := by
  have h := bigEndian_signed_byte b
  rw [same, bigEndian_signed_byte] at h
  exact (List.singleton_inj.mp h).symm

private theorem claims_eq (w : RecordTable T parms) :
    L.claims w = w.records.flatMap fun r =>
      r.head.cores.map fun b => ((r.head.id.toNat : ℤ), signed [b]) := by
  rw [Layout.claims, Partition.claims, List.flatMap_map]
  congr 1
  funext r
  show (r.head.cores.map fun b => signed [b]).map (fun c => ((r.head.id.toNat : ℤ), c)) = _
  rw [List.map_map]
  rfl

private theorem mem_claims {w : RecordTable T parms} {claim : ℤ × ℤ} :
    claim ∈ L.claims w ↔
      ∃ r ∈ w.records, ∃ b ∈ r.head.cores, claim = ((r.head.id.toNat : ℤ), signed [b]) := by
  rw [claims_eq]
  simp only [List.mem_flatMap, List.mem_map, eq_comm]

/-- A claim for a core comes from a record that lists the core. -/
theorem mem_claims_core {w : RecordTable T parms} {claim : ℤ × ℤ} {k : ℕ}
    (mem : claim ∈ L.claims w) (core : claim.2 = k) :
    ∃ r ∈ w.records, k ∈ r.head.coreNumbers ∧ claim.1 = r.head.id.toNat := by
  obtain ⟨r, hr, b, hb, rfl⟩ := (mem_claims L).mp mem
  obtain ⟨rfl, -⟩ := (signed_byte_eq_iff b k).mp core
  exact ⟨r, hr, List.mem_map_of_mem hb, rfl⟩

theorem replicate_getElem?_eq_iff (k : ℕ) :
    (List.replicate parms.coreCount invalidCoreGroup)[k]? = some invalidCoreGroup ↔
      k < parms.coreCount := by
  rw [List.getElem?_replicate]
  split_ifs with hk <;> simp [hk]

/-- Every claimed core is there exactly if the records list cores only. -/
theorem claims_free_iff (w : RecordTable T parms) :
    (∀ claim ∈ L.claims w, ∃ k : ℕ, claim.2 = k ∧
      (List.replicate parms.coreCount invalidCoreGroup)[k]? = some invalidCoreGroup) ↔
      ∀ r ∈ w.records, ∀ c ∈ r.head.coreNumbers, c < parms.coreCount ∧ c < 128 := by
  constructor
  · intro hfree r hr c hc
    obtain ⟨b, hb, rfl⟩ := List.mem_map.mp hc
    obtain ⟨k, hk, hget⟩ := hfree _ ((mem_claims L).mpr ⟨r, hr, b, hb, rfl⟩)
    obtain ⟨rfl, hlow⟩ := (signed_byte_eq_iff b k).mp hk
    exact ⟨(replicate_getElem?_eq_iff _).mp hget, hlow⟩
  · intro hcores claim hclaim
    obtain ⟨r, hr, b, hb, rfl⟩ := (mem_claims L).mp hclaim
    obtain ⟨hlt, hlow⟩ := hcores r hr b.toNat (List.mem_map_of_mem hb)
    exact ⟨b.toNat, (signed_byte_eq_iff b _).mpr ⟨rfl, hlow⟩, (replicate_getElem?_eq_iff _).mpr hlt⟩

/-- No record lists a core that an earlier entry of its list has. -/
theorem record_pairwise_iff (id : UInt8) (cores : List UInt8) :
    (cores.map fun b => ((id.toNat : ℤ), signed [b])).Pairwise
        (fun first second => first.2 = second.2 → first.1 = invalidCoreGroup) ↔
      (id.toNat ≠ 63 → (cores.map UInt8.toNat).Nodup) := by
  rw [List.pairwise_map, List.Nodup, List.pairwise_map]
  by_cases hid : id.toNat = 63
  · have hinvalid : (id.toNat : ℤ) = invalidCoreGroup := by rw [hid]; rfl
    constructor
    · intro _ hne
      exact absurd hid hne
    · intro _
      exact List.pairwise_of_forall fun _ _ _ => hinvalid
  · have hvalid : (id.toNat : ℤ) ≠ invalidCoreGroup := by
      unfold invalidCoreGroup
      omega
    simp only [hid, hvalid, ne_eq, not_false_eq_true, forall_const, imp_false]
    apply List.Pairwise.iff
    intro b b'
    exact ⟨fun hne hsame => hne (by rw [UInt8.toNat_inj.mp hsame]),
      fun hne hsame => hne (by rw [signed_byte_inj hsame])⟩

/-- The claims of a table can be met exactly if its lists of cores can be written. -/
theorem claims_met_iff {w : RecordTable T parms} (h : WellFormed w) :
    ((L.claims w).foldlM meet (List.replicate parms.coreCount invalidCoreGroup)).isSome ↔
      CoresMet w := by
  rw [meet_all_isSome_iff, claims_free_iff]
  constructor
  · rintro ⟨hcores, hpairs⟩
    refine ⟨hcores, fun r hr => ?_⟩
    rw [claims_eq, List.pairwise_flatMap] at hpairs
    exact (record_pairwise_iff r.head.id r.head.cores).mp (hpairs.1 r hr)
  · rintro ⟨hcores, honce⟩
    refine ⟨hcores, ?_⟩
    rw [claims_eq, List.pairwise_flatMap]
    refine ⟨fun r hr => (record_pairwise_iff r.head.id r.head.cores).mpr (honce r hr), ?_⟩
    refine h.owned.imp_of_mem ?_
    intro r r' hr hr' hdisjoint first hfirst second hsecond hsame
    obtain ⟨b, hb, rfl⟩ := List.mem_map.mp hfirst
    obtain ⟨b', hb', rfl⟩ := List.mem_map.mp hsecond
    obtain rfl := signed_byte_inj hsame
    have hmem : b.toNat ∈ r.head.coreNumbers := List.mem_map_of_mem hb
    exact absurd (List.mem_map_of_mem hb') (hdisjoint b.toNat (hcores r hr _ hmem).1 hmem)

/-- The records that list a core are one. -/
theorem WellFormed.owner_unique {w : RecordTable T parms} (h : WellFormed w) {k : ℕ}
    (lt : k < parms.coreCount) {r r' : Record T parms.coreCount} (mem : r ∈ w.records)
    (mem' : r' ∈ w.records) (core : k ∈ r.head.coreNumbers) (core' : k ∈ r'.head.coreNumbers) :
    r = r' := by
  have hall : ∀ ⦃x⦄, x ∈ w.records → ∀ ⦃y⦄, y ∈ w.records →
      k ∈ x.head.coreNumbers → k ∈ y.head.coreNumbers → x = y := by
    apply List.Pairwise.forall_of_forall_of_flip
    · intro x _ _ _
      rfl
    · apply h.owned.imp
      intro x y hdisjoint hx hy
      exact absurd hy (hdisjoint k lt hx)
    · apply h.owned.imp
      intro y x hdisjoint hx hy
      exact absurd hx (hdisjoint k lt hy)
  exact hall mem mem' core core'

/-- The owner of a core that a record lists. -/
theorem WellFormed.owner_eq {w : RecordTable T parms} (h : WellFormed w) {k : ℕ}
    (lt : k < parms.coreCount) {r : Record T parms.coreCount} (mem : r ∈ w.records)
    (core : k ∈ r.head.coreNumbers) : w.owner k = r.head.id.toNat := by
  rw [RecordTable.owner]
  cases hfind : w.records.find? fun r => k ∈ r.head.coreNumbers with
  | none =>
      have hnone := List.find?_eq_none.mp hfind r mem
      exact absurd core (by simpa using hnone)
  | some r' =>
      have hcore' : k ∈ r'.head.coreNumbers := by simpa using List.find?_some hfind
      rw [h.owner_unique lt mem (List.mem_of_find?_eq_some hfind) core hcore']

/-- Once the claims are met, the map that is written is the one that was read. -/
theorem claims_core2part {w : RecordTable T parms} (h : WellFormed w) {core2partList : List ℤ}
    (cores : CoresMet w)
    (met : (L.claims w).foldlM meet (List.replicate parms.coreCount invalidCoreGroup) =
      some core2partList) :
    core2partList = w.core2part.map fun x => (x.toNat : ℤ) := by
  have hlength := meet_all_length met
  rw [List.length_replicate] at hlength
  apply List.ext_getElem?
  intro k
  by_cases hk : k < parms.coreCount
  · have hmap := h.core2part k hk
    obtain ⟨x, hx, howner⟩ := Option.map_eq_some_iff.mp hmap
    rw [List.getElem?_map, hx, Option.map_some, howner]
    apply meet_all_getElem met
    · intro claim hclaim hcore
      obtain ⟨r, hr, hmem, hid⟩ := mem_claims_core L hclaim hcore
      rw [hid, h.owner_eq hk hr hmem]
    · by_cases hsome : ∃ r ∈ w.records, k ∈ r.head.coreNumbers
      · obtain ⟨r, hr, hmem⟩ := hsome
        obtain ⟨b, hb, hbk⟩ := List.mem_map.mp hmem
        right
        refine ⟨_, (mem_claims L).mpr ⟨r, hr, b, hb, rfl⟩, ?_⟩
        exact (signed_byte_eq_iff b k).mpr ⟨hbk, (cores.cores r hr k hmem).2⟩
      · left
        have hnone : w.owner k = 63 := by
          have hfind : (w.records.find? fun r => k ∈ r.head.coreNumbers) = none := by
            rw [List.find?_eq_none]
            intro r hr hmem
            exact hsome ⟨r, hr, by simpa using hmem⟩
          rw [RecordTable.owner, hfind]
        rw [hnone]
        exact (replicate_getElem?_eq_iff k).mpr hk
  · rw [List.getElem?_eq_none (by omega), List.getElem?_eq_none (by
      rw [List.length_map, w.core2part_length]
      omega)]

/-- A table whose lists of cores can be written is sent. -/
theorem write_table_met {w : RecordTable T parms} (h : WellFormed w) (cores : CoresMet w)
    (old : List (Object D)) :
    write cls (L.table w old) = some (hexDigits (L.bytes (L.resentTable w))) := by
  obtain ⟨core2partList, hmet⟩ := Option.isSome_iff_exists.mp ((claims_met_iff L h).mpr cores)
  rw [write_table L w h.ncores, hmet, Option.map_some, claims_core2part L h cores hmet,
    List.flatMap_map]
  rfl

/-- And no other. -/
theorem coresMet_of_write {w : RecordTable T parms} (h : WellFormed w) {old : List (Object D)}
    {sent : List Digit} (written : write cls (L.table w old) = some sent) : CoresMet w := by
  rw [← claims_met_iff L h]
  rw [write_table L w h.ncores] at written
  obtain ⟨core2partList, hmet, -⟩ := Option.map_eq_some_iff.mp written
  rw [hmet]
  rfl

/-! ## The table that is sent -/

/-- A head is sent as one like it exactly if its pad byte is kept. -/
theorem RecordHead.alike_resent {coreCount : ℕ} {r : RecordHead coreCount}
    (fits : r.ncores.toNat ≤ coreCount) (pad1 : UInt8) :
    r.Alike (r.resent pad1) ↔ pad1 = r.pad1 := by
  constructor
  · rintro ⟨-, hsame⟩
    exact congrArg RecordHead.pad1 hsame
  · rintro rfl
    refine ⟨?_, rfl⟩
    have hlength : r.cores.length = r.ncores.toNat := by
      rw [RecordHead.cores, List.length_take, r.corelist_length, Nat.min_eq_left fits]
    show (r.cores ++ List.replicate _ _).take r.ncores.toNat = r.cores
    rw [← hlength, List.take_left]

/-- Heads that are alike are read into the same object, up to the filled list. -/
theorem RecordHead.Alike.object_eq {coreCount : ℕ} {r r' : RecordHead coreCount}
    (alike : r.Alike r') :
    { r'.object with corelist := [] } = { r.object with corelist := [] } := by
  obtain ⟨hcores, hsame⟩ := alike
  rw [RecordHead.object, RecordHead.object, hcores, hsame]

/-- A sent table is like the one that was read if the pad bytes are kept. -/
theorem alike_resentTable {w : RecordTable T parms}
    (fits : ∀ r ∈ w.records, r.head.ncores.toNat ≤ parms.coreCount)
    (pads : ∀ r ∈ w.records, L.pad1 r.head.perfmode r.head.pad1 = r.head.pad1) :
    w.Alike (L.resentTable w) := by
  refine ⟨rfl, ?_, rfl, rfl⟩
  show List.Forall₂ _ w.records (w.records.map L.resent)
  rw [List.forall₂_map_right_iff, List.forall₂_same]
  intro r hr
  exact ⟨(RecordHead.alike_resent (fits r hr) _).mpr (pads r hr), rfl⟩

/-- The records of a sent table show that the pad bytes were kept. -/
theorem pads_of_sent {coreCount : ℕ} {records sent : List (Record T coreCount)}
    (alike : List.Forall₂ (fun r r' => r.head.Alike r'.head ∧ r'.tail = r.tail) records sent)
    (same : (records.map L.resent).flatMap L.encode = sent.flatMap L.encode) :
    ∀ r ∈ records, L.pad1 r.head.perfmode r.head.pad1 = r.head.pad1 := by
  induction alike with
  | nil => simp
  | @cons r r' records sent hrecord _ ih =>
      rw [List.map_cons, List.flatMap_cons, List.flatMap_cons] at same
      obtain ⟨hfirst, hrest⟩ := List.append_inj same (by rw [L.length_encode, L.length_encode])
      obtain ⟨hhead, -⟩ := List.append_inj hfirst
        (by rw [RecordHead.length_encode, RecordHead.length_encode])
      obtain ⟨-, hpad⟩ := List.append_inj' hhead rfl
      have hkept := congrArg RecordHead.pad1 hrecord.1.2
      rw [List.forall_mem_cons]
      exact ⟨(List.singleton_inj.mp hpad).trans hkept, ih hrest⟩

private theorem length_bytes (w : RecordTable T parms) :
    (L.bytes w).length = 2 * parms.coreCount +
      (parms.partMaxPart * (parms.coreCount + 12 + L.tailLength) +
        (w.groups.length + w.padend.length)) := by
  have hmap : (w.core2part.flatMap u16).length = 2 * parms.coreCount := by
    simp [List.length_flatMap, w.core2part_length, Nat.mul_comm]
  have hrecords : (w.records.flatMap L.encode).length =
      parms.partMaxPart * (parms.coreCount + 12 + L.tailLength) := by
    simp [List.length_flatMap, L.length_encode, w.records_length]
  rw [Layout.bytes, List.length_append, List.length_append, List.length_append, hmap, hrecords]

/-- Records that are alike are read into the same objects, up to the filled lists. -/
theorem seen_records {coreCount : ℕ} {records sent : List (Record T coreCount)}
    (alike : List.Forall₂ (fun r r' => r.head.Alike r'.head ∧ r'.tail = r.tail) records sent) :
    (sent.map L.object).map (fun p => { p with head := { p.head with corelist := [] } }) =
      (records.map L.object).map fun p => { p with head := { p.head with corelist := [] } } := by
  induction alike with
  | nil => rfl
  | @cons r r' records sent hrecord _ ih =>
      have hseen := hrecord.1.object_eq
      have hhead : { (L.object r').head with corelist := [] } =
          { (L.object r).head with corelist := [] } := by
        have hpad := congrArg (fun head : Head =>
          { head with pad1 := cls.pad1 head.perfmode head.pad1 }) hseen
        exact hpad
      have htail : (L.object r').tail = (L.object r).tail := congrArg L.tailObject hrecord.2
      rw [List.map_cons, List.map_cons, List.map_cons, List.map_cons, ih, hhead, htail]

/-- Tables that are alike are read into the same objects, up to the filled lists. -/
theorem seen_table {w w' : RecordTable T parms} (alike : w.Alike w') {old : List (Object D)}
    (length : old.length = parms.partMaxPart) :
    (L.table w' old).seen = (L.table w []).seen := by
  have hdrop : old.drop parms.partMaxPart = [] := List.drop_eq_nil_of_le length.le
  have hobjects := seen_records L alike.records
  simp only [Table.seen, Layout.table, hdrop, List.drop_nil, List.append_nil, hobjects,
    alike.core2part, alike.groups, alike.padend]

/-- The round trip of a table is the identity exactly if its lists of cores can be
written and the pad bytes are kept. -/
theorem roundTrip_iff {w : RecordTable T parms} (h : WellFormed w) :
    RoundTrip L w ↔
      CoresMet w ∧ ∀ r ∈ w.records, L.pad1 r.head.perfmode r.head.pad1 = r.head.pad1 := by
  constructor
  · rintro ⟨t, sent, w', t', hread, hwrite, hsent, -, halike, -, -⟩
    rw [read_bytes] at hread
    obtain rfl := Option.some.inj hread
    have hcores := coresMet_of_write L h hwrite
    rw [write_table_met L h hcores] at hwrite
    have hdigits := (Option.some.inj hwrite).trans hsent
    have hbytes : L.bytes (L.resentTable w) = L.bytes w' := by
      rw [← bytesOfDigits_hexDigits (L.bytes (L.resentTable w)), hdigits, bytesOfDigits_hexDigits]
    refine ⟨hcores, pads_of_sent L halike.records ?_⟩
    rw [Layout.bytes, Layout.bytes, halike.core2part, halike.groups, halike.padend] at hbytes
    exact List.append_cancel_right (List.append_cancel_left hbytes)
  · rintro ⟨hcores, hpads⟩
    have halike := alike_resentTable L h.ncores hpads
    have hobjects : ((L.table w []).partitionObjectList).length = parms.partMaxPart := by
      simp [Layout.table, w.records_length]
    refine ⟨L.table w [], _, L.resentTable w, _, read_bytes L w [], write_table_met L h hcores [],
      rfl, ?_, halike, read_bytes L (L.resentTable w) _, seen_table L halike hobjects⟩
    rw [length_bytes, length_bytes]
    rfl

end

/-- The round trip of a well-formed table of the 740Q layout is the identity exactly if
its lists of cores can be written, and of the 760 layout exactly if moreover every pad
byte is equal to `perfmode`. -/
theorem partition_round_trip (parms : Parms) :
    (∀ w : RecordTable RecordTail740Q parms, WellFormed w →
      (RoundTrip layout740Q w ↔ CoresMet w)) ∧
    (∀ w : RecordTable RecordTail760 parms, WellFormed w →
      (RoundTrip layout760 w ↔
        CoresMet w ∧ ∀ r ∈ w.records, r.head.perfmode = r.head.pad1)) := by
  constructor
  · intro w h
    rw [roundTrip_iff layout740Q h]
    constructor
    · intro hkept
      exact hkept.1
    · intro hcores
      exact ⟨hcores, fun _ _ => rfl⟩
  · intro w h
    exact roundTrip_iff layout760 h

/-! ## A machine with two cores -/

def sampleParms : Parms := ⟨1, 1, 2⟩

/-- A partition with core 1. -/
def sampleHead (perfmode pad1 : UInt8) : RecordHead sampleParms.coreCount where
  phypFmin := 2000
  phypFmax := 40000
  phypFtarget := 3000
  esPolicy := 200
  ncores := 1
  corelist := [1, 255]
  id := 7
  valid := 1
  perfmode := perfmode
  pad1 := pad1
  corelist_length := rfl

def sampleDps : RecordDps where
  fmaxScaleFactor := 4000000000
  freqRequest := 1
  utilSpeedRequest := 2
  pfloorSpeedRequest := 3
  dipsSpeedRequest := 4
  thutil := 5
  tlutil := 6
  pfval := 7
  stepUp := 8
  stepDown := 9
  sampleCountUtil := 10
  epsilonPerc := 11
  alphaUp := 12
  alphaDown := 13
  utilSensorSel := 14
  type := 15

def sampleTail740Q : RecordTail740Q := { sampleDps with
  softBoundaries := 1
  paddps := [200, 2, 3]
  paddps_length := rfl }

def sampleTail760 : RecordTail760 := { sampleDps with
  thdUtilScale := 1
  softBoundaries := 2
  paddps := [3, 4]
  followSysmode := 5
  pad2 := [6, 7, 8]
  paddps_length := rfl
  pad2_length := rfl }

def sampleTable {T : Type} (perfmode pad1 : UInt8) (tail : T) : RecordTable T sampleParms where
  core2part := [63, 7]
  records := [⟨sampleHead perfmode pad1, tail⟩]
  groups := List.replicate 40 9
  padend := [1, 2]
  core2part_length := rfl
  records_length := rfl
  groups_length := rfl

theorem sampleTable_wellFormed {T : Type} (perfmode pad1 : UInt8) (tail : T) :
    WellFormed (sampleTable perfmode pad1 tail) := by
  refine ⟨?_, List.pairwise_singleton _ _, ?_⟩
  · intro r hr
    obtain rfl := List.mem_singleton.mp hr
    show (1 : UInt8).toNat ≤ 2
    decide
  · intro c hc
    have hcases : c = 0 ∨ c = 1 := by
      have hlt : c < 2 := hc
      omega
    obtain rfl | rfl := hcases <;> rfl

theorem sampleTable_coresMet {T : Type} (perfmode pad1 : UInt8) (tail : T) :
    CoresMet (sampleTable perfmode pad1 tail) := by
  constructor
  · intro r hr
    obtain rfl := List.mem_singleton.mp hr
    show ∀ c ∈ ([1] : List ℕ), c < 2 ∧ c < 128
    decide
  · intro r hr _
    obtain rfl := List.mem_singleton.mp hr
    show ([1] : List ℕ).Nodup
    decide

theorem partition_round_trip_sample :
    RoundTrip layout740Q (sampleTable 3 5 sampleTail740Q) ∧
      RoundTrip layout760 (sampleTable 3 3 sampleTail760) := by
  constructor
  · exact ((partition_round_trip sampleParms).1 _ (sampleTable_wellFormed 3 5 _)).mpr
      (sampleTable_coresMet 3 5 _)
  · exact ((partition_round_trip sampleParms).2 _ (sampleTable_wellFormed 3 3 _)).mpr
      ⟨sampleTable_coresMet 3 3 _, by simp [sampleTable, sampleHead]⟩

/-- A table whose lists of cores can be written is sent with another pad byte. -/
theorem pad_byte_is_lost :
    WellFormed (sampleTable 3 5 sampleTail760) ∧ CoresMet (sampleTable 3 5 sampleTail760) ∧
      ¬ RoundTrip layout760 (sampleTable 3 5 sampleTail760) := by
  refine ⟨sampleTable_wellFormed 3 5 _, sampleTable_coresMet 3 5 _, ?_⟩
  intro htrip
  have hpads := ((roundTrip_iff layout760 (sampleTable_wellFormed 3 5 _)).mp htrip).2
  have hpad : (3 : UInt8) = 5 := hpads ⟨sampleHead 3 5, sampleTail760⟩ List.mem_cons_self
  exact absurd hpad (by decide)

end Amester.Partition
