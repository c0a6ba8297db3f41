/-
# Owners of the cores

Writing the table looks up the owner of every core that a partition lists, and gives up unless
there is none. No owner is shown by the number 63, which is also an identifier that a partition
may have. So a core that a partition with this identifier claims can be claimed again.
-/

import Amester.Lib.Elements
import Amester.Partition.RoundTrip

namespace Amester.Partition

open BinaryFormat

/-! ## Sent tables -/

/-- The entry of a core in the table that was sent. -/
def sentOwner (sent : List Digit) (k : ℕ) : ℤ :=
  signed (((bytesOfDigits sent).drop (2 * k)).take 2)

/-- What a table is written from: partitions with any heads, whose tails were read, and the bytes
of the capping groups. -/
structure Written (T : Type) where
  coreCount : ℕ
  partitions : List (Head × T)
  core2partList : List ℤ
  capgroupbytes : Bytes
  padend : Bytes

variable {D T : Type} {cls : PartitionClass D}

def Written.object (L : Layout cls T) (partition : Head × T) : Object D :=
  ⟨partition.1, L.tailObject partition.2⟩

def Written.table (L : Layout cls T) (w : Written T) : Table D where
  partMaxPart := w.partitions.length
  coreCount := w.coreCount
  core2partList := w.core2partList
  partitionObjectList := w.partitions.map (Written.object L)
  capgroupbytes := w.capgroupbytes
  padend := w.padend

/-- The claims of the partitions. -/
def Written.claims (w : Written T) : List (ℤ × ℤ) :=
  w.partitions.flatMap fun p => p.1.coreListValid.map fun c => (p.1.id, c)

/-- Every claimed core is there. -/
def Written.Valid (w : Written T) : Prop := ∀ claim ∈ w.claims, 0 ≤ claim.2 ∧ claim.2 < w.coreCount

/-- No core is claimed twice. -/
def Written.Once (w : Written T) : Prop := (w.claims.map Prod.snd).Nodup

/-- The entries of a sent table are the claims. -/
structure Written.Owned (w : Written T) (sent : List Digit) : Prop where
  claimed : ∀ claim ∈ w.claims, ∀ k : ℕ, claim.2 = k → sentOwner sent k = claim.1
  free : ∀ k < w.coreCount, (∀ claim ∈ w.claims, claim.2 ≠ k) → sentOwner sent k = invalidCoreGroup

/-- A table is sent exactly if the claims are valid and made once, and shows the claims. -/
def Written.Validated (L : Layout cls T) (w : Written T) : Prop :=
  ((write cls (w.table L)).isSome ↔ w.Valid ∧ w.Once) ∧
    ∀ sent, write cls (w.table L) = some sent → w.Owned sent

/-! ## Writing -/

section

variable (L : Layout cls T) (w : Written T)

theorem claims_table : Partition.claims (w.partitions.map (Written.object L)) = w.claims := by
  rw [Partition.claims, Written.claims, List.flatMap_map]
  rfl

theorem mapM_getBytes_object (coreCount : ℕ) (partitions : List (Head × T)) :
    (partitions.map (Written.object L)).mapM (getBytes cls coreCount) =
      some (partitions.map fun p => formatHead coreCount p.1 ++ L.encodeTail p.2) := by
  induction partitions with
  | nil => rfl
  | cons p partitions ih =>
      have hfirst : getBytes cls coreCount (Written.object L p) =
          some (formatHead coreCount p.1 ++ L.encodeTail p.2) := by
        rw [getBytes, Written.object, L.format_tail]
        rfl
      rw [List.map_cons, List.mapM_cons, hfirst, ih]
      rfl

/-- A table is sent if the claims can be met. -/
theorem write_written :
    write cls (w.table L) =
      (w.claims.foldlM meet (List.replicate w.coreCount invalidCoreGroup)).map
        fun core2partList => hexDigits (core2partList.flatMap (bigEndian 2) ++
          (w.partitions.map fun p => formatHead w.coreCount p.1 ++ L.encodeTail p.2).flatten ++
            w.capgroupbytes) := by
  have htake : (w.table L).partitionObjectList.take (w.table L).partMaxPart =
      w.partitions.map (Written.object L) := by
    apply List.take_of_length_le
    simp [Written.table]
  rw [write, htake, claimCores_eq, claims_table]
  show (w.claims.foldlM meet (List.replicate w.coreCount invalidCoreGroup)).bind _ = _
  cases w.claims.foldlM meet (List.replicate w.coreCount invalidCoreGroup) with
  | none => rfl
  | some core2partList =>
      show ((w.partitions.map (Written.object L)).mapM (getBytes cls w.coreCount)).bind _ = _
      rw [mapM_getBytes_object]
      rfl

theorem write_isSome_iff :
    (write cls (w.table L)).isSome ↔ w.Valid ∧ w.claims.Pairwise fun first second =>
      first.2 = second.2 → first.1 = invalidCoreGroup := by
  rw [write_written, Option.isSome_map, meet_all_isSome_iff]
  apply and_congr_left'
  apply forall₂_congr
  intro claim _
  constructor
  · rintro ⟨k, hk, hget⟩
    obtain ⟨hlt, -⟩ := List.getElem?_eq_some_iff.mp hget
    rw [List.length_replicate] at hlt
    omega
  · rintro ⟨hlow, hhigh⟩
    refine ⟨claim.2.toNat, by omega, ?_⟩
    rw [List.getElem?_replicate, if_pos (by omega)]

/-- The entry of a core is the number of its owner. -/
theorem sentOwner_eq {core2partList : List ℤ} {behind : Bytes} {k : ℕ} {id : ℤ}
    (get : core2partList[k]? = some id) (low : 0 ≤ id) (high : id < 256) :
    sentOwner (hexDigits (core2partList.flatMap (bigEndian 2) ++ behind)) k = id := by
  obtain ⟨hlt, -⟩ := List.getElem?_eq_some_iff.mp get
  have hsizes : ∀ c ∈ core2partList.map (bigEndian 2), c.length = 2 := by
    intro c hc
    obtain ⟨n, -, rfl⟩ := List.mem_map.mp hc
    exact length_bigEndian 2 n
  have hlength := length_flatten_of_sizes hsizes
  have hget : (core2partList.map (bigEndian 2))[k]? = some (bigEndian 2 id) := by
    rw [List.getElem?_map, get]
    rfl
  rw [List.length_map] at hlength
  have hinside : 2 * k ≤ (core2partList.map (bigEndian 2)).flatten.length := by omega
  have hbehind : 2 ≤ ((core2partList.map (bigEndian 2)).flatten.drop (2 * k)).length := by
    rw [List.length_drop]
    omega
  rw [sentOwner, bytesOfDigits_hexDigits, List.flatMap_def, List.drop_append_of_le_length hinside,
    List.take_append_of_le_length hbehind, take_drop_flatten hsizes hget]
  exact signed_bigEndian_of_range (by omega) (by omega)

/-- Claims that are made once are seen in the table. -/
theorem owned_of_once (ids : ∀ p ∈ w.partitions, 0 ≤ p.1.id ∧ p.1.id < 256) (once : w.Once)
    {sent : List Digit} (written : write cls (w.table L) = some sent) : w.Owned sent := by
  rw [write_written] at written
  obtain ⟨core2partList, hmet, rfl⟩ := Option.map_eq_some_iff.mp written
  have hlength := meet_all_length hmet
  rw [List.length_replicate] at hlength
  simp only [List.append_assoc]
  constructor
  · intro claim hclaim k hk
    have hsame : ∀ other ∈ w.claims, other.2 = k → other.1 = claim.1 := by
      intro other hother hcore
      rw [List.inj_on_of_nodup_map once hother hclaim (hcore.trans hk.symm)]
    have hget := meet_all_getElem hmet hsame (.inr ⟨claim, hclaim, hk⟩)
    obtain ⟨p, hp, hlisted⟩ := List.mem_flatMap.mp hclaim
    obtain ⟨c, -, rfl⟩ := List.mem_map.mp hlisted
    exact sentOwner_eq hget (ids p hp).1 (ids p hp).2
  · intro k hk hfree
    have hnone : (List.replicate w.coreCount invalidCoreGroup)[k]? = some invalidCoreGroup := by
      rw [List.getElem?_replicate, if_pos hk]
    have hget := meet_all_getElem hmet (fun claim hclaim hcore => absurd hcore (hfree claim hclaim))
      (.inl hnone)
    exact sentOwner_eq hget (by decide) (by decide)

/-- Cores are claimed twice, and every time the earlier claim is made under the number that stands
for no owner. -/
structure Written.Hidden (w : Written T) : Prop where
  valid : w.Valid
  twice : ¬ w.Once
  first : w.claims.Pairwise fun first second => first.2 = second.2 → first.1 = invalidCoreGroup

/-- The owners are validated exactly if no second claim is hidden. -/
theorem validated_iff (ids : ∀ p ∈ w.partitions, 0 ≤ p.1.id ∧ p.1.id < 256) :
    w.Validated L ↔ ¬ w.Hidden := by
  constructor
  · rintro ⟨hsent, -⟩ ⟨hvalid, htwice, hfirst⟩
    exact htwice (hsent.mp ((write_isSome_iff L w).mpr ⟨hvalid, hfirst⟩)).2
  · intro hseen
    have hsent : (write cls (w.table L)).isSome ↔ w.Valid ∧ w.Once := by
      rw [write_isSome_iff]
      constructor
      · rintro ⟨hvalid, hfirst⟩
        refine ⟨hvalid, ?_⟩
        by_contra htwice
        exact hseen ⟨hvalid, htwice, hfirst⟩
      · rintro ⟨hvalid, honce⟩
        refine ⟨hvalid, (List.pairwise_map.mp honce).imp ?_⟩
        intro first second hne heq
        exact absurd heq hne
    refine ⟨hsent, fun sent hwritten => owned_of_once L w ids ?_ hwritten⟩
    have hsome : (write cls (w.table L)).isSome := Option.isSome_of_mem hwritten
    exact (hsent.mp hsome).2

end

/-- Partitions of a machine with two cores, with these identifiers and cores. -/
def twoPartitions (id id' : ℤ) (cores cores' : List ℤ) : Written RecordTail740Q where
  coreCount := 2
  partitions :=
    [({ (sampleHead 3 5).object with id := id, coreListValid := cores }, sampleTail740Q),
    ({ (sampleHead 3 5).object with id := id', coreListValid := cores' }, sampleTail740Q)]
  core2partList := []
  capgroupbytes := List.replicate 40 9
  padend := []

theorem twoPartitions_validated :
    (twoPartitions 62 7 [1] [0]).Validated layout740Q ↔ ¬ (twoPartitions 62 7 [1] [0]).Hidden := by
  have ids : ∀ p ∈ (twoPartitions 62 7 [1] [0]).partitions, 0 ≤ p.1.id ∧ p.1.id < 256 := by
    simp [twoPartitions]
  exact validated_iff layout740Q _ ids

/-- A partition with the identifier 63 loses its core to another one. -/
theorem claim_under_63_lost :
    ¬ ∀ w : Written RecordTail740Q, (∀ p ∈ w.partitions, 0 ≤ p.1.id ∧ p.1.id < 256) →
        w.Validated layout740Q := by
  intro validated
  have ids : ∀ p ∈ (twoPartitions 63 7 [1] [1]).partitions, 0 ≤ p.1.id ∧ p.1.id < 256 := by
    simp [twoPartitions]
  have hsent : (write partition740Q ((twoPartitions 63 7 [1] [1]).table layout740Q)).isSome := by
    decide +kernel
  have honce := ((validated _ ids).1.mp hsent).2
  simp [Written.Once, Written.claims, twoPartitions] at honce

end Amester.Partition
