/-
# The partition table

The table begins with a map from cores to partitions, goes on with a record for each
partition, and ends with the capping groups. Reading it makes an object of each
record and keeps the bytes of the capping groups as they are. Writing it makes a new
map from the cores that the objects list, and gives up if one of them is no core or
has an owner already; then the table goes back to the parameter it was read from.

The table is a parameter of type raw, so it is read and written as digits.
-/

import Amester.Partition.Record

namespace Amester.Partition

open BinaryFormat BinaryFormat.Reader

variable {D : Type}

/-- The parameters that say how large the table is. -/
structure Parms where
  partMaxPart : ℕ
  maxNumChips : ℕ
  cpusPerChip : ℕ

def Parms.coreCount (parms : Parms) : ℕ := parms.maxNumChips * parms.cpusPerChip

structure Table (D : Type) where
  partMaxPart : ℕ
  coreCount : ℕ
  core2partList : List ℤ
  partitionObjectList : List (Object D)
  capgroupbytes : Bytes
  padend : Bytes
  deriving DecidableEq

def invalidCoreGroup : ℤ := 63

/-- Whether the five capping groups can be shown. The first one must have `fmin`,
`fmax` and `ncores`, and its cores if it has any; where bytes are missing from a later
one, the variables keep the values of the one before. -/
def showsCappingGroups (coreCount : ℕ) (capgroupbytes : Bytes) : Bool :=
  match scan [.int 2, .int 2, .int 1] capgroupbytes with
  | [_, _, .int ncores] => ncores = 0 ∨ 5 + coreCount ≤ capgroupbytes.length
  | _ => false

/-- Read the table; the objects of an earlier reading are used again. A table that is
cut off in front of its second capping group raises. -/
def read (cls : PartitionClass D) (parms : Parms) (value : List Digit)
    (partitionObjectList : List (Object D)) : Option (Table D) := do
  let map ← (ints 2 parms.coreCount).run (bytesOfDigits value)
  let partitions ← (many (setBytes cls parms.coreCount) parms.partMaxPart).run map.2
  if showsCappingGroups parms.coreCount partitions.2 then
    some {
      partMaxPart := parms.partMaxPart
      coreCount := parms.coreCount
      core2partList := map.1
      partitionObjectList := partitions.1 ++ partitionObjectList.drop parms.partMaxPart
      capgroupbytes := partitions.2
      padend := partitions.2.drop (5 * (parms.coreCount + 6)) }
  else none

/-- `lindex`, with nothing at an index that is not one of the list. -/
def lindex (ns : List ℤ) (c : ℤ) : Option ℤ := if c < 0 then none else ns[c.toNat]?

/-- Make a partition the owner of a core, unless the core has one or is none. -/
def claimCore (id : ℤ) (core2partList : List ℤ) (c : ℤ) : Option (List ℤ) :=
  if lindex core2partList c ≠ some invalidCoreGroup then none
  else some (core2partList.set c.toNat id)

/-- Make the partitions the owners of the cores they list. -/
def claimCores : List (Object D) → List ℤ → Option (List ℤ)
  | [], core2partList => some core2partList
  | partition :: partitions, core2partList => do
    let core2partList ←
      partition.head.coreListValid.foldlM (claimCore partition.head.id) core2partList
    claimCores partitions core2partList

/-- Write the table; what is sent, if anything. -/
def write (cls : PartitionClass D) (t : Table D) : Option (List Digit) := do
  let partitions := t.partitionObjectList.take t.partMaxPart
  let core2partList ← claimCores partitions (List.replicate t.coreCount invalidCoreGroup)
  let records ← partitions.mapM (getBytes cls t.coreCount)
  pure (hexDigits (core2partList.flatMap (bigEndian 2) ++ records.flatten ++ t.capgroupbytes))

/-! ## Owners

Whether the cores can be given to the partitions, and who owns them then, is seen from
the list of all claims in the order in which they are made. -/

/-- The claims of the partitions: an identifier and a core each. -/
def claims (partitions : List (Object D)) : List (ℤ × ℤ) :=
  partitions.flatMap fun partition =>
    partition.head.coreListValid.map fun c => (partition.head.id, c)

/-- Meet a claim. -/
def meet (core2partList : List ℤ) (claim : ℤ × ℤ) : Option (List ℤ) :=
  claimCore claim.1 core2partList claim.2

theorem claimCores_eq (partitions : List (Object D)) (core2partList : List ℤ) :
    claimCores partitions core2partList = (claims partitions).foldlM meet core2partList := by
  induction partitions generalizing core2partList with
  | nil => rfl
  | cons partition partitions ih =>
      have hclaims : claims (partition :: partitions) =
          (partition.head.coreListValid.map fun c => (partition.head.id, c)) ++
            claims partitions := rfl
      rw [claimCores, hclaims, List.foldlM_append, List.foldlM_map]
      exact bind_congr fun core2partList => ih core2partList

/-- A claim is met if the core is there and has no owner. -/
theorem meet_eq_some {core2partList after : List ℤ} {claim : ℤ × ℤ} :
    meet core2partList claim = some after ↔
      ∃ k : ℕ, claim.2 = k ∧ core2partList[k]? = some invalidCoreGroup ∧
        after = core2partList.set k claim.1 := by
  rw [meet, claimCore, lindex]
  by_cases hneg : claim.2 < 0
  · rw [if_pos hneg]
    constructor
    · intro h
      simp at h
    · rintro ⟨k, hk, -, -⟩
      omega
  · rw [if_neg hneg]
    constructor
    · intro h
      split_ifs at h with hfree
      exact ⟨claim.2.toNat, by omega, not_not.mp hfree, (Option.some.inj h).symm⟩
    · rintro ⟨k, hk, hfree, rfl⟩
      rw [hk, Int.toNat_natCast, if_neg (not_not.mpr hfree)]

/-- All claims are met exactly if every claimed core is there and free, and of two
claims of one core the first is made under the number that stands for no owner. -/
theorem meet_all_isSome_iff (claims : List (ℤ × ℤ)) (core2partList : List ℤ) :
    (claims.foldlM meet core2partList).isSome ↔
      (∀ claim ∈ claims, ∃ k : ℕ, claim.2 = k ∧ core2partList[k]? = some invalidCoreGroup) ∧
        claims.Pairwise fun first second =>
          first.2 = second.2 → first.1 = invalidCoreGroup := by
  induction claims generalizing core2partList with
  | nil => simp
  | cons claim claims ih =>
      rw [List.foldlM_cons, List.forall_mem_cons, List.pairwise_cons]
      cases hmeet : meet core2partList claim with
      | none =>
          constructor
          · intro h
            simp at h
          · rintro ⟨⟨⟨k, hk, hfree⟩, -⟩, -⟩
            have hsome := meet_eq_some.mpr ⟨k, hk, hfree, rfl⟩
            rw [hmeet] at hsome
            exact absurd hsome (by simp)
      | some after =>
          obtain ⟨k, hk, hfree, rfl⟩ := meet_eq_some.mp hmeet
          obtain ⟨hlt, -⟩ := List.getElem?_eq_some_iff.mp hfree
          have hset : ∀ j, (core2partList.set k claim.1)[j]? = some invalidCoreGroup ↔
              core2partList[j]? = some invalidCoreGroup ∧
                (j = k → claim.1 = invalidCoreGroup) := by
            intro j
            rw [List.getElem?_set]
            by_cases hj : k = j
            · subst hj
              rw [hfree]
              simp [hlt]
            · have hne : j ≠ k := fun h => hj h.symm
              simp [hj, hne]
          show (claims.foldlM meet (core2partList.set k claim.1)).isSome ↔ _
          rw [ih]
          simp only [hset]
          constructor
          · rintro ⟨hfrees, hpairs⟩
            refine ⟨⟨⟨k, hk, hfree⟩, ?_⟩, ?_, hpairs⟩
            · intro next hnext
              obtain ⟨j, hj, hfreej, -⟩ := hfrees next hnext
              exact ⟨j, hj, hfreej⟩
            · intro next hnext hsame
              obtain ⟨j, hj, -, hinvalid⟩ := hfrees next hnext
              exact hinvalid (by omega)
          · rintro ⟨⟨-, hfrees⟩, hfirst, hpairs⟩
            refine ⟨?_, hpairs⟩
            intro next hnext
            obtain ⟨j, hj, hfreej⟩ := hfrees next hnext
            exact ⟨j, hj, hfreej, fun hjk => hfirst next hnext (by omega)⟩

/-- The owner of a core when all claims of it are made under one number. -/
theorem meet_all_getElem {claims : List (ℤ × ℤ)} {core2partList after : List ℤ}
    (met : claims.foldlM meet core2partList = some after) {k : ℕ} {id : ℤ}
    (same : ∀ claim ∈ claims, claim.2 = k → claim.1 = id)
    (owned : core2partList[k]? = some id ∨ ∃ claim ∈ claims, claim.2 = k) :
    after[k]? = some id := by
  induction claims generalizing core2partList with
  | nil =>
      obtain rfl : core2partList = after := Option.some.inj met
      obtain hold | ⟨claim, hclaim, -⟩ := owned
      · exact hold
      · exact absurd hclaim List.not_mem_nil
  | cons claim claims ih =>
      rw [List.foldlM_cons] at met
      obtain ⟨next, hmeet, hrest⟩ := Option.bind_eq_some_iff.mp met
      obtain ⟨j, hj, hfree, rfl⟩ := meet_eq_some.mp hmeet
      obtain ⟨hlt, -⟩ := List.getElem?_eq_some_iff.mp hfree
      refine ih hrest (fun other hother => same other (List.mem_cons_of_mem _ hother)) ?_
      by_cases hjk : j = k
      · subst hjk
        left
        rw [List.getElem?_set_self hlt, same claim List.mem_cons_self hj]
      · rw [List.getElem?_set_ne hjk]
        obtain hold | ⟨other, hother, hcore⟩ := owned
        · exact Or.inl hold
        · obtain rfl | hmem := List.mem_cons.mp hother
          · exact absurd (by omega) hjk
          · exact Or.inr ⟨other, hmem, hcore⟩

/-- Meeting claims keeps the number of cores. -/
theorem meet_all_length {claims : List (ℤ × ℤ)} {core2partList after : List ℤ}
    (met : claims.foldlM meet core2partList = some after) :
    after.length = core2partList.length := by
  induction claims generalizing core2partList with
  | nil =>
      obtain rfl : core2partList = after := Option.some.inj met
      rfl
  | cons claim claims ih =>
      rw [List.foldlM_cons] at met
      obtain ⟨next, hmeet, hrest⟩ := Option.bind_eq_some_iff.mp met
      obtain ⟨j, -, -, rfl⟩ := meet_eq_some.mp hmeet
      rw [ih hrest, List.length_set]

end Amester.Partition
