/-
# Reading a parameter table

The firmware encodes its parameters one behind the other, each as its name, its type, its
mode, its vector length, and for strings and raw bytes the length of an element. However
it splits the table into answers, `init` registers these parameters in their order.

Both lengths have 32 bits and are cut down to 16, and the number of parameters has 16 bits
and is read with a sign. The object of a parameter is a command behind the name of the
controller, as those of the sensors, the trace buffers and the parameter interface are, and
`init` stops at a name that one of them has. So a table is registered as it is if the lengths
have 16 bits, the number has 15 and the names are free.
-/

import Amester.Discovery.SensorTable
import Amester.Parm.Codec

namespace Amester.Discovery

open BinaryFormat Parm

/-! ## The table -/

/-- The type number of a type. -/
def typenum : ParmType → ℕ
  | .uint8 => 0
  | .uint16 => 1
  | .uint32 => 2
  | .uint64 => 3
  | .int8 => 4
  | .int16 => 5
  | .int32 => 6
  | .int64 => 7
  | .string => 8
  | .raw => 9

private theorem num2type_typenum (type : ParmType) : num2type (typenum type) = some type := by
  cases type <;> rfl

private theorem typenum_lt (type : ParmType) : typenum type < 2 ^ 8 := by
  cases type <;> decide

/-- A parameter of the firmware. The length is that of an element, for a type that does not
say it. -/
structure ParmEntry where
  name : Name
  type : ParmType
  mode : ℕ
  vectorlength : ℕ
  length : ℕ
  name_nonempty : name ≠ []
  name_chars : ∀ b ∈ name, IsIdentifier b
  mode_lt : mode < 2 ^ 8
  vectorlength_lt : vectorlength < 2 ^ 32
  length_lt : length < 2 ^ 32

namespace ParmEntry

variable (e : ParmEntry)

/-- The length of an element in the record. -/
def lengthField : Bytes :=
  match elementLength e.type with
  | some _ => []
  | none => bigEndian 4 e.length

/-- The record of a parameter. -/
def encode : Bytes :=
  e.name ++ 0 :: (bigEndian 1 (typenum e.type) ++ (bigEndian 1 e.mode ++
    (bigEndian 4 e.vectorlength ++ e.lengthField)))

/-- The size of an element. -/
def size : ℕ :=
  match elementLength e.type with
  | some length => length.toNat
  | none => e.length

/-- Both lengths have sixteen bits. -/
def Fits : Prop := e.vectorlength < 2 ^ 16 ∧ e.size < 2 ^ 16

/-- The object of the parameter with a number. -/
def obj (number : ℕ) : ParmObj where
  name := nameText e.name
  number := number
  type := e.type
  mode := e.mode
  vectorsize := e.vectorlength % 2 ^ 16
  size := e.size % 2 ^ 16
  sizes_lt := ⟨Nat.mod_lt _ (by decide), Nat.mod_lt _ (by decide)⟩

theorem encode_ne_nil : e.encode ≠ [] := by
  rw [encode, Ne, List.append_eq_nil_iff, not_and]
  exact fun h => absurd h e.name_nonempty

theorem name_nulFree : 0 ∉ e.name := by
  intro hmem
  exact absurd (e.name_chars 0 hmem) (by decide)

theorem name_last : e.name.getLast? ≠ some 32 := by
  intro hlast
  exact absurd (e.name_chars 32 (List.mem_of_getLast? hlast)) (by decide)

end ParmEntry

/-! ## Scanned integers -/

/-- The low bits of an integer that was written. -/
theorem signed_bigEndian_emod {width bits : ℕ} (within : bits ∣ 256 ^ width) (n : ℕ) :
    signed (bigEndian width n) % bits = n % bits := by
  rw [signed_bigEndian]
  have hmod : (n : ℤ).bmod (256 ^ width) % ((256 ^ width : ℕ) : ℤ) =
      (n : ℤ) % ((256 ^ width : ℕ) : ℤ) := Int.bmod_emod
  exact Int.ModEq.of_dvd (by exact_mod_cast within) hmod

private theorem signed_bigEndian_one {n : ℕ} (small : n < 2 ^ 8) :
    (signed (bigEndian 1 n) % 256).toNat = n := by
  have hmod : signed (bigEndian 1 n) % (256 : ℕ) = n % (256 : ℕ) :=
    signed_bigEndian_emod (dvd_refl _) n
  norm_num at hmod small
  rw [hmod]
  omega

private theorem low16_signed_bigEndian (n : ℕ) : low16 (signed (bigEndian 4 n)) = n % 2 ^ 16 := by
  have hmod : signed (bigEndian 4 n) % (2 ^ 16 : ℕ) = n % (2 ^ 16 : ℕ) :=
    signed_bigEndian_emod (by decide) n
  rw [low16]
  norm_num at hmod ⊢
  rw [hmod]
  omega

/-! ## One record -/

section Record

variable (e : ParmEntry) (before after : Bytes)

private theorem stringEnd_encode :
    stringEnd (before ++ (e.encode ++ after)) before.length =
      before.length + e.name.length := by
  have hdata : before ++ (e.encode ++ after) =
      before ++ (e.name ++ 0 :: (bigEndian 1 (typenum e.type) ++ (bigEndian 1 e.mode ++
        (bigEndian 4 e.vectorlength ++ e.lengthField)) ++ after)) := by
    simp [ParmEntry.encode]
  rw [hdata, stringEnd_append e.name_nulFree]

private theorem scannedName_parm :
    scannedName (before ++ (e.encode ++ after)) before.length = e.name := by
  rw [scannedName, stringEnd_encode, List.drop_left, Nat.add_sub_cancel_left, ParmEntry.encode,
    List.append_assoc, List.take_left]
  exact stripped_of_last e.name_nulFree e.name_last

/-- The fixed fields of a record. -/
theorem scan_fixed :
    ∃ n₀ n₁ n₂, scan [.int 1, .int 1, .int 4]
        ((before ++ (e.encode ++ after)).drop (before.length + e.name.length + 1)) =
      [.int n₀, .int n₁, .int n₂] ∧ (n₀ % 256).toNat = typenum e.type ∧
      (n₁ % 256).toNat = e.mode ∧ low16 n₂ = e.vectorlength % 2 ^ 16 := by
  have hdata : before ++ (e.encode ++ after) =
      (before ++ (e.name ++ [0])) ++ (bigEndian 1 (typenum e.type) ++ (bigEndian 1 e.mode ++
        (bigEndian 4 e.vectorlength ++ (e.lengthField ++ after)))) := by
    simp [ParmEntry.encode]
  have hlength : (before ++ (e.name ++ [0])).length = before.length + e.name.length + 1 := by
    simp [Nat.add_assoc]
  refine ⟨_, _, _, ?_, signed_bigEndian_one (typenum_lt e.type), signed_bigEndian_one e.mode_lt,
    low16_signed_bigEndian e.vectorlength⟩
  rw [hdata, ← hlength, List.drop_left, scan_append _ _ (by simp [Field.size]),
    scan_append _ _ (by simp [Field.size]), scan_append _ _ (by simp [Field.size]), scan_nil,
    Field.convert, Field.convert, Field.convert]

/-- The fields behind the fixed ones. -/
theorem drop_fixed :
    (before ++ (e.encode ++ after)).drop (before.length + e.name.length + 7) =
      e.lengthField ++ after := by
  have hdata : before ++ (e.encode ++ after) =
      (before ++ (e.name ++ 0 :: (bigEndian 1 (typenum e.type) ++ (bigEndian 1 e.mode ++
        bigEndian 4 e.vectorlength)))) ++ (e.lengthField ++ after) := by
    simp [ParmEntry.encode]
  have hlength : (before ++ (e.name ++ 0 :: (bigEndian 1 (typenum e.type) ++
      (bigEndian 1 e.mode ++ bigEndian 4 e.vectorlength)))).length =
        before.length + e.name.length + 7 := by
    simp [Nat.add_assoc]
  rw [hdata, ← hlength, List.drop_left]

private theorem length_encode_append :
    (before ++ e.encode).length =
      before.length + e.name.length + 7 + e.lengthField.length := by
  simp only [ParmEntry.encode, List.length_append, List.length_cons, length_bigEndian]
  omega

/-- The integers of the fixed fields are the variables behind their scan. -/
theorem scanned_fixed (old : Option ℤ) (n₀ n₁ n₂ : ℤ) :
    scanned intValue [.int n₀, .int n₁, .int n₂] 0 old = some n₀ ∧
      scanned intValue [.int n₀, .int n₁, .int n₂] 1 old = some n₁ ∧
      scanned intValue [.int n₀, .int n₁, .int n₂] 2 old = some n₂ :=
  ⟨rfl, rfl, rfl⟩

private theorem scanned_length (taken : Bytes) (old : ℤ) :
    (scanned intValue [Field.convert taken (.int 4)] 0 (some old)).getD 0 = signed taken := rfl

private theorem elementLength_nonneg {type : ParmType} {length : ℤ}
    (known : elementLength type = some length) : 0 ≤ length := by
  cases type <;> cases known <;> decide

/-- A type that says the size of its elements. -/
theorem parmLength_of_some {length : ℤ} (known : elementLength e.type = some length) :
    low16 length = e.size % 2 ^ 16 ∧
      (before ++ e.encode).length = before.length + e.name.length + 7 := by
  constructor
  · rw [ParmEntry.size, known]
    have hnonneg := elementLength_nonneg known
    simp only [low16]
    omega
  · rw [length_encode_append]
    simp only [ParmEntry.lengthField, known, List.length_nil, Nat.add_zero]

/-- A type with the size of its elements behind the fixed fields. -/
theorem parmLength_of_none (unknown : elementLength e.type = none) (old : ℤ) :
    ∃ n, (scanned intValue (scan [.int 4] ((before ++ (e.encode ++ after)).drop
        (before.length + e.name.length + 7))) 0 (some old)).getD 0 = n ∧
      low16 n = e.size % 2 ^ 16 ∧
      (before ++ e.encode).length = before.length + e.name.length + 7 + 4 := by
  have hfield : e.lengthField = bigEndian 4 e.length := by
    simp only [ParmEntry.lengthField, unknown]
  have hsize : e.size = e.length := by
    simp only [ParmEntry.size, unknown]
  refine ⟨signed (bigEndian 4 e.length), ?_, ?_, ?_⟩
  · rw [drop_fixed, hfield, scan_append [] after (by rw [Field.size, length_bigEndian]), scan_nil,
      scanned_length]
  · rw [hsize]
    exact low16_signed_bigEndian e.length
  · rw [length_encode_append, hfield, length_bigEndian]

/-- The record of a parameter registers its object, and the next record begins behind it. -/
theorem parmRecord_encode {make : Maker} {i : ℕ} {t : Parms}
    (makes : make (t.parmobjsAll.map Prod.fst) e.name) :
    ∃ t', parmRecord make (before ++ (e.encode ++ after)) i before.length t =
        .ok ((before ++ e.encode).length, t') ∧
      t'.parmobjsAll = t.parmobjsAll ++ [(e.name, e.obj i)] ∧
      t'.parmListNameAll = t.parmListNameAll ++ [e.name] := by
  obtain ⟨n₀, n₁, n₂, hscan, htypenum, hmode, hvector⟩ := scan_fixed e before after
  obtain ⟨h₀, -, -⟩ := scanned_fixed t.typenum n₀ n₁ n₂
  obtain ⟨-, h₁, -⟩ := scanned_fixed t.mode n₀ n₁ n₂
  obtain ⟨-, -, h₂⟩ := scanned_fixed t.vectorlength n₀ n₁ n₂
  cases hlength : elementLength e.type with
  | some length =>
      obtain ⟨hsize, hend⟩ := parmLength_of_some e before hlength
      simp only [parmRecord, stringEnd_encode, scannedName_parm, hscan, h₀, h₁, h₂, readVar_some,
        bind, Except.bind, htypenum, num2type_typenum, hlength, makes, if_true]
      rw [hend]
      exact ⟨_, rfl, by simp only [hmode, hvector, hsize, ParmEntry.obj], rfl⟩
  | none =>
      obtain ⟨n, hn, hsize, hend⟩ := parmLength_of_none e before after hlength t.length
      simp only [parmRecord, stringEnd_encode, scannedName_parm, hscan, h₀, h₁, h₂, readVar_some,
        bind, Except.bind, htypenum, num2type_typenum, hlength, hn, makes, if_true]
      rw [hend]
      exact ⟨_, rfl, by simp only [hmode, hvector, hsize, ParmEntry.obj], rfl⟩

end Record

/-! ## Names of objects -/

/-- The name `parm` of the parameter interface, which exists before it reads the table. -/
def parmInterface : Name := [112, 97, 114, 109]

/-- The names behind the controller's that commands have when the parameters are read: those of
the interface, of the sensors and the trace buffers, and of whatever else there is. -/
def takenNames (sensors : Sensors) (traces : Traces) (others : List Name) : List Name :=
  parmInterface ::
    (sensors.sensorobjsAll ++ traces.traceobjsAll.map TraceObj.tracename ++ others)

/-- `itcl` makes an object whose name is an identifier, unless a command has the name. -/
def MakesUntaken (taken : List Name) (make : Maker) : Prop :=
  ∀ (made : List Name) (s : Name), s ≠ [] → (∀ b ∈ s, IsIdentifier b) →
    (make made s = true ↔ s ∉ made ∧ s ∉ taken)

/-- All objects have been made under names that `itcl` allows. -/
def Accepted (make : Maker) (t : Parms) : Prop :=
  ∀ p ∈ t.parmobjsAll, ∃ made, make made p.1 = true

theorem parmRecord_accepted {make : Maker} {databytes : Bytes} {i j j' : ℕ} {t t' : Parms}
    (accepted : Accepted make t) (ok : parmRecord make databytes i j t = .ok (j', t')) :
    Accepted make t' := by
  simp only [parmRecord, bind, Except.bind] at ok
  split at ok
  · cases ok
  split at ok
  · cases ok
  split at ok
  · cases ok
  split at ok
  · cases ok
  split at ok
  · rename_i hmake
    cases ok
    intro p hp
    obtain hold | hnew := List.mem_append.mp hp
    · exact accepted p hold
    · obtain rfl := List.mem_singleton.mp hnew
      exact ⟨_, hmake⟩
  · cases ok

theorem takeParms_accepted {send : SendSync} {make : Maker} {i i' : ℕ} {t t' : Parms}
    (accepted : Accepted make t) (ok : takeParms send make i t = .ok (i', t')) :
    Accepted make t' := by
  rw [takeParms, take] at ok
  split at ok
  · obtain ⟨⟨_, haccepted⟩, -⟩ := Paging.records_keeps
      (fun _ _ t (h : Accepted make t) _ _ _ hrecord => parmRecord_accepted h hrecord)
      (i := i) (j := 0) (t := { t with length := 0 }) accepted ok
    exact haccepted
  · cases ok
    exact accepted

/-- Every object that `init` has made when it returns has a name that `itcl` allows. -/
theorem parmInit_accepted {send : SendSync} {make : Maker} {numparms : ℤ} {fuel : ℕ} {t : Parms}
    (finishes : parmInit send make numparms fuel = some (.ok t)) : Accepted make t := by
  rw [parmInit] at finishes
  split at finishes
  · cases finishes
  · rename_i n _
    rw [parmLoop, Option.map_eq_some_iff] at finishes
    obtain ⟨r, hrun, hr⟩ := finishes
    cases r with
    | error e => cases hr
    | ok t₀ =>
        cases hr
        have haccepted : Accepted make t₀ :=
          Paging.run_keeps (fun _ _ _ _ h htake => takeParms_accepted h htake)
            (fun _ hp => absurd hp List.not_mem_nil) hrun
        exact haccepted

/-! ## The whole table -/

/-- These parameters are registered in their order, with lengths of sixteen bits. -/
structure ParmsRegistered (table : List ParmEntry) (t : Parms) : Prop where
  objs : t.parmobjsAll = table.mapIdx fun number e => (e.name, e.obj number)
  names : t.parmListNameAll = table.map ParmEntry.name

private theorem parmsRegistered_nil : ParmsRegistered [] {} := ⟨rfl, rfl⟩

theorem ParmsRegistered.made {table : List ParmEntry} {t : Parms}
    (registered : ParmsRegistered table t) :
    t.parmobjsAll.map Prod.fst = table.map ParmEntry.name := by
  rw [registered.objs]
  apply List.ext_getElem?
  intro k
  simp only [List.getElem?_map, List.getElem?_mapIdx, Option.map_map]
  rfl

/-- The firmware says how many parameters it has, and answers the request for those from a
number on with any positive number of whole records. -/
structure ServesParms (send : SendSync) (table : List ParmEntry) : Prop where
  count : send [0x40] = (0, bigEndian 2 table.length)
  records : ∀ k < table.length, ∃ m, 0 < m ∧
    send (parmRequest k) = (0, ((table.drop k).take m).flatMap ParmEntry.encode)

section Table

variable {send : SendSync} {make : Maker} {table : List ParmEntry} {taken : List Name}

/-- An answer takes the registered parameters from one number to a later one. -/
theorem takeParms_table (makes : MakesUntaken taken make)
    (free : ∀ e ∈ table, e.name ∉ taken) (serves : ServesParms send table)
    (distinct : (table.map ParmEntry.name).Nodup) {k : ℕ} {t : Parms} (hk : k < table.length)
    (registered : ParmsRegistered (table.take k) t) :
    ∃ m t', 0 < m ∧
      takeParms send make k t = .ok (k + ((table.drop k).take m).length, t') ∧
      ParmsRegistered (table.take (k + m)) t' := by
  obtain ⟨m, hm, hsend⟩ := serves.records k hk
  have hlength : (table.take k).length = k := List.length_take_of_le hk.le
  have hreads : ∀ done e rest t, done ++ e :: rest = (table.drop k).take m →
      ParmsRegistered (table.take k ++ done) t → ∃ t',
        parmRecord make (((table.drop k).take m).flatMap ParmEntry.encode) (k + done.length)
          (done.flatMap ParmEntry.encode).length t =
            .ok (((done ++ [e]).flatMap ParmEntry.encode).length, t') ∧
        ParmsRegistered (table.take k ++ (done ++ [e])) t' := by
    intro done e rest t hsplit hdone
    have hnew := Paging.name_not_mem distinct hsplit
    have hmem : e ∈ table :=
      List.mem_of_mem_drop (List.mem_of_mem_take (hsplit ▸ List.mem_append_right done (by simp)))
    have hmake : make (t.parmobjsAll.map Prod.fst) e.name := by
      rw [hdone.made]
      exact (makes _ _ e.name_nonempty e.name_chars).mpr ⟨hnew, free e hmem⟩
    have hdata : ((table.drop k).take m).flatMap ParmEntry.encode =
        done.flatMap ParmEntry.encode ++ (e.encode ++ rest.flatMap ParmEntry.encode) := by
      rw [← hsplit, List.flatMap_append, List.flatMap_cons]
    obtain ⟨t', hrecord, hobjs, hnames⟩ := parmRecord_encode e (done.flatMap ParmEntry.encode)
      (rest.flatMap ParmEntry.encode) (i := k + done.length) hmake
    refine ⟨t', ?_, ?_, ?_⟩
    · rw [hdata, hrecord, List.flatMap_append, List.flatMap_singleton]
    · rw [hobjs, hdone.objs, ← List.append_assoc, List.mapIdx_concat, List.length_append, hlength]
    · rw [hnames, hdone.names, ← List.append_assoc, @List.map_append _ _ _ _ [e]]
      rfl
  have hstart : ParmsRegistered (table.take k ++ []) { t with length := 0 } := by
    rw [List.append_nil]
    exact ⟨registered.objs, registered.names⟩
  obtain ⟨t', hrecords, ht'⟩ := Paging.records_encoded ParmEntry.encode_ne_nil
    (fun done => ParmsRegistered (table.take k ++ done)) hreads hstart
    (Paging.length_le_length_flatMap ParmEntry.encode_ne_nil ((table.drop k).take m))
  refine ⟨m, t', hm, ?_, ?_⟩
  · rw [takeParms, take, hsend, if_pos rfl]
    exact hrecords
  · rwa [List.take_add]

/-- The number of parameters is read with a sign. -/
theorem askNumparms_eq (serves : ServesParms send table) :
    askNumparms send 0 = .ok (signed (bigEndian 2 table.length)) := by
  have hsize : (Field.int 2).size (bigEndian 2 table.length ++ []).length =
      (bigEndian 2 table.length).length := by
    rw [Field.size, length_bigEndian]
  have hscan := scan_append [] [] hsize
  rw [List.append_nil, scan_nil, Field.convert] at hscan
  rw [askNumparms, if_pos rfl, serves.count]
  simp only [ne_eq, not_true_eq_false, if_false, hscan]

/-- A number of fifteen bits is read as it is. -/
theorem parmInit_of_small (makes : MakesUntaken taken make)
    (free : ∀ e ∈ table, e.name ∉ taken) (serves : ServesParms send table)
    (distinct : (table.map ParmEntry.name).Nodup) (small : table.length < 2 ^ 15) :
    ∃ t, t.parmobjsAll = table.mapIdx (fun number e => (e.name, e.obj number)) ∧
      t.parmListNameAll = lsort (table.map ParmEntry.name) ∧
      ∃ enough, ∀ fuel ≥ enough, parmInit send make 0 fuel = some (.ok t) := by
  obtain ⟨t, registered, enough, hrun⟩ := Paging.run_served ParmsRegistered
    (fun k t hk hinv => takeParms_table makes free serves distinct hk hinv)
    parmsRegistered_nil
  refine ⟨{ t with
    parmListNameAll := lsort t.parmListNameAll
    parmobjsAllSorted := (lsort t.parmListNameAll).filterMap fun name =>
      t.parmobjsAll.reverse.find? fun obj => obj.1 = name }, registered.objs,
    congrArg lsort registered.names, enough, fun fuel hfuel => ?_⟩
  have hvalue : signed (bigEndian 2 table.length) = table.length :=
    signed_bigEndian_of_range (by norm_num; omega) (by norm_num; omega)
  rw [parmInit, askNumparms_eq serves, hvalue]
  simp only [parmLoop, hrun fuel hfuel]
  rfl

/-- A larger number is read as a negative one, and no parameter is asked for. -/
theorem parmInit_of_large (serves : ServesParms send table) (large : 2 ^ 15 ≤ table.length)
    (count : table.length < 2 ^ 16) (fuel : ℕ) :
    parmInit send make 0 (fuel + 1) = some (.ok {}) := by
  have hnegative : signed (bigEndian 2 table.length) ≤ ((0 : ℕ) : ℤ) := by
    rw [signed_bigEndian, Int.bmod_def]
    norm_num at large count ⊢
    split <;> omega
  rw [parmInit, askNumparms_eq serves]
  simp only [parmLoop, Paging.run_of_le hnegative]
  rfl

/-! ## The result -/

/-- Exactly the parameters of the table are registered, in their order, and each object has
what the table says. -/
def RegistersParms (send : SendSync) (make : Maker) (table : List ParmEntry) : Prop :=
  ∃ t, (∃ enough, ∀ fuel ≥ enough, parmInit send make 0 fuel = some (.ok t)) ∧
    t.parmListNameAll = lsort (table.map ParmEntry.name) ∧
    t.parmobjsAll.length = table.length ∧
    ∀ (k : ℕ) (e : ParmEntry), table[k]? = some e → ∃ obj, t.parmobjsAll[k]? = some (e.name, obj) ∧
      obj.name = nameText e.name ∧ obj.number = k ∧ obj.type = e.type ∧ obj.mode = e.mode ∧
      obj.vectorsize = e.vectorlength ∧ obj.size = e.size ∧
      obj.bytecount = e.vectorlength * e.size

/-- Every object has elements of the size of its type. -/
theorem ParmEntry.obj_configured (e : ParmEntry) (number : ℕ) : (e.obj number).Configured := by
  intro width hwidth
  have hsize : (e.obj number).size = e.size % 2 ^ 16 := rfl
  rw [hsize, ParmEntry.size]
  have htype : (e.obj number).type = e.type := rfl
  rw [htype] at hwidth
  generalize e.type = type at hwidth ⊢
  cases type <;> cases hwidth <;> rfl

/-- The parameters of a table that is registered have free names. -/
theorem RegistersParms.free (makes : MakesUntaken taken make)
    (registers : RegistersParms send make table) : ∀ e ∈ table, e.name ∉ taken := by
  obtain ⟨t, ⟨enough, hrun⟩, -, -, hentries⟩ := registers
  have haccepted := parmInit_accepted (hrun enough le_rfl)
  intro e he
  obtain ⟨k, hk, rfl⟩ := List.getElem_of_mem he
  obtain ⟨obj, hobj, -⟩ := hentries k _ (List.getElem?_eq_getElem hk)
  obtain ⟨made, hmake⟩ := haccepted _ (List.mem_of_getElem? hobj)
  exact ((makes made _ table[k].name_nonempty table[k].name_chars).mp hmake).2

/-- A table of distinct names is registered as it is just if its number of parameters has
fifteen bits, all lengths have sixteen, and no other command has one of the names. -/
theorem init_registers_iff {sensors : Sensors} {traces : Traces} {others : List Name}
    (makes : MakesUntaken (takenNames sensors traces others) make)
    (serves : ServesParms send table) (distinct : (table.map ParmEntry.name).Nodup)
    (count : table.length < 2 ^ 16) :
    RegistersParms send make table ↔ table.length < 2 ^ 15 ∧
      ∀ e ∈ table, e.Fits ∧ e.name ∉ takenNames sensors traces others := by
  by_cases hfree : ∀ e ∈ table, e.name ∉ takenNames sensors traces others
  swap
  · exact iff_of_false (fun registers => hfree (registers.free makes))
      fun h => hfree fun e he => (h.2 e he).2
  by_cases small : table.length < 2 ^ 15
  · obtain ⟨t, hobjs, hnames, enough, hrun⟩ := parmInit_of_small makes hfree serves distinct small
    have hget : ∀ (k : ℕ) (e : ParmEntry), table[k]? = some e →
        t.parmobjsAll[k]? = some (e.name, e.obj k) := by
      intro k e he
      rw [hobjs, List.getElem?_mapIdx, he, Option.map_some]
    constructor
    · rintro ⟨t', ⟨enough', hrun'⟩, -, -, hentries⟩
      refine ⟨small, fun e he => ⟨?_, hfree e he⟩⟩
      have hsame := (hrun _ (Nat.le_max_left enough enough')).symm.trans
        (hrun' _ (Nat.le_max_right enough enough'))
      obtain rfl : t = t' := Except.ok.inj (Option.some.inj hsame)
      obtain ⟨k, hk, rfl⟩ := List.getElem_of_mem he
      have hentry : table[k]? = some table[k] := List.getElem?_eq_getElem hk
      obtain ⟨obj, hobj, -, -, -, -, hvector, hsize, -⟩ := hentries k _ hentry
      rw [hget k _ hentry] at hobj
      obtain rfl : table[k].obj k = obj := (Prod.mk.inj (Option.some.inj hobj)).2
      exact ⟨hvector ▸ (ParmObj.sizes_lt _).1, hsize ▸ (ParmObj.sizes_lt _).2⟩
    · rintro ⟨-, hfits⟩
      refine ⟨t, ⟨enough, hrun⟩, hnames, by rw [hobjs, List.length_mapIdx], fun k e he => ?_⟩
      obtain ⟨hvector, hsize⟩ := (hfits e (List.mem_of_getElem? he)).1
      have hv : (e.obj k).vectorsize = e.vectorlength := Nat.mod_eq_of_lt hvector
      have hs : (e.obj k).size = e.size := Nat.mod_eq_of_lt hsize
      refine ⟨e.obj k, hget k e he, rfl, rfl, rfl, rfl, hv, hs, ?_⟩
      rw [ParmObj.bytecount, hv, hs]
  · refine iff_of_false ?_ fun h => small h.1
    rintro ⟨t, ⟨enough, hrun⟩, -, hlength, -⟩
    have hempty : parmInit send make 0 (enough + 1) = some (.ok {}) :=
      parmInit_of_large serves (Nat.le_of_not_lt small) count enough
    have hsame := (hrun (enough + 1) (Nat.le_succ enough)).symm.trans hempty
    obtain rfl : t = {} := Except.ok.inj (Option.some.inj hsame)
    rw [List.length_nil] at hlength
    rw [← hlength] at small
    exact small (by decide)

end Table

/-! ## Two tables -/

/-- Two parameters, three 16-bit integers "A" and a string of five bytes "B". -/
def twoParms : List ParmEntry :=
  [⟨[65], .int16, 1, 3, 0, by simp, by simp [IsIdentifier], by decide, by decide, by decide⟩,
    ⟨[66], .string, 2, 1, 5, by simp, by simp [IsIdentifier], by decide, by decide, by decide⟩]

/-- A parameter of 65536 bytes. -/
def longVector : List ParmEntry :=
  [⟨[65], .uint8, 1, 65536, 0, by simp, by simp [IsIdentifier], by decide, by decide, by decide⟩]

/-- A firmware that answers with one record of a table at a time. -/
def sendParms (table : List ParmEntry) : SendSync := fun request =>
  if request = [0x40] then (0, bigEndian 2 table.length)
  else if request = parmRequest 0 then (0, (table.take 1).flatMap ParmEntry.encode)
  else (0, (table.drop 1).flatMap ParmEntry.encode)

theorem sendParms_serves {table : List ParmEntry} (two : table.length ≤ 2) :
    ServesParms (sendParms table) table where
  count := rfl
  records := by
    intro k hk
    refine ⟨1, one_pos, ?_⟩
    obtain rfl | rfl : k = 0 ∨ k = 1 := by omega
    · rfl
    · have hone : (table.drop 1).take 1 = table.drop 1 :=
        List.take_of_length_le (by rw [List.length_drop]; omega)
      rw [hone]
      rfl

/-- `itcl` beside some commands. -/
def makeBeside (taken : List Name) : Maker := fun made s => s ∉ made ∧ s ∉ taken

theorem makeBeside_makes (taken : List Name) : MakesUntaken taken (makeBeside taken) :=
  fun _ _ _ _ => decide_eq_true_iff

theorem init_registers_two :
    RegistersParms (sendParms twoParms) (makeBeside (takenNames {} {} [])) twoParms :=
  (init_registers_iff (makeBeside_makes _) (sendParms_serves (by decide)) (by decide)
    (by decide)).mpr
    ⟨by decide, by simp [twoParms, ParmEntry.Fits, ParmEntry.size, elementLength, takenNames,
      parmInterface]⟩

/-- A vector of 65536 elements is registered without elements. -/
theorem init_cuts_vector_length :
    ServesParms (sendParms longVector) longVector ∧
    ((parmInit (sendParms longVector) (makeBeside (takenNames {} {} [])) 0 2).map fun r =>
      r.toOption.map fun t => t.parmobjsAll.map fun obj => (obj.1, obj.2.vectorsize)) =
      some (some [([65], 0)]) ∧
    ¬ RegistersParms (sendParms longVector) (makeBeside (takenNames {} {} [])) longVector := by
  refine ⟨sendParms_serves (by decide), by decide +kernel, ?_⟩
  rintro ⟨t, -, -, -, hentries⟩
  obtain ⟨obj, -, -, -, -, -, hvector, -⟩ := hentries 0 _ rfl
  have hlt := obj.sizes_lt.1
  rw [hvector] at hlt
  exact absurd hlt (by decide)

end Amester.Discovery
