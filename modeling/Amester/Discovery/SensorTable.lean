/-
# Reading a sensor table

The firmware encodes its sensors one behind the other, each as its name, its unit, its
frequency and its scale factor, and answers a request with some whole records from the
requested number on. However it splits the table into answers, `init_sensors` registers
exactly these sensors, each under its own number.
-/

import Amester.Discovery.Termination
import Mathlib.Data.Set.Function

namespace Amester.Discovery

open BinaryFormat Parm

/-! ## The table -/

/-- A letter, a digit or an underscore. -/
def IsIdentifier (b : UInt8) : Prop :=
  65 ≤ b ∧ b ≤ 90 ∨ 97 ≤ b ∧ b ≤ 122 ∨ 48 ≤ b ∧ b ≤ 57 ∨ b = 95

instance (b : UInt8) : Decidable (IsIdentifier b) := by
  unfold IsIdentifier
  infer_instance

/-- A sensor of the firmware. -/
structure SensorEntry where
  name : Name
  unit : Bytes
  freq : Bytes
  scale : Bytes
  name_nonempty : name ≠ []
  name_chars : ∀ b ∈ name, IsIdentifier b ∨ b = 45
  unit_nulFree : 0 ∉ unit
  unit_last : unit.getLast? ≠ some 32
  freq_length : freq.length = 4
  scale_length : scale.length = 4

namespace SensorEntry

variable (e : SensorEntry)

/-- The record of a sensor. -/
def encode : Bytes := e.name ++ 0 :: (e.unit ++ 0 :: (e.freq ++ e.scale))

/-- The name of its object. -/
def sensorname : Name := translate e.name

/-- The object of the sensor with a number. -/
def obj (sensornum : ℕ) : SensorObj := ⟨e.sensorname, sensornum, e.unit, e.freq, e.scale⟩

theorem length_encode : e.encode.length = e.name.length + e.unit.length + 10 := by
  simp only [encode, List.length_append, List.length_cons, e.freq_length, e.scale_length]
  omega

theorem encode_ne_nil : e.encode ≠ [] := by
  rw [← List.length_pos_iff, length_encode]
  exact Nat.succ_pos _

theorem name_nulFree : 0 ∉ e.name := by
  intro hmem
  rcases e.name_chars 0 hmem with h | h
  · revert h
    decide
  · exact absurd h (by decide)

theorem name_last : e.name.getLast? ≠ some 32 := by
  intro hlast
  rcases e.name_chars 32 (List.mem_of_getLast? hlast) with h | h
  · revert h
    decide
  · exact absurd h (by decide)

end SensorEntry

/-- A table encoded. -/
def encodeTable (entries : List SensorEntry) : Bytes := entries.flatMap SensorEntry.encode

@[simp]
theorem encodeTable_nil : encodeTable [] = [] := rfl

private theorem encodeTable_append (first second : List SensorEntry) :
    encodeTable (first ++ second) = encodeTable first ++ encodeTable second :=
  List.flatMap_append

private theorem encodeTable_cons (e : SensorEntry) (entries : List SensorEntry) :
    encodeTable (e :: entries) = e.encode ++ encodeTable entries := rfl

/-! ## Strings -/

theorem stringEnd_append {bytes : Bytes} (nulFree : 0 ∉ bytes) (before after : Bytes) :
    stringEnd (before ++ (bytes ++ 0 :: after)) before.length = before.length + bytes.length := by
  have hall : ∀ b ∈ bytes, decide (b ≠ 0) = true := by
    intro b hmem
    exact decide_eq_true (ne_of_mem_of_not_mem hmem nulFree)
  rw [stringEnd, List.drop_left, List.takeWhile_append_of_pos hall,
    List.takeWhile_cons_of_neg (by decide), List.append_nil]

/-- A string without a blank or a zero byte at its end is scanned as it is. -/
theorem stripped_of_last {bytes : Bytes} (nulFree : 0 ∉ bytes) (last : bytes.getLast? ≠ some 32) :
    stripped bytes = bytes := by
  rw [← List.head?_reverse] at last
  rw [← List.mem_reverse] at nulFree
  unfold stripped
  cases hreverse : bytes.reverse with
  | nil =>
      rw [List.dropWhile_nil, ← hreverse, List.reverse_reverse]
  | cons b rest =>
      rw [hreverse] at last nulFree
      have hblank : b ≠ 32 := fun h => last (by rw [h, List.head?_cons])
      have hzero : b ≠ 0 := fun h => nulFree (by rw [h]; exact List.mem_cons_self)
      rw [List.dropWhile_cons_of_neg (by simp [hblank, hzero]), ← hreverse, List.reverse_reverse]

/-! ## One record -/

section Record

variable (e : SensorEntry) (before after : Bytes)

private theorem scannedName_encode :
    scannedName (before ++ (e.encode ++ after)) before.length = e.name := by
  have hdata : before ++ (e.encode ++ after) =
      before ++ (e.name ++ 0 :: (e.unit ++ 0 :: (e.freq ++ e.scale) ++ after)) := by
    simp [SensorEntry.encode]
  rw [scannedName, hdata, stringEnd_append e.name_nulFree, List.drop_left,
    Nat.add_sub_cancel_left, List.take_left]
  exact stripped_of_last e.name_nulFree e.name_last

/-- The unit of a record begins behind its name. -/
theorem unit_of_encode :
    stringEnd (before ++ (e.encode ++ after)) before.length + 1 =
        (before ++ (e.name ++ [0])).length ∧
      before ++ (e.encode ++ after) =
        before ++ (e.name ++ [0]) ++ (e.unit ++ 0 :: (e.freq ++ e.scale ++ after)) := by
  have hdata : before ++ (e.encode ++ after) =
      before ++ (e.name ++ 0 :: (e.unit ++ 0 :: (e.freq ++ e.scale) ++ after)) := by
    simp [SensorEntry.encode]
  refine ⟨?_, by simp [SensorEntry.encode]⟩
  rw [hdata, stringEnd_append e.name_nulFree]
  simp [Nat.add_assoc]

private theorem unitEnd_encode :
    unitEnd (before ++ (e.encode ++ after)) before.length =
      before.length + e.name.length + 1 + e.unit.length := by
  obtain ⟨hstart, hdata⟩ := unit_of_encode e before after
  rw [unitEnd, hstart, hdata, stringEnd_append e.unit_nulFree]
  simp only [List.length_append, List.length_singleton]
  omega

private theorem scannedUnit_encode :
    scannedUnit (before ++ (e.encode ++ after)) before.length = e.unit := by
  have hend := unitEnd_encode e before after
  obtain ⟨hstart, hdata⟩ := unit_of_encode e before after
  have hlength : before.length + e.name.length + 1 + e.unit.length -
      (before ++ (e.name ++ [0])).length = e.unit.length := by
    simp only [List.length_append, List.length_singleton]
    omega
  rw [scannedUnit, hstart, hend, hlength, hdata, List.drop_left, List.take_left]

/-- The fixed fields of a record. -/
theorem drop_unitEnd_encode :
    (before ++ (e.encode ++ after)).drop
        (unitEnd (before ++ (e.encode ++ after)) before.length + 1) =
      e.freq ++ (e.scale ++ after) := by
  have hdata : before ++ (e.encode ++ after) =
      (before ++ (e.name ++ 0 :: (e.unit ++ [0]))) ++ (e.freq ++ (e.scale ++ after)) := by
    simp [SensorEntry.encode]
  have hlength : before.length + e.name.length + 1 + e.unit.length + 1 =
      (before ++ (e.name ++ 0 :: (e.unit ++ [0]))).length := by
    simp only [List.length_append, List.length_cons, List.length_nil]
    omega
  rw [unitEnd_encode, hlength, hdata, List.drop_left]

/-- The record of a sensor registers the sensor, and the next record begins behind it. -/
theorem sensorRecord_encode {make : Maker} {i : ℕ} {t : Sensors}
    (makes : make t.sensorobjsAll e.sensorname) :
    sensorRecord make (before ++ (e.encode ++ after)) i before.length t =
      .ok ((before ++ e.encode).length, t.register i e.sensorname e.unit e.freq e.scale) := by
  have hwhole : SensorWhole (before ++ (e.encode ++ after)) before.length := by
    rw [SensorWhole, unitEnd_encode]
    simp only [List.length_append, e.length_encode]
    omega
  obtain ⟨hfreq, hscale⟩ := scanned_of_whole hwhole t.dataFreq t.dataScale
  have hname := scannedName_encode e before after
  rw [SensorEntry.sensorname, ← hname] at makes
  have hrecord := sensorRecord_of_set (i := i) makes hfreq hscale
  have hend : unitEnd (before ++ (e.encode ++ after)) before.length + 9 =
      (before ++ e.encode).length := by
    rw [unitEnd_encode, List.length_append, e.length_encode]
    omega
  have hdropScale : (e.freq ++ (e.scale ++ after)).drop 4 = e.scale ++ after :=
    List.drop_left' e.freq_length
  rw [drop_unitEnd_encode, hdropScale, List.take_left' e.freq_length,
    List.take_left' e.scale_length, hname, scannedUnit_encode, hend] at hrecord
  exact hrecord

end Record

/-! ## The whole table -/

/-- Exactly these sensors are registered: in their order, each under its own number. -/
structure Registered (entries : List SensorEntry) (t : Sensors) : Prop where
  objs : t.sensorobjsAll = entries.map SensorEntry.sensorname
  list : t.sensorListAll = List.range entries.length
  listName : t.sensorListAllName = entries.map SensorEntry.sensorname
  num : ∀ k, t.sensornum2obj k = (entries[k]?).map SensorEntry.sensorname
  objects : ∀ k (e : SensorEntry), entries[k]? = some e → t.objects e.sensorname = some (e.obj k)
  others : ∀ s ∉ entries.map SensorEntry.sensorname, t.objects s = none

private theorem registered_nil : Registered [] {} where
  objs := rfl
  list := rfl
  listName := rfl
  num := fun _ => rfl
  objects := nofun
  others := fun _ _ => rfl

private theorem appendNew_of_not_mem {α : Type*} [DecidableEq α] {list : List α} {a : α}
    (new : a ∉ list) : appendNew list a = list ++ [a] := by
  rw [appendNew, if_neg new]

/-- One more sensor with a name of its own. -/
theorem Registered.register {entries : List SensorEntry} {t : Sensors}
    (registered : Registered entries t) {e : SensorEntry}
    (new : e.sensorname ∉ entries.map SensorEntry.sensorname) :
    Registered (entries ++ [e]) (t.register entries.length e.sensorname e.unit e.freq e.scale) where
  objs := by rw [Sensors.register, registered.objs, List.map_append, List.map_singleton]
  list := by
    rw [Sensors.register, registered.list, appendNew_of_not_mem (by simp), List.length_append,
      List.length_singleton, List.range_succ]
  listName := by
    rw [Sensors.register, registered.listName, appendNew_of_not_mem new, List.map_append,
      List.map_singleton]
  num := by
    intro k
    simp only [Sensors.register, Function.update_apply]
    by_cases hk : k = entries.length
    · rw [if_pos hk, hk, List.getElem?_concat_length, Option.map_some]
    · rw [if_neg hk, registered.num]
      rcases Nat.lt_or_gt_of_ne hk with hlt | hgt
      · rw [List.getElem?_append_left hlt]
      · rw [List.getElem?_eq_none hgt.le, List.getElem?_eq_none (by simp; omega)]
  objects := by
    intro k e' he'
    simp only [Sensors.register, Function.update_apply]
    by_cases hk : k = entries.length
    · rw [hk, List.getElem?_concat_length] at he'
      obtain rfl := Option.some.inj he'
      rw [if_pos rfl, SensorEntry.obj, hk, stripped_of_last e.unit_nulFree e.unit_last]
    · have hlt : k < entries.length := by
        have hlength := (List.getElem?_eq_some_iff.mp he').1
        rw [List.length_append, List.length_singleton] at hlength
        omega
      rw [List.getElem?_append_left hlt] at he'
      have hold : e'.sensorname ∈ entries.map SensorEntry.sensorname :=
        List.mem_map_of_mem (List.mem_of_getElem? he')
      rw [if_neg (ne_of_mem_of_not_mem hold new)]
      exact registered.objects k e' he'
  others := by
    intro s hs
    rw [List.map_append, List.map_singleton, List.mem_append, List.mem_singleton, not_or] at hs
    simp only [Sensors.register, Function.update_apply, if_neg hs.2]
    exact registered.others s hs.1

/-- `itcl` makes an object whose name is an identifier and not taken. -/
def MakesFresh (make : Maker) : Prop :=
  ∀ (made : List Name) (s : Name), s ≠ [] → (∀ b ∈ s, IsIdentifier b) → s ∉ made → make made s

namespace SensorEntry

variable (e : SensorEntry)

private theorem sensorname_nonempty : e.sensorname ≠ [] := by
  rw [sensorname, translate, Ne, List.map_eq_nil_iff]
  exact e.name_nonempty

/-- Replacing '-' leaves identifier characters only. -/
theorem sensorname_chars : ∀ b ∈ e.sensorname, IsIdentifier b := by
  intro b hmem
  obtain ⟨b', hmem', rfl⟩ := List.mem_map.mp hmem
  split
  · decide
  · rename_i hdash
    exact (e.name_chars b' hmem').resolve_right hdash

end SensorEntry

/-- The firmware answers the request for the sensors from a number on with any positive
number of whole records. -/
def ServesTable (send : SendSync) (table : List SensorEntry) : Prop :=
  ∀ k < table.length, ∃ m, 0 < m ∧
    send (sensorRequest k) = (0, encodeTable ((table.drop k).take m))

section Table

variable {send : SendSync} {make : Maker} {table : List SensorEntry}

/-- The record behind some of an answer registers its sensor behind theirs. -/
theorem sensorRecord_next (makes : MakesFresh make)
    (distinct : (table.map SensorEntry.sensorname).Nodup) {k m : ℕ} (hk : k < table.length)
    {done : List SensorEntry} {e : SensorEntry} {rest : List SensorEntry} {t : Sensors}
    (split : done ++ e :: rest = (table.drop k).take m)
    (registered : Registered (table.take k ++ done) t) :
    ∃ t', sensorRecord make (encodeTable ((table.drop k).take m)) (k + done.length)
        (encodeTable done).length t = .ok ((encodeTable (done ++ [e])).length, t') ∧
      Registered (table.take k ++ (done ++ [e])) t' := by
  have hlength : (table.take k).length = k := List.length_take_of_le hk.le
  have hnew := Paging.name_not_mem distinct split
  have hmake : make t.sensorobjsAll e.sensorname := by
    rw [registered.objs]
    exact makes _ _ e.sensorname_nonempty e.sensorname_chars hnew
  have hregistered := registered.register hnew
  rw [List.length_append, hlength, List.append_assoc] at hregistered
  refine ⟨_, ?_, hregistered⟩
  rw [← split, encodeTable_append, encodeTable_cons, sensorRecord_encode e _ _ hmake,
    encodeTable_append, encodeTable_cons, encodeTable_nil, List.append_nil]

/-- An answer takes the registered sensors from one number to a later one. -/
theorem takeSensors_table (makes : MakesFresh make) (serves : ServesTable send table)
    (distinct : (table.map SensorEntry.sensorname).Nodup) {k : ℕ} {t : Sensors}
    (hk : k < table.length) (registered : Registered (table.take k) t) :
    ∃ m t', 0 < m ∧
      takeSensors send make k t = .ok (k + ((table.drop k).take m).length, t') ∧
      Registered (table.take (k + m)) t' := by
  obtain ⟨m, hpos, hsend⟩ := serves k hk
  have hstart : Registered (table.take k ++ []) t := by rwa [List.append_nil]
  obtain ⟨t', hrecords, ht'⟩ := Paging.records_encoded SensorEntry.encode_ne_nil
    (fun done => Registered (table.take k ++ done))
    (fun done e rest t split hdone => sensorRecord_next makes distinct hk split hdone) hstart
    (Paging.length_le_length_flatMap SensorEntry.encode_ne_nil ((table.drop k).take m))
  refine ⟨m, t', hpos, ?_, ?_⟩
  · rw [takeSensors, take, hsend, if_pos rfl]
    exact hrecords
  · rwa [List.take_add]

/-- The number of sensors as the version data has it. -/
theorem numsensorsCallback_bigEndian {n : ℕ} (small : n < 2 ^ 16) :
    numsensorsCallback (bigEndian 2 n) = n := by
  have htake : (bigEndian 2 n).take 2 = bigEndian 2 n :=
    List.take_of_length_le (by rw [length_bigEndian])
  rw [numsensorsCallback, htake, signed_bigEndian]
  have hmod : ((n : ℤ).bmod (256 ^ 2)) % 2 ^ 16 = (n : ℤ) % 2 ^ 16 := Int.bmod_emod
  rw [hmod]
  omega

/-- A firmware that serves its table in whole records has it registered. -/
theorem initSensors_registered (makes : MakesFresh make) (serves : ServesTable send table)
    (distinct : (table.map SensorEntry.sensorname).Nodup) (small : table.length < 65536) :
    ∃ t, Registered table t ∧ ∃ enough, ∀ fuel ≥ enough,
      initSensors send make (numsensorsCallback (bigEndian 2 table.length)) fuel =
        some (.ok { t with sensorListAllName := lsort t.sensorListAllName }) := by
  obtain ⟨t, registered, enough, hrun⟩ := Paging.run_served Registered
    (fun k t hk hinv => takeSensors_table makes serves distinct hk hinv) registered_nil
  refine ⟨t, registered, enough, fun fuel hfuel => ?_⟩
  rw [initSensors, numsensorsCallback_bigEndian small, hrun fuel hfuel]
  rfl

/-- The numbers of a registered table and its objects belong to each other. -/
theorem Registered.bijOn {t : Sensors} (registered : Registered table t)
    (distinct : (table.map SensorEntry.sensorname).Nodup) :
    Set.BijOn t.sensornum2obj (Set.Iio table.length) (some '' {s | s ∈ t.sensorobjsAll}) := by
  have hnames : ∀ k, t.sensornum2obj k = (table.map SensorEntry.sensorname)[k]? := by
    intro k
    rw [registered.num, List.getElem?_map]
  rw [registered.objs]
  refine ⟨fun k hk => ?_, fun k hk k' _ heq => ?_, ?_⟩
  · have hlt : k < (table.map SensorEntry.sensorname).length := by rwa [List.length_map]
    rw [hnames, List.getElem?_eq_getElem hlt]
    exact Set.mem_image_of_mem _ (List.getElem_mem hlt)
  · have hlt : k < (table.map SensorEntry.sensorname).length := by rwa [List.length_map]
    rw [hnames, hnames] at heq
    exact (List.getElem?_inj hlt distinct).mp heq
  · rintro _ ⟨s, hs, rfl⟩
    obtain ⟨k, hlt, hget⟩ := List.getElem_of_mem hs
    refine ⟨k, by rwa [List.length_map] at hlt, ?_⟩
    rw [hnames, List.getElem?_eq_getElem hlt, hget]

/-- Every table of fewer than 65536 sensors with distinct object names, served in whole
records from the requested number on, is registered as it is: the object of the `k`-th
sensor has the number `k`, its name, unit, frequency and scale factor, the objects are
made in the order of the table, nothing else is registered, and numbers and objects
belong to each other one to one. -/
theorem init_sensors_registers_table (makes : MakesFresh make) (serves : ServesTable send table)
    (distinct : (table.map SensorEntry.sensorname).Nodup) (small : table.length < 65536) :
    ∃ t, (∃ enough, ∀ fuel ≥ enough,
        initSensors send make (numsensorsCallback (bigEndian 2 table.length)) fuel =
          some (.ok t)) ∧
      t.sensorobjsAll = table.map SensorEntry.sensorname ∧
      t.sensorListAll = List.range table.length ∧
      t.sensorListAllName = lsort (table.map SensorEntry.sensorname) ∧
      (∀ k (e : SensorEntry), table[k]? = some e →
        t.sensornum2obj k = some e.sensorname ∧
        t.objects e.sensorname = some ⟨e.sensorname, k, e.unit, e.freq, e.scale⟩) ∧
      (∀ k, table.length ≤ k → t.sensornum2obj k = none) ∧
      (∀ s ∉ t.sensorobjsAll, t.objects s = none) ∧
      Set.BijOn t.sensornum2obj (Set.Iio table.length) (some '' {s | s ∈ t.sensorobjsAll}) := by
  obtain ⟨t, registered, hrun⟩ := initSensors_registered makes serves distinct small
  refine ⟨_, hrun, registered.objs, registered.list, ?_, ?_, ?_, ?_, registered.bijOn distinct⟩
  · rw [← registered.listName]
  · intro k e he
    refine ⟨?_, registered.objects k e he⟩
    change t.sensornum2obj k = some e.sensorname
    rw [registered.num, he, Option.map_some]
  · intro k hk
    change t.sensornum2obj k = none
    rw [registered.num, List.getElem?_eq_none hk, Option.map_none]
  · intro s hs
    have hs' : s ∉ table.map SensorEntry.sensorname := by rwa [← registered.objs]
    exact registered.others s hs'

end Table

/-- Two sensors, "T-1" in C and "P" in W. -/
def sampleTable : List SensorEntry :=
  [⟨[84, 45, 49], [67], [0, 0, 1, 0], [0, 0, 5, 255], by simp, by simp [IsIdentifier], by simp,
      by simp, rfl, rfl⟩,
    ⟨[80], [87], [0, 0, 2, 0], [0, 0, 1, 0], by simp, by simp [IsIdentifier], by simp,
      by simp, rfl, rfl⟩]

/-- A firmware that answers with one record of the table at a time. -/
def sampleSend : SendSync := fun request =>
  if request = sensorRequest 0 then (0, encodeTable (sampleTable.take 1))
  else (0, encodeTable (sampleTable.drop 1))

theorem init_sensors_registers_sample :
    ∃ t, (∃ enough, ∀ fuel ≥ enough,
        initSensors sampleSend (fun made s => s ∉ made) (numsensorsCallback [0, 2]) fuel =
          some (.ok t)) ∧
      t.sensornum2obj 0 = some [84, 95, 49] ∧
      t.objects [80] = some ⟨[80], 1, [87], [0, 0, 2, 0], [0, 0, 1, 0]⟩ := by
  have serves : ServesTable sampleSend sampleTable := by
    intro k hk
    have hcases : k = 0 ∨ k = 1 := by
      have : k < 2 := hk
      omega
    rcases hcases with rfl | rfl
    · exact ⟨1, one_pos, by decide⟩
    · exact ⟨1, one_pos, by decide⟩
  obtain ⟨t, hrun, -, -, -, hentry, -⟩ :=
    init_sensors_registers_table (fun made s _ _ hnew => decide_eq_true hnew) serves
      (by decide) (by decide)
  exact ⟨t, hrun, (hentry 0 _ rfl).1, (hentry 1 _ rfl).2⟩

end Amester.Discovery
