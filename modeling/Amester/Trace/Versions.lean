/-
# The older version of the trace buffer

The trace buffer of version 2.22 records no parameters. Its decoder is an earlier copy of the
one of 2.23: it multiplies the signed value of a field by the scale factor where the copy
masks it first, and it counts the selected sockets of a bitmap without the bound of 32 bits.
It also keeps what the firmware tells signed.

The result here is when the two decode the same entries.
-/

import Amester.Trace.Walk
import Mathlib.Algebra.CharZero.Defs
import Mathlib.Data.Int.Bitwise

namespace Amester.Trace

open BinaryFormat Parm

universe u

variable {β : Type u}

/-! ## Version 2.22 -/

structure Env22 (β : Type u) extends Env β where
  /-- `expr` of a text of sixteen hexadecimal digits times a scale factor, `none` when it
  raises. -/
  digitsTimes : List Digit → β → Option β

structure TraceBuffer22 (β : Type u) where
  tracenum : ℕ
  hasScom : Bool
  tbUserSocketsBitmap : ℤ := -1
  tbSensorList : List (Sensor β × SensorField) := []
  tbScomList : List Scom := []
  tbEntrySize : ℤ := 0
  tbWrite : ℤ := 0
  tbRead : ℤ := 0
  tbChipsMax : ℤ := 0
  tbBytes : Bytes := []
  tbEntries : List (List (FieldValue β)) := []

/-- The layout of the firmware's answer. -/
def configFields22 : List Field :=
  List.replicate 8 (.int 4) ++ List.replicate 4 (.int 1) ++ [.int 2, .int 2, .int 1]

/-- Read the state of the trace buffer from the firmware. The answer's status is not
looked at. -/
def getConfig22 (env : Env22 β) (tb : TraceBuffer22 β) :
    Except TraceError (TraceBuffer22 β) :=
  match scan configFields22 (env.send [0x3f, byteOf tb.tracenum]).2 with
  | [.int _, .int _, .int entrySize, .int _, .int _, .int write, .int _, .int read, .int _,
      .int _, .int _, .int _, .int _, .int _, .int chipsMax] =>
    .ok { tb with
      tbEntrySize := entrySize
      tbWrite := write
      tbRead := read
      tbChipsMax := chipsMax }
  | _ => .error .noVariable

/-- The configuration message, `none` when a number in it is too large. -/
def configMessage22 (tracenum : ℕ) (sensors : List (Sensor β × SensorField))
    (scoms : List (Scom × Bytes)) (bitmap : ℤ) : Option Bytes := do
  let msgSensors ← sensorCodes sensors
  let socketBitmap ← formatInts 4 [bitmap]
  some ([0x31, byteOf tracenum] ++ bigEndian 2 sensors.length ++ bigEndian 2 scoms.length ++
    socketBitmap ++ msgSensors ++ scoms.flatMap Prod.snd)

/-- Configure the trace buffer by names. The firmware's answer to the configuration is not
looked at. -/
def setConfig22 (env : Env22 β) (sensorFieldList scomList : List (List String))
    (sockets : List ℕ) (tb : TraceBuffer22 β) : TraceBuffer22 β × Option TraceError :=
  if scomList ≠ [] ∧ tb.hasScom = false then (tb, some .noScom)
  else
    let tb := { tb with tbUserSocketsBitmap := socketBitmap sockets }
    match requests (sensorRequest env.toEnv) sensorFieldList with
    | .error e => (tb, some e)
    | .ok sensors =>
      match requests (scomRequest env.toEnv) scomList with
      | .error e => (tb, some e)
      | .ok scoms =>
        match configMessage22 tb.tracenum sensors scoms (socketBitmap sockets) with
        | none => (tb, some .tooLarge)
        | some _ =>
          match getConfig22 env tb with
          | .error e => (tb, some e)
          | .ok tb =>
            ({ tb with tbSensorList := sensors, tbScomList := scoms.map Prod.fst }, none)

/-- The number of sockets an entry has data for. -/
def sockCount22 (tb : TraceBuffer22 β) : ℕ :=
  let chipsMax := tb.tbChipsMax.toNat
  Bitmap.count chipsMax (Int.land (Bitmap.ones chipsMax) tb.tbUserSocketsBitmap).toNat

/-- The final value of a sensor field. -/
def sensorValue22 [IntCast β] [Mul β] (env : Env22 β) (sobj : Sensor β) (f : SensorField)
    (value : Scanned) : Except TraceError (FieldValue β) :=
  match f with
  | .value | .min | .max | .acc =>
    match value with
    | .int n => .ok (.scaled ((n : β) * sobj.scalefactor))
    | .hex digits =>
      match env.digitsTimes digits sobj.scalefactor with
      | some v => .ok (.scaled v)
      | none => .error .notANumber
  | .updates | .rcnt =>
    (value.number env.toEnv).map fun n => .int (n % 256 ^ f.size)
  | .test =>
    match value with
    | .int n => .ok (.int n)
    | .hex digits => .ok (.hex digits)

/-- Decode a sensor field. -/
def sensorStep22 [IntCast β] [Mul β] (env : Env22 β) (tbBytes : Bytes) (w : Walk β)
    (t : Sensor β × SensorField) : Except TraceError (Walk β) :=
  match scanAt tbBytes (.int t.2.size) w with
  | none => .error .noVariable
  | some value =>
    (sensorValue22 env t.1 t.2 value).map fun finalvalue =>
      { w with ptr := w.ptr + t.2.size, value := some value, entry := w.entry ++ [finalvalue] }

/-- Decode an entry: the sensor fields, and every SCOM for every socket. -/
def parseEntry22 [IntCast β] [Mul β] (env : Env22 β) (tb : TraceBuffer22 β) (w : Walk β) :
    Except TraceError (Walk β) := do
  let w ← tb.tbSensorList.foldlM (sensorStep22 env tb.tbBytes) w
  tb.tbScomList.foldlM
    (fun w _ => (List.range (sockCount22 tb)).foldlM (fun w _ => scomStep tb.tbBytes w) w) w

/-- Decode the downloaded bytes. A negative entry size ends the loop in its first round. -/
def parse22 [IntCast β] [Mul β] (env : Env22 β) (tb : TraceBuffer22 β) :
    TraceBuffer22 β × Option TraceError :=
  let entriesN := tb.tbWrite - tb.tbRead
  let result := walkEntries (parseEntry22 env tb) tb.tbEntrySize (entriesN * tb.tbEntrySize)
    entriesN.natAbs { ptr := 0 } []
  ({ tb with tbEntries := result.1 }, result.2)

/-- The decoded entries and the error. -/
def outcome22 (result : TraceBuffer22 β × Option TraceError) :
    List (List (FieldValue β)) × Option TraceError :=
  (result.1.tbEntries, result.2)

/-! ## The configuration -/

/-- The two trace buffers have the same configuration. -/
structure SameConfiguration22 (tb tb' : TraceBuffer22 β) : Prop where
  sensors : tb.tbSensorList = tb'.tbSensorList
  scoms : tb.tbScomList = tb'.tbScomList
  bitmap : tb.tbUserSocketsBitmap = tb'.tbUserSocketsBitmap

/-- What an accepted configuration has stored. -/
structure Configured22 (env : Env22 β) (sensorFieldList scomList : List (List String))
    (sockets : List ℕ) (tb : TraceBuffer22 β) : Prop where
  sensors : tb.tbSensorList =
    sensorFieldList.filterMap fun t => (sensorRequest env.toEnv t).toOption
  scoms : tb.tbScomList.length = scomList.length
  bitmap : tb.tbUserSocketsBitmap = socketBitmap sockets

private theorem getConfig22_bitmap {env : Env22 β} {tb tb' : TraceBuffer22 β}
    (ok : getConfig22 env tb = .ok tb') :
    tb'.tbUserSocketsBitmap = tb.tbUserSocketsBitmap := by
  unfold getConfig22 at ok
  split at ok
  · rw [← Except.ok.inj ok]
  · simp at ok

private theorem setConfig22_configured {env : Env22 β}
    {sensorFieldList scomList : List (List String)}
    {sockets : List ℕ} {tb₀ tb : TraceBuffer22 β}
    (accepted : (setConfig22 env sensorFieldList scomList sockets tb₀).2 = none)
    (same : SameConfiguration22 tb (setConfig22 env sensorFieldList scomList sockets tb₀).1) :
    Configured22 env sensorFieldList scomList sockets tb := by
  suffices hstored : Configured22 env sensorFieldList scomList sockets
      (setConfig22 env sensorFieldList scomList sockets tb₀).1 by
    constructor
    · exact same.sensors.trans hstored.sensors
    · rw [same.scoms]
      exact hstored.scoms
    · exact same.bitmap.trans hstored.bitmap
  clear same
  unfold setConfig22 at accepted ⊢
  split_ifs at accepted ⊢ with hscom
  cases hsensors : requests (sensorRequest env.toEnv) sensorFieldList with
  | error e => simp [hsensors] at accepted
  | ok sensors =>
      cases hscoms : requests (scomRequest env.toEnv) scomList with
      | error e => simp [hsensors, hscoms] at accepted
      | ok scoms =>
          simp only [hsensors, hscoms] at accepted ⊢
          cases hmessage : configMessage22 tb₀.tracenum sensors scoms (socketBitmap sockets) with
          | none => simp [hmessage] at accepted
          | some message =>
              simp only [hmessage] at accepted ⊢
              cases hconfig : getConfig22 env
                { tb₀ with tbUserSocketsBitmap := socketBitmap sockets } with
              | error e => simp [hconfig] at accepted
              | ok tb' =>
                  refine ⟨requests_filterMap hsensors, ?_, getConfig22_bitmap hconfig⟩
                  simp [requests_length hscoms]

/-- The socket is selected. -/
def Selected (sockets : List ℕ) (s : ℕ) : Prop := sockets = [] ∨ s ∈ sockets

instance (sockets : List ℕ) (s : ℕ) : Decidable (Selected sockets s) :=
  inferInstanceAs (Decidable (_ ∨ _))

/-- The older version counts every selected socket that is there. -/
theorem sockCount22_eq {tb : TraceBuffer22 β} {sockets : List ℕ}
    (bitmap : tb.tbUserSocketsBitmap = socketBitmap sockets) :
    sockCount22 tb =
      ((List.range tb.tbChipsMax.toNat).filter fun s => Selected sockets s).length := by
  generalize hcount : tb.tbChipsMax.toNat = n
  have hbits (s : ℕ) : (Int.land (Bitmap.ones n) (socketBitmap sockets)).toNat.testBit s =
      decide (s < n ∧ Selected sockets s) := by
    unfold socketBitmap Selected
    split_ifs with hall
    · have hland : Int.land (Bitmap.ones n) (-1) = (Bitmap.ones n : ℕ) := by
        change ((Nat.ldiff (Bitmap.ones n) 0 : ℕ) : ℤ) = _
        congr 1
        apply Nat.eq_of_testBit_eq
        intro i
        simp [Nat.testBit_ldiff]
      rw [hland, Int.toNat_natCast, Bitmap.testBit_ones]
      simp [hall]
    · change (Bitmap.ones n &&& Bitmap.ofPositions sockets).testBit s = _
      rw [Nat.testBit_and, Bitmap.testBit_ones, Bitmap.testBit_ofPositions]
      simp [hall]
  have hsmall : (Int.land (Bitmap.ones n) (socketBitmap sockets)).toNat < 2 ^ n := by
    apply Nat.lt_pow_two_of_testBit
    intro i hi
    rw [hbits]
    simp [Nat.not_lt.mpr hi]
  rw [sockCount22, bitmap, hcount, Bitmap.count_eq hsmall]
  congr 1
  apply List.filter_congr
  intro s hs
  rw [hbits]
  simp [List.mem_range.mp hs]

/-- The two versions count the same sockets unless one from the 33rd on is selected and
there. -/
theorem sockCount22_eq_iff {sockets : List ℕ} {chipsMax : ℕ} :
    ((List.range chipsMax).filter fun s => Selected sockets s).length =
        (socketsUsed chipsMax sockets).length ↔
      ∀ s, 32 ≤ s → s < chipsMax → ¬Selected sockets s := by
  have hused (k : ℕ) (hk : k ≤ 32) : socketsUsed k sockets =
      (List.range k).filter fun s => Selected sockets s := by
    rw [socketsUsed, ← Bitmap.filter_range_lt hk]
    apply List.filter_congr
    intro s _
    rw [Bool.decide_and]
    congr 1
  by_cases hmany : chipsMax ≤ 32
  · rw [hused _ hmany]
    simp only [true_iff]
    intro s hs hlt
    omega
  · obtain ⟨m, rfl⟩ := Nat.exists_eq_add_of_le (Nat.le_of_not_le hmany)
    have hall : socketsUsed (32 + m) sockets = socketsUsed 32 sockets := by
      apply List.filter_congr
      intro s hs
      have hlt : s < 32 := List.mem_range.mp hs
      simp [hlt, Nat.lt_add_right m hlt]
    rw [hall, hused 32 le_rfl, List.range_add, List.filter_append, List.length_append,
      Nat.add_eq_left, List.length_eq_zero_iff, List.filter_eq_nil_iff]
    constructor
    · intro hnone s hs hlt hselected
      obtain ⟨j, rfl⟩ := Nat.exists_eq_add_of_le hs
      have hmem : 32 + j ∈ (List.range m).map (32 + ·) :=
        List.mem_map_of_mem (List.mem_range.mpr (Nat.lt_of_add_lt_add_left hlt))
      exact hnone _ hmem (decide_eq_true hselected)
    · intro hnone s hs hselected
      obtain ⟨j, hj, rfl⟩ := List.mem_map.mp hs
      exact hnone _ (Nat.le_add_right _ _) (Nat.add_lt_add_left (List.mem_range.mp hj) _)
        (of_decide_eq_true hselected)

/-! ## Reading an entry -/

namespace EntryField

/-- The value that the older version decodes a field to. -/
def decode22 [IntCast β] [NatCast β] [Mul β] (bytes : Bytes) : EntryField β → FieldValue β
  | .sensor sobj f =>
    match f with
    | .value | .min | .max | .acc => .scaled ((signed bytes : β) * sobj.scalefactor)
    | .updates | .rcnt => .int (unsigned bytes)
    | .test => .int (signed bytes)
  | .parm sobj => .parm (sobj.valueOf bytes)
  | .scom => .hex (hexDigits bytes)

/-- A field that is multiplied by the scale factor of its sensor. -/
def Scaled : EntryField β → Prop
  | .sensor _ f => f = .value ∨ f = .min ∨ f = .max ∨ f = .acc
  | .parm _ | .scom => False

/-- The top bit of the bytes of a field is clear, or the scale factor is zero. -/
def Unsigned [Zero β] (bytes : Bytes) : EntryField β → Prop
  | .sensor sobj _ => 2 * unsigned bytes < 256 ^ bytes.length ∨ sobj.scalefactor = 0
  | .parm _ | .scom => True

end EntryField

section Decode

variable [Ring β]

/-- The fields of an entry of the older version. -/
def TraceBuffer22.layout (tb : TraceBuffer22 β) : List (EntryField β) :=
  (tb.tbSensorList.flatMap fun t => [.sensor t.1 t.2]) ++
    tb.tbScomList.flatMap fun _ => (List.range (sockCount22 tb)).flatMap fun _ => [.scom]

private theorem sensorStep22_reads (env : Env22 β) (tbBytes : Bytes) (t : Sensor β × SensorField) :
    ReadsAs (fun field piece => field.decode22 piece) tbBytes (sensorStep22 env tbBytes · t)
      [.sensor t.1 t.2] := by
  apply ReadsAs.single
  intro w piece rest hbytes hwidth
  have hlength : piece.length = t.2.size := by rw [hwidth, width_sensor]
  have hscan := scanAt_int hbytes
  rw [hlength] at hscan
  have hmask : signed piece % 256 ^ t.2.size = unsigned piece := by
    rw [← hlength]
    exact signed_emod piece
  have hvalue : sensorValue22 env t.1 t.2 (.int (signed piece)) =
      .ok ((EntryField.sensor t.1 t.2).decode22 piece) := by
    obtain ⟨sobj, f⟩ := t
    cases f <;> simp_all [sensorValue22, Scanned.number, Except.map, EntryField.decode22]
  simp only [sensorStep22, hscan, hvalue, hlength]
  exact ⟨_, rfl, rfl, rfl⟩

private theorem parseEntry22_reads (env : Env22 β) (tb : TraceBuffer22 β) :
    ReadsAs (fun field piece => field.decode22 piece) tb.tbBytes (parseEntry22 env tb)
      tb.layout := by
  apply (ReadsAs.foldlM (sensorStep22_reads env tb.tbBytes) tb.tbSensorList).bind
  apply ReadsAs.foldlM
  intro _
  apply ReadsAs.foldlM
  intro _
  exact scomStep_readsAs (fun _ => rfl) tb.tbBytes

end Decode

private theorem sensorStep22_advances [Ring β] (env : Env22 β) (tbBytes : Bytes)
    (t : Sensor β × SensorField) :
    Advances (sensorStep22 env tbBytes · t) [.sensor t.1 t.2] := by
  intro w w' ok
  simp only [sensorStep22] at ok
  cases hscan : scanAt tbBytes (.int t.2.size) w with
  | none => simp [hscan] at ok
  | some value =>
      cases hvalue : sensorValue22 env t.1 t.2 value with
      | error e => simp [hscan, hvalue, Except.map] at ok
      | ok finalvalue =>
          simp only [hscan, hvalue, Except.map, Except.ok.injEq] at ok
          rw [← ok]
          exact ⟨by simp [entryWidth, width_sensor], by simp⟩

private theorem parseEntry22_advances [Ring β] (env : Env22 β) (tb : TraceBuffer22 β) :
    Advances (parseEntry22 env tb) tb.layout := by
  apply (Advances.foldlM (sensorStep22_advances env tb.tbBytes) tb.tbSensorList).bind
  apply Advances.foldlM
  intro _
  apply Advances.foldlM
  intro _
  exact scomStep_advances tb.tbBytes

/-! ## When the versions agree -/

/-- The requested sensors depend on what their names find only. -/
theorem sensorRequest_congr {env env' : Env β} (sensors : env.findSensor = env'.findSensor) :
    sensorRequest env = sensorRequest env' := by
  funext t
  unfold sensorRequest
  rw [sensors]

/-- Without parameters every field has bytes. -/
theorem width_pos_of_mem {env : Env β} {sensorFieldList scomList : List (List String)}
    {sockets : List ℕ} {chipsMax : ℕ} {field : EntryField β}
    (mem : field ∈ entryLayout env sensorFieldList [] scomList sockets chipsMax) :
    0 < field.width := by
  cases field with
  | sensor sobj f =>
      rw [width_sensor]
      cases f <;> decide
  | parm sobj => simp [entryLayout] at mem
  | scom => exact Nat.succ_pos 7

/-- Without parameters an entry that has a field has bytes. -/
theorem entryWidth_pos {env : Env β} {sensorFieldList scomList : List (List String)}
    {sockets : List ℕ} {chipsMax : ℕ} (layout :
    entryLayout env sensorFieldList [] scomList sockets chipsMax ≠ []) :
    0 < entryWidth (entryLayout env sensorFieldList [] scomList sockets chipsMax) := by
  obtain ⟨field, fields, hlayout⟩ := List.exists_cons_of_ne_nil layout
  have hfield : 0 < field.width := width_pos_of_mem (hlayout ▸ List.mem_cons_self)
  rw [hlayout]
  exact Nat.lt_of_lt_of_le hfield (Nat.le_add_right _ _)

section Agree

variable {env : Env22 β} {env' : Env β} {sensorFieldList scomList : List (List String)}
  {sockets : List ℕ} {tb : TraceBuffer22 β} {chipsMax : ℕ}

/-- The fields of the older version are those that are asked for when no SCOM is recorded or
the same sockets are counted. -/
theorem layout22_eq (sensors : env.findSensor = env'.findSensor)
    (configured : Configured22 env sensorFieldList scomList sockets tb)
    (count : scomList = [] ∨ sockCount22 tb = (socketsUsed chipsMax sockets).length) :
    tb.layout = entryLayout env' sensorFieldList [] scomList sockets chipsMax := by
  rw [entryLayout, TraceBuffer22.layout, configured.sensors, ← sensorRequest_congr sensors,
    ← List.map_eq_flatMap,
    List.map_filterMap, List.filterMap_nil, List.append_nil]
  congr 1
  cases count with
  | inl hnone =>
      have hscoms : tb.tbScomList = [] := by
        rw [← List.length_eq_zero_iff, configured.scoms, hnone]
        rfl
      rw [hscoms, hnone]
      rfl
  | inr hcount =>
      have hround : ((List.range (sockCount22 tb)).flatMap fun _ => [EntryField.scom (β := β)]) =
          (socketsUsed chipsMax sockets).map fun _ => .scom := by
        rw [List.map_eq_flatMap]
        apply flatMap_const_congr
        rw [List.length_range, hcount]
      rw [hround]
      exact flatMap_const_congr configured.scoms _

/-- The older version has one value for every sensor field and for every SCOM on every socket
that it counts. -/
theorem length_entryLayout (configured : Configured22 env sensorFieldList scomList sockets tb)
    (sensors : env.findSensor = env'.findSensor) :
    (entryLayout env' sensorFieldList [] scomList sockets chipsMax).length =
      tb.tbSensorList.length + tb.tbScomList.length * (socketsUsed chipsMax sockets).length := by
  rw [entryLayout, configured.sensors, configured.scoms, ← sensorRequest_congr sensors,
    List.length_append,
    List.length_append, List.length_flatMap, ← List.map_filterMap]
  simp

variable [Ring β]

/-- The two versions decode a field to the same value exactly when it is not scaled, its top
bit is clear or its scale factor is zero. -/
theorem decode22_eq_iff [NoZeroDivisors β] [CharZero β] (field : EntryField β) (piece : Bytes) :
    field.decode22 piece = field.decode piece ↔ (field.Scaled → field.Unsigned piece) := by
  cases field with
  | parm sobj => simp [EntryField.decode22, EntryField.decode, EntryField.Scaled]
  | scom => simp [EntryField.decode22, EntryField.decode, EntryField.Scaled]
  | sensor sobj f =>
      have hscaled : (signed piece : β) * sobj.scalefactor =
          (unsigned piece : β) * sobj.scalefactor ↔
          (2 * unsigned piece < 256 ^ piece.length ∨ sobj.scalefactor = 0) := by
        have htop : (256 ^ piece.length : β) ≠ 0 := by
          exact_mod_cast pow_ne_zero piece.length (by decide : (256 : ℕ) ≠ 0)
        by_cases hclear : 2 * unsigned piece < 256 ^ piece.length
        · simp [signed_eq, hclear]
        · simp [signed_eq, hclear, sub_mul, htop]
      cases f <;> simp [EntryField.decode22, EntryField.decode, EntryField.Scaled,
        EntryField.Unsigned, hscaled]

theorem decodeEntry22_eq_iff [NoZeroDivisors β] [CharZero β] (layout : List (EntryField β))
    (pieces : List Bytes) :
    List.zipWith (fun field piece => field.decode22 piece) layout pieces =
        decodeEntry layout pieces ↔
      ∀ fp ∈ layout.zip pieces, fp.1.Scaled → fp.1.Unsigned fp.2 := by
  rw [decodeEntry, ← List.map_uncurry_zip_eq_zipWith, ← List.map_uncurry_zip_eq_zipWith,
    List.map_inj_left]
  apply forall₂_congr
  intro fp _
  exact decode22_eq_iff fp.1 fp.2

/-- What the firmware has told both and both have downloaded. -/
structure SameDownload (tb : TraceBuffer22 β) (tb' : TraceBuffer β) : Prop where
  entrySize : tb.tbEntrySize = tb'.tbEntrySize
  write : tb.tbWrite = tb'.tbWrite
  read : tb.tbRead = tb'.tbRead
  chipsMax : tb.tbChipsMax = tb'.tbChipsMax
  bytes : tb.tbBytes = tb'.tbBytes

/-- When entries are decoded, the two versions agree on the number of fields only if they
count the same sockets or no SCOM is recorded. -/
theorem count_of_first {fuel : ℕ} {size entryBytes : ℤ} {entry : List (FieldValue β)}
    {others : List (List (FieldValue β))}
    (sensors : env.findSensor = env'.findSensor)
    (configured : Configured22 env sensorFieldList scomList sockets tb)
    (decoded : (walkEntries (parseEntry22 env tb) size entryBytes fuel { ptr := 0 } []).1 =
      entry :: others)
    (length : entry.length =
      (entryLayout env' sensorFieldList [] scomList sockets chipsMax).length) :
    scomList = [] ∨ sockCount22 tb = (socketsUsed chipsMax sockets).length := by
  obtain ⟨w', hentry, hfirst⟩ := walkEntries_first decoded
  obtain ⟨_, hlength⟩ := parseEntry22_advances env tb _ _ hentry
  have hfields : tb.layout.length =
      tb.tbSensorList.length + tb.tbScomList.length * sockCount22 tb := by
    simp [TraceBuffer22.layout, List.length_flatMap]
  rw [hfirst, length, length_entryLayout configured sensors, List.length_nil, Nat.zero_add,
    hfields, Nat.add_left_cancel_iff, mul_eq_mul_left_iff] at hlength
  cases hlength with
  | inl hcount => exact .inr hcount.symm
  | inr hnone =>
      left
      rwa [configured.scoms, List.length_eq_zero_iff] at hnone

private theorem outcome22_parse (env : Env22 β) {tb : TraceBuffer22 β} {n size : ℕ}
    (count : tb.tbWrite - tb.tbRead = n) (entrySize : tb.tbEntrySize = size) :
    outcome22 (parse22 env tb) =
      walkEntries (parseEntry22 env tb) size (n * (size : ℤ)) n { ptr := 0 } [] := by
  unfold outcome22 parse22
  simp only [count, entrySize, Int.natAbs_natCast]

/-- The older version decodes laid out entries when it counts the sockets right. -/
theorem outcome22_laid (sensors : env.findSensor = env'.findSensor)
    (configured : Configured22 env sensorFieldList scomList sockets tb)
    (counts : scomList = [] ∨ sockCount22 tb = (socketsUsed chipsMax sockets).length)
    {layout : List (EntryField β)}
    (asked : layout = entryLayout env' sensorFieldList [] scomList sockets chipsMax)
    (positive : 0 < entryWidth layout) {entries : List (List Bytes)}
    (count : tb.tbWrite - tb.tbRead = entries.length)
    (size : tb.tbEntrySize = entryWidth layout)
    (laid : ∀ pieces ∈ entries, LaidOut layout pieces) {rest : Bytes}
    (bytes : tb.tbBytes = entries.flatMap List.flatten ++ rest) :
    outcome22 (parse22 env tb) =
      (entries.map (List.zipWith (fun field piece => field.decode22 piece) layout), none) := by
  have hreads := parseEntry22_reads env tb
  rw [layout22_eq sensors configured counts, ← asked] at hreads
  rw [outcome22_parse env count size]
  exact walkEntries_eq hreads positive laid bytes

theorem decodeEntries22_eq_iff [NoZeroDivisors β] [CharZero β] (layout : List (EntryField β))
    (entries : List (List Bytes)) :
    entries.map (List.zipWith (fun field piece => field.decode22 piece) layout) =
        entries.map (decodeEntry layout) ↔
      ∀ pieces ∈ entries, ∀ fp ∈ layout.zip pieces, fp.1.Scaled → fp.1.Unsigned fp.2 := by
  rw [List.map_inj_left]
  apply forall₂_congr
  intro pieces _
  exact decodeEntry22_eq_iff layout pieces

/-- After the same accepted configuration, and for the same bytes laid out as it asks for, the
two versions decode the same entries exactly when there is nothing to decode, or no SCOM is
recorded on a socket from the 33rd on and no scaled field has its top bit set, unless its
scale factor is zero. -/
theorem versions_agree_iff [NoZeroDivisors β] [CharZero β]
    (sensors : env.findSensor = env'.findSensor) {tb₀ : TraceBuffer22 β} {tb₀' tb' : TraceBuffer β}
    (accepted : (setConfig22 env sensorFieldList scomList sockets tb₀).2 = none)
    (accepted' : (setConfig env' sensorFieldList [] scomList sockets tb₀').2 = none)
    (same : SameConfiguration22 tb (setConfig22 env sensorFieldList scomList sockets tb₀).1)
    (same' : SameConfiguration tb' (setConfig env' sensorFieldList [] scomList sockets tb₀').1)
    (download : SameDownload tb tb') {layout : List (EntryField β)}
    (asked : layout = entryLayout env' sensorFieldList [] scomList sockets tb'.tbChipsMax)
    (size : tb'.tbEntrySize = entryWidth layout) {entries : List (List Bytes)}
    (pointers : tb'.tbWrite = tb'.tbRead + entries.length)
    (laid : ∀ pieces ∈ entries, LaidOut layout pieces) {rest : Bytes}
    (bytes : tb'.tbBytes = entries.flatMap List.flatten ++ rest) :
    outcome22 (parse22 env tb) = outcome (parse env' tb') ↔
      entries = [] ∨ layout = [] ∨
        ((scomList = [] ∨ ∀ s, 32 ≤ s → s < tb'.tbChipsMax → ¬Selected sockets s) ∧
          ∀ pieces ∈ entries, ∀ fp ∈ layout.zip pieces, fp.1.Scaled → fp.1.Unsigned fp.2) := by
  have hconfigured := setConfig22_configured accepted same
  have hcount : tb.tbWrite - tb.tbRead = entries.length := by
    rw [download.write, download.read, pointers]
    push_cast
    ring
  have hcount' : (tb'.tbWrite : ℤ) - tb'.tbRead = entries.length := by
    rw [← download.write, ← download.read, hcount]
  have hsize : tb.tbEntrySize = entryWidth layout := by rw [download.entrySize, size]
  have hparse := outcome22_parse env hcount hsize
  have hparse' : outcome (parse env' tb') =
      walkEntries (parseEntry env' tb') (entryWidth layout)
        (entries.length * (entryWidth layout : ℤ)) entries.length { ptr := 0 } [] := by
    rw [outcome_parse, hcount', size, Int.toNat_natCast]
  by_cases hentries : entries = []
  · rw [hparse, hparse']
    simp [hentries, walkEntries]
  by_cases hlayout : layout = []
  · have hzero : (entryWidth layout : ℤ) = 0 := by
      rw [hlayout]
      rfl
    have hend : (0 : ℤ) ≤ (Walk.mk 0 none none [] : Walk β).ptr := le_rfl
    rw [hparse, hparse', hzero, Int.mul_zero, walkEntries_end hend, walkEntries_end hend]
    simp [hlayout]
  have hpositive : 0 < entryWidth layout := by
    rw [asked]
    exact entryWidth_pos (asked ▸ hlayout)
  have hreads' := parseEntry_reads ((setConfig_configured accepted').of_same same')
  rw [← asked, reads_iff] at hreads'
  have hsockets : sockCount22 tb = (socketsUsed tb'.tbChipsMax sockets).length ↔
      ∀ s, 32 ≤ s → s < tb'.tbChipsMax → ¬Selected sockets s := by
    rw [sockCount22_eq hconfigured.bitmap, download.chipsMax, Int.toNat_natCast,
      sockCount22_eq_iff]
  have hdecoded (hcounts : scomList = [] ∨
      sockCount22 tb = (socketsUsed tb'.tbChipsMax sockets).length) :=
    outcome22_laid sensors hconfigured hcounts asked hpositive hcount hsize laid
      (download.bytes.trans bytes)
  rw [hparse', walkEntries_eq hreads' hpositive laid bytes, ← hsockets,
    ← decodeEntries22_eq_iff]
  simp only [hentries, hlayout, false_or]
  constructor
  · intro agree
    obtain ⟨pieces, others, rfl⟩ := List.exists_cons_of_ne_nil hentries
    have hlength : (decodeEntry layout pieces).length =
        (entryLayout env' sensorFieldList [] scomList sockets tb'.tbChipsMax).length := by
      rw [length_decodeEntry (laid pieces List.mem_cons_self), ← asked]
    have hfirst := congrArg Prod.fst agree
    rw [hparse] at hfirst
    have hcounts := count_of_first sensors hconfigured hfirst hlength
    rw [hdecoded hcounts] at agree
    exact ⟨hcounts, congrArg Prod.fst agree⟩
  · rintro ⟨hcounts, hvalue⟩
    rw [hdecoded hcounts, hvalue]
    rfl

end Agree

section Sample

/-- A controller of the older version, with three sockets. -/
def sampleEnv22 : Env22 ℤ :=
  { sampleEnv with
    send := fun _ => (0, List.replicate 40 0 ++ [3])
    digitsTimes := fun _ _ => none }

/-- A trace of one sensor, with one entry of two bytes. -/
def sampleOld (bytes : Bytes) : TraceBuffer22 ℤ :=
  { (setConfig22 sampleEnv22 [["TEMP"]] [] [] { tracenum := 1, hasScom := false }).1 with
    tbEntrySize := 2
    tbWrite := 1
    tbBytes := bytes }

def sampleNew (bytes : Bytes) : TraceBuffer ℤ :=
  { (setConfig sampleEnv [["TEMP"]] [] [] [] { tracenum := 1, hasScom := false }).1 with
    tbEntrySize := 2
    tbWrite := 1
    tbBytes := bytes }

/-- The scaled values of an entry. -/
def scaledValues (entry : List (FieldValue ℤ)) : List ℤ :=
  entry.filterMap fun
    | .scaled v => some v
    | _ => none

/-- A sensor of 32768 is -32768 for the older version. -/
theorem versions_agree_fails :
    outcome22 (parse22 sampleEnv22 (sampleOld [128, 0])) ≠
      outcome (parse sampleEnv (sampleNew [128, 0])) := by
  intro agree
  have hold : (outcome22 (parse22 sampleEnv22 (sampleOld [128, 0]))).1.map scaledValues =
      [[-327680]] := by decide +kernel
  have hnew : (outcome (parse sampleEnv (sampleNew [128, 0]))).1.map scaledValues =
      [[327680]] := by decide +kernel
  rw [agree, hnew] at hold
  revert hold
  decide

theorem versions_agree_sample :
    outcome22 (parse22 sampleEnv22 (sampleOld [127, 0])) =
      outcome (parse sampleEnv (sampleNew [127, 0])) := by
  have haccepted : (setConfig22 sampleEnv22 [["TEMP"]] [] []
      { tracenum := 1, hasScom := false }).2 = none := by decide +kernel
  have haccepted' : (setConfig sampleEnv [["TEMP"]] [] [] []
      { tracenum := 1, hasScom := false }).2 = none := by decide +kernel
  have hdownload : SameDownload (sampleOld [127, 0]) (sampleNew [127, 0]) := by
    constructor <;> decide +kernel
  have hlaid : ∀ pieces ∈ [[([127, 0] : Bytes)]],
      LaidOut [EntryField.sensor (⟨5, 10⟩ : Sensor ℤ) .value] pieces := by
    intro pieces hpieces
    rw [List.mem_singleton.mp hpieces]
    exact .cons rfl .nil
  have hsensors : sampleEnv22.findSensor = sampleEnv.findSensor := rfl
  have hsame : SameConfiguration22 (sampleOld [127, 0]) (setConfig22 sampleEnv22 [["TEMP"]] [] []
      { tracenum := 1, hasScom := false }).1 := ⟨rfl, rfl, rfl⟩
  have hsame' : SameConfiguration (sampleNew [127, 0]) (setConfig sampleEnv [["TEMP"]] [] [] []
      { tracenum := 1, hasScom := false }).1 := ⟨rfl, rfl, rfl, rfl⟩
  have hbytes : (sampleNew [127, 0]).tbBytes = [[[127, 0]]].flatMap List.flatten ++ [] := rfl
  have hclear : ∀ pieces ∈ [[([127, 0] : Bytes)]],
      ∀ fp ∈ [EntryField.sensor (⟨5, 10⟩ : Sensor ℤ) .value].zip pieces,
        fp.1.Scaled → fp.1.Unsigned fp.2 := by
    intro pieces hpieces fp hfp _
    rw [List.mem_singleton.mp hpieces] at hfp
    rw [List.mem_singleton.mp hfp]
    left
    decide
  exact (versions_agree_iff hsensors haccepted haccepted' hsame hsame' hdownload rfl rfl rfl hlaid
    hbytes).mpr (.inr (.inr ⟨.inl rfl, hclear⟩))

end Sample

end Amester.Trace
