/-
# Decoding a trace buffer

The downloaded bytes are decoded by walking over them with a pointer: the sensor
fields, the parameters and the SCOMs of an entry, then the next entry. The width
of a SCOM depends on the number of sockets that are both there and selected. The
result here is that for every accepted configuration the walk takes the bytes
apart as the configuration lays them out.

A scan behind the last byte leaves its variable as it was, so the variables are
part of the walk.
-/

import Amester.Trace.Config

namespace Amester.Trace

open BinaryFormat Parm

universe u v

variable {β : Type u}

/-! ## The walk -/

/-- The number of sockets an entry has data for. -/
def sockCount (tb : TraceBuffer β) : ℕ :=
  Bitmap.count 32 ((Bitmap.ones tb.tbChipsMax % 2 ^ 32) &&& tb.tbUserSocketsBitmap)

/-- The contents of the variable that fields and SCOMs are scanned into. -/
inductive Scanned
  | int (n : ℤ)
  | hex (digits : List Digit)

/-- The variables of the walk. -/
structure Walk (β : Type u) where
  ptr : ℕ
  value : Option Scanned := none
  rawBytes : Option Bytes := none
  entry : List (FieldValue β) := []

/-- Scan one field at the pointer. -/
def scanAt (tbBytes : Bytes) (field : Field) (w : Walk β) : Option Scanned :=
  match scan [field] (tbBytes.drop w.ptr) with
  | [.int n] => some (.int n)
  | [.hex digits] => some (.hex digits)
  | _ => w.value

/-- The variable as a number. -/
def Scanned.number (env : Env β) : Scanned → Except TraceError ℤ
  | .int n => .ok n
  | .hex digits =>
    match env.digitsNumber digits with
    | some n => .ok n
    | none => .error .notANumber

/-- The final value of a sensor field. -/
def sensorValue [NatCast β] [Mul β] (env : Env β) (sobj : Sensor β) (f : SensorField)
    (value : Scanned) :
    Except TraceError (FieldValue β) :=
  match f with
  | .value | .min | .max | .acc =>
    (value.number env).map fun n =>
      .scaled (((n % 256 ^ f.size).toNat : β) * sobj.scalefactor)
  | .updates | .rcnt => (value.number env).map fun n => .int (n % 256 ^ f.size)
  | .test =>
    match value with
    | .int n => .ok (.int n)
    | .hex digits => .ok (.hex digits)

/-- Decode a sensor field. -/
def sensorStep [NatCast β] [Mul β] (env : Env β) (tbBytes : Bytes) (w : Walk β)
    (t : Sensor β × SensorField) :
    Except TraceError (Walk β) :=
  match scanAt tbBytes (.int t.2.size) w with
  | none => .error .noVariable
  | some value =>
    (sensorValue env t.1 t.2 value).map fun finalvalue =>
      { w with ptr := w.ptr + t.2.size, value := some value, entry := w.entry ++ [finalvalue] }

/-- Decode a parameter. -/
def parmStep (tbBytes : Bytes) (w : Walk β) (sobj : ParmObj) : Except TraceError (Walk β) :=
  let rawBytes :=
    if sobj.bytecount ≤ (tbBytes.drop w.ptr).length then
      some ((tbBytes.drop w.ptr).take sobj.bytecount)
    else w.rawBytes
  match rawBytes with
  | none => .error .noVariable
  | some raw =>
    match sobj.parse raw with
    | .error e => .error (.parm e)
    | .ok nicevalue =>
      .ok { w with
        ptr := w.ptr + sobj.bytecount
        rawBytes := some raw
        entry := w.entry ++ [.parm nicevalue] }

/-- Decode a SCOM of one socket. -/
def scomStep (tbBytes : Bytes) (w : Walk β) : Except TraceError (Walk β) :=
  match scanAt tbBytes (.hex 16) w with
  | none => .error .noVariable
  | some value =>
    let finalvalue : FieldValue β :=
      match value with
      | .int n => .int n
      | .hex digits => .hex digits
    .ok { w with ptr := w.ptr + 8, value := some value, entry := w.entry ++ [finalvalue] }

/-- Decode an entry: the sensor fields, the parameters, and every SCOM for every
socket. -/
def parseEntry [NatCast β] [Mul β] (env : Env β) (tb : TraceBuffer β) (w : Walk β) :
    Except TraceError (Walk β) := do
  let w ← tb.tbSensorList.foldlM (sensorStep env tb.tbBytes) w
  let w ← tb.tbParmList.foldlM (parmStep tb.tbBytes) w
  tb.tbScomList.foldlM
    (fun w _ => (List.range (sockCount tb)).foldlM (fun w _ => scomStep tb.tbBytes w) w) w

/-- Decode entries up to the end. An entry whose end is not where the entry size puts
it is the last. -/
def parseEntries [NatCast β] [Mul β] (env : Env β) (tb : TraceBuffer β) (entryBytes : ℤ) :
    ℕ → Walk β → List (List (FieldValue β)) → TraceBuffer β × Option TraceError
  | 0, _, entries => ({ tb with tbEntries := entries }, none)
  | fuel + 1, w, entries =>
    if w.ptr < entryBytes then
      match parseEntry env tb { w with entry := [] } with
      | .error e => ({ tb with tbEntries := entries }, some e)
      | .ok w' =>
        if w'.ptr ≠ w.ptr + tb.tbEntrySize then
          ({ tb with tbEntries := entries ++ [w'.entry] }, none)
        else parseEntries env tb entryBytes fuel w' (entries ++ [w'.entry])
    else ({ tb with tbEntries := entries }, none)

/-- Decode the downloaded bytes. Every round but the last moves the pointer by the
entry size, so there are no more rounds than entries. -/
def parse [NatCast β] [Mul β] (env : Env β) (tb : TraceBuffer β) :
    TraceBuffer β × Option TraceError :=
  let entriesN : ℤ := tb.tbWrite - tb.tbRead
  parseEntries env tb (entriesN * tb.tbEntrySize) entriesN.toNat { ptr := 0 } []

/-! ## The layout of an entry -/

/-- One field of an entry. -/
inductive EntryField (β : Type u)
  | sensor (sobj : Sensor β) (f : SensorField)
  | parm (sobj : ParmObj)
  | scom

namespace EntryField

/-- The number of bytes of a field. -/
def width : EntryField β → ℕ
  | .sensor _ f =>
    match f with
    | .value | .min | .max | .test => 2
    | .acc | .updates | .rcnt => 4
  | .parm sobj => sobj.bytecount
  | .scom => 8

/-- The value of a field, from its own bytes. -/
def decode [NatCast β] [Mul β] (bytes : Bytes) : EntryField β → FieldValue β
  | .sensor sobj f =>
    match f with
    | .value | .min | .max | .acc => .scaled ((unsigned bytes : β) * sobj.scalefactor)
    | .updates | .rcnt => .int (unsigned bytes)
    | .test => .int (signed bytes)
  | .parm sobj => .parm (sobj.valueOf bytes)
  | .scom => .hex (hexDigits bytes)

end EntryField

/-- The sockets that are both there and selected, among the 32 of the bitmap. -/
def socketsUsed (chipsMax : ℕ) (sockets : List ℕ) : List ℕ :=
  (List.range 32).filter fun s => s < chipsMax ∧ (sockets = [] ∨ s ∈ sockets)

/-- The fields of an entry, as a configuration asks for them. -/
def entryLayout (env : Env β) (sensorFieldList : List (List String)) (parmList : List String)
    (scomList : List (List String)) (sockets : List ℕ) (chipsMax : ℕ) : List (EntryField β) :=
  (sensorFieldList.filterMap fun t => (sensorRequest env t).toOption.map fun p =>
    .sensor p.1 p.2) ++
  (parmList.filterMap fun s => (env.findParm s).map .parm) ++
  scomList.flatMap fun _ => (socketsUsed chipsMax sockets).map fun _ => .scom

/-- The number of bytes of an entry. -/
def entryWidth (layout : List (EntryField β)) : ℕ := (layout.map EntryField.width).sum

/-- The bytes of an entry, one piece for each field. -/
def LaidOut (layout : List (EntryField β)) (pieces : List Bytes) : Prop :=
  List.Forall₂ (fun field piece => piece.length = field.width) layout pieces

/-- The values of an entry. -/
def decodeEntry [NatCast β] [Mul β] (layout : List (EntryField β)) (pieces : List Bytes) :
    List (FieldValue β) :=
  List.zipWith (fun field piece => field.decode piece) layout pieces

/-! ## The configuration -/

/-- Requests that are all accepted are accepted one by one. -/
theorem requests_forall₂ {ρ γ : Type} {γ' : Type u} {f : ρ → Except γ γ'} {rs : List ρ}
    {xs : List γ'} (ok : requests f rs = .ok xs) :
    List.Forall₂ (fun r x => f r = .ok x) rs xs := by
  induction rs generalizing xs with
  | nil =>
      obtain rfl := Except.ok.inj ok
      exact .nil
  | cons r rs ih =>
      rw [requests] at ok
      cases hr : f r with
      | error e => simp [hr] at ok
      | ok x =>
          cases hrs : requests f rs with
          | error e => simp [hr, hrs, Except.map] at ok
          | ok xs' =>
              simp only [hr, hrs, Except.map, Except.ok.injEq] at ok
              rw [← ok]
              exact .cons hr (ih hrs)

theorem requests_filterMap {ρ γ : Type} {γ' : Type u} {f : ρ → Except γ γ'} {rs : List ρ}
    {xs : List γ'} (ok : requests f rs = .ok xs) :
    xs = rs.filterMap fun r => (f r).toOption := by
  have haccepted := requests_forall₂ ok
  clear ok
  induction haccepted with
  | nil => rfl
  | cons hr _ ih => rw [List.filterMap_cons_some (by rw [hr]; rfl), ← ih]

theorem requests_length {ρ γ : Type} {γ' : Type u} {f : ρ → Except γ γ'} {rs : List ρ}
    {xs : List γ'} (ok : requests f rs = .ok xs) : xs.length = rs.length :=
  (requests_forall₂ ok).length_eq.symm

/-- What an accepted configuration has stored. -/
structure Configured (env : Env β) (sensorFieldList : List (List String))
    (parmList : List String) (scomList : List (List String)) (sockets : List ℕ)
    (tb : TraceBuffer β) : Prop where
  sensors : tb.tbSensorList = sensorFieldList.filterMap fun t => (sensorRequest env t).toOption
  parms : tb.tbParmList = parmList.filterMap env.findParm
  scoms : tb.tbScomList.length = scomList.length
  bitmap : tb.tbUserSocketsBitmap = (socketBitmap sockets % 2 ^ 32).toNat

/-- The two trace buffers have the same configuration; what the firmware tells, the
downloaded bytes and the entries may differ. -/
structure SameConfiguration (tb tb' : TraceBuffer β) : Prop where
  sensors : tb.tbSensorList = tb'.tbSensorList
  parms : tb.tbParmList = tb'.tbParmList
  scoms : tb.tbScomList = tb'.tbScomList
  bitmap : tb.tbUserSocketsBitmap = tb'.tbUserSocketsBitmap

theorem Configured.of_same {env : Env β} {sensorFieldList : List (List String)}
    {parmList : List String} {scomList : List (List String)} {sockets : List ℕ}
    {tb tb' : TraceBuffer β} (same : SameConfiguration tb tb')
    (configured : Configured env sensorFieldList parmList scomList sockets tb') :
    Configured env sensorFieldList parmList scomList sockets tb where
  sensors := same.sensors.trans configured.sensors
  parms := same.parms.trans configured.parms
  scoms := same.scoms ▸ configured.scoms
  bitmap := same.bitmap.trans configured.bitmap

theorem getConfig_bitmap {env : Env β} {tb tb' : TraceBuffer β} (ok : getConfig env tb = .ok tb') :
    tb'.tbUserSocketsBitmap = tb.tbUserSocketsBitmap := by
  unfold getConfig at ok
  split at ok
  · rw [← Except.ok.inj ok]
  · simp at ok

theorem setConfig_configured {env : Env β} {sensorFieldList : List (List String)}
    {parmList : List String} {scomList : List (List String)} {sockets : List ℕ}
    {tb : TraceBuffer β}
    (accepted : (setConfig env sensorFieldList parmList scomList sockets tb).2 = none) :
    Configured env sensorFieldList parmList scomList sockets
      (setConfig env sensorFieldList parmList scomList sockets tb).1 := by
  unfold setConfig at accepted ⊢
  split_ifs at accepted ⊢ with hscom
  cases hsensors : requests (sensorRequest env) sensorFieldList with
  | error e => simp [hsensors] at accepted
  | ok sensors =>
      cases hparms : requests (parmRequest env) parmList with
      | error e => simp [hsensors, hparms] at accepted
      | ok parms =>
          cases hscoms : requests (scomRequest env) scomList with
          | error e => simp [hsensors, hparms, hscoms] at accepted
          | ok scoms =>
              simp only [hsensors, hparms, hscoms] at accepted ⊢
              cases hmessage : configMessage tb.tracenum sensors parms scoms
                (socketBitmap sockets) with
              | none => simp [hmessage] at accepted
              | some message =>
                  simp only [hmessage] at accepted ⊢
                  split_ifs at accepted ⊢ with herr
                  cases hconfig : getConfig env (tb.selectSockets sockets) with
                  | error e => simp [hconfig] at accepted
                  | ok tb' =>
                      refine ⟨requests_filterMap hsensors, ?_, ?_, getConfig_bitmap hconfig⟩
                      · have hlist := requests_filterMap hparms
                        simp only
                        rw [hlist]
                        apply List.filterMap_congr
                        intro s _
                        unfold parmRequest
                        cases env.findParm s <;> rfl
                      · simp [requests_length hscoms]

/-- The bitmaps of the sockets that are there and of those that are selected have
the used sockets in common. -/
theorem sockCount_eq {tb : TraceBuffer β} {sockets : List ℕ}
    (bitmap : tb.tbUserSocketsBitmap = (socketBitmap sockets % 2 ^ 32).toNat) :
    sockCount tb = (socketsUsed tb.tbChipsMax sockets).length := by
  have hselected : ∀ s < 32, tb.tbUserSocketsBitmap.testBit s =
      decide (sockets = [] ∨ s ∈ sockets) := by
    intro s hs
    rw [bitmap, socketBitmap]
    split_ifs with hall
    · have hones : ((-1 : ℤ) % 2 ^ 32).toNat = 2 ^ 32 - 1 := by decide
      rw [hones, Nat.testBit_two_pow_sub_one]
      simp [hs, hall]
    · have hpositions : (((Bitmap.ofPositions sockets : ℕ) : ℤ) % 2 ^ 32).toNat =
          Bitmap.ofPositions sockets % 2 ^ 32 := by omega
      rw [hpositions, Nat.testBit_mod_two_pow, Bitmap.testBit_ofPositions]
      simp [hs, hall]
  have hsmall : (Bitmap.ones tb.tbChipsMax % 2 ^ 32) &&& tb.tbUserSocketsBitmap < 2 ^ 32 :=
    lt_of_le_of_lt Nat.and_le_left (Nat.mod_lt _ (by decide))
  rw [sockCount, Bitmap.count_eq hsmall, socketsUsed]
  congr 1
  apply List.filter_congr
  intro s hs
  have hlt : s < 32 := List.mem_range.mp hs
  rw [Nat.testBit_and, Nat.testBit_mod_two_pow, Bitmap.testBit_ones, hselected s hlt]
  simp [hlt]

/-! ## Reading one entry -/

theorem laidOut_append {first second : List (EntryField β)} {pieces : List Bytes}
    (laid : LaidOut (first ++ second) pieces) :
    ∃ left right, pieces = left ++ right ∧ LaidOut first left ∧ LaidOut second right := by
  induction first generalizing pieces with
  | nil => exact ⟨[], pieces, rfl, List.Forall₂.nil, laid⟩
  | cons field first ih =>
      cases laid with
      | cons hfield hrest =>
          rename_i piece pieces
          obtain ⟨left, right, rfl, hleft, hright⟩ := ih hrest
          exact ⟨piece :: left, right, rfl, List.Forall₂.cons hfield hleft, hright⟩

theorem LaidOut.length_flatten {layout : List (EntryField β)} {pieces : List Bytes}
    (laid : LaidOut layout pieces) : pieces.flatten.length = entryWidth layout := by
  induction laid with
  | nil => rfl
  | cons hfield _ ih =>
      rw [List.flatten_cons, List.length_append, hfield, ih]
      rfl

/-- A part of a walk reads fields off their own bytes, each by a decoding of its own. -/
def ReadsAs (decode : EntryField β → Bytes → FieldValue β) (tbBytes : Bytes)
    (part : Walk β → Except TraceError (Walk β)) (fields : List (EntryField β)) : Prop :=
  ∀ w pieces rest, tbBytes.drop w.ptr = pieces.flatten ++ rest → LaidOut fields pieces →
    ∃ w', part w = .ok w' ∧ w'.ptr = w.ptr + pieces.flatten.length ∧
      w'.entry = w.entry ++ List.zipWith decode fields pieces

section Reading

variable {decode : EntryField β → Bytes → FieldValue β} {tbBytes : Bytes}

/-- A step that reads a single field. -/
theorem ReadsAs.single {part : Walk β → Except TraceError (Walk β)} {field : EntryField β}
    (reads : ∀ w piece rest, tbBytes.drop w.ptr = piece ++ rest → piece.length = field.width →
      ∃ w', part w = .ok w' ∧ w'.ptr = w.ptr + piece.length ∧
        w'.entry = w.entry ++ [decode field piece]) :
    ReadsAs decode tbBytes part [field] := by
  intro w pieces rest hbytes hlaid
  cases hlaid with
  | cons hfield hnil =>
      rename_i piece pieces
      cases hnil
      have hbytes' : tbBytes.drop w.ptr = piece ++ rest := by simpa using hbytes
      obtain ⟨w', hpart, hptr, hentry⟩ := reads w piece rest hbytes' hfield
      refine ⟨w', hpart, ?_, hentry⟩
      simpa using hptr

theorem ReadsAs.pure :
    ReadsAs decode tbBytes (.ok : Walk β → Except TraceError (Walk β)) [] := by
  intro w pieces rest _ hlaid
  cases hlaid
  exact ⟨w, rfl, rfl, (List.append_nil _).symm⟩

/-- Two parts read their fields one behind the other. -/
theorem ReadsAs.bind {part part' : Walk β → Except TraceError (Walk β)}
    {first second : List (EntryField β)} (reads : ReadsAs decode tbBytes part first)
    (reads' : ReadsAs decode tbBytes part' second) :
    ReadsAs decode tbBytes (fun w => part w >>= part') (first ++ second) := by
  intro w pieces rest hbytes hlaid
  obtain ⟨left, right, rfl, hleft, hright⟩ := laidOut_append hlaid
  rw [List.flatten_append, List.append_assoc] at hbytes
  obtain ⟨w₁, hpart, hptr, hentry⟩ := reads w left _ hbytes hleft
  have hbytes₁ : tbBytes.drop w₁.ptr = right.flatten ++ rest := by
    rw [hptr, ← List.drop_drop, hbytes, List.drop_left]
  obtain ⟨w₂, hpart', hptr', hentry'⟩ := reads' w₁ right rest hbytes₁ hright
  refine ⟨w₂, ?_, ?_, ?_⟩
  · show (part w >>= part') = .ok w₂
    rw [hpart]
    exact hpart'
  · rw [hptr', hptr, List.flatten_append, List.length_append, Nat.add_assoc]
  · rw [hentry', hentry, List.append_assoc, List.zipWith_append hleft.length_eq]

/-- A loop reads the fields of its rounds. -/
theorem ReadsAs.foldlM {γ : Type v} {step : Walk β → γ → Except TraceError (Walk β)}
    {fields : γ → List (EntryField β)}
    (reads : ∀ x, ReadsAs decode tbBytes (step · x) (fields x)) (xs : List γ) :
    ReadsAs decode tbBytes (fun w => xs.foldlM step w) (xs.flatMap fields) := by
  induction xs with
  | nil => exact ReadsAs.pure
  | cons x xs ih => exact (reads x).bind ih

end Reading

/-- A part of the walk reads fields off their own bytes. -/
def Reads [NatCast β] [Mul β] (tbBytes : Bytes)
    (part : Walk β → Except TraceError (Walk β)) (fields : List (EntryField β)) : Prop :=
  ∀ w pieces rest, tbBytes.drop w.ptr = pieces.flatten ++ rest → LaidOut fields pieces →
    ∃ w', part w = .ok w' ∧ w'.ptr = w.ptr + pieces.flatten.length ∧
      w'.entry = w.entry ++ decodeEntry fields pieces

theorem reads_iff [NatCast β] [Mul β] {tbBytes : Bytes}
    {part : Walk β → Except TraceError (Walk β)} {fields : List (EntryField β)} :
    Reads tbBytes part fields ↔
      ReadsAs (fun field piece => field.decode piece) tbBytes part fields :=
  Iff.rfl

theorem scanAt_int {tbBytes piece rest : Bytes} {w : Walk β}
    (bytes : tbBytes.drop w.ptr = piece ++ rest) :
    scanAt tbBytes (.int piece.length) w = some (.int (signed piece)) := by
  have hscan : scan [.int piece.length] (piece ++ rest) = [.int (signed piece)] :=
    scan_append [] rest rfl
  rw [scanAt, bytes, hscan]

theorem scanAt_hex {tbBytes piece rest : Bytes} {w : Walk β}
    (bytes : tbBytes.drop w.ptr = piece ++ rest) :
    scanAt tbBytes (.hex (2 * piece.length)) w = some (.hex (hexDigits piece)) := by
  rw [scanAt, bytes, scan_hex_bytes _ piece rfl [] rest, scan_nil]

/-- The mask of a field's width makes its scanned value unsigned. -/
theorem sensorValue_signed [NatCast β] [Mul β] (env : Env β) (sobj : Sensor β)
    {f : SensorField} {piece : Bytes} (length : piece.length = f.size) :
    sensorValue env sobj f (.int (signed piece)) =
      .ok ((EntryField.sensor sobj f).decode piece) := by
  have hmask : signed piece % 256 ^ f.size = unsigned piece := by
    rw [← length]
    exact signed_emod piece
  cases f <;> simp [sensorValue, Scanned.number, Except.map, EntryField.decode, hmask]

theorem width_sensor (sobj : Sensor β) (f : SensorField) :
    (EntryField.sensor sobj f).width = f.size := by
  cases f <;> rfl

theorem sensorStep_reads [NatCast β] [Mul β] (env : Env β) (tbBytes : Bytes)
    (t : Sensor β × SensorField) :
    Reads tbBytes (sensorStep env tbBytes · t) [.sensor t.1 t.2] := by
  apply ReadsAs.single
  intro w piece rest hbytes hwidth
  have hlength : piece.length = t.2.size := by rw [hwidth, width_sensor]
  have hscan := scanAt_int hbytes
  rw [hlength] at hscan
  simp only [sensorStep, hscan, sensorValue_signed env t.1 hlength, hlength]
  exact ⟨_, rfl, rfl, rfl⟩

theorem parmStep_reads [NatCast β] [Mul β] (tbBytes : Bytes) (sobj : ParmObj) :
    Reads (β := β) tbBytes (parmStep tbBytes · sobj) [.parm sobj] := by
  apply ReadsAs.single
  intro w piece rest hbytes hwidth
  have hlength : piece.length = sobj.bytecount := hwidth
  have hthere : sobj.bytecount ≤ (tbBytes.drop w.ptr).length := by
    rw [hbytes, List.length_append, hlength]
    exact Nat.le_add_right _ _
  have hraw : (tbBytes.drop w.ptr).take sobj.bytecount = piece := by
    rw [hbytes, ← hlength, List.take_left]
  have hparse := sobj.parse_eq hlength.ge
  simp only [parmStep, if_pos hthere, hraw, hparse, hlength]
  exact ⟨_, rfl, rfl, rfl⟩

/-- A SCOM is read off its bytes by every decoding that presents it in hexadecimal. -/
theorem scomStep_readsAs {decode : EntryField β → Bytes → FieldValue β}
    (hex : ∀ piece, decode .scom piece = .hex (hexDigits piece)) (tbBytes : Bytes) :
    ReadsAs decode tbBytes (scomStep tbBytes) [.scom] := by
  apply ReadsAs.single
  intro w piece rest hbytes hwidth
  have hlength : piece.length = 8 := hwidth
  have hscan := scanAt_hex hbytes
  rw [hlength] at hscan
  simp only [scomStep, hscan, hlength, hex]
  exact ⟨_, rfl, rfl, rfl⟩

theorem scomStep_reads [NatCast β] [Mul β] (tbBytes : Bytes) :
    Reads (β := β) tbBytes (scomStep tbBytes) [.scom] :=
  scomStep_readsAs (fun _ => rfl) tbBytes

/-- Only the number of rounds matters when all of them have the same fields. -/
theorem flatMap_const_congr {γ : Type u} {δ : Type v} {α : Type*} {xs : List γ} {ys : List δ}
    (length : xs.length = ys.length) (fields : List α) :
    (xs.flatMap fun _ => fields) = ys.flatMap fun _ => fields := by
  rw [List.flatMap_def, List.flatMap_def, List.map_const', List.map_const', length]

/-- The walk over an entry reads the fields that the configuration asks for. -/
theorem parseEntry_reads [NatCast β] [Mul β] {env : Env β}
    {sensorFieldList : List (List String)} {parmList : List String}
    {scomList : List (List String)} {sockets : List ℕ} {tb : TraceBuffer β}
    (configured : Configured env sensorFieldList parmList scomList sockets tb) :
    Reads tb.tbBytes (parseEntry env tb)
      (entryLayout env sensorFieldList parmList scomList sockets tb.tbChipsMax) := by
  have hsensors : (sensorFieldList.filterMap fun t =>
      (sensorRequest env t).toOption.map fun p => EntryField.sensor p.1 p.2) =
      tb.tbSensorList.flatMap fun t => [.sensor t.1 t.2] := by
    rw [configured.sensors, ← List.map_eq_flatMap, List.map_filterMap]
  have hparms : (parmList.filterMap fun s => (env.findParm s).map EntryField.parm) =
      tb.tbParmList.flatMap fun sobj => [EntryField.parm (β := β) sobj] := by
    rw [configured.parms, ← List.map_eq_flatMap, List.map_filterMap]
  have hsockets : ((socketsUsed tb.tbChipsMax sockets).map fun _ => EntryField.scom (β := β)) =
      (List.range (sockCount tb)).flatMap fun _ => [.scom] := by
    rw [List.map_eq_flatMap]
    apply flatMap_const_congr
    rw [List.length_range, sockCount_eq configured.bitmap]
  have hscoms : (scomList.flatMap fun _ =>
      (socketsUsed tb.tbChipsMax sockets).map fun _ => EntryField.scom (β := β)) =
      tb.tbScomList.flatMap fun _ => (List.range (sockCount tb)).flatMap fun _ => [.scom] := by
    rw [hsockets]
    exact flatMap_const_congr configured.scoms.symm _
  rw [entryLayout, hsensors, hparms, hscoms, List.append_assoc, reads_iff]
  apply (ReadsAs.foldlM (sensorStep_reads env tb.tbBytes) tb.tbSensorList).bind
  apply (ReadsAs.foldlM (parmStep_reads tb.tbBytes) tb.tbParmList).bind
  apply ReadsAs.foldlM
  intro _
  apply ReadsAs.foldlM
  intro _
  exact scomStep_reads tb.tbBytes

/-! ## All entries -/

/-- The loop over the entries, for any walk over one of them and any distance between
them. -/
def walkEntries (parseEntry : Walk β → Except TraceError (Walk β)) (size entryBytes : ℤ) :
    ℕ → Walk β → List (List (FieldValue β)) →
      List (List (FieldValue β)) × Option TraceError
  | 0, _, entries => (entries, none)
  | fuel + 1, w, entries =>
    if w.ptr < entryBytes then
      match parseEntry { w with entry := [] } with
      | .error e => (entries, some e)
      | .ok w' =>
        if (w'.ptr : ℤ) ≠ w.ptr + size then (entries ++ [w'.entry], none)
        else walkEntries parseEntry size entryBytes fuel w' (entries ++ [w'.entry])
    else (entries, none)

theorem parseEntries_eq_walkEntries [NatCast β] [Mul β] (env : Env β) (tb : TraceBuffer β)
    (entryBytes : ℤ) (fuel : ℕ) (w : Walk β) (entries : List (List (FieldValue β))) :
    parseEntries env tb entryBytes fuel w entries =
      ({ tb with tbEntries :=
          (walkEntries (parseEntry env tb) tb.tbEntrySize entryBytes fuel w entries).1 },
        (walkEntries (parseEntry env tb) tb.tbEntrySize entryBytes fuel w entries).2) := by
  induction fuel generalizing w entries with
  | zero => rfl
  | succ fuel ih =>
      rw [parseEntries, walkEntries]
      split_ifs with hmore
      · cases parseEntry env tb { w with entry := [] } with
        | error e => rfl
        | ok w' =>
            have hend : (w'.ptr : ℤ) = w.ptr + tb.tbEntrySize ↔
                w'.ptr = w.ptr + tb.tbEntrySize := by exact_mod_cast Iff.rfl
            simp only [ne_eq, hend]
            split_ifs
            · exact ih w' _
            · rfl
      · rfl

/-- The walk takes one entry after the other off the bytes, and goes on behind them. -/
theorem walkEntries_laid {decode : EntryField β → Bytes → FieldValue β} {tbBytes : Bytes}
    {parseEntry : Walk β → Except TraceError (Walk β)} {layout : List (EntryField β)}
    (reads : ReadsAs decode tbBytes parseEntry layout) (positive : 0 < entryWidth layout)
    {rest : Bytes} {entryBytes : ℤ} (more : ℕ) (entries : List (List Bytes)) :
    ∀ (w : Walk β) (done : List (List (FieldValue β))),
      (∀ pieces ∈ entries, LaidOut layout pieces) →
      tbBytes.drop w.ptr = entries.flatMap List.flatten ++ rest →
      w.ptr + entries.length * (entryWidth layout : ℤ) ≤ entryBytes →
      ∃ w', w'.ptr = w.ptr + entries.length * entryWidth layout ∧
        walkEntries parseEntry (entryWidth layout) entryBytes (entries.length + more) w done =
          walkEntries parseEntry (entryWidth layout) entryBytes more w'
            (done ++ entries.map (List.zipWith decode layout)) := by
  induction entries with
  | nil =>
      intro w done _ _ _
      exact ⟨w, by simp, by simp⟩
  | cons pieces entries ih =>
      intro w done hlaid hbytes hinside
      have hpieces : LaidOut layout pieces := hlaid pieces (List.mem_cons_self)
      rw [List.flatMap_cons, List.append_assoc] at hbytes
      obtain ⟨w₁, hentry, hptr, hvalue⟩ :=
        reads { w with entry := [] } pieces _ hbytes hpieces
      simp only at hptr
      rw [hpieces.length_flatten] at hptr
      have hbytes₁ : tbBytes.drop w₁.ptr = entries.flatMap List.flatten ++ rest := by
        rw [hptr, ← hpieces.length_flatten, ← List.drop_drop, hbytes, List.drop_left]
      have hnext : (w₁.ptr : ℤ) = w.ptr + entryWidth layout := by exact_mod_cast hptr
      rw [List.length_cons, Nat.cast_add, Nat.cast_one, add_mul, one_mul] at hinside
      have hinside₁ : w₁.ptr + entries.length * (entryWidth layout : ℤ) ≤ entryBytes := by
        linarith
      have hmore : (w.ptr : ℤ) < entryBytes := by
        have hwidth : (0 : ℤ) < entryWidth layout := by exact_mod_cast positive
        have hothers : 0 ≤ (entries.length : ℤ) * entryWidth layout := by positivity
        linarith
      obtain ⟨w', hptr', hrest⟩ := ih w₁ (done ++ [w₁.entry])
        (fun p hp => hlaid p (List.mem_cons_of_mem _ hp)) hbytes₁ hinside₁
      refine ⟨w', ?_, ?_⟩
      · rw [hptr', hptr, List.length_cons]
        ring
      · rw [List.length_cons, Nat.succ_add, walkEntries, if_pos hmore, hentry]
        simp only
        rw [if_neg (not_not_intro hnext), hrest, hvalue, List.nil_append, List.map_cons,
          List.append_assoc, List.singleton_append]

/-- The walk takes one entry after the other off the bytes, up to the end. -/
theorem walkEntries_eq {decode : EntryField β → Bytes → FieldValue β} {tbBytes : Bytes}
    {parseEntry : Walk β → Except TraceError (Walk β)} {layout : List (EntryField β)}
    (reads : ReadsAs decode tbBytes parseEntry layout) (positive : 0 < entryWidth layout)
    {rest : Bytes} {entries : List (List Bytes)} (laid : ∀ pieces ∈ entries, LaidOut layout pieces)
    (bytes : tbBytes = entries.flatMap List.flatten ++ rest) :
    walkEntries parseEntry (entryWidth layout) (entries.length * (entryWidth layout : ℤ))
        entries.length { ptr := 0 } [] =
      (entries.map (List.zipWith decode layout), none) := by
  have hinside : (0 : ℕ) + entries.length * (entryWidth layout : ℤ) ≤
      entries.length * (entryWidth layout : ℤ) := by simp
  obtain ⟨w', _, hwalk⟩ := walkEntries_laid reads positive 0 entries { ptr := 0 } [] laid bytes
    hinside
  exact hwalk

/-- After an accepted configuration, bytes that start with entries laid out as the
configuration asks for are decoded to exactly these entries, each field from its
own bytes. -/
theorem parse_configured [NatCast β] [Mul β] {env : Env β}
    {sensorFieldList : List (List String)} {parmList : List String}
    {scomList : List (List String)} {sockets : List ℕ} {tb₀ tb : TraceBuffer β}
    (accepted : (setConfig env sensorFieldList parmList scomList sockets tb₀).2 = none)
    (same : SameConfiguration tb
      (setConfig env sensorFieldList parmList scomList sockets tb₀).1)
    {layout : List (EntryField β)}
    (asked : layout = entryLayout env sensorFieldList parmList scomList sockets tb.tbChipsMax)
    (positive : 0 < entryWidth layout) (size : tb.tbEntrySize = entryWidth layout)
    {entries : List (List Bytes)} (pointers : tb.tbWrite = tb.tbRead + entries.length)
    (laid : ∀ pieces ∈ entries, LaidOut layout pieces) {rest : Bytes}
    (bytes : tb.tbBytes = entries.flatMap List.flatten ++ rest) :
    parse env tb = ({ tb with tbEntries := entries.map (decodeEntry layout) }, none) := by
  have hreads := parseEntry_reads ((setConfig_configured accepted).of_same same)
  rw [← asked, reads_iff] at hreads
  have hentries := walkEntries_eq hreads positive laid bytes
  have hcount : (tb.tbWrite : ℤ) - tb.tbRead = entries.length := by
    rw [pointers]
    push_cast
    ring
  rw [← size] at hentries
  rw [parse, hcount, Int.toNat_natCast, parseEntries_eq_walkEntries, hentries]
  rfl

/-! ## A configured trace buffer -/

section Sample

/-- A sensor, a parameter of three bytes, and a firmware that has three sockets and
accepts every configuration. -/
def sampleEnv : Env ℤ where
  findSensor s := if s = "TEMP" then some ⟨5, 10⟩ else none
  findParm s :=
    if s = "mode" then some ⟨"mode", 1, .uint8, 0, 3, 1, by decide⟩ else none
  hexExpr text := if text = "40020" then some 0x40020 else if text = "ff" then some 0xff else none
  digitsNumber _ := none
  send cmd :=
    if cmd.head? = some 0x3f then (0, List.replicate 39 0 ++ [3, 0]) else (0, [])

/-- A sensor with two fields, a parameter, and a SCOM that is read and one that is
written on sockets 0, 2 and 5, of which the last is not there. -/
def sampleConfigured : TraceBuffer ℤ × Option TraceError :=
  setConfig sampleEnv [["TEMP"], ["TEMP", "test"]] ["mode"] [["40020"], ["w", "40020", "ff"]]
    [0, 2, 5] { tracenum := 1, hasScom := true }

/-- The layout of its entries while three sockets are there. -/
def sampleLayout : List (EntryField ℤ) :=
  entryLayout sampleEnv [["TEMP"], ["TEMP", "test"]] ["mode"] [["40020"], ["w", "40020", "ff"]]
    [0, 2, 5] 3

def samplePieces (n : UInt8) : List Bytes :=
  [[0, n], [255, n], [1, 2, n], [0, 0, 0, 0, 0, 0, 0, n], [0, 0, 0, 0, 0, 0, 1, n],
    [0, 0, 0, 0, 0, 0, 2, n], [0, 0, 0, 0, 0, 0, 3, n]]

/-- The configured trace buffer, two entries later. -/
def sampleDownloaded : TraceBuffer ℤ :=
  { sampleConfigured.1 with
    tbEntrySize := 39
    tbRead := 4
    tbWrite := 6
    tbBytes := [samplePieces 7, samplePieces 8].flatMap List.flatten ++ [1, 2, 3] }

theorem parse_configured_sample :
    parse sampleEnv sampleDownloaded =
      ({ sampleDownloaded with
        tbEntries := [samplePieces 7, samplePieces 8].map (decodeEntry sampleLayout) },
        none) := by
  have haccepted : sampleConfigured.2 = none := by decide +kernel
  have hlaid : ∀ pieces ∈ [samplePieces 7, samplePieces 8], LaidOut sampleLayout pieces := by
    have hall (n : UInt8) : LaidOut sampleLayout (samplePieces n) := by
      refine .cons rfl (.cons rfl (.cons rfl ?_))
      exact .cons rfl (.cons rfl (.cons rfl (.cons rfl .nil)))
    intro pieces hpieces
    obtain rfl | rfl : pieces = samplePieces 7 ∨ pieces = samplePieces 8 := by
      simpa using hpieces
    · exact hall 7
    · exact hall 8
  have hsame : SameConfiguration sampleDownloaded sampleConfigured.1 := ⟨rfl, rfl, rfl, rfl⟩
  exact parse_configured haccepted hsame rfl (by decide +kernel) (by decide +kernel) rfl hlaid rfl

end Sample

end Amester.Trace
