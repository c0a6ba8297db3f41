/-
# The walk as one loop over fields

The three loops of an entry go one behind the other, so an entry is a walk over the list of
its fields, and the entries are walks one behind the other. Which fields they are depends on
the lists of the trace buffer and on its number of sockets only.
-/

import Amester.Trace.Parse

namespace Amester.Trace

open BinaryFormat Parm

universe u v

variable {β : Type u}

/-- The fields that the walk of a trace buffer reads for an entry. -/
def TraceBuffer.layout (tb : TraceBuffer β) : List (EntryField β) :=
  (tb.tbSensorList.map fun t => .sensor t.1 t.2) ++ tb.tbParmList.map .parm ++
    tb.tbScomList.flatMap fun _ => List.replicate (sockCount tb) .scom

/-- Decode one field. -/
def fieldStep [NatCast β] [Mul β] (env : Env β) (tbBytes : Bytes) (w : Walk β) :
    EntryField β → Except TraceError (Walk β)
  | .sensor sobj f => sensorStep env tbBytes w (sobj, f)
  | .parm sobj => parmStep tbBytes w sobj
  | .scom => scomStep tbBytes w

private theorem foldlM_range {α : Type u} {ε : Type v} {γ : Type*} (step : α → Except ε α)
    (step' : α → γ → Except ε α) (x : γ) (same : ∀ a, step' a x = step a) (n : ℕ) (a : α) :
    (List.range n).foldlM (fun a _ => step a) a = (List.replicate n x).foldlM step' a := by
  induction n generalizing a with
  | zero => rfl
  | succ n ih =>
      rw [List.range_succ_eq_map, List.replicate_succ, List.foldlM_cons, List.foldlM_cons, same]
      congr 1
      funext a'
      rw [List.foldlM_map]
      exact ih a'

private theorem foldlM_flatMap {α : Type u} {ε : Type v} {γ δ : Type*} (step : α → δ → Except ε α)
    (fields : γ → List δ) (xs : List γ) (a : α) :
    (xs.flatMap fields).foldlM step a = xs.foldlM (fun a x => (fields x).foldlM step a) a := by
  induction xs generalizing a with
  | nil => rfl
  | cons x xs ih =>
      rw [List.flatMap_cons, List.foldlM_append, List.foldlM_cons]
      congr 1
      funext a'
      exact ih a'

section Decode

variable [NatCast β] [Mul β]

/-- The walk over an entry is that over its fields. -/
theorem parseEntry_eq_foldlM (env : Env β) (tb : TraceBuffer β) (w : Walk β) :
    parseEntry env tb w = tb.layout.foldlM (fieldStep env tb.tbBytes) w := by
  rw [TraceBuffer.layout, List.foldlM_append, List.foldlM_append, List.foldlM_map, parseEntry]
  rw [bind_assoc]
  congr 1
  funext w'
  rw [List.foldlM_map]
  congr 1
  funext w''
  rw [foldlM_flatMap]
  congr 1
  funext w''' _
  exact foldlM_range (scomStep tb.tbBytes) (fieldStep env tb.tbBytes) .scom (fun _ => rfl) _ _

private theorem fieldStep_reads (env : Env β) (tbBytes : Bytes) (field : EntryField β) :
    Reads tbBytes (fieldStep env tbBytes · field) [field] := by
  cases field with
  | sensor sobj f => exact sensorStep_reads env tbBytes (sobj, f)
  | parm sobj => exact parmStep_reads tbBytes sobj
  | scom => exact scomStep_reads tbBytes

/-- A list of fields is read off its own bytes. -/
theorem fields_reads (env : Env β) (tbBytes : Bytes) (layout : List (EntryField β)) :
    Reads tbBytes (fun w => layout.foldlM (fieldStep env tbBytes) w) layout := by
  have hreads := ReadsAs.foldlM (fieldStep_reads env tbBytes) layout
  rwa [List.flatMap_singleton'] at hreads

/-- The walk over an entry reads the fields of the trace buffer. -/
theorem parseEntry_reads_layout (env : Env β) (tb : TraceBuffer β) :
    Reads tb.tbBytes (parseEntry env tb) tb.layout := by
  have hreads := fields_reads env tb.tbBytes tb.layout
  have hwalk : parseEntry env tb = fun w => tb.layout.foldlM (fieldStep env tb.tbBytes) w :=
    funext (parseEntry_eq_foldlM env tb)
  rwa [hwalk]

end Decode

/-! ## The end of a walk -/

/-- A part of the walk that does not raise is behind its fields, with a value for each. -/
def Advances (part : Walk β → Except TraceError (Walk β)) (fields : List (EntryField β)) : Prop :=
  ∀ w w', part w = .ok w' →
    w'.ptr = w.ptr + entryWidth fields ∧ w'.entry.length = w.entry.length + fields.length

theorem entryWidth_append (first second : List (EntryField β)) :
    entryWidth (first ++ second) = entryWidth first + entryWidth second := by
  rw [entryWidth, List.map_append, List.sum_append]
  rfl

theorem Advances.bind {part part' : Walk β → Except TraceError (Walk β)}
    {first second : List (EntryField β)} (advances : Advances part first)
    (advances' : Advances part' second) :
    Advances (fun w => part w >>= part') (first ++ second) := by
  intro w w'' ok
  change (part w >>= part') = .ok w'' at ok
  cases hpart : part w with
  | error e =>
      rw [hpart] at ok
      change Except.error e = _ at ok
      cases ok
  | ok w' =>
      rw [hpart] at ok
      obtain ⟨hptr, hlength⟩ := advances w w' hpart
      obtain ⟨hptr', hlength'⟩ := advances' w' w'' ok
      rw [hptr', hptr, hlength', hlength, entryWidth_append, List.length_append]
      exact ⟨Nat.add_assoc _ _ _, Nat.add_assoc _ _ _⟩

theorem Advances.foldlM {γ : Type*} {step : Walk β → γ → Except TraceError (Walk β)}
    {fields : γ → List (EntryField β)} (advances : ∀ x, Advances (step · x) (fields x))
    (xs : List γ) : Advances (fun w => xs.foldlM step w) (xs.flatMap fields) := by
  induction xs with
  | nil =>
      intro w w' ok
      cases ok
      exact ⟨rfl, rfl⟩
  | cons x xs ih => exact (advances x).bind ih

theorem scomStep_advances (tbBytes : Bytes) : Advances (β := β) (scomStep tbBytes) [.scom] := by
  intro w w' ok
  simp only [scomStep] at ok
  cases hscan : scanAt tbBytes (.hex 16) w with
  | none => simp [hscan] at ok
  | some value =>
      simp only [hscan, Except.ok.injEq] at ok
      rw [← ok]
      exact ⟨rfl, by simp⟩

section

variable [NatCast β] [Mul β]

private theorem fieldStep_advances (env : Env β) (tbBytes : Bytes) (field : EntryField β) :
    Advances (fieldStep env tbBytes · field) [field] := by
  cases field with
  | scom => exact scomStep_advances tbBytes
  | sensor sobj f =>
      intro w w' ok
      simp only [fieldStep, sensorStep] at ok
      cases hscan : scanAt tbBytes (.int f.size) w with
      | none => simp [hscan] at ok
      | some value =>
          cases hvalue : sensorValue env sobj f value with
          | error e => simp [hscan, hvalue, Except.map] at ok
          | ok finalvalue =>
              simp only [hscan, hvalue, Except.map, Except.ok.injEq] at ok
              rw [← ok]
              exact ⟨by simp [entryWidth, width_sensor], by simp⟩
  | parm sobj =>
      intro w w' ok
      simp only [fieldStep, parmStep] at ok
      split at ok
      · cases ok
      · split at ok
        · cases ok
        · rw [← Except.ok.inj ok]
          exact ⟨rfl, by simp⟩

/-- The walk over an entry ends behind its fields. -/
theorem parseEntry_advances (env : Env β) (tb : TraceBuffer β) :
    Advances (parseEntry env tb) tb.layout := by
  have hadvances := Advances.foldlM (fieldStep_advances env tb.tbBytes) tb.layout
  rw [List.flatMap_singleton'] at hadvances
  have hwalk : parseEntry env tb = fun w => tb.layout.foldlM (fieldStep env tb.tbBytes) w :=
    funext (parseEntry_eq_foldlM env tb)
  rwa [hwalk]

end

theorem walkEntries_end {parseEntry : Walk β → Except TraceError (Walk β)}
    {size entryBytes : ℤ} {fuel : ℕ} {w : Walk β} {entries : List (List (FieldValue β))}
    (done : entryBytes ≤ w.ptr) :
    walkEntries parseEntry size entryBytes fuel w entries = (entries, none) := by
  cases fuel with
  | zero => rfl
  | succ fuel => rw [walkEntries, if_neg (not_lt.mpr done)]

/-- Entries that were decoded stay. -/
theorem prefix_walkEntries (parseEntry : Walk β → Except TraceError (Walk β))
    (size entryBytes : ℤ) (fuel : ℕ) (w : Walk β) (entries : List (List (FieldValue β))) :
    entries <+: (walkEntries parseEntry size entryBytes fuel w entries).1 := by
  induction fuel generalizing w entries with
  | zero => exact List.prefix_rfl
  | succ fuel ih =>
      rw [walkEntries]
      split_ifs with hmore
      · cases parseEntry { w with entry := [] } with
        | error e => exact List.prefix_rfl
        | ok w' =>
            simp only
            split_ifs
            · exact List.prefix_append _ _
            · exact (List.prefix_append _ _).trans (ih w' _)
      · exact List.prefix_rfl

/-- The first entry is the first that the walk decodes. -/
theorem walkEntries_first {parseEntry : Walk β → Except TraceError (Walk β)}
    {size entryBytes : ℤ} {fuel : ℕ} {w : Walk β} {first : List (FieldValue β)}
    {others : List (List (FieldValue β))}
    (entries : (walkEntries parseEntry size entryBytes fuel w []).1 = first :: others) :
    ∃ w', parseEntry { w with entry := [] } = .ok w' ∧ w'.entry = first := by
  cases fuel with
  | zero => cases entries
  | succ fuel =>
      rw [walkEntries] at entries
      split_ifs at entries with hmore
      · cases hentry : parseEntry { w with entry := [] } with
        | error e => simp [hentry] at entries
        | ok w' =>
            refine ⟨w', rfl, ?_⟩
            simp only [hentry, List.nil_append] at entries
            split_ifs at entries
            · exact (List.cons.inj entries).1
            · have hprefix := prefix_walkEntries parseEntry size entryBytes fuel w' [w'.entry]
              rw [entries] at hprefix
              exact (List.cons_prefix_cons.mp hprefix).1

/-! ## What decoding depends on -/

/-- The decoded entries and the error. -/
def outcome (result : TraceBuffer β × Option TraceError) :
    List (List (FieldValue β)) × Option TraceError :=
  (result.1.tbEntries, result.2)

theorem outcome_parse [NatCast β] [Mul β] (env : Env β) (tb : TraceBuffer β) :
    outcome (parse env tb) =
      walkEntries (parseEntry env tb) tb.tbEntrySize
        ((tb.tbWrite - tb.tbRead : ℤ) * tb.tbEntrySize) (tb.tbWrite - tb.tbRead : ℤ).toNat
        { ptr := 0 } [] := by
  rw [parse, parseEntries_eq_walkEntries]
  rfl

/-- Decoding depends on the fields of an entry, the downloaded bytes and what the firmware
tells. -/
theorem parse_congr [NatCast β] [Mul β] (env : Env β) {tb tb' : TraceBuffer β}
    (layout : tb.layout = tb'.layout) (bytes : tb.tbBytes = tb'.tbBytes)
    (size : tb.tbEntrySize = tb'.tbEntrySize) (write : tb.tbWrite = tb'.tbWrite)
    (read : tb.tbRead = tb'.tbRead) :
    outcome (parse env tb) = outcome (parse env tb') := by
  have hentry : parseEntry env tb = parseEntry env tb' := by
    funext w
    rw [parseEntry_eq_foldlM, parseEntry_eq_foldlM, layout, bytes]
  rw [outcome_parse, outcome_parse, hentry, size, write, read]

/-- What get_config and download may change. -/
structure Loaded where
  entrySize : ℕ
  write : ℕ
  read : ℕ
  chipsMax : ℕ
  bytes : Bytes

def TraceBuffer.load (tb : TraceBuffer β) (d : Loaded) : TraceBuffer β :=
  { tb with
    tbEntrySize := d.entrySize
    tbWrite := d.write
    tbRead := d.read
    tbChipsMax := d.chipsMax
    tbBytes := d.bytes }

/-- The sockets are counted by their bits. -/
theorem sockCount_testBit (tb : TraceBuffer β) :
    sockCount tb = ((List.range 32).filter fun i =>
      i < tb.tbChipsMax ∧ tb.tbUserSocketsBitmap.testBit i).length := by
  have hsmall : (Bitmap.ones tb.tbChipsMax % 2 ^ 32) &&& tb.tbUserSocketsBitmap < 2 ^ 32 :=
    lt_of_le_of_lt Nat.and_le_left (Nat.mod_lt _ (by decide))
  rw [sockCount, Bitmap.count_eq hsmall]
  congr 1
  apply List.filter_congr
  intro i hi
  rw [Nat.testBit_and, Nat.testBit_mod_two_pow, Bitmap.testBit_ones]
  simp [List.mem_range.mp hi]

/-- Bytes of zeros are laid out for every list of fields. -/
theorem laidOut_zeros (layout : List (EntryField β)) :
    LaidOut layout (layout.map fun field => List.replicate field.width 0) := by
  rw [LaidOut, List.forall₂_map_right_iff]
  exact List.forall₂_same.mpr fun _ _ => List.length_replicate

theorem length_decodeEntry [NatCast β] [Mul β] {layout : List (EntryField β)} {pieces : List Bytes}
    (laid : LaidOut layout pieces) : (decodeEntry layout pieces).length = layout.length := by
  rw [decodeEntry, List.length_zipWith, ← laid.length_eq, Nat.min_self]

end Amester.Trace
