/-
# Incomplete downloads

All entries are decoded after every download, also after one that has failed. A field whose
bytes are not there then repeats the field of its kind that was scanned last, because a scan
behind the last byte leaves its variable as it was. Decoding raises only where there is
nothing to repeat, or where what would be repeated cannot be converted.

So the entries are those of a complete download unless a download fails without a field on
which decoding gets stuck.
-/

import Amester.Trace.SavedTrace

namespace Amester.Trace

open BinaryFormat Parm

universe u

variable {β : Type u}

/-! ## Fields that repeat -/

namespace EntryField

/-- A field that is scanned into the variable of numbers. -/
def isNumber : EntryField β → Bool
  | .sensor _ _ | .scom => true
  | .parm _ => false

def isParm : EntryField β → Bool
  | .parm _ => true
  | .sensor _ _ | .scom => false

end EntryField

/-- Of so many bytes, those of the field at an offset are there. -/
def Arrived (length offset : ℕ) (field : EntryField β) : Prop :=
  field.width = 0 ∨ offset + field.width ≤ length

instance (length offset : ℕ) (field : EntryField β) : Decidable (Arrived length offset field) :=
  inferInstanceAs (Decidable (_ ∨ _))

/-- The last field of a kind that is there, with its offset. -/
def lastArrived (kind : EntryField β → Bool) (length : ℕ) :
    ℕ → List (EntryField β) → Option (ℕ × EntryField β)
  | _, [] => none
  | offset, field :: fields =>
    (lastArrived kind length (offset + field.width) fields).or
      (if kind field ∧ Arrived length offset field then some (offset, field) else none)

/-- What the variable of numbers has after a field. -/
def scannedAt (memory : ℕ → UInt8) (start : ℕ) : ℕ × EntryField β → Scanned
  | (offset, .scom) => .hex (hexDigits (contents memory (start + offset) 8))
  | (offset, field) => .int (signed (contents memory (start + offset) field.width))

/-- What the variable of raw bytes has after a parameter. -/
def rawAt (memory : ℕ → UInt8) (start : ℕ) (place : ℕ × EntryField β) : Bytes :=
  contents memory (start + place.1) place.2.width

/-- A field cannot be decoded from what was scanned last. -/
def NotConverted (env : Env β) (memory : ℕ → UInt8) (start length : ℕ)
    (before : List (EntryField β)) : EntryField β → Prop
  | .sensor _ .test | .scom => lastArrived EntryField.isNumber length 0 before = none
  | .sensor _ _ =>
    ∀ place, lastArrived EntryField.isNumber length 0 before = some place →
      ∃ digits, scannedAt memory start place = .hex digits ∧ env.digitsNumber digits = none
  | .parm sobj =>
    ∀ place, lastArrived EntryField.isParm length 0 before = some place →
      ∃ e, sobj.parse (rawAt memory start place) = .error e

/-- A field behind others is not there, and cannot repeat one of them. -/
def Stuck (env : Env β) (memory : ℕ → UInt8) (start length : ℕ) (before : List (EntryField β))
    (field : EntryField β) : Prop :=
  ¬Arrived length (entryWidth before) field ∧ NotConverted env memory start length before field

/-- Decoding gets stuck on one of the fields. -/
def StuckIn (env : Env β) (memory : ℕ → UInt8) (start length : ℕ)
    (before fields : List (EntryField β)) : Prop :=
  ∃ left field right, fields = left ++ field :: right ∧
    Stuck env memory start length (before ++ left) field

private theorem lastArrived_snoc (kind : EntryField β → Bool) (length offset : ℕ)
    (before : List (EntryField β)) (field : EntryField β) :
    lastArrived kind length offset (before ++ [field]) =
      if kind field ∧ Arrived length (offset + entryWidth before) field then
        some (offset + entryWidth before, field)
      else lastArrived kind length offset before := by
  induction before generalizing offset with
  | nil => simp [lastArrived, entryWidth]
  | cons f before ih =>
      have hwidth : entryWidth (f :: before) = f.width + entryWidth before := rfl
      rw [List.cons_append, lastArrived, ih, lastArrived, hwidth, ← Nat.add_assoc]
      split_ifs <;> simp

private theorem stuckIn_cons {env : Env β} {memory : ℕ → UInt8} {start length : ℕ}
    {before fields : List (EntryField β)} {field : EntryField β} :
    StuckIn env memory start length before (field :: fields) ↔
      Stuck env memory start length before field ∨
        StuckIn env memory start length (before ++ [field]) fields := by
  constructor
  · rintro ⟨left, stuck, right, hfields, hstuck⟩
    cases left with
    | nil =>
        obtain ⟨rfl, rfl⟩ := List.cons.inj hfields
        left
        rwa [List.append_nil] at hstuck
    | cons first left =>
        obtain ⟨rfl, rfl⟩ := List.cons.inj hfields
        right
        refine ⟨left, stuck, right, rfl, ?_⟩
        rwa [List.append_assoc]
  · rintro (hstuck | ⟨left, stuck, right, rfl, hstuck⟩)
    · refine ⟨[], field, fields, rfl, ?_⟩
      rwa [List.append_nil]
    · refine ⟨field :: left, stuck, right, rfl, ?_⟩
      rwa [List.append_assoc] at hstuck

private theorem stuckIn_append {env : Env β} {memory : ℕ → UInt8} {start length : ℕ}
    {before first second : List (EntryField β)} :
    StuckIn env memory start length before (first ++ second) ↔
      StuckIn env memory start length before first ∨
        StuckIn env memory start length (before ++ first) second := by
  induction first generalizing before with
  | nil =>
      have hnone : ¬StuckIn env memory start length before [] := by
        rintro ⟨left, field, right, hfields, _⟩
        simp at hfields
      simp [hnone]
  | cons field first ih =>
      rw [List.cons_append, stuckIn_cons, ih, stuckIn_cons, List.append_assoc, or_assoc]
      rfl

/-! ## The variables of the walk -/

/-- The walk is behind fields and has decoded or repeated them. -/
structure Behind (memory : ℕ → UInt8) (start length : ℕ) (before : List (EntryField β))
    (w : Walk β) : Prop where
  ptr : w.ptr = entryWidth before
  value : w.value =
    (lastArrived EntryField.isNumber length 0 before).map (scannedAt memory start)
  rawBytes : w.rawBytes = (lastArrived EntryField.isParm length 0 before).map (rawAt memory start)

section Steps

variable {env : Env β} {memory : ℕ → UInt8} {start length : ℕ} {before : List (EntryField β)}
  {field : EntryField β} {w : Walk β}

/-- Behind a field that is there, its variable has its bytes. -/
theorem Behind.arrived (behind : Behind memory start length before w)
    (arrived : Arrived length (entryWidth before) field) {w' : Walk β}
    (ptr : w'.ptr = w.ptr + field.width)
    (value : w'.value = if field.isNumber then
      some (scannedAt memory start (entryWidth before, field)) else w.value)
    (rawBytes : w'.rawBytes = if field.isParm then
      some (rawAt memory start (entryWidth before, field)) else w.rawBytes) :
    Behind memory start length (before ++ [field]) w' := by
  constructor
  · rw [ptr, behind.ptr, entryWidth_append]
    simp [entryWidth]
  · rw [value, lastArrived_snoc, Nat.zero_add, behind.value]
    cases field.isNumber <;> simp [arrived]
  · rw [rawBytes, lastArrived_snoc, Nat.zero_add, behind.rawBytes]
    cases field.isParm <;> simp [arrived]

/-- Behind a field that is not there, the variables are as they were. -/
theorem Behind.repeated (behind : Behind memory start length before w)
    (missing : ¬Arrived length (entryWidth before) field) {w' : Walk β}
    (ptr : w'.ptr = w.ptr + field.width) (value : w'.value = w.value)
    (rawBytes : w'.rawBytes = w.rawBytes) :
    Behind memory start length (before ++ [field]) w' := by
  constructor
  · rw [ptr, behind.ptr, entryWidth_append]
    simp [entryWidth]
  · rw [value, lastArrived_snoc, Nat.zero_add, behind.value]
    simp [missing]
  · rw [rawBytes, lastArrived_snoc, Nat.zero_add, behind.rawBytes]
    simp [missing]

/-- The bytes of a field that is there. -/
theorem contents_drop (memory : ℕ → UInt8) (start : ℕ) {offset width : ℕ}
    (inside : offset + width ≤ length) :
    (contents memory start length).drop offset =
      contents memory (start + offset) width ++
        contents memory (start + (offset + width)) (length - (offset + width)) := by
  have hwhole : contents memory start length = contents memory start offset ++
      (contents memory (start + offset) width ++
        contents memory (start + (offset + width)) (length - (offset + width))) := by
    rw [← Nat.add_assoc start, ← contents_add, ← contents_add]
    congr 1
    omega
  have hoffset : (contents memory start offset).length = offset := length_contents _ _ _
  rw [hwhole, List.drop_left' hoffset]

/-- A scan behind the end leaves the variable. -/
theorem scanAt_missing {tbBytes : Bytes} {scanned : Field}
    (short : (tbBytes.drop w.ptr).length < scanned.size (tbBytes.drop w.ptr).length) :
    scanAt tbBytes scanned w = w.value := by
  rw [scanAt, scan_of_short [] short]

/-- So does the scan of a field that is not there. -/
theorem Behind.scanAt_eq (behind : Behind memory start length before w)
    (missing : ¬Arrived length (entryWidth before) field) {scanned : Field}
    (size : scanned.size (length - entryWidth before) = field.width) :
    scanAt (contents memory start length) scanned w = w.value := by
  apply scanAt_missing
  rw [List.length_drop, length_contents, behind.ptr, size]
  rw [Arrived] at missing
  omega

/-- Decoding raises exactly where it gets stuck, and is otherwise where it should be. -/
def Ends (stuck : Prop) (reached : Walk β → Prop) : Except TraceError (Walk β) → Prop
  | .ok w' => ¬stuck ∧ reached w'
  | .error _ => stuck

theorem scomStep_ends (behind : Behind memory start length before w) :
    Ends (Stuck env memory start length before .scom)
      (Behind memory start length (before ++ [.scom]))
      (scomStep (contents memory start length) w) := by
  by_cases harrived : Arrived length (entryWidth before) (.scom : EntryField β)
  · have hinside : entryWidth before + 8 ≤ length := by
      cases harrived with
      | inl hzero => cases hzero
      | inr hinside => exact hinside
    have hdrop := contents_drop memory start hinside
    rw [← behind.ptr] at hdrop
    have hscan := scanAt_hex hdrop
    rw [length_contents] at hscan
    simp only [scomStep, hscan]
    refine ⟨fun stuck => stuck.1 harrived, behind.arrived harrived rfl ?_ rfl⟩
    simp [EntryField.isNumber, scannedAt, behind.ptr]
  · have hscan : scanAt (contents memory start length) (.hex 16) w = w.value :=
      behind.scanAt_eq harrived rfl
    cases hlast : lastArrived EntryField.isNumber length 0 before with
    | none =>
        have hvalue : w.value = none := by rw [behind.value, hlast, Option.map_none]
        simp only [scomStep, hscan, hvalue]
        exact ⟨harrived, hlast⟩
    | some place =>
        have hvalue : w.value = some (scannedAt memory start place) := by
          rw [behind.value, hlast, Option.map_some]
        simp only [scomStep, hscan, hvalue]
        refine ⟨fun stuck => ?_, behind.repeated harrived rfl hvalue.symm rfl⟩
        have hnone : lastArrived EntryField.isNumber length 0 before = none := stuck.2
        rw [hlast] at hnone
        cases hnone

theorem parmStep_ends (behind : Behind memory start length before w) (sobj : ParmObj) :
    Ends (Stuck env memory start length before (.parm sobj))
      (Behind memory start length (before ++ [.parm sobj]))
      (parmStep (contents memory start length) w sobj) := by
  have hwidth : (EntryField.parm sobj : EntryField β).width = sobj.bytecount := rfl
  have hthere : sobj.bytecount ≤ ((contents memory start length).drop w.ptr).length ↔
      Arrived length (entryWidth before) (.parm sobj : EntryField β) := by
    rw [List.length_drop, length_contents, behind.ptr, Arrived, hwidth]
    omega
  by_cases harrived : Arrived length (entryWidth before) (.parm sobj : EntryField β)
  · have hraw : ((contents memory start length).drop w.ptr).take sobj.bytecount =
        contents memory (start + w.ptr) sobj.bytecount := by
      cases harrived with
      | inl hzero =>
          rw [hwidth] at hzero
          rw [hzero]
          rfl
      | inr hinside =>
          have hlength : (contents memory (start + w.ptr) sobj.bytecount).length = sobj.bytecount :=
            length_contents _ _ _
          rw [behind.ptr] at hlength ⊢
          rw [contents_drop memory start hinside]
          exact List.take_left' hlength
    have hparse := sobj.parse_eq (length_contents memory (start + w.ptr) sobj.bytecount).ge
    simp only [parmStep, if_pos (hthere.mpr harrived), hraw, hparse]
    refine ⟨fun stuck => stuck.1 harrived, behind.arrived harrived rfl rfl ?_⟩
    simp [EntryField.isParm, rawAt, behind.ptr, hwidth]
  · have hshort := mt hthere.mp harrived
    cases hlast : lastArrived EntryField.isParm length 0 before with
    | none =>
        have hraw : w.rawBytes = none := by rw [behind.rawBytes, hlast, Option.map_none]
        simp only [parmStep, if_neg hshort, hraw]
        refine ⟨harrived, ?_⟩
        intro place hplace
        rw [hlast] at hplace
        cases hplace
    | some place =>
        have hraw : w.rawBytes = some (rawAt memory start place) := by
          rw [behind.rawBytes, hlast, Option.map_some]
        simp only [parmStep, if_neg hshort, hraw]
        cases hparse : sobj.parse (rawAt memory start place) with
        | error e =>
            refine ⟨harrived, ?_⟩
            intro place' hplace
            rw [hlast] at hplace
            rw [← Option.some.inj hplace]
            exact ⟨e, hparse⟩
        | ok v =>
            refine ⟨fun stuck => ?_, behind.repeated harrived rfl rfl hraw.symm⟩
            obtain ⟨e, herror⟩ := stuck.2 place hlast
            rw [hparse] at herror
            cases herror

variable [NatCast β] [Mul β]

private theorem sensorValue_int (env : Env β) (sobj : Sensor β) (f : SensorField) (n : ℤ) :
    ∃ v, sensorValue env sobj f (.int n) = .ok v := by
  cases f <;> exact ⟨_, rfl⟩

/-- What was scanned last is converted unless it is digits that are no number, and is taken as
it is for a test. -/
theorem sensorValue_ends (env : Env β) (memory : ℕ → UInt8) (start : ℕ) (sobj : Sensor β)
    (f : SensorField) {place : ℕ × EntryField β}
    (last : lastArrived EntryField.isNumber length 0 before = some place) :
    (∃ v, sensorValue env sobj f (scannedAt memory start place) = .ok v) ↔
      ¬NotConverted env memory start length before (.sensor sobj f) := by
  cases hscanned : scannedAt memory start place with
  | int n =>
      have hconverted : ¬NotConverted env memory start length before (.sensor sobj f) := by
        cases f <;> simp [NotConverted, last, hscanned]
      simp only [sensorValue_int, hconverted, not_false_eq_true]
  | hex digits =>
      cases hnumber : env.digitsNumber digits with
      | none =>
          cases f <;> simp [NotConverted, last, hscanned, sensorValue, Scanned.number, hnumber,
            Except.map]
      | some n =>
          cases f <;> simp [NotConverted, last, hscanned, sensorValue, Scanned.number, hnumber,
            Except.map]

theorem sensorStep_ends (behind : Behind memory start length before w) (sobj : Sensor β)
    (f : SensorField) :
    Ends (Stuck env memory start length before (.sensor sobj f))
      (Behind memory start length (before ++ [.sensor sobj f]))
      (sensorStep env (contents memory start length) w (sobj, f)) := by
  have hwidth := width_sensor sobj f
  by_cases harrived : Arrived length (entryWidth before) (.sensor sobj f)
  · have hinside : entryWidth before + f.size ≤ length := by
      cases harrived with
      | inl hzero => cases f <;> cases hzero
      | inr hinside => rwa [hwidth] at hinside
    have hdrop := contents_drop memory start hinside
    rw [← behind.ptr] at hdrop
    have hscan := scanAt_int hdrop
    rw [length_contents] at hscan
    obtain ⟨v, hv⟩ := sensorValue_int env sobj f
      (signed (contents memory (start + w.ptr) f.size))
    simp only [sensorStep, hscan, hv, Except.map]
    refine ⟨fun stuck => stuck.1 harrived, behind.arrived harrived ?_ ?_ rfl⟩
    · rw [hwidth]
    · simp [EntryField.isNumber, scannedAt, hwidth, behind.ptr]
  · have hscan : scanAt (contents memory start length) (.int f.size) w = w.value :=
      behind.scanAt_eq harrived hwidth.symm
    cases hlast : lastArrived EntryField.isNumber length 0 before with
    | none =>
        have hvalue : w.value = none := by rw [behind.value, hlast, Option.map_none]
        simp only [sensorStep, hscan, hvalue]
        refine ⟨harrived, ?_⟩
        cases f <;> simp [NotConverted, hlast]
    | some place =>
        have hvalue : w.value = some (scannedAt memory start place) := by
          rw [behind.value, hlast, Option.map_some]
        have hends := sensorValue_ends env memory start sobj f hlast
        simp only [sensorStep, hscan, hvalue]
        cases hconverted : sensorValue env sobj f (scannedAt memory start place) with
        | error e =>
            simp only [hconverted, reduceCtorEq, exists_false, false_iff, not_not] at hends
            exact ⟨harrived, hends⟩
        | ok v =>
            simp only [hconverted, Except.ok.injEq, exists_eq', true_iff] at hends
            refine ⟨fun stuck => hends stuck.2, behind.repeated harrived ?_ hvalue.symm rfl⟩
            rw [hwidth]

theorem fieldStep_ends (env : Env β) (behind : Behind memory start length before w)
    (field : EntryField β) :
    Ends (Stuck env memory start length before field)
      (Behind memory start length (before ++ [field]))
      (fieldStep env (contents memory start length) w field) := by
  cases field with
  | sensor sobj f => exact sensorStep_ends behind sobj f
  | parm sobj => exact parmStep_ends behind sobj
  | scom => exact scomStep_ends behind

/-- The walk over fields raises exactly if it gets stuck on one of them. -/
theorem fields_end (env : Env β) (fields : List (EntryField β))
    (behind : Behind memory start length before w) :
    Ends (StuckIn env memory start length before fields)
      (Behind memory start length (before ++ fields))
      (fields.foldlM (fieldStep env (contents memory start length)) w) := by
  induction fields generalizing before w with
  | nil =>
      refine ⟨?_, by rwa [List.append_nil]⟩
      rintro ⟨left, field, right, hfields, _⟩
      simp at hfields
  | cons field fields ih =>
      have hstep := fieldStep_ends env behind field
      rw [List.foldlM_cons]
      cases hfield : fieldStep env (contents memory start length) w field with
      | error e =>
          rw [hfield] at hstep
          exact stuckIn_cons.mpr (.inl hstep)
      | ok w' =>
          rw [hfield] at hstep
          have hrest := ih hstep.2
          change Ends _ _ (fields.foldlM (fieldStep env (contents memory start length)) w')
          cases hfields : fields.foldlM (fieldStep env (contents memory start length)) w' with
          | error e =>
              rw [hfields] at hrest
              exact stuckIn_cons.mpr (.inr hrest)
          | ok w'' =>
              rw [hfields] at hrest
              refine ⟨fun stuck => ?_, ?_⟩
              · exact (stuckIn_cons.mp stuck).elim hstep.1 hrest.1
              · have hbehind := hrest.2
                rwa [List.append_assoc] at hbehind

/-- Decoding all entries raises exactly if it gets stuck on one of their fields. -/
theorem walkEntries_ends {parseEntry : Walk β → Except TraceError (Walk β)}
    {layout : List (EntryField β)}
    (walk : ∀ w, parseEntry w = layout.foldlM (fieldStep env (contents memory start length)) w)
    (positive : 0 < entryWidth layout) (n : ℕ) {entryBytes : ℤ}
    {entries : List (List (FieldValue β))} (behind : Behind memory start length before w)
    (size : entryBytes = w.ptr + n * (entryWidth layout : ℤ)) :
    (∃ entries', decoded (walkEntries parseEntry (entryWidth layout) entryBytes n w entries) =
        .ok entries') ↔
      ¬StuckIn env memory start length before (List.replicate n layout).flatten := by
  induction n generalizing before w entries with
  | zero =>
      have hnone : ¬StuckIn env memory start length before [] := by
        rintro ⟨left, field, right, hfields, _⟩
        simp at hfields
      exact ⟨fun _ => hnone, fun _ => ⟨entries, rfl⟩⟩
  | succ n ih =>
      have hmore : (w.ptr : ℤ) < entryBytes := by
        rw [size]
        have hround : 0 < ((n + 1 : ℕ) : ℤ) * (entryWidth layout : ℤ) := by positivity
        linarith
      have hbegun : Behind memory start length before { w with entry := [] } :=
        ⟨behind.ptr, behind.value, behind.rawBytes⟩
      have hends := fields_end env layout hbegun
      rw [← walk] at hends
      rw [walkEntries, if_pos hmore, List.replicate_succ, List.flatten_cons, stuckIn_append]
      cases hentry : parseEntry { w with entry := [] } with
      | error e =>
          rw [hentry] at hends
          have hstuck : StuckIn env memory start length before layout := hends
          simp [decoded, hstuck]
      | ok w' =>
          rw [hentry] at hends
          have hnext : (w'.ptr : ℤ) = w.ptr + entryWidth layout := by
            rw [hends.2.ptr, entryWidth_append, behind.ptr]
            push_cast
            rfl
          have hsize : entryBytes = w'.ptr + n * (entryWidth layout : ℤ) := by
            rw [size, hnext]
            push_cast
            ring
          simp only [ne_eq, hnext, not_true_eq_false, if_false]
          rw [ih hends.2 hsize, not_or]
          exact ⟨fun rest => ⟨hends.1, rest⟩, fun both => both.2⟩

end Steps

/-! ## When only downloaded entries are returned -/

/-- The number of entries between the pointers. An entry without bytes is none. -/
def TraceBuffer.entriesBetween (tb : TraceBuffer β) : ℕ :=
  if tb.tbEntrySize = 0 then 0 else tb.tbWrite - tb.tbRead

section Complete

variable [NatCast β] [Mul β]

/-- What is returned are the entries between the pointers, out of the contiguous memory, and
the download has brought all their bytes. -/
def CompleteOrFails (env : Env β) (replies : Replies) (memory : ℕ → UInt8) (tb : TraceBuffer β) :
    Prop :=
  ∀ entries, (getAllEntries env replies tb).2 = .ok entries →
    ∃ tb', getConfig env tb = .ok tb' ∧ (download replies tb').2 = false ∧
      entries = (entriesAt memory tb'.layout tb'.firstbyte tb'.entriesBetween).map
        (decodeEntry tb'.layout)

/-- A download that brings all bytes is decoded to the entries between the pointers. -/
theorem rounds_complete (env : Env β) {replies : Replies} {memory : ℕ → UInt8}
    {pattern : ℕ → Option ℕ} {tb : TraceBuffer β}
    (delivers : Delivers memory pattern tb.tracenum replies)
    (enough : tb.needed ≤ fetched pattern tb.needed)
    (size : tb.tbEntrySize = entryWidth tb.layout) :
    rounds (parseEntry env (download replies tb).1) tb.tbEntrySize (tb.tbWrite - tb.tbRead) =
      ((entriesAt memory tb.layout tb.firstbyte tb.entriesBetween).map (decodeEntry tb.layout),
        none) := by
  by_cases hzero : tb.tbEntrySize = 0
  · have hend : ((tb.tbWrite - tb.tbRead : ℕ) : ℤ) * ((0 : ℕ) : ℤ) ≤
        (({ ptr := 0 } : Walk β).ptr : ℤ) := by simp
    rw [TraceBuffer.entriesBetween, if_pos hzero, rounds, hzero, walkEntries_end hend]
    rfl
  · obtain ⟨rest, hbytes⟩ := download_entries delivers enough size
    have hreads : Reads _ _ tb.layout := parseEntry_reads_layout env (download replies tb).1
    have hrounds := rounds_laid (reads_iff.mp hreads) (size ▸ Nat.pos_of_ne_zero hzero)
      laidOut_entriesAt hbytes
    rw [length_entriesAt, ← size] at hrounds
    rw [hrounds, TraceBuffer.entriesBetween, if_neg hzero]
    rfl

/-- Decoding after a download that brings less ends unless it gets stuck on one of the fields. -/
theorem rounds_end_iff (env : Env β) {replies : Replies} {memory : ℕ → UInt8}
    {pattern : ℕ → Option ℕ} {tb : TraceBuffer β}
    (delivers : Delivers memory pattern tb.tracenum replies)
    (less : ¬tb.needed ≤ fetched pattern tb.needed) (size : tb.tbEntrySize = entryWidth tb.layout) :
    (∃ entries, decoded (rounds (parseEntry env (download replies tb).1) tb.tbEntrySize
        (tb.tbWrite - tb.tbRead)) = .ok entries) ↔
      ¬StuckIn env memory tb.firstbyte (fetched pattern tb.needed) []
        (List.replicate (tb.tbWrite - tb.tbRead) tb.layout).flatten := by
  have hpositive : 0 < entryWidth tb.layout := by
    rw [← size]
    apply Nat.pos_of_ne_zero
    intro hzero
    apply less
    rw [TraceBuffer.needed, hzero, Nat.mul_zero]
    exact Nat.zero_le _
  have hwalk (w : Walk β) : parseEntry env (download replies tb).1 w =
      tb.layout.foldlM (fieldStep env
        (contents memory tb.firstbyte (fetched pattern tb.needed))) w := by
    rw [parseEntry_eq_foldlM, download_eq delivers]
    rfl
  have hbegin : Behind memory tb.firstbyte (fetched pattern tb.needed) []
      ({ ptr := 0 } : Walk β) := ⟨rfl, rfl, rfl⟩
  rw [size]
  apply walkEntries_ends hwalk hpositive _ hbegin
  simp

/-- When the entry size is that of the fields, exactly the entries between the pointers are
returned, or it is reported that this has failed, if and only if the trace buffer cannot be
read at all, or the replies bring all bytes, or decoding gets stuck on a field that they do
not bring. -/
theorem completeOrFails_iff {env : Env β} {replies : Replies} {memory : ℕ → UInt8}
    {pattern : ℕ → Option ℕ} {tb : TraceBuffer β}
    (delivers : Delivers memory pattern tb.tracenum replies)
    (size : ∀ tb', getConfig env tb = .ok tb' → tb'.tbEntrySize = entryWidth tb'.layout) :
    CompleteOrFails env replies memory tb ↔
      ∀ tb', getConfig env tb = .ok tb' →
        tb'.needed ≤ fetched pattern tb'.needed ∨
          StuckIn env memory tb'.firstbyte (fetched pattern tb'.needed) []
            (List.replicate (tb'.tbWrite - tb'.tbRead) tb'.layout).flatten := by
  cases hconfig : getConfig env tb with
  | error e => simp [CompleteOrFails, getAllEntries, hconfig]
  | ok tb' =>
      have hsize := size tb' hconfig
      rw [← getConfig_tracenum hconfig] at delivers
      have hdownload := download_eq delivers
      by_cases henough : tb'.needed ≤ fetched pattern tb'.needed
      · have hrounds := rounds_complete env delivers henough hsize
        constructor
        · rintro _ tb'' same
          rw [← Except.ok.inj same]
          exact .inl henough
        · intro _ entries hentries
          rw [getAllEntries_eq hconfig, hrounds] at hentries
          refine ⟨tb', hconfig, ?_, (Except.ok.inj hentries).symm⟩
          rw [hdownload]
          simpa using henough
      · have hends := rounds_end_iff env delivers henough hsize
        rw [← getAllEntries_eq hconfig] at hends
        constructor
        · rintro complete tb'' same
          rw [← Except.ok.inj same]
          right
          by_contra hstuck
          obtain ⟨entries, hentries⟩ := hends.mpr hstuck
          obtain ⟨tb₁, hconfig₁, hflag, _⟩ := complete entries hentries
          rw [hconfig] at hconfig₁
          rw [← Except.ok.inj hconfig₁, hdownload] at hflag
          simp [henough] at hflag
        · intro condition entries hentries
          have hstuck := (condition tb' rfl).resolve_left henough
          exact absurd hstuck (hends.mp ⟨entries, hentries⟩)

end Complete

section Sample

/-- A firmware that answers the first request with two bytes, and none after that. -/
def cutMemory : ℕ → UInt8 := fun address => UInt8.ofNat address

def cutPattern : ℕ → Option ℕ
  | 0 => some 2
  | _ => none

/-- Two entries are returned, and the download of the second has failed. -/
theorem completeOrFails_fails :
    ¬CompleteOrFails (savedEnv 2 0) (firmware cutMemory cutPattern) cutMemory savedTrace := by
  intro complete
  have hreturned : (getAllEntries (savedEnv 2 0) (firmware cutMemory cutPattern)
      savedTrace).2.toOption.map List.length = some 2 := by decide +kernel
  have hfailed : (getConfig (savedEnv 2 0) savedTrace).toOption.map
      (fun tb' => (download (firmware cutMemory cutPattern) tb').2) = some true := by
    decide +kernel
  cases hentries : (getAllEntries (savedEnv 2 0) (firmware cutMemory cutPattern) savedTrace).2 with
  | error e =>
      rw [hentries] at hreturned
      cases hreturned
  | ok entries =>
      obtain ⟨tb', hconfig, hdownload, _⟩ := complete entries hentries
      rw [hconfig] at hfailed
      simp [Except.toOption, hdownload] at hfailed

theorem completeOrFails_sample :
    CompleteOrFails (savedEnv 2 0) (firmware cutMemory cutPattern) cutMemory savedTrace ↔
      ∀ tb', getConfig (savedEnv 2 0) savedTrace = .ok tb' →
        tb'.needed ≤ fetched cutPattern tb'.needed ∨
          StuckIn (savedEnv 2 0) cutMemory tb'.firstbyte (fetched cutPattern tb'.needed) []
            (List.replicate (tb'.tbWrite - tb'.tbRead) tb'.layout).flatten := by
  have hsize : ∀ tb', getConfig (savedEnv 2 0) savedTrace = .ok tb' →
      tb'.tbEntrySize = entryWidth tb'.layout := by
    intro tb' hconfig
    have hwidth : (getConfig (savedEnv 2 0) savedTrace).toOption.map
        (fun tb' => decide (tb'.tbEntrySize = entryWidth tb'.layout)) = some true := by
      decide +kernel
    rw [hconfig] at hwidth
    simpa [Except.toOption] using hwidth
  exact completeOrFails_iff (firmware_delivers _ _ _) hsize

end Sample

end Amester.Trace
