/-
# Saving and loading a trace

The downloaded bytes can be written to a file and decoded later. Loading such a file makes
the number of entries in it the write pointer, and leaves the read pointer as it is. As the
number of entries to decode is the difference of the two, this fits a trace whose read
pointer is zero, and whose download has not run past the write pointer by an entry.
-/

import Amester.Trace.Download

namespace Amester.Trace

open BinaryFormat Parm

universe u

variable {β : Type u}

/-! ## The methods -/

/-- The errors of loading a saved trace and decoding it. -/
inductive LoadError
  /-- "divide by zero" -/
  | divideByZero
  | trace (e : TraceError)

/-- Get the current configuration and download. -/
def getBytes (env : Env β) (replies : Replies) (tb : TraceBuffer β) :
    TraceBuffer β × Except TraceError Bytes :=
  match getConfig env tb with
  | .error e => (tb, .error e)
  | .ok tb =>
    let tb := (download replies tb).1
    (tb, .ok tb.tbBytes)

/-- Load the bytes of a file. -/
def loadFromFile (file : Bytes) (tb : TraceBuffer β) : Except LoadError (TraceBuffer β) :=
  if tb.tbEntrySize = 0 then .error .divideByZero
  else .ok { tb with tbWrite := file.length / tb.tbEntrySize, tbBytes := file }

/-- The entries that were decoded, unless that raised. -/
def decoded : List (List (FieldValue β)) × Option TraceError →
    Except TraceError (List (List (FieldValue β)))
  | (entries, none) => .ok entries
  | (_, some e) => .error e

section Decode

variable [NatCast β] [Mul β]

/-- Save the downloaded bytes, load them and decode them. -/
def savedEntries (env : Env β) (replies : Replies) (tb : TraceBuffer β) :
    Except LoadError (List (List (FieldValue β))) :=
  match getBytes env replies tb with
  | (_, .error e) => .error (.trace e)
  | (tb, .ok file) =>
    match loadFromFile file tb with
    | .error e => .error e
    | .ok tb => (decoded (outcome (parse env tb))).mapError .trace

/-! ## Rounds of the walk -/

/-- The walk over a number of entries from the first byte on. -/
def rounds (parseEntry : Walk β → Except TraceError (Walk β)) (size n : ℕ) :
    List (List (FieldValue β)) × Option TraceError :=
  walkEntries parseEntry size (n * (size : ℤ)) n { ptr := 0 } []

/-- Decoding is as many rounds as there are entries between the pointers. -/
theorem outcome_parse_rounds (env : Env β) (tb : TraceBuffer β) :
    outcome (parse env tb) =
      rounds (parseEntry env tb) tb.tbEntrySize (tb.tbWrite - tb.tbRead) := by
  rw [outcome_parse, rounds]
  by_cases horder : tb.tbRead ≤ tb.tbWrite
  · rw [← Nat.cast_sub horder, Int.toNat_natCast]
  · have hnone : ((tb.tbWrite : ℤ) - tb.tbRead).toNat = 0 := by omega
    rw [hnone, Nat.sub_eq_zero_of_le (by omega)]
    rfl

end Decode

section Rounds

variable {parseEntry : Walk β → Except TraceError (Walk β)} {layout : List (EntryField β)}

theorem decoded_eq_ok {result : List (List (FieldValue β)) × Option TraceError}
    {entries : List (List (FieldValue β))} (ok : decoded result = .ok entries) :
    result = (entries, none) := by
  obtain ⟨entries', error⟩ := result
  cases error with
  | none => rw [Except.ok.inj ok]
  | some e => cases ok

/-- A round that is begun raises or adds an entry. -/
theorem length_lt_of_more {size entryBytes : ℤ} {fuel : ℕ} {w : Walk β}
    {entries entries' : List (List (FieldValue β))} (more : w.ptr < entryBytes)
    (ok : decoded (walkEntries parseEntry size entryBytes (fuel + 1) w entries) = .ok entries') :
    entries.length < entries'.length := by
  rw [walkEntries, if_pos more] at ok
  cases hentry : parseEntry { w with entry := [] } with
  | error e =>
      rw [hentry] at ok
      cases ok
  | ok w' =>
      have hone : entries.length < (entries ++ [w'.entry]).length := by simp
      rw [hentry] at ok
      simp only at ok
      split_ifs at ok
      · rwa [← Except.ok.inj ok]
      · have hprefix := prefix_walkEntries parseEntry size entryBytes fuel w'
          (entries ++ [w'.entry])
        rw [decoded_eq_ok ok] at hprefix
        exact hone.trans_le hprefix.length_le

/-- An entry of another width than the entry size is the last. -/
theorem rounds_of_ne (advances : Advances parseEntry layout) {size : ℕ}
    (other : entryWidth layout ≠ size) (positive : 0 < size) (n : ℕ) :
    rounds parseEntry size (n + 1) = rounds parseEntry size 1 := by
  have hmore (n : ℕ) : (((0 : ℕ) : ℤ)) < ((n + 1 : ℕ) : ℤ) * (size : ℤ) := by positivity
  cases hentry : parseEntry { ptr := 0 } with
  | error e =>
      have honce (n : ℕ) : rounds parseEntry size (n + 1) = ([], some e) := by
        rw [rounds, walkEntries, if_pos (hmore n), hentry]
      rw [honce, ← honce 0]
  | ok w' =>
      have hptr := (advances _ _ hentry).1
      have hnext : (w'.ptr : ℤ) ≠ ((0 : ℕ) : ℤ) + size := by
        rw [hptr]
        push_cast
        simpa using other
      have honce (n : ℕ) : rounds parseEntry size (n + 1) = ([w'.entry], none) := by
        rw [rounds, walkEntries, if_pos (hmore n), hentry]
        simp only [ne_eq] at hnext
        simp only [ne_eq, hnext, not_false_eq_true, if_true, List.nil_append]
      rw [honce, ← honce 0]

/-- A first round raises or decodes an entry. -/
theorem decoded_rounds_ne {size : ℕ} (positive : 0 < size) (n : ℕ) :
    decoded (rounds parseEntry size (n + 1)) ≠ .ok [] := by
  intro nothing
  have hmore : (((0 : ℕ) : ℤ)) < ((n + 1 : ℕ) : ℤ) * (size : ℤ) := by positivity
  exact absurd (length_lt_of_more hmore nothing) (Nat.lt_irrefl 0)

/-- Entries of the entry size that are there are decoded one by one. -/
theorem rounds_laid {decode : EntryField β → Bytes → FieldValue β} {tbBytes rest : Bytes}
    (reads : ReadsAs decode tbBytes parseEntry layout) (positive : 0 < entryWidth layout)
    {entries : List (List Bytes)} (laid : ∀ pieces ∈ entries, LaidOut layout pieces)
    (bytes : tbBytes = entries.flatMap List.flatten ++ rest) :
    rounds parseEntry (entryWidth layout) entries.length =
      (entries.map (List.zipWith decode layout), none) :=
  walkEntries_eq reads positive laid bytes

/-- While the entries are there, another number of rounds decodes another list. -/
theorem decoded_rounds_eq_iff {decode : EntryField β → Bytes → FieldValue β}
    {tbBytes rest : Bytes} (reads : ReadsAs decode tbBytes parseEntry layout)
    (positive : 0 < entryWidth layout) {entries : List (List Bytes)}
    (laid : ∀ pieces ∈ entries, LaidOut layout pieces)
    (bytes : tbBytes = entries.flatMap List.flatten ++ rest) (n : ℕ) :
    decoded (rounds parseEntry (entryWidth layout) n) =
        decoded (rounds parseEntry (entryWidth layout) entries.length) ↔
      n = entries.length := by
  constructor
  · intro same
    rw [rounds_laid reads positive laid bytes] at same
    by_contra hne
    rcases Nat.lt_or_gt_of_ne hne with hless | hmore
    · have htake : ∀ pieces ∈ entries.take n, LaidOut layout pieces :=
        fun pieces hpieces => laid pieces (List.mem_of_mem_take hpieces)
      have hsplit : tbBytes = (entries.take n).flatMap List.flatten ++
          ((entries.drop n).flatMap List.flatten ++ rest) := by
        rw [← List.append_assoc, ← List.flatMap_append, List.take_append_drop, bytes]
      have hrounds := rounds_laid reads positive htake hsplit
      rw [List.length_take_of_le hless.le] at hrounds
      rw [hrounds] at same
      have hlength := congrArg List.length (Except.ok.inj same)
      rw [List.length_map, List.length_map, List.length_take_of_le hless.le] at hlength
      exact hne hlength
    · obtain ⟨more, rfl⟩ := Nat.exists_eq_add_of_lt hmore
      have hinside : (({ ptr := 0 } : Walk β).ptr : ℤ) +
          entries.length * (entryWidth layout : ℤ) ≤
          ((entries.length + more + 1 : ℕ) : ℤ) * (entryWidth layout : ℤ) := by
        push_cast
        nlinarith
      obtain ⟨w', hptr, hwalk⟩ := walkEntries_laid reads positive (more + 1) entries
        { ptr := 0 } [] laid bytes hinside
      have hbegun : (w'.ptr : ℤ) <
          ((entries.length + more + 1 : ℕ) : ℤ) * (entryWidth layout : ℤ) := by
        rw [hptr]
        push_cast
        nlinarith
      rw [← Nat.add_assoc] at hwalk
      rw [rounds, hwalk] at same
      have hlength := length_lt_of_more hbegun same
      exact absurd hlength (by simp)
  · rintro rfl
    rfl

end Rounds

/-! ## When the saved trace is the same -/

theorem getConfig_tracenum {env : Env β} {tb tb' : TraceBuffer β}
    (ok : getConfig env tb = .ok tb') : tb'.tracenum = tb.tracenum := by
  unfold getConfig at ok
  split at ok
  · rw [← Except.ok.inj ok]
  · simp at ok

/-- The condition on what the firmware tells and on the replies. -/
structure Reloads (pattern : ℕ → Option ℕ) (tb : TraceBuffer β) : Prop where
  /-- The entries have a size. -/
  size : tb.tbEntrySize ≠ 0
  /-- There is nothing to decode, or the write pointer is the number of entries that the
  replies bring, or the fields are not those of the entry size, and the replies bring more
  entries than the read pointer. -/
  pointers : tb.tbWrite ≤ tb.tbRead ∨
    fetched pattern tb.needed / tb.tbEntrySize = tb.tbWrite ∨
    (entryWidth tb.layout ≠ tb.tbEntrySize ∧
      tb.tbRead < fetched pattern tb.needed / tb.tbEntrySize)

theorem mapError_trace_inj {x y : Except TraceError (List (List (FieldValue β)))} :
    x.mapError LoadError.trace = y.mapError LoadError.trace ↔ x = y := by
  constructor
  · intro same
    cases x <;> cases y <;> simp_all [Except.mapError]
  · rintro rfl
    rfl

/-- A download that brings enough starts with the entries between the pointers. -/
theorem download_entries {replies : Replies} {memory : ℕ → UInt8} {pattern : ℕ → Option ℕ}
    {tb : TraceBuffer β} (delivers : Delivers memory pattern tb.tracenum replies)
    (enough : tb.needed ≤ fetched pattern tb.needed)
    (size : tb.tbEntrySize = entryWidth tb.layout) :
    ∃ rest, (download replies tb).1.tbBytes =
      (entriesAt memory tb.layout tb.firstbyte (tb.tbWrite - tb.tbRead)).flatMap List.flatten ++
        rest := by
  obtain ⟨more, hmore⟩ := Nat.exists_eq_add_of_le enough
  have hneed : tb.needed = (tb.tbWrite - tb.tbRead) * entryWidth tb.layout := by
    rw [TraceBuffer.needed, size]
  rw [download_eq delivers, hmore, contents_add, flatten_entriesAt, ← hneed]
  exact ⟨_, rfl⟩

section Reload

variable [NatCast β] [Mul β]

/-- The loaded bytes are decoded in as many rounds as their entries exceed the read pointer. -/
theorem savedEntries_eq {env : Env β} {replies : Replies} {memory : ℕ → UInt8}
    {pattern : ℕ → Option ℕ} {tb tb' : TraceBuffer β}
    (delivers : Delivers memory pattern tb.tracenum replies) (config : getConfig env tb = .ok tb')
    (size : tb'.tbEntrySize ≠ 0) :
    savedEntries env replies tb =
      (decoded (rounds (parseEntry env (download replies tb').1) tb'.tbEntrySize
        (fetched pattern tb'.needed / tb'.tbEntrySize - tb'.tbRead))).mapError .trace := by
  rw [← getConfig_tracenum config] at delivers
  let loaded : TraceBuffer β :=
    { (download replies tb').1 with
      tbWrite := (download replies tb').1.tbBytes.length / tb'.tbEntrySize }
  have hsaved : savedEntries env replies tb =
      (decoded (outcome (parse env loaded))).mapError .trace := by
    simp only [savedEntries, getBytes, config, loadFromFile]
    rw [if_neg (by rwa [download_eq delivers])]
    rfl
  have hentry : parseEntry env loaded = parseEntry env (download replies tb').1 := by
    funext w
    rw [parseEntry_eq_foldlM, parseEntry_eq_foldlM]
    rfl
  have hlength : (download replies tb').1.tbBytes.length = fetched pattern tb'.needed := by
    rw [download_eq delivers]
    exact length_contents _ _ _
  rw [hsaved, outcome_parse_rounds, hentry]
  congr 3
  change (download replies tb').1.tbBytes.length / tb'.tbEntrySize - tb'.tbRead = _
  rw [hlength]

theorem getAllEntries_eq {env : Env β} {replies : Replies} {tb tb' : TraceBuffer β}
    (config : getConfig env tb = .ok tb') :
    (getAllEntries env replies tb).2 =
      decoded (rounds (parseEntry env (download replies tb').1) tb'.tbEntrySize
        (tb'.tbWrite - tb'.tbRead)) := by
  have hrounds := outcome_parse_rounds env (download replies tb').1
  change _ = rounds _ tb'.tbEntrySize (tb'.tbWrite - tb'.tbRead) at hrounds
  rw [← hrounds]
  simp only [getAllEntries, config, outcome]
  cases parse env (download replies tb').1 with
  | mk tb'' error => cases error <;> rfl

/-- When the fields fill the entry size, other numbers of rounds give other entries, as long as
one of the two is the number of entries that are there. -/
theorem decoded_rounds_of_width {env : Env β} {replies : Replies} {memory : ℕ → UInt8}
    {pattern : ℕ → Option ℕ} {tb : TraceBuffer β}
    (delivers : Delivers memory pattern tb.tracenum replies)
    (enough : tb.needed ≤ fetched pattern tb.needed) (positive : 0 < tb.tbEntrySize)
    (width : tb.tbEntrySize = entryWidth tb.layout) (n : ℕ) :
    decoded (rounds (parseEntry env (download replies tb).1) tb.tbEntrySize n) =
        decoded (rounds (parseEntry env (download replies tb).1) tb.tbEntrySize
          (tb.tbWrite - tb.tbRead)) ↔
      n = tb.tbWrite - tb.tbRead := by
  obtain ⟨rest, hbytes⟩ := download_entries delivers enough width
  have hreads : Reads _ _ tb.layout := parseEntry_reads_layout env (download replies tb).1
  have hrounds := decoded_rounds_eq_iff (reads_iff.mp hreads) (width ▸ positive)
    laidOut_entriesAt hbytes n
  rwa [length_entriesAt, ← width] at hrounds

/-- When the fields do not fill the entry size, all rounds but none give the same entries. -/
theorem decoded_rounds_of_ne {env : Env β} {tb : TraceBuffer β} {size : ℕ} (positive : 0 < size)
    (width : entryWidth tb.layout ≠ size) {n m : ℕ} (some_round : 0 < m) :
    decoded (rounds (parseEntry env tb) size n) = decoded (rounds (parseEntry env tb) size m) ↔
      0 < n := by
  have hother (k : ℕ) := rounds_of_ne (parseEntry_advances env tb) width positive k
  obtain ⟨m, rfl⟩ := Nat.exists_eq_add_one.mpr some_round
  rw [hother m]
  cases n with
  | zero =>
      constructor
      · intro same
        exact absurd same.symm (decoded_rounds_ne positive 0)
      · intro none_round
        exact absurd none_round (Nat.lt_irrefl 0)
  | succ n => simp [hother n]

/-- When every reply brings bytes, the saved and loaded bytes give the entries that are
decoded directly exactly when the trace buffer cannot be read at all, or what it tells and
the replies make the loaded number of entries the right one. -/
theorem reloads_iff {env : Env β} {replies : Replies} {memory : ℕ → UInt8}
    {pattern : ℕ → Option ℕ} {tb : TraceBuffer β}
    (delivers : Delivers memory pattern tb.tracenum replies)
    (chunks : ∀ k, ∃ n, pattern k = some n ∧ 0 < n) :
    savedEntries env replies tb = (getAllEntries env replies tb).2.mapError .trace ↔
      ∀ tb', getConfig env tb = .ok tb' → Reloads pattern tb' := by
  cases hconfig : getConfig env tb with
  | error e => simp [savedEntries, getBytes, getAllEntries, hconfig, Except.mapError]
  | ok tb' =>
      have hall : (∀ tb'', .ok tb' = (.ok tb'' : Except TraceError (TraceBuffer β)) →
          Reloads pattern tb'') ↔ Reloads pattern tb' := by
        constructor
        · exact fun reloads => reloads tb' rfl
        · intro reloads tb'' same
          rwa [← Except.ok.inj same]
      rw [hall]
      by_cases hsize : tb'.tbEntrySize = 0
      · have hraises : savedEntries env replies tb = .error .divideByZero := by
          simp [savedEntries, getBytes, hconfig, loadFromFile, download, hsize]
        rw [hraises]
        constructor
        · intro same
          cases hresult : (getAllEntries env replies tb).2 <;>
            simp [hresult, Except.mapError] at same
        · exact fun reloads => absurd hsize reloads.size
      · rw [savedEntries_eq delivers hconfig hsize, getAllEntries_eq hconfig, mapError_trace_inj]
        rw [← getConfig_tracenum hconfig] at delivers
        have hconditions : Reloads pattern tb' ↔ tb'.tbWrite ≤ tb'.tbRead ∨
            fetched pattern tb'.needed / tb'.tbEntrySize = tb'.tbWrite ∨
            (entryWidth tb'.layout ≠ tb'.tbEntrySize ∧
              tb'.tbRead < fetched pattern tb'.needed / tb'.tbEntrySize) :=
          ⟨Reloads.pointers, Reloads.mk hsize⟩
        rw [hconditions]
        have hpositive : 0 < tb'.tbEntrySize := Nat.pos_of_ne_zero hsize
        by_cases horder : tb'.tbWrite ≤ tb'.tbRead
        · have hneed : tb'.needed = 0 := by
            rw [TraceBuffer.needed, Nat.sub_eq_zero_of_le horder, Nat.zero_mul]
          rw [hneed, fetched_zero, Nat.zero_div, Nat.zero_sub, Nat.sub_eq_zero_of_le horder]
          simp [horder]
        · by_cases hwidth : tb'.tbEntrySize = entryWidth tb'.layout
          · rw [decoded_rounds_of_width delivers (le_fetched chunks tb'.needed) hpositive hwidth]
            omega
          · have hround : 0 < tb'.tbWrite - tb'.tbRead :=
              Nat.sub_pos_of_lt (Nat.lt_of_not_le horder)
            have hlayout : (download replies tb').1.layout = tb'.layout := rfl
            rw [decoded_rounds_of_ne hpositive (hlayout ▸ Ne.symm hwidth) hround]
            omega

end Reload

section Sample

/-- A trace of one sensor with entries of two bytes, and its pointers. -/
def savedEnv (write read : ℕ) : Env ℤ :=
  { sampleEnv with
    send := fun _ =>
      (0, ([0, 0, 2, 0, 0, write, 0, read].flatMap fun n : ℕ => bigEndian 4 n) ++
        List.replicate 7 0 ++ [3, 0]) }

def savedTrace : TraceBuffer ℤ :=
  (setConfig (savedEnv 0 0) [["TEMP"]] [] [] [] { tracenum := 1, hasScom := false }).1

/-- A firmware with two bytes in every reply. -/
def savedReplies : Replies := firmware (fun address => UInt8.ofNat address) fun _ => some 2

/-- The entry behind the first is saved, and none is loaded. -/
theorem reloads_fails :
    savedEntries (savedEnv 2 1) savedReplies savedTrace ≠
      (getAllEntries (savedEnv 2 1) savedReplies savedTrace).2.mapError .trace := by
  intro same
  have hdirect : ((getAllEntries (savedEnv 2 1) savedReplies savedTrace).2.mapError
      LoadError.trace).toOption.map List.length = some 1 := by decide +kernel
  have hsaved : (savedEntries (savedEnv 2 1) savedReplies savedTrace).toOption.map
      List.length = some 0 := by decide +kernel
  rw [same, hdirect] at hsaved
  revert hsaved
  decide

theorem reloads_sample :
    savedEntries (savedEnv 2 0) savedReplies savedTrace =
        (getAllEntries (savedEnv 2 0) savedReplies savedTrace).2.mapError .trace ↔
      ∀ tb', getConfig (savedEnv 2 0) savedTrace = .ok tb' → Reloads (fun _ => some 2) tb' :=
  reloads_iff (firmware_delivers _ _ _) fun _ => ⟨2, rfl, Nat.two_pos⟩

end Sample

end Amester.Trace
