/-
# The length of a stream

A length is a number of records, interpolated ones included. `streamOpen` adds it to the
start time and keeps the sum as the end time; reading stops behind the end time, so the
record of the end time itself is read as well. That is one record more than the length
says, unless the file ends before. An analysis moves the start back by up to a second to
fill its history, and makes the length longer by as much, so it takes one record too many
as well.

A length may be a double. Its sum with the start is rounded, but rounding does not pass an
integer, so the stream still goes on to every time that the exact sum reaches.
-/

import Amester.Scope.Isolation

namespace Amester.Scope

open BinaryFormat
open Globals (historyStart historyLength)

universe u

/-! ## Lengths as numbers -/

/-- The number that a length is, if it is one. -/
def StreamLength.number : StreamLength → Option ℚ
  | .int n => some n
  | .double x => some x
  | .toEnd => none

/-- The end time is not before a time that is no more than the length behind the start. -/
theorem StreamLength.le_after {length : StreamLength} {x : ℚ} (number : length.number = some x)
    (starttime fileendtime : ℤ) {k : ℤ} (le : (k : ℚ) ≤ x) (smallStart : starttime.natAbs < 2 ^ 53)
    (small : (starttime + k).natAbs < 2 ^ 53) :
    ((starttime + k : ℤ) : ℚ) ≤ length.after starttime fileendtime := by
  cases length with
  | int n =>
      obtain rfl : (n : ℚ) = x := Option.some.inj number
      have hle : k ≤ n := by exact_mod_cast le
      rw [StreamLength.after]
      exact_mod_cast Int.add_le_add_left hle starttime
  | double y =>
      obtain rfl : y = x := Option.some.inj number
      rw [StreamLength.after, Binary64.round_of_int smallStart]
      apply Binary64.le_round small
      push_cast
      linarith
  | toEnd => exact absurd number nofun

/-- The length of an analysis with its history is a number, too, and reaches as far. -/
theorem historyLength_number {length : StreamLength} {x : ℚ} (number : length.number = some x)
    {start : ℤ} (low : 0 ≤ start) (high : start < 2 ^ 32) :
    ∃ y, (historyLength start length).number = some y ∧
      ∀ k : ℤ, 0 ≤ k → k ≤ 2 ^ 32 → (k : ℚ) ≤ x →
        ((start - historyStart start + k : ℤ) : ℚ) ≤ y := by
  have hstart : 0 ≤ historyStart start ∧ historyStart start ≤ start := by
    unfold historyStart
    split_ifs <;> omega
  obtain ⟨hstartLow, hstartHigh⟩ := hstart
  generalize hnew : historyStart start = newstart at *
  cases length with
  | int n =>
      obtain rfl : (n : ℚ) = x := Option.some.inj number
      refine ⟨((n + start - newstart : ℤ) : ℚ), by rw [historyLength, hnew]; rfl,
        fun k _ _ hle => ?_⟩
      have hint : k ≤ n := by exact_mod_cast hle
      exact_mod_cast (by omega : start - newstart + k ≤ n + start - newstart)
  | double z =>
      obtain rfl : z = x := Option.some.inj number
      refine ⟨_, by rw [historyLength]; rfl, fun k hpos hsmall hle => ?_⟩
      rw [hnew, Binary64.round_of_int (n := start) (by omega),
        Binary64.round_of_int (n := newstart) (by omega)]
      have hsum : ((k + start : ℤ) : ℚ) ≤ Binary64.round (z + start) := by
        apply Binary64.le_round (by omega)
        push_cast
        linarith
      apply Binary64.le_round (by omega)
      push_cast at hsum ⊢
      linarith
  | toEnd => exact absurd number nofun

/-- As many records as the length says, or as many as there are, when the length is not
less than what is left of the file, and then only. -/
theorem count_eq_min_iff {starttime last : ℤ} (inside : starttime ≤ last) {x after : ℚ}
    (pos : 0 < x)
    (reach : ∀ k : ℤ, 0 ≤ k → k ≤ last - starttime + 1 → (k : ℚ) ≤ x →
      ((starttime + k : ℤ) : ℚ) ≤ after) :
    ((⌊min after last⌋ - starttime + 1 : ℤ) : ℚ) = min x ((last - starttime + 1 : ℤ) : ℚ) ↔
      ((last - starttime + 1 : ℤ) : ℚ) ≤ x := by
  by_cases long : ((last - starttime + 1 : ℤ) : ℚ) ≤ x
  · have hafter := reach _ (by omega) le_rfl long
    have hend : (last : ℚ) ≤ after := le_trans (by push_cast; linarith) hafter
    rw [min_eq_right hend, min_eq_right long, Int.floor_intCast]
    exact iff_of_true rfl long
  · have hshort : x < ((last - starttime + 1 : ℤ) : ℚ) := not_le.mp long
    have hfloor : ⌊x⌋ < last - starttime + 1 := Int.floor_lt.mpr hshort
    have hafter := reach ⌊x⌋ (Int.floor_nonneg.mpr pos.le) hfloor.le (Int.floor_le x)
    have hend : starttime + ⌊x⌋ ≤ ⌊min after last⌋ := by
      apply Int.le_floor.mpr
      apply le_min hafter
      exact_mod_cast (by omega : starttime + ⌊x⌋ ≤ last)
    have hmore : x < ((⌊min after last⌋ - starttime + 1 : ℤ) : ℚ) := by
      have hx := Int.lt_floor_add_one x
      have hcast : ((⌊x⌋ + 1 : ℤ) : ℚ) ≤ ((⌊min after last⌋ - starttime + 1 : ℤ) : ℚ) := by
        exact_mod_cast (by omega : ⌊x⌋ + 1 ≤ ⌊min after last⌋ - starttime + 1)
      push_cast at hcast ⊢
      linarith
    rw [min_eq_left hshort.le]
    exact iff_of_false hmore.ne' long

/-! ## Streams with a length -/

/-- A stream is opened and gives these records before it reports its end. -/
def Yields (file : Bytes) (start : ℤ) (length : StreamLength) (records : List Record) : Prop :=
  ∃ s, streamOpen file start length = .ok s ∧
    ∃ enough, ∀ fuel ≥ enough, readToEnd fuel s = some (.ok records)

/-- The records from a start on, up to an end time. -/
def recordsUntil (file : IncreasingFile) (start : ℤ) (endtime : ℚ) : List Record :=
  ((interpolate file.records).drop start.toNat).take
    (⌊endtime⌋ - (file.first.bmcTime + start) + 1).toNat

section

variable (file : IncreasingFile) {start : ℤ} {length : StreamLength} {x : ℚ}

/-- The time is found by the search for it. -/
def Findable (t : ℤ) : Prop := file.first.bmcTime ≠ -1 ∨ ∃ r ∈ file.records, r.bmcTime = t

/-- What is left of the file behind a start. -/
def left (start : ℤ) : ℤ := file.last.bmcTime - (file.first.bmcTime + start) + 1

private theorem first_range : -2 ^ 31 ≤ file.first.bmcTime ∧ file.first.bmcTime < 2 ^ 31 :=
  bmcTime_range (List.head_mem file.records_ne_nil)

private theorem last_range : -2 ^ 31 ≤ file.last.bmcTime ∧ file.last.bmcTime < 2 ^ 31 :=
  bmcTime_range (List.getLast_mem file.records_ne_nil)

/-- There are as many records as milliseconds. -/
theorem length_recordsUntil (low : 0 ≤ start) {endtime : ℚ} (inside : endtime ≤ file.last.bmcTime)
    (reached : file.first.bmcTime + start ≤ ⌊endtime⌋) :
    ((recordsUntil file start endtime).length : ℤ) =
      ⌊endtime⌋ - (file.first.bmcTime + start) + 1 := by
  have hlength := file.length_interpolate
  have hfloor : ⌊endtime⌋ ≤ file.last.bmcTime :=
    (Int.floor_le_floor inside).trans_eq (Int.floor_intCast _)
  rw [recordsUntil, List.length_take, List.length_drop]
  omega

/-- An end time that reaches as far as the length says gives as many records as the length
says, or as many as there are, exactly if the length is not less than what is left. -/
theorem length_recordsUntil_iff (low : 0 ≤ start)
    (high : start ≤ file.last.bmcTime - file.first.bmcTime) (pos : 0 < x) {after : ℚ}
    (reach : ∀ k : ℤ, 0 ≤ k → k ≤ left file start → (k : ℚ) ≤ x →
      ((file.first.bmcTime + start + k : ℤ) : ℚ) ≤ after) :
    ((recordsUntil file start (min after file.last.bmcTime)).length : ℚ) =
        min x (left file start : ℤ) ↔
      ((left file start : ℤ) : ℚ) ≤ x := by
  have hinside : file.first.bmcTime + start ≤ file.last.bmcTime := by omega
  have hafter := reach 0 le_rfl (by unfold left; omega) (by exact_mod_cast pos.le)
  rw [add_zero] at hafter
  have hreached : file.first.bmcTime + start ≤ ⌊min after file.last.bmcTime⌋ :=
    Int.le_floor.mpr (le_min hafter (by exact_mod_cast hinside))
  have hcount := length_recordsUntil file low (min_le_right after _) hreached
  have hcast : ((recordsUntil file start (min after file.last.bmcTime)).length : ℚ) =
      ((⌊min after (file.last.bmcTime : ℚ)⌋ - (file.first.bmcTime + start) + 1 : ℤ) : ℚ) := by
    exact_mod_cast hcount
  rw [hcast]
  exact count_eq_min_iff hinside pos reach

variable (length) in
/-- What an opened stream yields. -/
theorem yields_of_findable (low : 0 ≤ start)
    (high : start ≤ file.last.bmcTime - file.first.bmcTime)
    (findable : Findable file (file.first.bmcTime + start)) :
    Yields file.bytes start length
      (recordsUntil file start
        (min (length.after (file.first.bmcTime + start) file.last.bmcTime) file.last.bmcTime)) := by
  obtain ⟨s, hopen, hstart, hcurtime, hendtime, hready⟩ :=
    streamOpen_ready file low high findable length
  have hread := readToEnd_eq _ s _ (fun _ => hready) rfl
  rw [hcurtime, hendtime, hstart] at hread
  exact ⟨s, hopen, _, hread⟩

/-- A stream yields one list of records only. -/
theorem Yields.unique {records records' : List Record}
    (yields : Yields file.bytes start length records)
    (yields' : Yields file.bytes start length records') : records = records' := by
  obtain ⟨s, hopen, enough, hread⟩ := yields
  obtain ⟨s', hopen', enough', hread'⟩ := yields'
  obtain rfl : s = s' := Except.ok.inj (hopen.symm.trans hopen')
  have h := hread (max enough enough') (le_max_left _ _)
  rw [hread' (max enough enough') (le_max_right _ _)] at h
  exact (Except.ok.inj (Option.some.inj h)).symm

/-- A stream that cannot find its start is not opened. -/
theorem streamOpen_of_not_findable (low : 0 ≤ start)
    (high : start ≤ file.last.bmcTime - file.first.bmcTime)
    (lost : ¬ Findable file (file.first.bmcTime + start)) (length : StreamLength) :
    streamOpen file.bytes start length = .error .nothingFound := by
  obtain ⟨hsentinel, hnone⟩ := not_or.mp lost
  obtain ⟨n, hinside, -, -, -, hsearch⟩ := streamTime2rec_eq file.sorted
    (file.onFile start length) (t := file.first.bmcTime + start)
    (by simp only [RecordFile.stream]; omega) (by simp only [RecordFile.stream]; omega)
  have hother : (file.records[n]).bmcTime ≠ file.first.bmcTime + start :=
    fun heq => hnone ⟨_, List.getElem_mem hinside, heq⟩
  have hstart : (file.stream start length).filestarttime = file.first.bmcTime := rfl
  rw [streamOpen_eq, if_neg (by omega), if_neg (by omega), hsearch, if_neg hother, hstart,
    if_neg hsentinel]
  rfl

/-- A stream yields as many records as its length says, or as many as there are, exactly if
the length is not less than what is left of the file and the start is found. -/
theorem yields_iff (low : 0 ≤ start) (high : start ≤ file.last.bmcTime - file.first.bmcTime)
    (number : length.number = some x) (pos : 0 < x) :
    (∃ records, Yields file.bytes start length records ∧
        (records.length : ℚ) = min x (left file start : ℤ)) ↔
      ((left file start : ℤ) : ℚ) ≤ x ∧ Findable file (file.first.bmcTime + start) := by
  by_cases findable : Findable file (file.first.bmcTime + start)
  · have hyields := yields_of_findable file length low high findable
    have hfirst := first_range file
    have hlast := last_range file
    have hlength := length_recordsUntil_iff file low high pos fun k hpos hsmall hle => by
      unfold left at hsmall
      exact StreamLength.le_after number _ file.last.bmcTime hle (by omega) (by omega)
    rw [and_iff_left findable, ← hlength]
    constructor
    · rintro ⟨records, hrecords, hnumber⟩
      rw [hyields.unique file hrecords, hnumber]
    · intro hnumber
      exact ⟨_, hyields, hnumber⟩
  · apply iff_of_false
    · rintro ⟨records, ⟨s, hopen, -⟩, -⟩
      rw [streamOpen_of_not_findable file low high findable] at hopen
      cases hopen
    · exact fun h => findable h.2

end

/-! ## Reading a stored stream -/

/-- Reading changes the buffer and the position of a stream only. -/
def Keeps (s s' : Stream) : Prop :=
  s' = { s with buf := s'.buf, curtime := s'.curtime, currec := s'.currec }

theorem Keeps.trans {s s' s'' : Stream} (first : Keeps s s') (second : Keeps s' s'') :
    Keeps s s'' := by
  unfold Keeps at *
  rw [first] at second
  exact second

theorem readRecords_keeps (n : ℕ) (s : Stream) : Keeps s (readRecords n s).1 := by
  induction n generalizing s with
  | zero => rfl
  | succ n ih =>
      rw [readRecords]
      split
      · rfl
      · split
        · rfl
        · exact Keeps.trans (by rfl) (ih _)

theorem streamReadNested_keeps (depth : ℕ) (s : Stream) :
    Keeps s (streamReadNested depth s).1 := by
  induction depth generalizing s with
  | zero => rfl
  | succ depth ih =>
      have hrefill : Keeps s (refill (streamReadNested depth) s).1 := by
        have hrecords := readRecords_keeps 1000 s
        unfold refill
        split
        · rfl
        · generalize readRecords 1000 s = read at hrecords ⊢
          obtain ⟨s', _ | e⟩ := read
          · exact hrecords.trans (Keeps.trans (by rfl) (ih _))
          · exact hrecords
      rw [streamReadNested]
      split
      · rfl
      · split
        · exact hrefill
        · split
          · split <;> rfl
          · exact hrefill
        · split <;> rfl

variable {ν : Type u} {g : Globals ν} {streamid : Ident}

/-- What is stored after a read is the stream after the read. -/
theorem loadStream_readFields {s s' : Stream}
    (load : Globals.loadStream (g.stream streamid) = some s) (keeps : Keeps s s') :
    Globals.loadStream (g.stream.setAll streamid (Globals.readFields s') streamid) = some s' := by
  unfold Globals.loadStream at load
  split at load
  · rename_i hfile hmaxrec hfirst hlast hstart hend hcurtime hcurrec hbuf
    obtain rfl := Option.some.inj load
    rw [keeps]
    simp [Globals.loadStream, Globals.readFields, TclArray.setAll, TclArray.set, hfile, hmaxrec,
      hfirst, hlast, hstart, hend]
  · simp at load

/-- The stored stream will give exactly these records. -/
def Gives (file : IncreasingFile) (streamid : Ident) (g : Globals ν) (records : List Record) :
    Prop :=
  ∃ s ahead, Globals.loadStream (g.stream streamid) = some s ∧
    ((s.curtime : ℚ) ≤ s.endtime → Ready file s ahead) ∧ records <+: ahead ∧
    (records.length : ℤ) = ⌊s.endtime⌋ - s.curtime + 1

namespace Gives

variable {file : IncreasingFile} {r : Record} {records : List Record}

private theorem of_stream {g' : Globals ν} (gives : Gives file streamid g records)
    (same : g'.stream = g.stream) : Gives file streamid g' records := by
  unfold Gives
  rw [same]
  exact gives

theorem readsLeft (gives : Gives file streamid g records) :
    Globals.readsLeft streamid g = records.length + 1 := by
  obtain ⟨s, ahead, hload, -, -, hlength⟩ := gives
  simp only [Globals.readsLeft, hload]
  omega

/-- At its end the stream gives nothing. -/
theorem read_nil (gives : Gives file streamid g []) :
    ∃ g', g.streamRead streamid = (.ok g', none) ∧ g'.ta = g.ta := by
  obtain ⟨s, ahead, hload, -, -, hlength⟩ := gives
  have hend : (s.curtime : ℚ) > s.endtime := by
    apply Int.floor_lt.mp
    rw [List.length_nil] at hlength
    omega
  have hread : Scope.streamRead s = (s, .ok none) := by
    rw [Scope.streamRead, streamReadNested, if_pos hend]
  unfold Globals.streamRead
  simp only [hload, hread]
  exact ⟨_, rfl, rfl⟩

/-- Before its end the stream gives the first of the records. -/
theorem read_cons (gives : Gives file streamid g (r :: records)) :
    ∃ g', g.streamRead streamid = (.ok g', some r) ∧ g'.ta = g.ta ∧
      Gives file streamid g' records := by
  obtain ⟨s, ahead, hload, hready, hprefix, hlength⟩ := gives
  have hmore : (s.curtime : ℚ) ≤ s.endtime := by
    apply Int.le_floor.mp
    rw [List.length_cons] at hlength
    omega
  obtain ⟨r', ahead', s', rfl, hread, hcurtime, hendtime, hready'⟩ :=
    reads_of_ready (hready hmore) hmore 998
  have hkeeps : Keeps s s' := by
    have hnested := streamReadNested_keeps 1000 s
    rwa [hread] at hnested
  have hread' : Scope.streamRead s = (s', .ok (some r')) := hread
  obtain ⟨rfl, hrest⟩ := List.cons_prefix_cons.mp hprefix
  unfold Globals.streamRead
  simp only [hload, hread']
  refine ⟨_, rfl, rfl, s', ahead', loadStream_readFields hload hkeeps, hready', hrest, ?_⟩
  rw [hendtime, hcurtime]
  rw [List.length_cons] at hlength
  push_cast at hlength
  omega

end Gives

/-! ## What an analysis takes -/

/-- Two commands do the same to the array of analyses. -/
def SameTa (o o' : Outcome (Globals ν)) : Prop := o.error = o'.error ∧ o.state.ta = o'.state.ta

theorem SameTa.trans {o o' o'' : Outcome (Globals ν)} (first : SameTa o o')
    (second : SameTa o' o'') : SameTa o o'' :=
  ⟨first.1.trans second.1, first.2.trans second.2⟩

section

variable {g' : Globals ν} (tag : Ident) {file : IncreasingFile} (A : Analysis ν)

private theorem saveRecord_ta (same : g.ta = g'.ta) (rec : Record) :
    (g.saveRecord tag rec).ta = (g'.saveRecord tag rec).ta := by
  unfold Globals.saveRecord
  rw [same]

private theorem foldl_saveRecord_ta (same : g.ta = g'.ta) (records : List Record) :
    (records.foldl (fun g rec => g.saveRecord tag rec) g).ta =
      (records.foldl (fun g rec => g.saveRecord tag rec) g').ta := by
  induction records generalizing g g' with
  | nil => exact same
  | cons rec records ih => exact ih (saveRecord_ta tag same rec)

private theorem taInitialize_ta (same : g.ta = g'.ta) :
    (g.taInitialize A tag).ta = (g'.taInitialize A tag).ta := by
  unfold Globals.taInitialize
  rw [same]

private theorem cullHistory_ta (same : g.ta = g'.ta) :
    (g.cullHistory tag).ta = (g'.cullHistory tag).ta := by
  unfold Globals.cullHistory
  rw [same]
  split
  · split
    · rfl
    · exact same
  · exact same

private theorem analyzeRecord_sameTa (same : g.ta = g'.ta) (rec : Record) :
    SameTa (g.analyzeRecord A tag rec) (g'.analyzeRecord A tag rec) := by
  have hsave := saveRecord_ta tag same rec
  unfold Globals.analyzeRecord
  dsimp only
  rw [hsave]
  split
  · exact ⟨rfl, hsave⟩
  · exact ⟨rfl, cullHistory_ta tag rfl⟩

theorem SameTa.andThen {o o' : Outcome (Globals ν)} {next next' : Globals ν → Outcome (Globals ν)}
    (first : SameTa o o')
    (second : o.error = none → SameTa (next o.state) (next' o'.state)) :
    SameTa (o.andThen next) (o'.andThen next') := by
  obtain ⟨herror, hta⟩ := first
  by_cases hreturned : o.error = none
  · rw [Outcome.andThen_of_ok hreturned, Outcome.andThen_of_ok (herror ▸ hreturned)]
    exact second hreturned
  · rw [Outcome.andThen_of_raised hreturned, Outcome.andThen_of_raised (herror ▸ hreturned)]
    exact ⟨herror, hta⟩

private theorem analyzeRecords_sameTa (same : g.ta = g'.ta) (records : List Record) :
    SameTa (g.analyzeRecords A tag records) (g'.analyzeRecords A tag records) := by
  induction records generalizing g g' with
  | nil => exact ⟨rfl, same⟩
  | cons rec records ih =>
      have hrecord := analyzeRecord_sameTa tag A same rec
      exact hrecord.andThen fun _ => ih hrecord.2

private theorem cullHistory_stream : (g.cullHistory tag).stream = g.stream := by
  unfold Globals.cullHistory
  split
  · split <;> rfl
  · rfl

private theorem analyzeRecord_stream (rec : Record) :
    (g.analyzeRecord A tag rec).state.stream = g.stream := by
  unfold Globals.analyzeRecord
  dsimp only
  split
  · rfl
  · exact cullHistory_stream tag

/-- Priming the history takes records off the stream. -/
theorem primeHistory_of_gives (history : List Record) {records : List Record}
    (gives : Gives file streamid g (history ++ records)) :
    ∃ primed, g.primeHistory streamid tag history.length = .ok primed ∧
      primed.ta = (history.foldl (fun g rec => g.saveRecord tag rec) g).ta ∧
      Gives file streamid primed records := by
  induction history generalizing g with
  | nil => exact ⟨g, rfl, rfl, gives⟩
  | cons rec history ih =>
      obtain ⟨g₁, hread, hta, hgives⟩ := gives.read_cons
      obtain ⟨primed, hprime, hprimed, hrest⟩ :=
        ih (g := g₁.saveRecord tag rec) (hgives.of_stream rfl)
      refine ⟨primed, ?_, ?_, hrest⟩
      · rw [List.length_cons, Globals.primeHistory, hread]
        exact hprime
      · rw [hprimed, List.foldl_cons]
        exact foldl_saveRecord_ta tag (saveRecord_ta tag hta rec) history

/-- The rest of a stream is analysed record by record. -/
theorem analyzeStream_of_gives {records : List Record} (gives : Gives file streamid g records) :
    SameTa (g.analyzeStream A streamid tag (records.length + 1))
      (g.analyzeRecords A tag records) := by
  induction records generalizing g with
  | nil =>
      obtain ⟨g₁, hread, hta⟩ := gives.read_nil
      rw [List.length_nil, Globals.analyzeStream, hread]
      exact ⟨rfl, hta⟩
  | cons rec records ih =>
      obtain ⟨g₁, hread, hta, hgives⟩ := gives.read_cons
      have hrecord := analyzeRecord_sameTa tag A hta rec
      rw [List.length_cons, Globals.analyzeStream, hread, Globals.analyzeRecords]
      refine hrecord.andThen fun _ => ?_
      have hrest := ih (hgives.of_stream (analyzeRecord_stream tag A rec))
      exact hrest.trans (analyzeRecords_sameTa tag A hrecord.2 records)

/-- The records in front of a start with which the history is primed. -/
def history (file : IncreasingFile) (start : ℤ) : List Record :=
  ((interpolate file.records).drop (historyStart start).toNat).take
    (start - historyStart start).toNat

/-- The array of analyses with a new analysis of this start. -/
def begun (start : ℤ) (length : StreamLength) (callback : String) (g : Globals ν) : Globals ν :=
  { g with
    ta := g.ta.setAll (uid (g.uidCount + 1))
      [("start", TaCell.int start), ("length", .length length), ("callback", .text callback)] }

/-- What an analysis does whose history is primed with some records and that then takes others. -/
def analysis (start : ℤ) (length : StreamLength) (callback : String) (primed records : List Record)
    (g : Globals ν) : Outcome (Globals ν) :=
  let tag := uid (g.uidCount + 1)
  ((primed.foldl (fun g rec => g.saveRecord tag rec) (begun start length callback g)).taInitialize
    A tag).analyzeRecords A tag records

end

/-- `ta_file` primes the history with all records of a second before the start, as far as
there are any, and then analyses exactly these records, whatever the analysis computes. -/
def Analyses (ν : Type u) (file : RecordFile) (start : ℤ) (length : StreamLength)
    (records : List Record) : Prop :=
  ∃ primed : List Record, (primed.length : ℤ) = start - historyStart start ∧
    ∀ (A : Analysis ν) (files : String → Option Bytes) (filename callback : String)
      (g : Globals ν), files filename = some file.bytes →
      SameTa (g.taFile A files filename start length callback)
        (analysis A start length callback primed records g)

section

variable {file : IncreasingFile} {start : ℤ} {length : StreamLength} {x : ℚ}

private theorem historyStart_range (low : 0 ≤ start) :
    0 ≤ historyStart start ∧ historyStart start ≤ start := by
  unfold historyStart
  split_ifs <;> omega

/-- The end time of an analysis reaches as far as its length says. -/
theorem historyLength_reach (low : 0 ≤ start)
    (high : start ≤ file.last.bmcTime - file.first.bmcTime) (number : length.number = some x)
    {k : ℤ} (pos : 0 ≤ k) (inside : k ≤ left file start) (le : (k : ℚ) ≤ x) :
    ((file.first.bmcTime + start + k : ℤ) : ℚ) ≤
      (historyLength start length).after (file.first.bmcTime + historyStart start)
        file.last.bmcTime := by
  have hfirst := first_range file
  have hlast := last_range file
  have hstart := historyStart_range low
  obtain ⟨y, hy, hreach⟩ := historyLength_number number low (by omega)
  unfold left at inside
  have hle := StreamLength.le_after hy (file.first.bmcTime + historyStart start) file.last.bmcTime
    (hreach k pos (by omega) le) (by omega) (by omega)
  refine le_of_eq_of_le ?_ hle
  congr 1
  ring

/-- The end time of an analysis. -/
def analysisEnd (file : RecordFile) (start : ℤ) (length : StreamLength) : ℚ :=
  min ((historyLength start length).after (file.first.bmcTime + historyStart start)
    file.last.bmcTime) file.last.bmcTime

private theorem length_history (low : 0 ≤ start)
    (high : start ≤ file.last.bmcTime - file.first.bmcTime) :
    ((history file start).length : ℤ) = start - historyStart start := by
  have hlength := file.length_interpolate
  have hstart := historyStart_range low
  rw [history, List.length_take, List.length_drop]
  omega

/-- The records of the history and those behind them. -/
theorem history_append (low : 0 ≤ start) {endtime : ℚ}
    (reached : file.first.bmcTime + start ≤ ⌊endtime⌋) :
    recordsUntil file (historyStart start) endtime =
      history file start ++ recordsUntil file start endtime := by
  have hstart := historyStart_range low
  have hcount : (⌊endtime⌋ - (file.first.bmcTime + historyStart start) + 1).toNat =
      (start - historyStart start).toNat +
        (⌊endtime⌋ - (file.first.bmcTime + start) + 1).toNat := by omega
  have hdrop : start.toNat = (historyStart start).toNat + (start - historyStart start).toNat := by
    omega
  rw [recordsUntil, hcount, List.take_add, history, recordsUntil, List.drop_drop, ← hdrop]

/-- The globals when an analysis has opened its stream. -/
def streamed (file : RecordFile) (start : ℤ) (length : StreamLength) (filename callback : String)
    (g : Globals ν) : Globals ν :=
  { begun start length callback g with
    uidCount := g.uidCount + 2
    stream := g.stream.setAll (uid (g.uidCount + 2))
      (Globals.openFields filename (some file.bytes) (historyStart start)
        (historyLength start length)).1
    streamids := Function.update g.streamids (uid (g.uidCount + 2)) true }

/-- The stream is opened, and it gives the history and the records up to the end time. -/
theorem streamed_gives (low : 0 ≤ start) (high : start ≤ file.last.bmcTime - file.first.bmcTime)
    (findable : Findable file (file.first.bmcTime + historyStart start))
    (number : length.number = some x) (pos : 0 < x) (filename callback : String) (g : Globals ν) :
    (Globals.openFields filename (some file.bytes) (historyStart start)
        (historyLength start length)).2 = none ∧
      Gives file (uid (g.uidCount + 2))
        (streamed file.toRecordFile start length filename callback g)
        (history file start ++
          recordsUntil file start (analysisEnd file.toRecordFile start length)) := by
  have hstart := historyStart_range low
  have hafter := historyLength_reach low high number (k := 0) le_rfl (by unfold left; omega)
    (by exact_mod_cast pos.le)
  rw [add_zero] at hafter
  have hreached : file.first.bmcTime + start ≤ ⌊analysisEnd file.toRecordFile start length⌋ := by
    have hinside : file.first.bmcTime + start ≤ file.last.bmcTime := by omega
    exact Int.le_floor.mpr (le_min hafter (by exact_mod_cast hinside))
  obtain ⟨s, hopen, hstarttime, hcurtime, hendtime, hready⟩ :=
    streamOpen_ready file hstart.1 (by omega) findable (historyLength start length)
  obtain ⟨hok, hload⟩ :
      (Globals.openFields filename (some file.bytes) (historyStart start)
        (historyLength start length)).2 = none ∧ _ :=
    Globals.loadStream_openFields hopen g.stream (uid (g.uidCount + 2))
  have hend : s.endtime = analysisEnd file.toRecordFile start length := by
    rw [hendtime, hstarttime]
    rfl
  refine ⟨hok, ?_⟩
  rw [← history_append low hreached]
  refine ⟨s, _, hload, fun _ => hready, List.take_prefix _ _, ?_⟩
  rw [hend, hcurtime, hstarttime]
  exact length_recordsUntil file hstart.1 (min_le_right _ _) (by omega)

/-- Whatever has been read of the stream, it can be closed. -/
theorem streamClose_of_streamed {filename : String} (callback : String) {g : Globals ν}
    (opened : (Globals.openFields filename (some file.bytes) (historyStart start)
      (historyLength start length)).2 = none) (A : Analysis ν) (tag : Ident) {n m : ℕ}
    {analyzed : Globals ν}
    (eq : analyzed = (Globals.analyzeStream A (uid (g.uidCount + 2)) tag m
      (((streamed file.toRecordFile start length filename callback g).primeHistory
        (uid (g.uidCount + 2)) tag n).state.taInitialize A tag)).state) :
    analyzed.streamClose (uid (g.uidCount + 2)) = .ok (analyzed.closed (uid (g.uidCount + 2))) := by
  have htouches := ((Globals.primeHistory_touches (uid (g.uidCount + 2)) tag
      (streamed file.toRecordFile start length filename callback g) n).trans
    (Globals.taInitialize_touches _ _ _ A)).trans
      (Globals.analyzeStream_touches (uid (g.uidCount + 2)) tag _ A m)
  rw [← eq] at htouches
  have hfile := htouches.file (fun _ => Globals.openFields_file opened g.stream _)
    (htouches.opened (Function.update_self _ _ _))
  exact Globals.streamClose_of_file (uid (g.uidCount + 2)) analyzed hfile

/-- An analysis takes the records from its start to its end time. -/
theorem taFile_sameTa (low : 0 ≤ start)
    (high : start ≤ file.last.bmcTime - file.first.bmcTime)
    (findable : Findable file (file.first.bmcTime + historyStart start))
    (number : length.number = some x) (pos : 0 < x) (A : Analysis ν)
    (files : String → Option Bytes) (filename callback : String) (g : Globals ν)
    (opens : files filename = some file.bytes) :
    SameTa (g.taFile A files filename start length callback)
      (analysis A start length callback (history file start)
        (recordsUntil file start (analysisEnd file.toRecordFile start length)) g) := by
  have hlength := length_history low high
  obtain ⟨hok, hgives⟩ :=
    streamed_gives low high findable number pos filename callback g
  obtain ⟨primed, hprime, hta, hrest⟩ :=
    primeHistory_of_gives (uid (g.uidCount + 1)) (history file start) hgives
  have hcount : (start - historyStart start).toNat = (history file start).length := by omega
  have hreads := Gives.readsLeft (g := primed.taInitialize A (uid (g.uidCount + 1)))
    (hrest.of_stream rfl)
  have hanalyze := analyzeStream_of_gives (uid (g.uidCount + 1)) A
    (g := primed.taInitialize A (uid (g.uidCount + 1))) (hrest.of_stream rfl)
  have hinit : primed.ta =
      ((history file start).foldl (fun g' rec => g'.saveRecord (uid (g.uidCount + 1)) rec)
        (begun start length callback g)).ta := by
    have hbegun : (streamed file.toRecordFile start length filename callback g).ta =
        (begun start length callback g).ta := rfl
    rw [hta]
    exact foldl_saveRecord_ta _ hbegun (history file start)
  have hsame := hanalyze.trans (analyzeRecords_sameTa _ A (taInitialize_ta _ A hinit) _)
  have hclose := fun n => streamClose_of_streamed callback (g := g) hok A
    (uid (g.uidCount + 1)) (n := (history file start).length) (m := n) rfl
  rw [hprime, Outcome.ok_state] at hclose
  unfold Globals.taFile Globals.uidCreate
  dsimp only
  unfold Globals.streamOpen Globals.uidCreate
  simp only [opens, hok]
  change SameTa ((Outcome.ok
    (streamed file.toRecordFile start length filename callback g)).andThen _) _
  rw [Outcome.ok_andThen, hcount, hprime, Outcome.ok_andThen, hreads]
  have hclosed := hclose
    ((recordsUntil file start (analysisEnd file.toRecordFile start length)).length + 1)
  generalize Globals.analyzeStream A _ _ _ _ = analyzed at hsame hclosed
  by_cases hreturned : analyzed.error = none
  · rw [Outcome.andThen_of_ok hreturned, hclosed, Outcome.ok_andThen]
    exact ⟨hreturned.symm.trans hsame.1, hsame.2⟩
  · rw [Outcome.andThen_of_raised hreturned]
    exact hsame

/-! ## What an analysis is seen to take -/

/-- An analysis that writes down the records that it takes. -/
def recorder (ν : Type u) : Analysis ν where
  initial _ := [("analysed", .records [])]
  processRecord fields rec :=
    match fields "analysed" with
    | some (.records records) => some [("analysed", .records (records ++ [rec]))]
    | _ => none

private theorem recorder_analyzeRecord {tag : Ident} {records : List Record}
    (before : g.ta tag "analysed" = some (.records records)) (rec : Record) :
    (g.analyzeRecord (recorder ν) tag rec).error = none ∧
      (g.analyzeRecord (recorder ν) tag rec).state.ta tag "analysed" =
        some (.records (records ++ [rec])) := by
  have hfield : (g.saveRecord tag rec).ta tag "analysed" = some (.records records) := by
    simp [Globals.saveRecord, TclArray.set, before]
  have hprocess : (recorder ν).processRecord ((g.saveRecord tag rec).ta tag) rec =
      some [("analysed", .records (records ++ [rec]))] := by
    simp only [recorder, hfield]
  unfold Globals.analyzeRecord
  dsimp only
  rw [hprocess]
  refine ⟨rfl, ?_⟩
  unfold Globals.cullHistory
  dsimp only
  split
  · split <;> simp [TclArray.set, TclArray.setAll]
  · simp [TclArray.set, TclArray.setAll]

private theorem recorder_analyzeRecords {tag : Ident} (added : List Record) {records : List Record}
    (before : g.ta tag "analysed" = some (.records records)) :
    (g.analyzeRecords (recorder ν) tag added).error = none ∧
      (g.analyzeRecords (recorder ν) tag added).state.ta tag "analysed" =
        some (.records (records ++ added)) := by
  induction added generalizing g records with
  | nil => exact ⟨rfl, by rw [List.append_nil]; exact before⟩
  | cons rec added ih =>
      obtain ⟨herror, hta⟩ := recorder_analyzeRecord before rec
      rw [Globals.analyzeRecords, Outcome.andThen_of_ok herror, List.append_cons]
      exact ih hta

/-- The recorder sees the records that an analysis takes. -/
theorem recorder_analysis (start : ℤ) (length : StreamLength) (primed records : List Record)
    (callback : String) (g : Globals ν) :
    (analysis (recorder ν) start length callback primed records g).error = none ∧
      (analysis (recorder ν) start length callback primed records g).state.ta
        (uid (g.uidCount + 1)) "analysed" = some (.records records) := by
  have hinitial : (((primed.foldl (fun g' rec => g'.saveRecord (uid (g.uidCount + 1)) rec)
      (begun start length callback g)).taInitialize (recorder ν) (uid (g.uidCount + 1))).ta
        (uid (g.uidCount + 1)) "analysed") = some (.records []) := by
    simp [Globals.taInitialize, recorder, TclArray.set, TclArray.setAll]
  exact recorder_analyzeRecords records hinitial

/-- What cannot be opened as a stream cannot be opened in the store. -/
theorem openFields_of_error (filename : String) {file : Bytes} {start : ℤ} {length : StreamLength}
    {e : StreamError} (failed : streamOpen file start length = .error e) :
    (Globals.openFields filename (some file) start length).2 ≠ none := by
  have hmaxrec : (((file.length : ℤ) - 32) / 32).toNat = (file.length - 32) / 32 := by omega
  unfold streamOpen at failed
  unfold Globals.openFields
  dsimp only at failed ⊢
  rw [hmaxrec]
  cases hfirst : traceGetRecnum file 0 with
  | none => exact nofun
  | some first =>
      cases hlast : traceGetRecnum file ((file.length - 32) / 32) with
      | none => exact nofun
      | some last =>
          simp only [hfirst, hlast] at failed
          simp only
          by_cases hbefore : first.bmcTime + start < first.bmcTime
          · rw [if_pos hbefore]
            exact nofun
          · by_cases hafter : first.bmcTime + start > last.bmcTime
            · rw [if_neg hbefore, if_pos hafter]
              exact nofun
            · rw [if_neg hbefore, if_neg hafter] at failed ⊢
              generalize streamTime2rec _ _ = found at failed ⊢
              cases found with
              | error e => exact nofun
              | ok currec => cases failed

/-- An analysis whose stream cannot be opened raises. -/
theorem taFile_of_error (A : Analysis ν) {file : Bytes} {e : StreamError}
    (failed : streamOpen file (historyStart start) (historyLength start length) = .error e)
    (filename callback : String) (g : Globals ν) :
    (g.taFile A (fun _ => some file) filename start length callback).error ≠ none := by
  have hraises := openFields_of_error filename failed
  unfold Globals.taFile Globals.uidCreate
  dsimp only
  unfold Globals.streamOpen Globals.uidCreate
  dsimp only
  obtain ⟨text, htext⟩ := Option.ne_none_iff_exists'.mp hraises
  rw [htext]
  exact nofun

/-- `ta_file` analyses one list of records only. -/
theorem Analyses.eq {file : RecordFile} {records records' : List Record}
    (analyses : Analyses ν file start length records) {primed : List Record}
    (takes : ∀ (files : String → Option Bytes) (filename callback : String) (g : Globals ν),
      files filename = some file.bytes →
      SameTa (g.taFile (recorder ν) files filename start length callback)
        (analysis (recorder ν) start length callback primed records' g)) :
    records = records' := by
  obtain ⟨primed', -, htakes⟩ := analyses
  have h := htakes (recorder ν) (fun _ => some file.bytes) "" "" Globals.init rfl
  have h' := takes (fun _ => some file.bytes) "" "" Globals.init rfl
  have hta := congrFun (congrFun (h.2.symm.trans h'.2) (uid 1)) "analysed"
  have hseen := (recorder_analysis start length primed' records ""
    (Globals.init : Globals ν)).2
  have hseen' := (recorder_analysis start length primed records' ""
    (Globals.init : Globals ν)).2
  have hinit : (Globals.init : Globals ν).uidCount + 1 = 1 := rfl
  rw [hinit] at hseen hseen'
  rw [hseen, hseen'] at hta
  simpa using hta

/-- `ta_file` analyses as many records as its length says, or as many as there are, exactly
if the length is not less than what is left of the file and the start of the history is found. -/
theorem analyses_iff (ν : Type u) (low : 0 ≤ start)
    (high : start ≤ file.last.bmcTime - file.first.bmcTime) (number : length.number = some x)
    (pos : 0 < x) :
    (∃ records, Analyses ν file.toRecordFile start length records ∧
        (records.length : ℚ) = min x (left file start : ℤ)) ↔
      ((left file start : ℤ) : ℚ) ≤ x ∧
        Findable file (file.first.bmcTime + historyStart start) := by
  have hstart := historyStart_range low
  by_cases findable : Findable file (file.first.bmcTime + historyStart start)
  · have htakes := taFile_sameTa (ν := ν) low high findable number pos
    have hlength := length_recordsUntil_iff file low high pos
      (fun k hpos hinside hle => historyLength_reach low high number hpos hinside hle)
    rw [and_iff_left findable, ← hlength]
    constructor
    · rintro ⟨records, hanalyses, hnumber⟩
      rw [hanalyses.eq (htakes (recorder ν))] at hnumber
      exact hnumber
    · intro hnumber
      exact ⟨_, ⟨history file start, length_history low high, htakes⟩, hnumber⟩
  · apply iff_of_false
    · rintro ⟨records, ⟨primed, -, htakes⟩, -⟩
      have hfails := streamOpen_of_not_findable file hstart.1 (by omega) findable
        (historyLength start length)
      have hsame := htakes (recorder ν) (fun _ => some file.bytes) "" "" Globals.init rfl
      have hseen := recorder_analysis start length primed records ""
        (Globals.init : Globals ν)
      exact taFile_of_error (recorder ν) hfails "" "" Globals.init (hsame.1.trans hseen.1)
    · exact fun h => findable h.2

end

/-- A stream with a length yields as many records as the length says, or as many as there
are, and `ta_file` analyses as many, exactly if the length is not less than what is left of the
file and the search finds the start and the start of the history. -/
theorem length_respected_iff (ν : Type u) (file : IncreasingFile) {start : ℤ} (low : 0 ≤ start)
    (high : start ≤ file.last.bmcTime - file.first.bmcTime) {length : StreamLength} {x : ℚ}
    (number : length.number = some x) (pos : 0 < x) :
    ((∃ records, Yields file.bytes start length records ∧
          (records.length : ℚ) = min x (left file start : ℤ)) ∧
        ∃ records, Analyses ν file.toRecordFile start length records ∧
          (records.length : ℚ) = min x (left file start : ℤ)) ↔
      ((left file start : ℤ) : ℚ) ≤ x ∧ Findable file (file.first.bmcTime + start) ∧
        Findable file (file.first.bmcTime + historyStart start) := by
  rw [yields_iff file low high number pos, analyses_iff ν low high number pos]
  constructor
  · rintro ⟨⟨hlong, hstart⟩, -, hhistory⟩
    exact ⟨hlong, hstart, hhistory⟩
  · rintro ⟨hlong, hstart, hhistory⟩
    exact ⟨⟨hlong, hstart⟩, hlong, hhistory⟩

/-- A length as long as the trace. -/
theorem length_respected_sample :
    ((∃ records, Yields sampleTrace.bytes 2 (.int 4) records ∧
          (records.length : ℚ) = min 4 (left sampleTrace.toIncreasingFile 2 : ℤ)) ∧
        ∃ records, Analyses Unit sampleTrace.toRecordFile 2 (.int 4) records ∧
          (records.length : ℚ) = min 4 (left sampleTrace.toIncreasingFile 2 : ℤ)) ↔
      ((left sampleTrace.toIncreasingFile 2 : ℤ) : ℚ) ≤ 4 ∧
        Findable sampleTrace.toIncreasingFile (sampleTrace.first.bmcTime + 2) ∧
        Findable sampleTrace.toIncreasingFile (sampleTrace.first.bmcTime + historyStart 2) :=
  have low : (0 : ℤ) ≤ 2 := by decide
  have high : 2 ≤ sampleTrace.last.bmcTime - sampleTrace.first.bmcTime := by decide +kernel
  have pos : (0 : ℚ) < 4 := by decide +kernel
  length_respected_iff Unit sampleTrace.toIncreasingFile low high rfl pos

/-- A stream of length 1 yields two records. -/
theorem length_exceeded :
    ¬ ∀ (file : IncreasingFile) (start : ℤ) (length : StreamLength) (x : ℚ), 0 ≤ start →
        start ≤ file.last.bmcTime - file.first.bmcTime → length.number = some x → 0 < x →
        (∃ records, Yields file.bytes start length records ∧
            (records.length : ℚ) = min x (left file start : ℤ)) ∧
          ∃ records, Analyses Unit file.toRecordFile start length records ∧
            (records.length : ℚ) = min x (left file start : ℤ) := by
  intro respected
  have low : (0 : ℤ) ≤ 2 := by decide
  have high : 2 ≤ sampleTrace.last.bmcTime - sampleTrace.first.bmcTime := by decide +kernel
  have pos : (0 : ℚ) < 1 := by decide +kernel
  have number : (StreamLength.int 1).number = some 1 := rfl
  have hyields := (respected sampleTrace.toIncreasingFile 2 (.int 1) 1 low high number pos).1
  have hlong := ((yields_iff sampleTrace.toIncreasingFile low high number pos).mp hyields).1
  have hleft : left sampleTrace.toIncreasingFile 2 = 4 := by decide +kernel
  rw [hleft] at hlong
  norm_num at hlong

end Amester.Scope
