/-
# Reading a trace as a stream

A stream reads a part of a trace file record by record, with the missing records
interpolated. It starts at a time that is found by binary search, keeps a buffer
that is refilled with a thousand records at a time, and stops at an end time. One
record stays in the buffer while it is refilled, so that the gap behind it can be
filled.
-/

import Amester.Scope.Interpolate

namespace Amester.Scope

open BinaryFormat

/-! ## Streams -/

/-- How much of the trace to read. -/
inductive StreamLength
  | int (n : ℤ)
  | double (x : ℚ)
  | toEnd
  deriving DecidableEq, Repr

inductive StreamError
  /-- "start before beginning" -/
  | startBefore
  /-- "start after end of file" -/
  | startAfter
  /-- "out_of_trace_range" -/
  | outOfTraceRange
  /-- That `print` is no command, on the way to "nothing_found". -/
  | nothingFound
  /-- "this should not happen" -/
  | shouldNotHappen
  /-- "this should not happen 2" -/
  | shouldNotHappen2
  /-- "can't read: no such variable" -/
  | noVariable
  /-- "too many nested evaluations" -/
  | tooManyNested
  deriving DecidableEq, Repr

structure Stream where
  file : Bytes
  maxrec : ℕ
  filestarttime : ℤ
  fileendtime : ℤ
  starttime : ℤ
  endtime : ℚ
  curtime : ℤ
  currec : ℕ := 0
  buf : List Record := []
  deriving DecidableEq

/-- The search for a time between two record numbers. Every round brings them closer
together, so there are no more rounds than records. -/
def searchTime (file : Bytes) (time : ℤ) :
    ℕ → ℤ → ℤ → ℤ → Except StreamError (ℤ × ℤ × ℤ)
  | 0, minrec, maxrec, maxtime => .ok (minrec, maxrec, maxtime)
  | fuel + 1, minrec, maxrec, maxtime =>
    if maxrec - minrec > 1 then
      let probe := (maxrec + minrec) / 2
      match traceGetRecnum file probe.toNat with
      | none => .error .noVariable
      | some r =>
        if r.bmcTime < time then searchTime file time fuel probe maxrec maxtime
        else searchTime file time fuel minrec probe r.bmcTime
    else .ok (minrec, maxrec, maxtime)

/-- Find the record of a time, or the one before if it is missing. -/
def streamTime2rec (s : Stream) (time : ℤ) : Except StreamError ℕ :=
  if time < s.filestarttime ∨ time > s.fileendtime then .error .outOfTraceRange
  else
    match searchTime s.file time (s.maxrec + 2) (-1) (s.maxrec + 1) s.fileendtime with
    | .error e => .error e
    | .ok (minrec, maxrec, maxtime) =>
      if maxtime = time then .ok maxrec.toNat
      else if s.filestarttime ≠ -1 then .ok minrec.toNat
      else .error .nothingFound

/-- The time that is so much later. -/
def StreamLength.after (starttime fileendtime : ℤ) : StreamLength → ℚ
  | .toEnd => fileendtime
  | .int n => (starttime + n : ℤ)
  | .double x => Binary64.round (Binary64.round starttime + x)

/-- Open a stream that starts so many milliseconds behind the first record. -/
def streamOpen (file : Bytes) (start : ℤ) (length : StreamLength) :
    Except StreamError Stream :=
  let maxrec := (file.length - 32) / 32
  match traceGetRecnum file 0, traceGetRecnum file maxrec with
  | some first, some last =>
    let starttime := first.bmcTime + start
    let endtime := length.after starttime last.bmcTime
    let s : Stream :=
      { file := file
        maxrec := maxrec
        filestarttime := first.bmcTime
        fileendtime := last.bmcTime
        starttime := starttime
        endtime := if endtime > last.bmcTime then (last.bmcTime : ℚ) else endtime
        curtime := starttime }
    if starttime < first.bmcTime then .error .startBefore
    else if starttime > last.bmcTime then .error .startAfter
    else (streamTime2rec s starttime).map fun currec => { s with currec := currec }
  | _, _ => .error .noVariable

/-- Take records off the buffer up to the first with the given time. -/
def takeTime (curtime : ℤ) : List Record → Option (Record × List Record)
  | [] => none
  | r :: buf => if r.bmcTime = curtime then some (r, buf) else takeTime curtime buf

/-- Append up to so many records of the file to the buffer. -/
def readRecords : ℕ → Stream → Stream × Option StreamError
  | 0, s => (s, none)
  | n + 1, s =>
    if s.currec > s.maxrec then (s, none)
    else
      match traceGetRecnum s.file s.currec with
      | none => (s, some .noVariable)
      | some r => readRecords n { s with buf := s.buf ++ [r], currec := s.currec + 1 }

/-- Refill the buffer and read again with `readAgain`. -/
def refill (readAgain : Stream → Stream × Except StreamError (Option Record)) (s : Stream) :
    Stream × Except StreamError (Option Record) :=
  if s.currec > s.maxrec then (s, .ok none)
  else
    match readRecords 1000 s with
    | (s, some e) => (s, .error e)
    | (s, none) => readAgain { s with buf := interpolate s.buf }

/-- `streamRead` with so many nested calls left. -/
def streamReadNested : ℕ → Stream → Stream × Except StreamError (Option Record)
  | 0, s => (s, .error .tooManyNested)
  | depth + 1, s =>
    if (s.curtime : ℚ) > s.endtime then (s, .ok none)
    else
      match s.buf with
      | [] => refill (streamReadNested depth) s
      | [r] =>
        if (s.curtime : ℚ) = s.endtime then
          if r.bmcTime = s.curtime then
            ({ s with buf := [], curtime := s.curtime + 1 }, .ok (some r))
          else ({ s with buf := [] }, .error .shouldNotHappen2)
        else refill (streamReadNested depth) s
      | r :: r' :: buf =>
        match takeTime s.curtime (r :: r' :: buf) with
        | some (r, buf) => ({ s with buf := buf, curtime := s.curtime + 1 }, .ok (some r))
        | none => ({ s with buf := [] }, .error .shouldNotHappen)

/-- Return the next record of the stream, or nothing at its end. -/
def streamRead (s : Stream) : Stream × Except StreamError (Option Record) :=
  streamReadNested 1000 s

/-- Read records until nothing is returned. -/
def readToEnd : ℕ → Stream → Option (Except StreamError (List Record))
  | 0, _ => none
  | fuel + 1, s =>
    match streamRead s with
    | (_, .error e) => some (.error e)
    | (_, .ok none) => some (.ok [])
    | (s, .ok (some r)) => (readToEnd fuel s).map (Except.map (r :: ·))

/-! ## The search -/

/-- What a stream remembers of the file that it reads. -/
structure OnFile (file : RecordFile) (s : Stream) : Prop where
  bytes : s.file = file.bytes
  maxrec : s.maxrec + 1 = file.records.length
  filestarttime : s.filestarttime = file.first.bmcTime
  fileendtime : s.fileendtime = file.last.bmcTime

/-- The times of a file do not decrease. -/
def RecordFile.Sorted (file : RecordFile) : Prop :=
  file.records.Pairwise fun r r' => r.bmcTime ≤ r'.bmcTime

theorem IncreasingFile.sorted (file : IncreasingFile) : file.Sorted :=
  file.increasing.imp le_of_lt

theorem RecordFile.Sorted.time_le {file : RecordFile} (sorted : file.Sorted) {m n : ℕ}
    (h : n < file.records.length) (le : m ≤ n) :
    (file.records[m]).bmcTime ≤ (file.records[n]).bmcTime := by
  obtain rfl | hlt := Nat.eq_or_lt_of_le le
  · exact le_rfl
  · exact List.pairwise_iff_getElem.mp sorted m n (hlt.trans h) h hlt

/-- The bounds of the search stand on either side of the time. -/
structure Between (file : RecordFile) (time : ℤ) (minrec maxrec maxtime : ℤ) : Prop where
  low : -1 ≤ minrec
  order : minrec < maxrec
  high : maxrec ≤ file.records.length
  before : ∀ n (h : n < file.records.length), (n : ℤ) ≤ minrec →
    (file.records[n]).bmcTime < time
  behind : ∀ n (h : n < file.records.length), maxrec ≤ n →
    time ≤ (file.records[n]).bmcTime
  found : ∀ n (h : n < file.records.length), (n : ℤ) = maxrec →
    maxtime = (file.records[n]).bmcTime

theorem IncreasingFile.time_lt (file : IncreasingFile) {m n : ℕ}
    (h : n < file.records.length) (less : m < n) :
    (file.records[m]).bmcTime < (file.records[n]).bmcTime :=
  List.pairwise_iff_getElem.mp file.increasing m n (less.trans h) h less

private theorem searchTime_between {file : RecordFile} (sorted : file.Sorted) {time : ℤ}
    (fuel : ℕ) :
    ∀ minrec maxrec maxtime : ℤ, Between file time minrec maxrec maxtime →
      maxrec - minrec ≤ fuel + 1 →
      ∃ minrec' maxtime', searchTime file.bytes time fuel minrec maxrec maxtime =
          .ok (minrec', minrec' + 1, maxtime') ∧
        Between file time minrec' (minrec' + 1) maxtime' := by
  induction fuel with
  | zero =>
      intro minrec maxrec maxtime hbetween hfuel
      have horder := hbetween.order
      obtain rfl : maxrec = minrec + 1 := by omega
      exact ⟨minrec, maxtime, rfl, hbetween⟩
  | succ fuel ih =>
      intro minrec maxrec maxtime hbetween hfuel
      have horder := hbetween.order
      have hlow := hbetween.low
      have hhigh := hbetween.high
      rw [searchTime]
      split_ifs with hmore
      · obtain ⟨probe, hprobe⟩ : ∃ probe : ℕ, (maxrec + minrec) / 2 = probe :=
          ⟨((maxrec + minrec) / 2).toNat, by omega⟩
        have hinside : probe < file.records.length := by omega
        simp only [hprobe, Int.toNat_natCast, traceGetRecnum_eq file.bytes hinside]
        split_ifs with hless
        · apply ih
          · exact
              { low := by omega
                order := by omega
                high := hhigh
                before := fun n hn hle =>
                  (sorted.time_le hinside (by omega)).trans_lt hless
                behind := hbetween.behind
                found := hbetween.found }
          · omega
        · apply ih
          · exact
              { low := hlow
                order := by omega
                high := by omega
                before := hbetween.before
                behind := fun n hn hle =>
                  (not_lt.mp hless).trans (sorted.time_le hn (by omega))
                found := fun n hn heq => by
                  obtain rfl : n = probe := by omega
                  rfl }
          · omega
      · obtain rfl : maxrec = minrec + 1 := by omega
        exact ⟨minrec, maxtime, rfl, hbetween⟩

theorem OnFile.fileendtime_eq {file : RecordFile} {s : Stream} (opened : OnFile file s) :
    ∃ inside : s.maxrec < file.records.length,
      s.fileendtime = (file.records[s.maxrec]).bmcTime := by
  have hmaxrec := opened.maxrec
  refine ⟨by omega, ?_⟩
  rw [opened.fileendtime, RecordFile.last, List.getLast_eq_getElem]
  congr 2
  omega

/-- The bounds with which the search begins. -/
theorem OnFile.between {file : RecordFile} {s : Stream} (opened : OnFile file s) {t : ℤ} :
    Between file t (-1) (s.maxrec + 1) s.fileendtime where
  low := le_rfl
  order := by omega
  high := by
    have hmaxrec := opened.maxrec
    omega
  before n _ hle := by omega
  behind n hn hle := by
    have hmaxrec := opened.maxrec
    omega
  found n hn heq := by
    have hmaxrec := opened.maxrec
    omega

/-- Bounds next to each other stand around the first record that is not earlier. -/
theorem Between.first {file : RecordFile} {t minrec maxtime : ℤ}
    (h : Between file t minrec (minrec + 1) maxtime) {k : ℕ} (hk : k < file.records.length)
    (reached : t ≤ (file.records[k]).bmcTime) :
    ∃ n, ∃ hn : n < file.records.length,
      minrec = n - 1 ∧ maxtime = (file.records[n]).bmcTime ∧
      (∀ m (hm : m < file.records.length), m < n → (file.records[m]).bmcTime < t) ∧
      t ≤ (file.records[n]).bmcTime := by
  have hlow := h.low
  have hhigh := h.high
  have hmax : minrec + 1 ≤ k := by
    by_contra hbehind
    exact absurd (h.before k hk (by omega)) (not_lt.mpr reached)
  obtain ⟨n, hn⟩ : ∃ n : ℕ, minrec + 1 = n := ⟨(minrec + 1).toNat, by omega⟩
  have hinside : n < file.records.length := by omega
  exact ⟨n, hinside, by omega, h.found n hinside hn.symm, fun m hm hless =>
    h.before m hm (by omega), h.behind n hinside (by omega)⟩

/-- What the search for a time of the file comes to: it is over at the first record that is
not earlier. When that has another time, the one before is returned, unless the time of the
first record is the sentinel. -/
theorem streamTime2rec_eq {file : RecordFile} (sorted : file.Sorted) {s : Stream}
    (opened : OnFile file s) {t : ℤ} (low : s.filestarttime ≤ t) (high : t ≤ s.fileendtime) :
    ∃ n, ∃ h : n < file.records.length,
      (∀ m (h : m < file.records.length), m < n → (file.records[m]).bmcTime < t) ∧
      t ≤ (file.records[n]).bmcTime ∧
      (∀ fuel ≥ s.maxrec + 1, searchTime s.file t fuel (-1) (s.maxrec + 1) s.fileendtime =
        .ok (n - 1, n, (file.records[n]).bmcTime)) ∧
      streamTime2rec s t =
        if (file.records[n]).bmcTime = t then .ok n
        else if s.filestarttime ≠ -1 then .ok (n - 1)
        else .error .nothingFound := by
  obtain ⟨hlast, hend⟩ := opened.fileendtime_eq
  have hall : ∀ fuel ≥ s.maxrec + 1, ∃ n, ∃ h : n < file.records.length,
      searchTime s.file t fuel (-1) (s.maxrec + 1) s.fileendtime =
        .ok (n - 1, n, (file.records[n]).bmcTime) ∧
      (∀ m (h : m < file.records.length), m < n → (file.records[m]).bmcTime < t) ∧
      t ≤ (file.records[n]).bmcTime := by
    intro fuel hfuel
    obtain ⟨minrec, maxtime, hsearch, hbetween⟩ :=
      searchTime_between sorted fuel _ _ _ opened.between (by omega)
    obtain ⟨n, hinside, rfl, rfl, hbefore, hbehind⟩ := hbetween.first hlast (hend ▸ high)
    refine ⟨n, hinside, ?_, hbefore, hbehind⟩
    rw [opened.bytes, hsearch, Int.sub_add_cancel]
  obtain ⟨n, hinside, hsearch, hbefore, hbehind⟩ := hall (s.maxrec + 2) (by omega)
  refine ⟨n, hinside, hbefore, hbehind, ?_, ?_⟩
  · intro fuel hfuel
    obtain ⟨n', hinside', hsearch', hbefore', hbehind'⟩ := hall fuel hfuel
    -- the first record that is not earlier is the same one
    obtain rfl : n' = n := by
      by_contra hne
      obtain hless | hless := Nat.lt_or_gt_of_ne hne
      · exact absurd (hbefore n' hinside' hless) (not_lt.mpr hbehind')
      · exact absurd (hbefore' n hinside hless) (not_lt.mpr hbehind)
    exact hsearch'
  · rw [streamTime2rec, if_neg (by omega), hsearch]
    simp only [Int.toNat_natCast]
    have hpred : ((n : ℤ) - 1).toNat = n - 1 := by omega
    rw [hpred]

/-! ## Refilling the buffer -/

private theorem readRecords_eq {file : IncreasingFile} (n : ℕ) :
    ∀ s : Stream, s.file = file.bytes → s.maxrec + 1 = file.records.length →
      readRecords n s =
        ({ s with
            buf := s.buf ++ (file.records.drop s.currec).take n
            currec := s.currec + ((file.records.drop s.currec).take n).length }, none) := by
  induction n with
  | zero =>
      intro s _ _
      simp [readRecords]
  | succ n ih =>
      intro s hbytes hmaxrec
      rw [readRecords]
      split_ifs with hend
      · have hdrop : file.records.drop s.currec = [] := List.drop_eq_nil_of_le (by omega)
        simp [hdrop]
      · have hinside : s.currec < file.records.length := by omega
        have hread : traceGetRecnum s.file s.currec = some file.records[s.currec] := by
          rw [hbytes]
          exact traceGetRecnum_eq file.bytes hinside
        have hih := ih { s with buf := s.buf ++ [file.records[s.currec]], currec := s.currec + 1 }
          hbytes hmaxrec
        simp only [hread]
        rw [hih, List.drop_eq_getElem_cons hinside, List.take_succ_cons, List.length_cons,
          List.append_assoc, List.singleton_append, Nat.add_assoc, Nat.add_comm 1]

/-- Interpolating the unread records behind a buffered one, or behind none, gives the
refilled buffer and what is still unread. -/
theorem interpolate_append (first : Record) (recs recs' : List Record) :
    ∃ last, (interpolate (first :: recs)).getLast? = some last ∧
      interpolate (first :: (recs ++ recs')) =
        interpolate (first :: recs) ++ interpolateFrom last recs' := by
  refine ⟨recs.getLastD first, ?_, ?_⟩
  · rw [interpolate_cons, List.getLast?_cons, ← List.getLastD_eq_getLast?,
      getLastD_interpolateFrom]
  · rw [interpolate_cons, interpolate_cons, interpolateFrom_append, List.cons_append]

/-- Taking the record of a time off a buffer of consecutive times. -/
theorem takeTime_eq {t : ℤ} {buf : List Record} (consecutive : Consecutive t buf) {d : ℕ}
    (inside : d < buf.length) :
    takeTime (t + d) buf = some (buf[d], buf.drop (d + 1)) := by
  induction buf generalizing t d with
  | nil => exact absurd inside (Nat.not_lt_zero _)
  | cons r buf ih =>
      obtain ⟨htime, hrest⟩ := consecutive
      cases d with
      | zero => simp [takeTime, htime]
      | succ d =>
          have hskip : r.bmcTime ≠ t + (d + 1 : ℕ) := by
            rw [htime]
            omega
          have hshift : t + ((d + 1 : ℕ) : ℤ) = t + 1 + d := by
            push_cast
            ring
          rw [takeTime, if_neg hskip, hshift, ih hrest (Nat.lt_of_succ_lt_succ inside)]
          rfl

/-! ## Reading on -/

/-- The records that a stream will return from its current time on, up to the end of the
file. Between two reads the buffer begins with the first of them. A stream that was just
opened has an empty buffer and stands before its first record, with no other record of
the file in between. -/
inductive Ahead (file : IncreasingFile) (s : Stream) (ahead : List Record) : Prop
  | buffered (last : Record) (buf : s.buf.getLast? = some last)
      (eq : ahead = s.buf ++ interpolateFrom last (file.records.drop s.currec))
  | opened (r : Record) (recs : List Record) (buf : s.buf = [])
      (unread : file.records.drop s.currec = r :: recs) (d : ℕ)
      (time : s.curtime = r.bmcTime + d)
      (next : ∀ r' ∈ recs.head?, s.curtime < r'.bmcTime)
      (eq : ahead = (interpolate (r :: recs)).drop d)

/-- The stream belongs to the file, and these records go from its current time to the
end of the file. -/
structure Sound (file : IncreasingFile) (s : Stream) (ahead : List Record) : Prop where
  bytes : s.file = file.bytes
  maxrec : s.maxrec + 1 = file.records.length
  endtime : s.endtime ≤ s.fileendtime
  consecutive : Consecutive s.curtime ahead
  complete : s.curtime + ahead.length = s.fileendtime + 1

/-- What holds of a stream between two reads. -/
structure Ready (file : IncreasingFile) (s : Stream) (ahead : List Record) : Prop
    extends Sound file s ahead where
  position : Ahead file s ahead

/-- A read takes the first record. -/
def Reads (file : IncreasingFile) (depth : ℕ) (s : Stream) (ahead : List Record) : Prop :=
  ∃ r ahead' s', ahead = r :: ahead' ∧ streamReadNested depth s = (s', .ok (some r)) ∧
    s'.curtime = s.curtime + 1 ∧ s'.endtime = s.endtime ∧
    ((s'.curtime : ℚ) ≤ s'.endtime → Ready file s' ahead')

private theorem streamReadNested_of_takeTime {s : Stream} (more : (s.curtime : ℚ) ≤ s.endtime)
    (two : 1 < s.buf.length) {r : Record} {buf : List Record}
    (take : takeTime s.curtime s.buf = some (r, buf)) (depth : ℕ) :
    streamReadNested (depth + 1) s =
      ({ s with buf := buf, curtime := s.curtime + 1 }, .ok (some r)) := by
  obtain ⟨r₁, r₂, recs, hbuf⟩ : ∃ r₁ r₂ recs, s.buf = r₁ :: r₂ :: recs := by
    match s.buf, two with
    | r₁ :: r₂ :: recs, _ => exact ⟨r₁, r₂, recs, rfl⟩
  rw [hbuf] at take
  rw [streamReadNested, if_neg (not_lt.mpr more), hbuf]
  simp only [take]

/-- Reading from a buffer that keeps a record, after skipping some. -/
theorem reads_buffered {file : IncreasingFile} {s : Stream} {ahead : List Record}
    (sound : Sound file s ahead) (more : (s.curtime : ℚ) ≤ s.endtime) (depth : ℕ)
    {d : ℕ} (keeps : d + 1 < s.buf.length)
    (consecutive : Consecutive (s.curtime - d) s.buf) {last : Record}
    (buf : s.buf.getLast? = some last)
    (eq : ahead = (s.buf ++ interpolateFrom last (file.records.drop s.currec)).drop d) :
    Reads file (depth + 1) s ahead := by
  have hinside : d < s.buf.length := Nat.lt_of_succ_lt keeps
  have htake := takeTime_eq consecutive hinside
  rw [Int.sub_add_cancel] at htake
  have hread := streamReadNested_of_takeTime more (by omega) htake depth
  have hahead : ahead = s.buf[d] ::
      (s.buf.drop (d + 1) ++ interpolateFrom last (file.records.drop s.currec)) := by
    rw [eq, List.drop_append_of_le_length hinside.le, List.drop_eq_getElem_cons hinside,
      List.cons_append]
  have hconsecutive := sound.consecutive
  have hcomplete := sound.complete
  rw [hahead] at hconsecutive hcomplete
  refine ⟨_, _, _, hahead, hread, rfl, rfl, fun _ => ?_⟩
  refine ⟨⟨sound.bytes, sound.maxrec, sound.endtime, hconsecutive.2, ?_⟩, .buffered last ?_ rfl⟩
  · rw [List.length_cons] at hcomplete
    push_cast at hcomplete
    simp only
    omega
  · rw [List.getLast?_drop, if_neg (by omega), buf]

/-- Reading the record of the end time, the last in the buffer. -/
theorem reads_last {file : IncreasingFile} {s : Stream} {ahead : List Record} {r : Record}
    (more : (s.curtime : ℚ) = s.endtime) (depth : ℕ) (buf : s.buf = [r])
    (time : r.bmcTime = s.curtime) (eq : ∃ ahead', ahead = r :: ahead') :
    Reads file (depth + 1) s ahead := by
  obtain ⟨ahead', rfl⟩ := eq
  have hread : streamReadNested (depth + 1) s =
      ({ s with buf := [], curtime := s.curtime + 1 }, .ok (some r)) := by
    rw [streamReadNested, if_neg (not_lt.mpr more.le), buf]
    simp only [if_pos more, if_pos time]
  refine ⟨r, ahead', _, rfl, hread, rfl, rfl, fun hmore => absurd hmore ?_⟩
  simp only [not_le]
  push_cast
  linarith

/-- The stream after a refill. -/
def refilled (file : IncreasingFile) (s : Stream) : Stream :=
  { s with
    buf := interpolate (s.buf ++ (file.records.drop s.currec).take 1000)
    currec := s.currec + ((file.records.drop s.currec).take 1000).length }

/-- Before the end time a buffer of one record is refilled, and an empty one always. -/
theorem reads_of_refilled {file : IncreasingFile} {s : Stream} {ahead : List Record}
    (sound : Sound file s ahead) (more : (s.curtime : ℚ) ≤ s.endtime)
    (short : s.buf = [] ∨ (∃ r, s.buf = [r]) ∧ (s.curtime : ℚ) ≠ s.endtime)
    (unread : file.records.drop s.currec ≠ []) {depth : ℕ}
    (reads : Reads file depth (refilled file s) ahead) : Reads file (depth + 1) s ahead := by
  have hinside : ¬ s.currec > s.maxrec := by
    have hlt := List.length_pos_iff.mpr unread
    have hmaxrec := sound.maxrec
    rw [List.length_drop] at hlt
    omega
  have hrefill : refill (streamReadNested depth) s = streamReadNested depth (refilled file s) := by
    rw [refill, if_neg hinside, readRecords_eq 1000 s sound.bytes sound.maxrec]
    rfl
  obtain ⟨r, ahead', s', hahead, hread, hcurtime, hendtime, hready⟩ := reads
  refine ⟨r, ahead', s', hahead, ?_, hcurtime, hendtime, hready⟩
  rw [← hread, ← hrefill, streamReadNested, if_neg (not_lt.mpr more)]
  rcases short with hbuf | ⟨⟨r, hbuf⟩, hend⟩
  · rw [hbuf]
  · rw [hbuf]
    simp only [if_neg hend]

/-- A refill moves unread records into the buffer. -/
theorem refilled_buf {file : IncreasingFile} {s : Stream} {first : Record} {recs : List Record}
    (all : s.buf ++ (file.records.drop s.currec).take 1000 = first :: recs) :
    ∃ last, (refilled file s).buf.getLast? = some last ∧
      interpolate (s.buf ++ file.records.drop s.currec) =
        (refilled file s).buf ++
          interpolateFrom last (file.records.drop (refilled file s).currec) := by
  have hrest : file.records.drop (refilled file s).currec =
      (file.records.drop s.currec).drop 1000 := by
    rw [refilled, ← List.drop_drop, List.length_take]
    obtain hle | hle := Nat.le_total 1000 (file.records.drop s.currec).length
    · rw [Nat.min_eq_left hle]
    · rw [Nat.min_eq_right hle, List.drop_eq_nil_of_le le_rfl, List.drop_eq_nil_of_le hle]
  have hsplit : s.buf ++ file.records.drop s.currec =
      first :: (recs ++ (file.records.drop s.currec).drop 1000) := by
    rw [← List.cons_append, ← all, List.append_assoc, List.take_append_drop]
  obtain ⟨last, hlast, happend⟩ :=
    interpolate_append first recs ((file.records.drop s.currec).drop 1000)
  have hbuf : (refilled file s).buf = interpolate (first :: recs) := by rw [refilled, all]
  exact ⟨last, by rw [hbuf]; exact hlast, by rw [hrest, hbuf, hsplit, happend]⟩

private theorem length_interpolateFrom (first : Record) (recs : List Record) :
    recs.length ≤ (interpolateFrom first recs).length := by
  induction recs generalizing first with
  | nil => exact le_rfl
  | cons second recs ih =>
      have hrest := ih second
      rw [interpolateFrom, List.length_append, List.length_cons, List.length_cons]
      omega

theorem Sound.refilled {file : IncreasingFile} {s : Stream} {ahead : List Record}
    (sound : Sound file s ahead) : Sound file (Scope.refilled file s) ahead :=
  ⟨sound.bytes, sound.maxrec, sound.endtime, sound.consecutive, sound.complete⟩

/-- A single record ahead is the one of the end time. -/
theorem Sound.curtime_eq {file : IncreasingFile} {s : Stream} {r : Record}
    (sound : Sound file s [r])
    (more : (s.curtime : ℚ) ≤ s.endtime) : (s.curtime : ℚ) = s.endtime := by
  have hfile : s.curtime = s.fileendtime := by simpa using sound.complete
  apply le_antisymm more
  rw [hfile]
  exact sound.endtime

/-- The records of a file from one on are interpolated to consecutive times. -/
theorem IncreasingFile.interpolate_drop (file : IncreasingFile) {n : ℕ} {r : Record}
    {recs : List Record}
    (unread : file.records.drop n = r :: recs) :
    Consecutive r.bmcTime (interpolate (r :: recs)) := by
  have hincreasing : (r :: recs).Pairwise fun r r' => r.bmcTime < r'.bmcTime := by
    rw [← unread]
    exact file.increasing.sublist (List.drop_sublist _ _)
  have hexact : ExactTimes (r :: recs) := by
    rw [← unread]
    exact (exactTimes_fileRecords file.bytes).sublist (List.drop_sublist _ _)
  rw [interpolate_cons]
  exact ⟨rfl, interpolateFrom_consecutive hincreasing hexact⟩

/-- Reading when one record is left in the buffer. -/
theorem reads_of_single {file : IncreasingFile} {s : Stream} {ahead : List Record}
    (sound : Sound file s ahead) (more : (s.curtime : ℚ) ≤ s.endtime) (depth : ℕ) {r : Record}
    (buf : s.buf = [r]) (eq : ahead = r :: interpolateFrom r (file.records.drop s.currec)) :
    Reads file (depth + 2) s ahead := by
  by_cases hlast : (s.curtime : ℚ) = s.endtime
  · have htime : r.bmcTime = s.curtime := by
      have hconsecutive := sound.consecutive
      rw [eq] at hconsecutive
      exact hconsecutive.1
    exact reads_last hlast (depth + 1) buf htime ⟨_, eq⟩
  have hunread : file.records.drop s.currec ≠ [] := by
    intro hnil
    rw [hnil, interpolateFrom] at eq
    subst eq
    exact hlast (sound.curtime_eq more)
  apply reads_of_refilled sound more (.inr ⟨⟨r, buf⟩, hlast⟩) hunread
  have hall : s.buf ++ (file.records.drop s.currec).take 1000 =
      r :: (file.records.drop s.currec).take 1000 := by rw [buf]; rfl
  obtain ⟨last, hgetLast, hinterpolate⟩ := refilled_buf hall
  have heq : ahead = (refilled file s).buf ++
      interpolateFrom last (file.records.drop (refilled file s).currec) := by
    rw [eq, ← hinterpolate, buf, List.singleton_append, interpolate_cons]
  refine reads_buffered sound.refilled more depth (d := 0) ?_ ?_ hgetLast heq
  · have hnew := length_interpolateFrom r ((file.records.drop s.currec).take 1000)
    have hpos := List.length_pos_iff.mpr hunread
    rw [List.length_take] at hnew
    rw [refilled, hall, interpolate_cons]
    simp only [List.length_cons]
    omega
  · have hconsecutive := sound.consecutive
    rw [heq, consecutive_append] at hconsecutive
    have hcurtime : (refilled file s).curtime - (0 : ℕ) = s.curtime := sub_zero _
    rw [hcurtime]
    exact hconsecutive.1

/-- Reading for the first time: the records before the start are skipped. -/
theorem reads_of_opened {file : IncreasingFile} {s : Stream} {ahead : List Record}
    (sound : Sound file s ahead) (more : (s.curtime : ℚ) ≤ s.endtime) (depth : ℕ) {r : Record}
    {recs : List Record} (buf : s.buf = []) (unread : file.records.drop s.currec = r :: recs)
    {d : ℕ} (time : s.curtime = r.bmcTime + d) (next : ∀ r' ∈ recs.head?, s.curtime < r'.bmcTime)
    (eq : ahead = (interpolate (r :: recs)).drop d) : Reads file (depth + 2) s ahead := by
  have hunread : file.records.drop s.currec ≠ [] := by
    rw [unread]
    exact List.cons_ne_nil r recs
  apply reads_of_refilled sound more (.inl buf) hunread
  have hall : s.buf ++ (file.records.drop s.currec).take 1000 = r :: recs.take 999 := by
    rw [buf, unread]
    rfl
  obtain ⟨last, hgetLast, hinterpolate⟩ := refilled_buf hall
  have heq : ahead = ((refilled file s).buf ++
      interpolateFrom last (file.records.drop (refilled file s).currec)).drop d := by
    rw [eq, ← hinterpolate, buf, unread, List.nil_append]
  have hbuffer : Consecutive (s.curtime - d) (refilled file s).buf := by
    have hconsecutive := file.interpolate_drop unread
    have hstart : s.curtime - d = r.bmcTime := by omega
    rw [← unread, ← List.nil_append (file.records.drop s.currec), ← buf, hinterpolate,
      consecutive_append] at hconsecutive
    rw [hstart]
    exact hconsecutive.1
  cases recs with
  | nil =>
      have hbuf : (refilled file s).buf = [r] := by
        rw [refilled, hall]
        exact interpolate_cons r []
      have hd : d = 0 := by
        have hcomplete := sound.complete
        have hend : s.curtime ≤ s.fileendtime := by exact_mod_cast more.trans sound.endtime
        by_contra hd
        obtain ⟨d, rfl⟩ := Nat.exists_eq_succ_of_ne_zero hd
        rw [eq, interpolate_cons, List.drop_succ_cons, interpolateFrom, List.drop_nil,
          List.length_nil] at hcomplete
        omega
      subst hd
      rw [interpolate_cons, interpolateFrom, List.drop_zero] at eq
      subst eq
      have htime : r.bmcTime = (refilled file s).curtime := by
        rw [refilled, time]
        simp
      exact reads_last (s := refilled file s) (sound.curtime_eq more) depth hbuf htime ⟨[], rfl⟩
  | cons r' recs =>
      have hbuf : (refilled file s).buf =
          r :: (missing r r' ++ r' :: interpolateFrom r' (recs.take 998)) := by
        rw [refilled, hall, interpolate_cons, List.take_succ_cons, interpolateFrom]
      have hnext : s.curtime < r'.bmcTime := next r' rfl
      refine reads_buffered sound.refilled more depth (d := d) ?_ hbuffer hgetLast heq
      -- the record behind the current time stays in the buffer
      rw [hbuf] at hbuffer ⊢
      have hrest := hbuffer.2
      rw [consecutive_append] at hrest
      have htime := hrest.2.1
      rw [List.length_cons, List.length_append, List.length_cons]
      omega

/-- Every read before the end takes the first of the records ahead. -/
theorem reads_of_ready {file : IncreasingFile} {s : Stream} {ahead : List Record}
    (ready : Ready file s ahead) (more : (s.curtime : ℚ) ≤ s.endtime) (depth : ℕ) :
    Reads file (depth + 2) s ahead := by
  have sound := ready.toSound
  cases ready.position with
  | buffered last buf eq =>
      by_cases htwo : 1 < s.buf.length
      · have hbuffered := sound.consecutive
        rw [eq, consecutive_append] at hbuffered
        exact reads_buffered sound more (depth + 1) htwo (d := 0)
          (by simpa using hbuffered.1) buf eq
      · obtain ⟨r, hbuf⟩ : ∃ r, s.buf = [r] := by
          match s.buf, buf, htwo with
          | [r], _, _ => exact ⟨r, rfl⟩
          | _ :: _ :: _, _, htwo => simp at htwo
        obtain rfl : r = last := by simpa [hbuf] using buf
        rw [hbuf] at eq
        exact reads_of_single sound more depth hbuf eq
  | opened r recs buf unread d time next eq =>
      exact reads_of_opened sound more depth buf unread time next eq

/-! ## Whole streams -/

/-- Reading to the end returns the records ahead up to the end time. -/
theorem readToEnd_eq {file : IncreasingFile} (n : ℕ) :
    ∀ (s : Stream) (ahead : List Record), ((s.curtime : ℚ) ≤ s.endtime → Ready file s ahead) →
      n = (⌊s.endtime⌋ - s.curtime + 1).toNat →
      ∀ fuel ≥ n + 1, readToEnd fuel s = some (.ok (ahead.take n)) := by
  induction n with
  | zero =>
      intro s ahead _ hn fuel hfuel
      obtain ⟨fuel, rfl⟩ := Nat.exists_eq_add_of_le' hfuel
      have hend : (s.curtime : ℚ) > s.endtime := by
        apply Int.floor_lt.mp
        omega
      have hread : streamRead s = (s, .ok none) := by
        rw [streamRead, streamReadNested, if_pos hend]
      rw [readToEnd, hread]
      rfl
  | succ n ih =>
      intro s ahead hready hn fuel hfuel
      obtain ⟨fuel, rfl⟩ := Nat.exists_eq_add_of_le' hfuel
      have hmore : (s.curtime : ℚ) ≤ s.endtime := by
        apply Int.le_floor.mp
        omega
      obtain ⟨r, ahead', s', rfl, hread, hcurtime, hendtime, hready'⟩ :=
        reads_of_ready (hready hmore) hmore 998
      have hrest := ih s' ahead' hready' (by rw [hendtime, hcurtime]; omega) (fuel + (n + 1))
        (by omega)
      have hread' : streamRead s = (s', .ok (some r)) := hread
      rw [← Nat.add_assoc, readToEnd, hread']
      simp only
      rw [hrest]
      rfl

namespace IncreasingFile

variable (file : IncreasingFile)

private theorem interpolate_consecutive :
    Consecutive file.first.bmcTime (interpolate file.records) := by
  obtain ⟨first, recs, hrecords⟩ := List.exists_cons_of_ne_nil file.records_ne_nil
  have hfirst : file.first = first := by simp [RecordFile.first, hrecords]
  have hdrop : file.records.drop 0 = first :: recs := hrecords
  rw [hfirst, hrecords]
  exact file.interpolate_drop hdrop

end IncreasingFile

/-- The interpolated file, cut at a record of the file. -/
theorem interpolate_split (recs : List Record) (r : Record) (recs' : List Record) :
    ∃ front, interpolate (recs ++ r :: recs') = front ++ r :: interpolateFrom r recs' := by
  cases recs with
  | nil => exact ⟨[], interpolate_cons r recs'⟩
  | cons first recs =>
      refine ⟨first :: interpolateFrom first recs ++ missing (recs.getLastD first) r, ?_⟩
      rw [List.cons_append, interpolate_cons, interpolateFrom_append, interpolateFrom]
      simp

/-- The last time of consecutive records. -/
theorem Consecutive.length_eq {t : ℤ} {recs : List Record} (h : Consecutive t recs) {last : Record}
    (getLast : recs.getLast? = some last) : last.bmcTime + 1 = t + recs.length := by
  obtain ⟨front, rfl⟩ := List.getLast?_eq_some_iff.mp getLast
  have htime := (consecutive_append.mp h).2.1
  rw [htime, List.length_append, List.length_singleton]
  push_cast
  ring

theorem IncreasingFile.length_interpolate (file : IncreasingFile) :
    file.first.bmcTime + (interpolate file.records).length = file.last.bmcTime + 1 := by
  obtain ⟨first, recs, hrecords⟩ := List.exists_cons_of_ne_nil file.records_ne_nil
  have hlast : (interpolate file.records).getLast? = some file.last := by
    have hfile : file.last = recs.getLastD first := by
      simp [RecordFile.last, hrecords, List.getLast_eq_getLastD]
    rw [hfile, hrecords, interpolate_cons, List.getLast?_cons, ← List.getLastD_eq_getLast?,
      getLastD_interpolateFrom]
  exact (file.interpolate_consecutive.length_eq hlast).symm

theorem Consecutive.drop {t : ℤ} {recs : List Record} (h : Consecutive t recs) {n : ℕ}
    (le : n ≤ recs.length) : Consecutive (t + n) (recs.drop n) := by
  rw [← List.take_append_drop n recs, consecutive_append, List.length_take,
    Nat.min_eq_left le] at h
  exact h.2

/-- A stream that stands at the last record that is not later than its current time has the
interpolated file from that time on ahead. -/
theorem IncreasingFile.ahead_opened (file : IncreasingFile) {s : Stream} {start : ℕ}
    (buf : s.buf = [])
    {n : ℕ} (currec : s.currec = n) (curtime : s.curtime = file.first.bmcTime + start)
    (inside : n < file.records.length) (before : (file.records[n]).bmcTime ≤ s.curtime)
    (next : ∀ h : n + 1 < file.records.length, s.curtime < (file.records[n + 1]).bmcTime) :
    Ahead file s ((interpolate file.records).drop start) := by
  obtain ⟨front, hfront⟩ := interpolate_split (file.records.take n) file.records[n]
    (file.records.drop (n + 1))
  rw [← List.drop_eq_getElem_cons inside, List.take_append_drop] at hfront
  have htime : (file.records[n]).bmcTime = file.first.bmcTime + front.length := by
    have hconsecutive := file.interpolate_consecutive
    rw [hfront, consecutive_append] at hconsecutive
    exact hconsecutive.2.1
  obtain ⟨d, hd⟩ := Int.le.dest before
  refine .opened file.records[n] (file.records.drop (n + 1)) buf ?_ d hd.symm ?_ ?_
  · rw [currec]
    exact List.drop_eq_getElem_cons inside
  · intro r' hr'
    rw [List.head?_drop, Option.mem_def, List.getElem?_eq_some_iff] at hr'
    obtain ⟨hinside, rfl⟩ := hr'
    exact next hinside
  · have hstart : start = front.length + d := by omega
    rw [hstart, ← List.drop_drop, hfront, List.drop_left, interpolate_cons]

/-- The search for a time of a file with increasing times finds the last record that is not
later, also in front of a record of that time. -/
theorem IncreasingFile.streamTime2rec_ok (file : IncreasingFile) {s : Stream}
    (opened : OnFile file.toRecordFile s) {t : ℤ} (low : s.filestarttime ≤ t)
    (high : t ≤ s.fileendtime)
    (found : s.filestarttime ≠ -1 ∨ ∃ r ∈ file.records, r.bmcTime = t) :
    ∃ n, ∃ h : n < file.records.length, streamTime2rec s t = .ok n ∧
      (file.records[n]).bmcTime ≤ t ∧
      ∀ h' : n + 1 < file.records.length, t < (file.records[n + 1]).bmcTime := by
  obtain ⟨n, hinside, hbefore, hbehind, -, hsearch⟩ :=
    streamTime2rec_eq file.sorted opened low high
  by_cases heq : (file.records[n]).bmcTime = t
  · refine ⟨n, hinside, by rw [hsearch, if_pos heq], heq.le, fun h' => ?_⟩
    rw [← heq]
    exact file.time_lt h' (Nat.lt_succ_self n)
  · have hsome : s.filestarttime ≠ -1 := by
      refine found.resolve_right ?_
      rintro ⟨r, hr, htime⟩
      obtain ⟨m, hm, rfl⟩ := List.mem_iff_getElem.mp hr
      obtain hless | rfl | hless := lt_trichotomy m n
      · exact (hbefore m hm hless).ne htime
      · exact heq htime
      · have hlater := file.time_lt hm hless
        omega
    have hne : n ≠ 0 := by
      rintro rfl
      have hfirst := file.getElem_zero file.length_pos
      have hstart := opened.filestarttime
      rw [hfirst] at heq hbehind
      omega
    obtain ⟨m, rfl⟩ := Nat.exists_eq_succ_of_ne_zero hne
    refine ⟨m, by omega, by rw [hsearch, if_neg heq, if_pos hsome]; rfl,
      (hbefore m (by omega) (Nat.lt_succ_self m)).le, fun h' => ?_⟩
    exact lt_of_le_of_ne hbehind (Ne.symm heq)

/-- The stream that `streamOpen` makes before it searches. -/
def RecordFile.stream (file : RecordFile) (start : ℤ) (length : StreamLength) : Stream :=
  { file := file.bytes
    maxrec := (file.bytes.length - 32) / 32
    filestarttime := file.first.bmcTime
    fileendtime := file.last.bmcTime
    starttime := file.first.bmcTime + start
    endtime := min (length.after (file.first.bmcTime + start) file.last.bmcTime) file.last.bmcTime
    curtime := file.first.bmcTime + start }

theorem RecordFile.maxrec_eq (file : RecordFile) :
    (file.bytes.length - 32) / 32 + 1 = file.records.length := by
  have hpos := file.length_pos
  have hcount : file.records.length = file.bytes.length / 32 := length_fileRecords file.bytes
  omega

theorem RecordFile.onFile (file : RecordFile) (start : ℤ) (length : StreamLength) :
    OnFile file (file.stream start length) :=
  ⟨rfl, file.maxrec_eq, rfl, rfl⟩

theorem RecordFile.read_first (file : RecordFile) :
    traceGetRecnum file.bytes 0 = some file.first := by
  rw [traceGetRecnum_eq file.bytes file.length_pos]
  exact congrArg some (file.getElem_zero file.length_pos)

theorem RecordFile.read_last (file : RecordFile) :
    traceGetRecnum file.bytes ((file.bytes.length - 32) / 32) = some file.last := by
  have hmaxrec := file.maxrec_eq
  have hinside : (file.bytes.length - 32) / 32 < file.records.length := by omega
  rw [traceGetRecnum_eq file.bytes hinside, RecordFile.last, List.getLast_eq_getElem]
  congr 2
  omega

/-- A stream that starts inside the file opens as the search for its start goes. -/
theorem streamOpen_eq (file : RecordFile) (start : ℤ) (length : StreamLength) :
    streamOpen file.bytes start length =
      if start < 0 then .error .startBefore
      else if start > file.last.bmcTime - file.first.bmcTime then .error .startAfter
      else (streamTime2rec (file.stream start length) (file.first.bmcTime + start)).map
        fun currec => { file.stream start length with currec := currec } := by
  have hbefore : (file.first.bmcTime + start < file.first.bmcTime) = (start < 0) := by
    apply propext
    omega
  have hafter : (file.first.bmcTime + start > file.last.bmcTime) =
      (start > file.last.bmcTime - file.first.bmcTime) := by
    apply propext
    omega
  rw [streamOpen]
  simp only [file.read_first, file.read_last, hbefore, hafter, RecordFile.stream,
    min_comm (length.after _ _), min_def_lt, gt_iff_lt]

/-- Opening a stream inside the trace. -/
theorem streamOpen_ready (file : IncreasingFile) {start : ℤ} (low : 0 ≤ start)
    (high : start ≤ file.last.bmcTime - file.first.bmcTime)
    (found : file.first.bmcTime ≠ -1 ∨
      ∃ r ∈ file.records, r.bmcTime = file.first.bmcTime + start) (length : StreamLength) :
    ∃ s, streamOpen file.bytes start length = .ok s ∧
      s.starttime = file.first.bmcTime + start ∧ s.curtime = s.starttime ∧
      s.endtime = min (length.after s.starttime file.last.bmcTime) file.last.bmcTime ∧
      Ready file s ((interpolate file.records).drop start.toNat) := by
  have hopened := file.onFile start length
  have hlength := file.length_interpolate
  obtain ⟨n, hn, hsearch, hbefore, hnext⟩ := file.streamTime2rec_ok hopened
    (t := file.first.bmcTime + start) (by simp only [RecordFile.stream]; omega)
    (by simp only [RecordFile.stream]; omega) found
  refine ⟨{ file.stream start length with currec := n }, ?_, rfl, rfl, rfl,
    ⟨rfl, hopened.maxrec, ?_, ?_, ?_⟩, ?_⟩
  · rw [streamOpen_eq, if_neg (by omega), if_neg (by omega), hsearch]
    rfl
  · exact min_le_right _ _
  · have hdrop := file.interpolate_consecutive.drop (n := start.toNat) (by omega)
    rwa [Int.toNat_of_nonneg low] at hdrop
  · simp only [RecordFile.stream, List.length_drop]
    omega
  · exact file.ahead_opened rfl rfl (by simp only [RecordFile.stream]; omega) hn hbefore hnext

theorem Consecutive.mem_times {t : ℤ} {recs : List Record} (h : Consecutive t recs) {r : Record}
    (mem : r ∈ recs) : t ≤ r.bmcTime ∧ r.bmcTime < t + recs.length := by
  induction recs generalizing t with
  | nil => exact absurd mem List.not_mem_nil
  | cons r' recs ih =>
      obtain ⟨htime, hrest⟩ := h
      rw [List.length_cons]
      obtain rfl | hmem := List.mem_cons.mp mem
      · constructor
        · exact htime.ge
        · push_cast
          omega
      · obtain ⟨hlow, hhigh⟩ := ih hrest hmem
        constructor
        · omega
        · push_cast
          omega

/-- Records of consecutive times in a range stand in the part of that range. -/
theorem Consecutive.mem_part {t : ℤ} {recs : List Record} (h : Consecutive t recs) {r : Record}
    (mem : r ∈ recs) {a n : ℕ} (low : t + a ≤ r.bmcTime) (high : r.bmcTime < t + a + n) :
    r ∈ (recs.drop a).take n := by
  rw [← List.take_append_drop a recs] at h mem
  rw [consecutive_append] at h
  have hdrop : r ∈ recs.drop a := by
    refine (List.mem_append.mp mem).resolve_left fun hfront => ?_
    have htime := (h.1.mem_times hfront).2
    rw [List.length_take] at htime
    omega
  have hlength : a ≤ recs.length := by
    by_contra hlong
    rw [List.drop_eq_nil_of_le (by omega)] at hdrop
    exact List.not_mem_nil hdrop
  rw [List.length_take, Nat.min_eq_left hlength, ← List.take_append_drop n (recs.drop a)] at h
  rw [← List.take_append_drop n (recs.drop a)] at hdrop
  refine (List.mem_append.mp hdrop).resolve_right fun hbehind => ?_
  have htime := ((consecutive_append.mp h.2).2.mem_times hbehind).1
  rw [List.length_take] at htime
  have hmore : n < (recs.drop a).length := by
    by_contra hshort
    rw [List.drop_eq_nil_of_le (by omega)] at hbehind
    exact List.not_mem_nil hbehind
  omega

private theorem mem_interpolate_of_mem {r : Record} {recs : List Record} (mem : r ∈ recs) :
    r ∈ interpolate recs := by
  cases recs with
  | nil => exact absurd mem List.not_mem_nil
  | cons first recs => exact mem_interpolateFrom_of_mem mem

/-- A stream that is opened inside the trace and read to its end gives one record for
every time from its start to its end, in order. The records of the file are among them
and all others are marked as interpolated. -/
theorem stream_records (file : TraceFile) {start : ℤ} (low : 0 ≤ start)
    (high : start ≤ file.last.bmcTime - file.first.bmcTime) (length : StreamLength) :
    ∃ s records, streamOpen file.bytes start length = .ok s ∧
      s.starttime = file.first.bmcTime + start ∧
      s.endtime = min (length.after s.starttime file.last.bmcTime) file.last.bmcTime ∧
      (∃ enough, ∀ fuel ≥ enough, readToEnd fuel s = some (.ok records)) ∧
      records.map Record.bmcTime =
        (List.range (⌊s.endtime⌋ - s.starttime + 1).toNat).map (fun i : ℕ => s.starttime + i) ∧
      (∀ r ∈ file.records, s.starttime ≤ r.bmcTime → (r.bmcTime : ℚ) ≤ s.endtime →
        r ∈ records) ∧
      ∀ r ∈ records, r ∉ file.records → r.isInterpolated = 1 := by
  have hnonneg : 0 ≤ file.first.bmcTime :=
    (file.times file.first (List.head_mem file.records_ne_nil)).1
  obtain ⟨s, hopen, hstart, hcurtime, hendtime, hready⟩ :=
    streamOpen_ready file.toIncreasingFile low high (.inl (by omega)) length
  have hcomplete := hready.complete
  have hlast : ⌊s.endtime⌋ ≤ s.fileendtime :=
    (Int.floor_le_floor hready.endtime).trans_eq (Int.floor_intCast _)
  obtain ⟨n, hn⟩ : ∃ n, (⌊s.endtime⌋ - s.starttime + 1).toNat = n := ⟨_, rfl⟩
  refine ⟨s, ((interpolate file.records).drop start.toNat).take n, hopen, hstart, hendtime,
    ⟨n + 1, fun fuel hfuel => ?_⟩, ?_, ?_, ?_⟩
  · exact readToEnd_eq n s _ (fun _ => hready) (by rw [hcurtime, hn]) fuel hfuel
  · have hlength : (((interpolate file.records).drop start.toNat).take n).length = n := by
      rw [List.length_take]
      omega
    have htake := hready.consecutive
    rw [← List.take_append_drop n (List.drop _ _), consecutive_append] at htake
    rw [htake.1.map_bmcTime, hlength, hn, hcurtime]
  · intro r hr hlow hhigh
    have hfloor := Int.le_floor.mpr hhigh
    apply file.interpolate_consecutive.mem_part (mem_interpolate_of_mem hr)
    · omega
    · omega
  · intro r hr hfile
    have hmem := List.mem_of_mem_drop (List.mem_of_mem_take hr)
    exact (mem_interpolate hmem).resolve_left hfile

/-- A record at a time below 256. -/
def sampleRecord (t : UInt8) : Bytes :=
  List.replicate 7 0 ++ [t] ++ [t, 0, 0, 0] ++ List.replicate 20 9

/-- A trace with a gap. -/
def sampleTrace : TraceFile where
  bytes := sampleRecord 5 ++ sampleRecord 9 ++ sampleRecord 10
  whole := by decide
  nonempty := by decide
  increasing := by decide +kernel
  times := by decide +kernel

/-- A stream that starts inside the gap. -/
theorem stream_records_sample :
    ∃ s records, streamOpen sampleTrace.bytes 2 .toEnd = .ok s ∧
      s.starttime = sampleTrace.first.bmcTime + 2 ∧
      s.endtime = min (StreamLength.toEnd.after s.starttime sampleTrace.last.bmcTime)
        sampleTrace.last.bmcTime ∧
      (∃ enough, ∀ fuel ≥ enough, readToEnd fuel s = some (.ok records)) ∧
      records.map Record.bmcTime =
        (List.range (⌊s.endtime⌋ - s.starttime + 1).toNat).map (fun i : ℕ => s.starttime + i) ∧
      (∀ r ∈ sampleTrace.records, s.starttime ≤ r.bmcTime → (r.bmcTime : ℚ) ≤ s.endtime →
        r ∈ records) ∧
      ∀ r ∈ records, r ∉ sampleTrace.records → r.isInterpolated = 1 :=
  stream_records sampleTrace (by decide) (by decide +kernel) .toEnd

end Amester.Scope
