/-
# Finding a time in a trace file

The binary search keeps two record numbers around the time, at first one in front of
the file and one behind it. It ends when they are next to each other, and then the upper
one is the first record that is not earlier than the time.

A record of exactly the time is that one. Otherwise the one in front of it is meant, and
the search looks at the time of the file's first record to see whether there is one. It
takes `-1` for the time of no record, but a record can have this time. When the first
one does, a time that no record has is not found, although records stand in front of it.
-/

import Amester.Scope.Stream

namespace Amester.Scope

open BinaryFormat

/-! ## The record that stands for a time -/

/-- The first record of exactly this time. -/
def IsFirstAt (recs : List Record) (t : ℤ) (n : ℕ) : Prop :=
  ∃ h : n < recs.length, recs[n].bmcTime = t ∧
    ∀ m (h : m < recs.length), m < n → recs[m].bmcTime ≠ t

/-- The last record with a smaller time. -/
def IsLastBefore (recs : List Record) (t : ℤ) (n : ℕ) : Prop :=
  ∃ h : n < recs.length, recs[n].bmcTime < t ∧
    ∀ m (h : m < recs.length), n < m → ¬ recs[m].bmcTime < t

/-- The first record of exactly this time if there is one, and the last before it if not. -/
def StandsFor (recs : List Record) (t : ℤ) (n : ℕ) : Prop :=
  ((∃ r ∈ recs, r.bmcTime = t) → IsFirstAt recs t n) ∧
    ((∀ r ∈ recs, r.bmcTime ≠ t) → IsLastBefore recs t n)

/-- The loop of the search is over after as many rounds as there are records, and more
rounds change nothing. -/
def SearchEnds (s : Stream) (t : ℤ) : Prop :=
  ∃ minrec maxrec maxtime, ¬ maxrec - minrec > 1 ∧
    ∀ fuel ≥ s.maxrec + 1, searchTime s.file t fuel (-1) (s.maxrec + 1) s.fileendtime =
      .ok (minrec, maxrec, maxtime)

/-! ## What the search finds -/

section

variable {file : RecordFile} {t : ℤ} {n : ℕ}

/-- A search that comes to a record of exactly the time has found the first of them. -/
theorem standsFor_of_eq (inside : n < file.records.length)
    (before : ∀ m (h : m < file.records.length), m < n → (file.records[m]).bmcTime < t)
    (eq : (file.records[n]).bmcTime = t) : StandsFor file.records t n := by
  constructor
  · intro _
    exact ⟨inside, eq, fun m hm hless => (before m hm hless).ne⟩
  · intro none
    exact absurd eq (none _ (List.getElem_mem inside))

/-- No record has the time when the first that is not earlier does not have it. -/
theorem ne_of_behind (sorted : file.Sorted) (inside : n < file.records.length)
    (before : ∀ m (h : m < file.records.length), m < n → (file.records[m]).bmcTime < t)
    (behind : t < (file.records[n]).bmcTime) : ∀ r ∈ file.records, r.bmcTime ≠ t := by
  intro r hr
  obtain ⟨m, hm, rfl⟩ := List.mem_iff_getElem.mp hr
  by_cases hless : m < n
  · exact (before m hm hless).ne
  · have hle := sorted.time_le hm (Nat.le_of_not_lt hless)
    exact (behind.trans_le hle).ne'

/-- The record in front of the first that is later. -/
theorem standsFor_of_behind (sorted : file.Sorted) (inside : n + 1 < file.records.length)
    (before : ∀ m (h : m < file.records.length), m < n + 1 → (file.records[m]).bmcTime < t)
    (behind : t < (file.records[n + 1]).bmcTime) : StandsFor file.records t n := by
  have hnone := ne_of_behind sorted inside before behind
  have hinside : n < file.records.length := Nat.lt_of_succ_lt inside
  constructor
  · rintro ⟨r, hr, htime⟩
    exact absurd htime (hnone r hr)
  · intro _
    refine ⟨hinside, before n hinside (Nat.lt_succ_self n), fun m hm hless => ?_⟩
    have hle := sorted.time_le hm (Nat.succ_le_of_lt hless)
    exact not_lt.mpr (behind.le.trans hle)

end

/-- An opened stream remembers its file. -/
theorem onFile_of_streamOpen {file : RecordFile} {start : ℤ} {length : StreamLength} {s : Stream}
    (opened : streamOpen file.bytes start length = .ok s) : OnFile file s := by
  rw [streamOpen_eq] at opened
  split_ifs at opened
  cases hsearch : streamTime2rec (file.stream start length) (file.first.bmcTime + start) with
  | error e =>
      rw [hsearch] at opened
      cases opened
  | ok n =>
      rw [hsearch] at opened
      cases opened
      exact ⟨rfl, file.maxrec_eq, rfl, rfl⟩

/-- The search for a time of a file ends, and returns the record that stands for the time,
exactly if the first record's time is not the sentinel or a record has exactly the time. -/
theorem streamTime2rec_standsFor_iff {file : RecordFile} (sorted : file.Sorted) {s : Stream}
    (opened : OnFile file s) {t : ℤ} (low : file.first.bmcTime ≤ t)
    (high : t ≤ file.last.bmcTime) :
    (SearchEnds s t ∧ ∃ n, streamTime2rec s t = .ok n ∧ StandsFor file.records t n) ↔
      (file.first.bmcTime ≠ -1 ∨ ∃ r ∈ file.records, r.bmcTime = t) := by
  have hstart := opened.filestarttime
  obtain ⟨n, hinside, hbefore, hbehind, hends, hsearch⟩ := streamTime2rec_eq sorted opened
    (low.trans_eq' hstart.symm) (high.trans_eq opened.fileendtime.symm)
  have hend : SearchEnds s t := ⟨n - 1, n, _, by omega, hends⟩
  by_cases heq : (file.records[n]).bmcTime = t
  · rw [if_pos heq] at hsearch
    have hfound : ∃ r ∈ file.records, r.bmcTime = t := ⟨_, List.getElem_mem hinside, heq⟩
    exact iff_of_true ⟨hend, n, hsearch, standsFor_of_eq hinside hbefore heq⟩ (.inr hfound)
  have hlater : t < (file.records[n]).bmcTime := lt_of_le_of_ne hbehind (Ne.symm heq)
  by_cases hsome : file.first.bmcTime ≠ -1
  · rw [if_neg heq, hstart, if_pos hsome] at hsearch
    have hne : n ≠ 0 := by
      rintro rfl
      rw [file.getElem_zero hinside] at hlater
      omega
    obtain ⟨m, rfl⟩ := Nat.exists_eq_succ_of_ne_zero hne
    exact iff_of_true ⟨hend, m, hsearch, standsFor_of_behind sorted hinside hbefore hlater⟩
      (.inl hsome)
  · rw [if_neg heq, hstart, if_neg hsome] at hsearch
    apply iff_of_false
    · rintro ⟨-, m, hm, -⟩
      rw [hsearch] at hm
      cases hm
    · rintro (hne | ⟨r, hr, htime⟩)
      · exact hsome hne
      · exact ne_of_behind sorted hinside hbefore hlater r hr htime

/-- A time in the gap of a trace. -/
theorem streamTime2rec_standsFor_sample :
    (SearchEnds (sampleTrace.stream 2 .toEnd) 7 ∧
        ∃ n, streamTime2rec (sampleTrace.stream 2 .toEnd) 7 = .ok n ∧
          StandsFor sampleTrace.records 7 n) ↔
      (sampleTrace.first.bmcTime ≠ -1 ∨ ∃ r ∈ sampleTrace.records, r.bmcTime = 7) :=
  streamTime2rec_standsFor_iff sampleTrace.sorted (sampleTrace.onFile 2 .toEnd)
    (by decide +kernel) (by decide +kernel)

/-- Two records, at the times `-1` and 5. -/
def sentinelFile : RecordFile where
  bytes := List.replicate 8 0 ++ [255, 255, 255, 255] ++ List.replicate 20 9 ++ sampleRecord 5
  whole := by decide
  nonempty := by decide

/-- The first record stands for the time 2, but it is not found. -/
theorem sentinelFile_not_found :
    ¬ ∀ (file : RecordFile) (s : Stream) (t : ℤ), file.Sorted → OnFile file s →
        file.first.bmcTime ≤ t → t ≤ file.last.bmcTime →
        SearchEnds s t ∧ ∃ n, streamTime2rec s t = .ok n ∧ StandsFor file.records t n := by
  intro found
  have hsorted : sentinelFile.Sorted := by
    unfold RecordFile.Sorted
    decide +kernel
  obtain ⟨-, n, hn, -⟩ := found sentinelFile (sentinelFile.stream 3 .toEnd) 2 hsorted
    (sentinelFile.onFile 3 .toEnd) (by decide +kernel) (by decide +kernel)
  have herror : streamTime2rec (sentinelFile.stream 3 .toEnd) 2 = .error .nothingFound := by
    decide +kernel
  rw [herror] at hn
  cases hn

end Amester.Scope
