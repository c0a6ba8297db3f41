/-
# Trace files and their records

A trace file is a sequence of records of 32 bytes. A record is read by its number
and converted to a list of values: its times, counters and states, and last
whether it was interpolated, which no record of a file is.

A file of records here is a byte string of whole records, at least one. A trace file
is one with what every recorder makes sure of besides: increasing times of 31 bits.
-/

import Amester.Lib.BinaryFormat

namespace Amester.Scope

open BinaryFormat

/-- A data record. The first three `cpu` values are texts behind `0x`: the digits of a
byte, or the decimal number of a signed byte. -/
structure Record where
  before : ℤ
  bmcTime : ℤ
  perfCtr : ℤ
  startStop : ℤ
  cpu0 : List Digit
  cpu1 : List Digit
  cpu2 : ℤ
  cpu3 : ℤ
  energy : ℤ
  temp0 : ℤ
  demandPower : ℤ
  pcount : ℤ
  tcount : ℤ
  throttle0 : ℤ
  throttle1 : ℤ
  lpc15 : ℤ
  isInterpolated : ℤ
  deriving DecidableEq, Repr

/-- `wiicH2H2ccIcScccc` -/
def recordLayout : List Field :=
  [.intLE 8, .intLE 4, .intLE 4, .int 1, .hex 2, .hex 2, .int 1, .int 1, .int 4, .int 1, .int 2,
    .int 1, .int 1, .int 1, .int 1]

/-- Convert binary data to a record, `none` when a field is missing. -/
def data2rec (data : Bytes) : Option Record :=
  match scan recordLayout data with
  | [.int before, .int bmcTime, .int perfCtr, .int startStop, .hex cpu0, .hex cpu1, .int cpu2,
      .int cpu3, .int energy, .int temp0, .int demandPower, .int pcount, .int tcount,
      .int throttle, .int lpc15] =>
    some
      { before := before
        bmcTime := bmcTime
        perfCtr := perfCtr % 2 ^ 32
        startStop := startStop % 2 ^ 8
        cpu0 := cpu0
        cpu1 := cpu1
        cpu2 := cpu2
        cpu3 := cpu2 % 2 ^ 8 * 2 ^ 8 + cpu3 % 2 ^ 8
        energy := energy
        temp0 := temp0
        demandPower := demandPower % 2 ^ 16
        pcount := pcount % 2 ^ 8
        tcount := tcount % 2 ^ 8
        throttle0 := throttle % 2 ^ 4
        throttle1 := throttle / 2 ^ 4 % 2 ^ 4
        lpc15 := lpc15 % 2 ^ 8
        isInterpolated := 0 }
  | _ => none

/-- Get a record from an open trace file. -/
def traceGetRecnum (file : Bytes) (recnum : ℕ) : Option Record :=
  data2rec ((file.drop (32 * recnum)).take 32)

/-- All records of a file. -/
def fileRecords (file : Bytes) : List Record :=
  (List.range (file.length / 32)).filterMap (traceGetRecnum file)

/-- At least one record, and nothing else. -/
structure RecordFile where
  bytes : Bytes
  whole : 32 ∣ bytes.length
  nonempty : bytes ≠ []

structure IncreasingFile extends RecordFile where
  increasing : (fileRecords bytes).Pairwise fun r r' => r.bmcTime < r'.bmcTime

structure TraceFile extends IncreasingFile where
  times : ∀ r ∈ fileRecords bytes, 0 ≤ r.bmcTime ∧ r.bmcTime < 2 ^ 31

abbrev RecordFile.records (file : RecordFile) : List Record := fileRecords file.bytes

/-! ## Reading records -/

/-- Thirty-two bytes are a record. -/
theorem data2rec_eq {data : Bytes} (length : data.length = 32) :
    data2rec data = some
      { before := signed (data.take 8).reverse
        bmcTime := signed ((data.drop 8).take 4).reverse
        perfCtr := signed ((data.drop 12).take 4).reverse % 2 ^ 32
        startStop := signed ((data.drop 16).take 1) % 2 ^ 8
        cpu0 := (hexDigits ((data.drop 17).take 1)).take 2
        cpu1 := (hexDigits ((data.drop 18).take 1)).take 2
        cpu2 := signed ((data.drop 19).take 1)
        cpu3 := signed ((data.drop 19).take 1) % 2 ^ 8 * 2 ^ 8 +
          signed ((data.drop 20).take 1) % 2 ^ 8
        energy := signed ((data.drop 21).take 4)
        temp0 := signed ((data.drop 25).take 1)
        demandPower := signed ((data.drop 26).take 2) % 2 ^ 16
        pcount := signed ((data.drop 28).take 1) % 2 ^ 8
        tcount := signed ((data.drop 29).take 1) % 2 ^ 8
        throttle0 := signed ((data.drop 30).take 1) % 2 ^ 4
        throttle1 := signed ((data.drop 30).take 1) / 2 ^ 4 % 2 ^ 4
        lpc15 := signed ((data.drop 31).take 1) % 2 ^ 8
        isInterpolated := 0 } := by
  simp only [data2rec, recordLayout, scan, Field.size, Field.convert, List.length_drop, length,
    List.drop_drop, Nat.reduceAdd, Nat.reduceSub, Nat.reduceDiv, Nat.reduceLT, if_false]

theorem data2rec_isSome {data : Bytes} (length : data.length = 32) : (data2rec data).isSome := by
  rw [data2rec_eq length]
  rfl

theorem traceGetRecnum_isSome {file : Bytes} {n : ℕ} (inside : n < file.length / 32) :
    (traceGetRecnum file n).isSome := by
  apply data2rec_isSome
  rw [List.length_take, List.length_drop]
  omega

theorem map_some_filterMap {α β : Type*} {f : α → Option β} {xs : List α}
    (all : ∀ x ∈ xs, (f x).isSome) : (xs.filterMap f).map some = xs.map f := by
  induction xs with
  | nil => rfl
  | cons x xs ih =>
      obtain ⟨y, hy⟩ := Option.isSome_iff_exists.mp (all x List.mem_cons_self)
      rw [List.filterMap_cons_some hy, List.map_cons, List.map_cons, hy,
        ih fun x hx => all x (List.mem_cons_of_mem _ hx)]

/-- All records are read by their numbers. -/
theorem map_some_fileRecords (file : Bytes) :
    (fileRecords file).map some = (List.range (file.length / 32)).map (traceGetRecnum file) :=
  map_some_filterMap fun _ hn => traceGetRecnum_isSome (List.mem_range.mp hn)

theorem length_fileRecords (file : Bytes) : (fileRecords file).length = file.length / 32 := by
  simpa using congrArg List.length (map_some_fileRecords file)

theorem traceGetRecnum_eq (file : Bytes) {n : ℕ} (inside : n < (fileRecords file).length) :
    traceGetRecnum file n = some (fileRecords file)[n] := by
  have hget := congrArg (·[n]?) (map_some_fileRecords file)
  have hrange : n < file.length / 32 := by rwa [length_fileRecords] at inside
  simpa [inside, hrange, eq_comm] using hget

/-- Every record of a file is read from its own 32 bytes. -/
theorem exists_of_mem_fileRecords {file : Bytes} {r : Record} (mem : r ∈ fileRecords file) :
    ∃ n, ((file.drop (32 * n)).take 32).length = 32 ∧ traceGetRecnum file n = some r := by
  obtain ⟨n, hn, hread⟩ := List.mem_filterMap.mp mem
  have hinside := List.mem_range.mp hn
  refine ⟨n, ?_, hread⟩
  rw [List.length_take, List.length_drop]
  omega

/-- The time of a record has 32 bits, one of them its sign. -/
theorem bmcTime_range {file : Bytes} {r : Record} (mem : r ∈ fileRecords file) :
    -2 ^ 31 ≤ r.bmcTime ∧ r.bmcTime < 2 ^ 31 := by
  obtain ⟨n, hlength, hread⟩ := exists_of_mem_fileRecords mem
  rw [traceGetRecnum, data2rec_eq hlength, Option.some.injEq] at hread
  subst hread
  generalize (file.drop (32 * n)).take 32 = data at hlength
  have hrange := signed_range ((data.drop 8).take 4).reverse
  have hwidth : ((data.drop 8).take 4).reverse.length = 4 := by simp [hlength]
  rw [hwidth] at hrange
  norm_num at hrange ⊢
  omega

/-! ## The first and the last record -/

namespace RecordFile

variable (file : RecordFile)

theorem records_ne_nil : file.records ≠ [] := by
  have hpos := List.length_pos_iff.mpr file.nonempty
  have hwhole := Nat.le_of_dvd hpos file.whole
  have hlength := length_fileRecords file.bytes
  apply List.ne_nil_of_length_pos
  change 0 < (fileRecords file.bytes).length
  omega

def first : Record := file.records.head file.records_ne_nil

def last : Record := file.records.getLast file.records_ne_nil

theorem length_pos : 0 < file.records.length := List.length_pos_iff.mpr file.records_ne_nil

theorem getElem_zero (h : 0 < file.records.length) : file.records[0] = file.first := by
  rw [first, List.head_eq_getElem]

end RecordFile

end Amester.Scope
