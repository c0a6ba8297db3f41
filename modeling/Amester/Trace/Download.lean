/-
# Downloading a trace buffer

The entries between the read and the write pointer are asked for from their first byte on.
Every reply has some of them, the next request goes on behind it, and a reply may run past
the write pointer. A request that fails and a reply without bytes end the download, which
keeps what it has.

The firmware's buffer is modelled by its memory, which is addressed by 32 bits, and by what
it makes of the requests of a download: which of them fail and how many bytes the others
bring. The result here is that a download is a contiguous part of that memory.
-/

import Amester.Trace.Walk

namespace Amester.Trace

open BinaryFormat Parm

universe u

variable {β : Type u}

/-! ## The methods -/

/-- The reply to the `k`-th request of a download. -/
abbrev Replies := ℕ → SendSync

/-- Ask for bytes of the trace buffer. -/
def readBytes (replies : Replies) (tracenum k : ℕ) (startbyte : ℤ) : ℤ × Bytes :=
  replies k ([0x32, byteOf tracenum] ++ bigEndian 4 startbyte)

/-- The loop of the download from its `k`-th request on. Every reply has at least one byte, so
there are no more requests than bytes that remain. -/
def downloadLoop (readBytes : ℕ → ℤ → ℤ × Bytes) :
    ℕ → ℕ → ℤ → ℤ → Bytes → Bytes × Bool
  | 0, _, _, _, tbBytes => (tbBytes, false)
  | fuel + 1, k, firstbyte, remaining, tbBytes =>
    if remaining > 0 then
      let r := readBytes k firstbyte
      if r.1 ≠ 0 then (tbBytes, true)
      else
        let len := r.2.length
        if len = 0 then (tbBytes, true)
        else
          downloadLoop readBytes fuel (k + 1) (firstbyte + len) (remaining - len) (tbBytes ++ r.2)
    else (tbBytes, false)

/-- Download the bytes between the pointers. The second component is whether it has failed. -/
def download (replies : Replies) (tb : TraceBuffer β) : TraceBuffer β × Bool :=
  let firstbyte : ℤ := tb.tbEntrySize * tb.tbRead
  let remaining : ℤ := (tb.tbWrite - tb.tbRead) * tb.tbEntrySize
  let result := downloadLoop (readBytes replies tb.tracenum) remaining.toNat 0 firstbyte
    remaining []
  ({ tb with tbBytes := result.1 }, result.2)

/-- Get the current configuration, download and decode. What the download returns is not
looked at. -/
def getAllEntries [NatCast β] [Mul β] (env : Env β) (replies : Replies) (tb : TraceBuffer β) :
    TraceBuffer β × Except TraceError (List (List (FieldValue β))) :=
  match getConfig env tb with
  | .error e => (tb, .error e)
  | .ok tb =>
    match parse env (download replies tb).1 with
    | (tb, none) => (tb, .ok tb.tbEntries)
    | (tb, some e) => (tb, .error e)

/-! ## The buffer of the firmware -/

/-- So many bytes of a memory that is addressed by 32 bits. -/
def contents (memory : ℕ → UInt8) (start n : ℕ) : Bytes :=
  (List.range n).map fun i => memory ((start + i) % 2 ^ 32)

/-- The firmware answers the requests of a download from its memory. A pattern says which of
them fail and how many bytes the others bring. -/
def Delivers (memory : ℕ → UInt8) (pattern : ℕ → Option ℕ) (tracenum : ℕ)
    (replies : Replies) : Prop :=
  ∀ k start : ℕ,
    match pattern k with
    | none => (readBytes replies tracenum k start).1 ≠ 0
    | some n => readBytes replies tracenum k start = (0, contents memory start n)

/-- The number of bytes that the replies from the `k`-th on bring until as many as needed are
there, or until one of them fails or has no bytes. -/
def fetchedFrom (pattern : ℕ → Option ℕ) : ℕ → ℕ → ℕ → ℕ
  | 0, _, _ => 0
  | fuel + 1, k, need =>
    if need = 0 then 0
    else
      match pattern k with
      | none => 0
      | some n => if n = 0 then 0 else n + fetchedFrom pattern fuel (k + 1) (need - n)

/-- The number of bytes that a download brings. -/
def fetched (pattern : ℕ → Option ℕ) (need : ℕ) : ℕ := fetchedFrom pattern need 0 need

/-- The number of bytes between the pointers. -/
def TraceBuffer.needed (tb : TraceBuffer β) : ℕ := (tb.tbWrite - tb.tbRead) * tb.tbEntrySize

/-- The address of the first of them. -/
def TraceBuffer.firstbyte (tb : TraceBuffer β) : ℕ := tb.tbEntrySize * tb.tbRead

@[simp]
theorem length_contents (memory : ℕ → UInt8) (start n : ℕ) :
    (contents memory start n).length = n := by
  rw [contents, List.length_map, List.length_range]

theorem contents_add (memory : ℕ → UInt8) (start m n : ℕ) :
    contents memory start (m + n) = contents memory start m ++ contents memory (start + m) n := by
  rw [contents, List.range_add, List.map_append, List.map_map]
  congr 1
  apply List.map_congr_left
  intro i _
  simp [Nat.add_assoc]

/-- A firmware that answers from a memory. -/
def firmware (memory : ℕ → UInt8) (pattern : ℕ → Option ℕ) : Replies := fun k message =>
  match pattern k with
  | none => (1, [])
  | some n => (0, contents memory (unsigned (message.drop 2)) n)

theorem firmware_delivers (memory : ℕ → UInt8) (pattern : ℕ → Option ℕ) (tracenum : ℕ) :
    Delivers memory pattern tracenum (firmware memory pattern) := by
  intro k start
  have hstart : unsigned (bigEndian 4 (start : ℤ)) = start % 2 ^ 32 := by
    have hmod := unsigned_bigEndian 4 (start : ℤ)
    have hpower : (256 : ℤ) ^ 4 = 2 ^ 32 := by norm_num
    rw [hpower] at hmod
    exact_mod_cast hmod
  have hwrapped (n : ℕ) : contents memory (start % 2 ^ 32) n = contents memory start n := by
    apply List.map_congr_left
    intro i _
    rw [Nat.mod_add_mod]
  cases hpattern : pattern k with
  | none => simp [readBytes, firmware, hpattern]
  | some n =>
      simp only [readBytes, firmware, hpattern, List.cons_append, List.nil_append,
        List.drop_succ_cons, List.drop_zero, hstart, hwrapped]

/-! ## What a download brings -/

private theorem fetchedFrom_chunk {pattern : ℕ → Option ℕ} {fuel k need n : ℕ} (more : need ≠ 0)
    (chunk : pattern k = some n) (bytes : n ≠ 0) :
    fetchedFrom pattern (fuel + 1) k need = n + fetchedFrom pattern fuel (k + 1) (need - n) := by
  rw [fetchedFrom, if_neg more]
  simp [chunk, bytes]

private theorem fetchedFrom_ended {pattern : ℕ → Option ℕ} {fuel k need : ℕ}
    (ended : pattern k = none ∨ pattern k = some 0) :
    fetchedFrom pattern (fuel + 1) k need = 0 := by
  cases ended with
  | inl hnone => simp [fetchedFrom, hnone]
  | inr hzero => simp [fetchedFrom, hzero]

private theorem downloadLoop_eq {memory : ℕ → UInt8} {pattern : ℕ → Option ℕ} {tracenum : ℕ}
    {replies : Replies} (delivers : Delivers memory pattern tracenum replies) (fuel : ℕ) :
    ∀ (k start : ℕ) (remaining : ℤ) (tbBytes : Bytes), remaining.toNat ≤ fuel →
      downloadLoop (readBytes replies tracenum) fuel k start remaining tbBytes =
        (tbBytes ++ contents memory start (fetchedFrom pattern fuel k remaining.toNat),
          decide (fetchedFrom pattern fuel k remaining.toNat < remaining.toNat)) := by
  induction fuel with
  | zero =>
      intro k start remaining tbBytes henough
      simp [downloadLoop, fetchedFrom, contents, Nat.le_zero.mp henough]
  | succ fuel ih =>
      intro k start remaining tbBytes henough
      rw [downloadLoop]
      by_cases hmore : remaining > 0
      · have hneed : remaining.toNat ≠ 0 := by omega
        rw [if_pos hmore]
        have hreply := delivers k start
        cases hpattern : pattern k with
        | none =>
            rw [hpattern] at hreply
            simp [hreply, fetchedFrom_ended (.inl hpattern), contents, hmore]
        | some n =>
            rw [hpattern] at hreply
            simp only [hreply, length_contents, ne_eq, not_true_eq_false, if_false]
            by_cases hzero : n = 0
            · rw [hzero] at hpattern
              simp [fetchedFrom_ended (.inr hpattern), hzero, contents, hmore]
            · have hnext : (start : ℤ) + (n : ℤ) = ((start + n : ℕ) : ℤ) := by push_cast; rfl
              have hless : (remaining - n).toNat = remaining.toNat - n := by omega
              rw [if_neg hzero, fetchedFrom_chunk hneed hpattern hzero, hnext,
                ih (k + 1) (start + n) (remaining - n) _ (by omega), hless, List.append_assoc,
                ← contents_add]
              congr 1
              apply decide_eq_decide.mpr
              omega
      · have hneed : remaining.toNat = 0 := by omega
        rw [if_neg hmore, fetchedFrom, if_pos hneed, hneed]
        simp [contents]

/-- A download is the part of the memory that the replies bring, and it has failed if that is
not enough. -/
theorem download_eq {memory : ℕ → UInt8} {pattern : ℕ → Option ℕ} {replies : Replies}
    {tb : TraceBuffer β} (delivers : Delivers memory pattern tb.tracenum replies) :
    download replies tb =
      ({ tb with tbBytes := contents memory tb.firstbyte (fetched pattern tb.needed) },
        decide (fetched pattern tb.needed < tb.needed)) := by
  have hfirst : (tb.tbEntrySize : ℤ) * tb.tbRead = tb.firstbyte := by
    rw [TraceBuffer.firstbyte]
    push_cast
    rfl
  have hneed : (((tb.tbWrite : ℤ) - tb.tbRead) * tb.tbEntrySize).toNat = tb.needed := by
    rw [TraceBuffer.needed]
    by_cases horder : tb.tbRead ≤ tb.tbWrite
    · rw [← Nat.cast_sub horder, ← Nat.cast_mul, Int.toNat_natCast]
    · have hnegative : ((tb.tbWrite : ℤ) - tb.tbRead) * tb.tbEntrySize ≤ 0 := by
        apply mul_nonpos_of_nonpos_of_nonneg
        · omega
        · exact Int.natCast_nonneg _
      rw [Int.toNat_of_nonpos hnegative, Nat.sub_eq_zero_of_le (by omega), Nat.zero_mul]
  rw [download, hfirst, downloadLoop_eq delivers _ _ _ _ _ le_rfl, hneed]
  rfl

/-- Replies that all bring bytes bring enough. -/
theorem le_fetchedFrom {pattern : ℕ → Option ℕ} (chunks : ∀ k, ∃ n, pattern k = some n ∧ 0 < n)
    (fuel : ℕ) : ∀ k need, need ≤ fuel → need ≤ fetchedFrom pattern fuel k need := by
  induction fuel with
  | zero => exact fun _ _ henough => henough
  | succ fuel ih =>
      intro k need henough
      rw [fetchedFrom]
      split_ifs with hzero
      · exact hzero.le
      · obtain ⟨n, hn, hpos⟩ := chunks k
        have hrest := ih (k + 1) (need - n) (by omega)
        simp only [hn, Nat.pos_iff_ne_zero.mp hpos, if_false]
        omega

theorem le_fetched {pattern : ℕ → Option ℕ} (chunks : ∀ k, ∃ n, pattern k = some n ∧ 0 < n)
    (need : ℕ) : need ≤ fetched pattern need :=
  le_fetchedFrom chunks need 0 need le_rfl

/-- Nothing is asked for when nothing is needed. -/
theorem fetched_zero (pattern : ℕ → Option ℕ) : fetched pattern 0 = 0 := rfl

/-! ## The entries in the memory -/

/-- The bytes of the fields of an entry. -/
def piecesAt (memory : ℕ → UInt8) : ℕ → List (EntryField β) → List Bytes
  | _, [] => []
  | start, field :: layout =>
    contents memory start field.width :: piecesAt memory (start + field.width) layout

private theorem laidOut_piecesAt (memory : ℕ → UInt8) (start : ℕ) (layout : List (EntryField β)) :
    LaidOut layout (piecesAt memory start layout) := by
  induction layout generalizing start with
  | nil => exact .nil
  | cons field layout ih => exact .cons (length_contents _ _ _) (ih _)

private theorem flatten_piecesAt (memory : ℕ → UInt8) (start : ℕ) (layout : List (EntryField β)) :
    (piecesAt memory start layout).flatten = contents memory start (entryWidth layout) := by
  induction layout generalizing start with
  | nil => rfl
  | cons field layout ih =>
      have hwidth : entryWidth (field :: layout) = field.width + entryWidth layout := rfl
      rw [piecesAt, List.flatten_cons, ih, hwidth, contents_add]

/-- The bytes of entries that follow each other. -/
def entriesAt (memory : ℕ → UInt8) (layout : List (EntryField β)) (start n : ℕ) :
    List (List Bytes) :=
  (List.range n).map fun k => piecesAt memory (start + k * entryWidth layout) layout

@[simp]
theorem length_entriesAt (memory : ℕ → UInt8) (layout : List (EntryField β)) (start n : ℕ) :
    (entriesAt memory layout start n).length = n := by
  rw [entriesAt, List.length_map, List.length_range]

theorem laidOut_entriesAt {memory : ℕ → UInt8} {layout : List (EntryField β)} {start n : ℕ} :
    ∀ pieces ∈ entriesAt memory layout start n, LaidOut layout pieces := by
  intro pieces hpieces
  obtain ⟨k, _, rfl⟩ := List.mem_map.mp hpieces
  exact laidOut_piecesAt memory _ layout

theorem flatten_entriesAt (memory : ℕ → UInt8) (layout : List (EntryField β)) (start n : ℕ) :
    (entriesAt memory layout start n).flatMap List.flatten =
      contents memory start (n * entryWidth layout) := by
  induction n with
  | zero => simp [entriesAt, contents]
  | succ n ih =>
      rw [entriesAt, List.range_succ, List.map_append, List.flatMap_append, ← entriesAt, ih,
        Nat.succ_mul, contents_add]
      simp [flatten_piecesAt]

end Amester.Trace
