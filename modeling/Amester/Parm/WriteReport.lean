/-
# What a written parameter says about its writing

Writing returns and records the new value, or raises and leaves the recorded value. It is
worth something if it returns only after the firmware acknowledged every byte.

The offsets of the loop follow from the answers alone: each adds the count that it
reports, or, if it is too short, the count that was reported last. So it can be said for
every sequence of answers whether the loop ends, and whether it passes over a byte.
-/

import Amester.Parm.Write

namespace Amester.Parm

open BinaryFormat

/-! ## Acknowledged bytes -/

/-- The firmware says, with a success status, that it took this byte of the chunk. -/
def Exchange.Acknowledges (x : Exchange) (p : ℕ) : Prop :=
  x.reply.1 = 0 ∧ 4 ≤ x.reply.2.length ∧ x.offset ≤ p ∧ p < x.offset + min x.count x.chunk.length

instance (x : Exchange) (p : ℕ) : Decidable (x.Acknowledges p) := by
  unfold Exchange.Acknowledges
  infer_instance

section

variable (replies : ℕ → ℤ × Bytes)

/-- The count that was reported last by so many answers. -/
def reported : ℕ → Option ℕ
  | 0 => none
  | k + 1 =>
    if 4 ≤ (replies k).2.length then some (unsigned ((replies k).2.take 4)) else reported k

/-- The sum of the counts that so many answers add. -/
def offsetAfter : ℕ → ℕ
  | 0 => 0
  | k + 1 => offsetAfter k + (reported replies (k + 1)).getD 0

end

namespace ParmObj

variable (obj : ParmObj) (messageSize : ℕ) (replies : ℕ → ℤ × Bytes)

/-- An answer adds nothing, or it has a success status and a count that is not more than
the chunk it answers, unless the chunk is the last one. -/
def Honest (k : ℕ) : Prop :=
  reported replies (k + 1) = some 0 ∨
    (replies k).1 = 0 ∧ 4 ≤ (replies k).2.length ∧
      (unsigned ((replies k).2.take 4) ≤ obj.chunkSize messageSize (offsetAfter replies k) ∨
        obj.bytecount ≤
          offsetAfter replies k + obj.chunkSize messageSize (offsetAfter replies k))

/-- The answers reach the end of the parameter, all of them honest. -/
def HonestToTheEnd : Prop :=
  ∃ n, obj.bytecount ≤ offsetAfter replies n ∧
    ∀ k < n, offsetAfter replies k < obj.bytecount → obj.Honest messageSize replies k

/-- Writing ends. It returns with the new value recorded and every byte acknowledged, or
raises with the recorded value unchanged. -/
def ReportsFailure (value : Option ParmValue) (newvalue : ParmValue) : Prop :=
  ∃ fuel outcome, obj.write messageSize (fun k _ => replies k) fuel value newvalue = some outcome ∧
    match outcome.result with
    | .ok _ => outcome.value = some newvalue ∧
        ∀ p < obj.bytecount, ∃ x ∈ outcome.exchanges, x.Acknowledges p
    | .error _ => outcome.value = value

/-! ## The rounds of the loop -/

/-- The exchange with an answer. -/
def exchangeAt (cache : Bytes) (k : ℕ) : Exchange :=
  ⟨writeCommand obj.number (offsetAfter replies k) ((cache.drop (offsetAfter replies k)).take
    (obj.chunkSize messageSize (offsetAfter replies k))), replies k⟩

/-- The variables after so many answers. -/
def writingAt (cache : Bytes) (k : ℕ) : Writing where
  index := offsetAfter replies k
  written := (reported replies k).map Int.ofNat
  exchanges := (List.range k).map (obj.exchangeAt messageSize replies cache)

variable {obj messageSize replies} {value : Option ParmValue} {newvalue : ParmValue}
variable {cache : Bytes}

private theorem reported_isSome (first : 4 ≤ (replies 0).2.length) (k : ℕ) :
    ∃ count, reported replies (k + 1) = some count := by
  induction k with
  | zero => exact ⟨_, if_pos first⟩
  | succ k ih =>
      rw [reported]
      split
      · exact ⟨_, rfl⟩
      · exact ih

private theorem reported_lt {k count : ℕ} (h : reported replies k = some count) :
    count < 2 ^ 32 := by
  induction k with
  | zero => exact absurd h nofun
  | succ k ih =>
      rw [reported] at h
      split at h
      · next hlong =>
          obtain rfl := Option.some.inj h
          have hlt := unsigned_lt ((replies k).2.take 4)
          rw [List.length_take, Nat.min_eq_left hlong] at hlt
          norm_num at hlt ⊢
          exact hlt
      · exact ih h

/-- The masked count is the reported one. -/
theorem scanWritten_or {k count : ℕ} (h : reported replies (k + 1) = some count) :
    ∃ n, (scanWritten (replies k)).or ((reported replies k).map Int.ofNat) = some n ∧
      n % 2 ^ 32 = count := by
  rw [reported] at h
  rw [scanWritten]
  split at h
  · next hlong =>
      obtain rfl := Option.some.inj h
      rw [if_pos hlong, Option.some_or]
      refine ⟨_, rfl, ?_⟩
      have hmod := signed_emod ((replies k).2.take 4)
      rw [List.length_take, Nat.min_eq_left hlong] at hmod
      norm_num at hmod ⊢
      exact hmod
  · next hshort =>
      rw [if_neg hshort, Option.none_or, h]
      refine ⟨_, rfl, ?_⟩
      have hlt := reported_lt h
      simp only [Int.ofNat_eq_natCast]
      omega

/-- A round takes the variables after some answers to those after one more. -/
theorem writeStep_writingAt (room : 7 ≤ messageSize) (first : 4 ≤ (replies 0).2.length) {k : ℕ}
    (less : offsetAfter replies k < obj.bytecount) :
    obj.writeStep messageSize (fun k _ => replies k) cache
        (obj.writingAt messageSize replies cache k) =
      .ok (obj.writingAt messageSize replies cache (k + 1)) := by
  obtain ⟨count, hcount⟩ := reported_isSome first k
  obtain ⟨n, hscan, hn⟩ := scanWritten_or hcount
  have hlength : (obj.writingAt messageSize replies cache k).exchanges.length = k := by
    rw [writingAt, List.length_map, List.length_range]
  have hinside : (obj.writingAt messageSize replies cache k).index ≤ obj.bytecount := less.le
  let send : SendWrites := fun k _ => replies k
  have hanswer : replies k = send (obj.writingAt messageSize replies cache k).exchanges.length
      (writeCommand obj.number (obj.writingAt messageSize replies cache k).index
        ((cache.drop (obj.writingAt messageSize replies cache k).index).take
          (obj.chunkSize messageSize (obj.writingAt messageSize replies cache k).index))) := by
    rw [hlength]
  have hstep := writeStep_eq room hinside hanswer hscan
  rw [hstep, hn, writingAt, writingAt, List.range_succ, List.map_append, offsetAfter, hcount]
  rfl

/-! ## Acknowledged bytes and offsets -/

private theorem offsetAfter_mono {k n : ℕ} (h : k ≤ n) :
    offsetAfter replies k ≤ offsetAfter replies n := by
  induction n with
  | zero => rw [Nat.le_zero.mp h]
  | succ n ih =>
      obtain hle | rfl := Nat.le_or_eq_of_le_succ h
      · exact Nat.le_trans (ih hle) (Nat.le_add_right _ _)
      · exact Nat.le_refl _

/-- An exchange acknowledges the counted bytes from its offset on, if its answer is one. -/
theorem exchangeAt_acknowledges_iff {k : ℕ} (size : cache.length = obj.bytecount)
    (less : offsetAfter replies k < obj.bytecount) (p : ℕ) :
    (obj.exchangeAt messageSize replies cache k).Acknowledges p ↔
      (replies k).1 = 0 ∧ 4 ≤ (replies k).2.length ∧ offsetAfter replies k ≤ p ∧
        p < offsetAfter replies k + min (unsigned ((replies k).2.take 4))
          (obj.chunkSize messageSize (offsetAfter replies k)) := by
  have hsmall := obj.bytecount_lt
  have hlength : ((cache.drop (offsetAfter replies k)).take
      (obj.chunkSize messageSize (offsetAfter replies k))).length =
        obj.chunkSize messageSize (offsetAfter replies k) := by
    rw [List.length_take, List.length_drop, size]
    exact Nat.min_eq_left (Nat.min_le_right _ _)
  rw [Exchange.Acknowledges, exchangeAt, Exchange.offset_mk _ (Nat.lt_trans less hsmall),
    Exchange.chunk_mk, hlength, Exchange.count]

/-- An answer that acknowledges a byte adds at least up to behind it. -/
theorem lt_offsetAfter_of_acknowledges {k p : ℕ} (size : cache.length = obj.bytecount)
    (less : offsetAfter replies k < obj.bytecount)
    (acknowledged : (obj.exchangeAt messageSize replies cache k).Acknowledges p) :
    offsetAfter replies k ≤ p ∧ p < offsetAfter replies (k + 1) := by
  obtain ⟨-, hlong, hle, hlt⟩ := (exchangeAt_acknowledges_iff size less p).mp acknowledged
  rw [offsetAfter, reported, if_pos hlong, Option.getD_some]
  exact ⟨hle, by omega⟩

/-- Honest answers acknowledge the bytes that they add. -/
theorem acknowledges_of_honest {n : ℕ} (size : cache.length = obj.bytecount)
    (below : ∀ k < n, offsetAfter replies k < obj.bytecount)
    (honest : ∀ k < n, obj.Honest messageSize replies k) {p : ℕ} (inside : p < obj.bytecount)
    (behind : p < offsetAfter replies n) :
    ∃ k < n, (obj.exchangeAt messageSize replies cache k).Acknowledges p := by
  induction n with
  | zero => exact absurd behind (Nat.not_lt_zero p)
  | succ n ih =>
      by_cases hp : p < offsetAfter replies n
      · obtain ⟨k, hk, hack⟩ := ih (fun k hk => below k (Nat.lt_succ_of_lt hk))
          (fun k hk => honest k (Nat.lt_succ_of_lt hk)) hp
        exact ⟨k, Nat.lt_succ_of_lt hk, hack⟩
      · refine ⟨n, Nat.lt_succ_self n, ?_⟩
        rw [exchangeAt_acknowledges_iff size (below n (Nat.lt_succ_self n))]
        rw [offsetAfter] at behind
        obtain hzero | ⟨hstatus, hlong, hcount⟩ := honest n (Nat.lt_succ_self n)
        · rw [hzero, Option.getD_some] at behind
          omega
        · rw [reported, if_pos hlong, Option.getD_some] at behind
          exact ⟨hstatus, hlong, by omega, by omega⟩

/-- A byte that a dishonest answer passes over is never acknowledged. -/
theorem honest_of_acknowledges {n : ℕ} (size : cache.length = obj.bytecount)
    (first : 4 ≤ (replies 0).2.length)
    (below : ∀ k < n, offsetAfter replies k < obj.bytecount)
    (all : ∀ p < obj.bytecount, ∃ k < n,
      (obj.exchangeAt messageSize replies cache k).Acknowledges p)
    {k : ℕ} (hk : k < n) : obj.Honest messageSize replies k := by
  by_contra hdishonest
  obtain ⟨count, hcount⟩ := reported_isSome first k
  have hnext : offsetAfter replies (k + 1) = offsetAfter replies k + count := by
    rw [offsetAfter, hcount, Option.getD_some]
  have hpos : count ≠ 0 := by
    rintro rfl
    exact hdishonest (Or.inl hcount)
  -- a byte between the two offsets that this answer does not acknowledge
  obtain ⟨p, hle, hlt, hinside, hskip⟩ : ∃ p, offsetAfter replies k ≤ p ∧
      p < offsetAfter replies (k + 1) ∧ p < obj.bytecount ∧
      ¬ (obj.exchangeAt messageSize replies cache k).Acknowledges p := by
    by_cases hreply : (replies k).1 = 0 ∧ 4 ≤ (replies k).2.length
    · obtain ⟨hstatus, hlong⟩ := hreply
      obtain rfl : unsigned ((replies k).2.take 4) = count := by
        rw [reported, if_pos hlong] at hcount
        exact Option.some.inj hcount
      have hexceeds := not_or.mp fun h => hdishonest (Or.inr ⟨hstatus, hlong, h⟩)
      refine ⟨offsetAfter replies k + obj.chunkSize messageSize (offsetAfter replies k),
        by omega, by omega, by omega, fun hack => ?_⟩
      obtain ⟨-, -, -, hless⟩ := (exchangeAt_acknowledges_iff size (below k hk) _).mp hack
      omega
    · refine ⟨offsetAfter replies k, Nat.le_refl _, by omega, below k hk, fun hack => ?_⟩
      obtain ⟨hstatus, hlong, -, -⟩ := (exchangeAt_acknowledges_iff size (below k hk) _).mp hack
      exact hreply ⟨hstatus, hlong⟩
  obtain ⟨i, hi, hack⟩ := all p hinside
  obtain ⟨hfrom, hto⟩ := lt_offsetAfter_of_acknowledges size (below i hi) hack
  obtain hless | rfl | hmore := Nat.lt_trichotomy i k
  · have hbefore : offsetAfter replies (i + 1) ≤ offsetAfter replies k := offsetAfter_mono hless
    omega
  · exact hskip hack
  · have hbehind : offsetAfter replies (k + 1) ≤ offsetAfter replies i := offsetAfter_mono hmore
    omega

/-! ## The result -/

/-- The outcome of a loop that comes to its end after so many answers. -/
theorem write_of_end {n fuel : ℕ} (encoded : obj.encode newvalue = some cache)
    (size : cache.length = obj.bytecount) (room : 7 ≤ messageSize)
    (first : 4 ≤ (replies 0).2.length) (below : ∀ k < n, offsetAfter replies k < obj.bytecount)
    (ended : obj.bytecount ≤ offsetAfter replies n) :
    obj.write messageSize (fun k _ => replies k) fuel value newvalue =
      if n ≤ fuel then
        some ⟨.ok (), some newvalue,
          (List.range n).map (obj.exchangeAt messageSize replies cache)⟩
      else none := by
  let cond (w : Writing) : Prop := w.index < obj.bytecount
  have hsteps : ∀ k < n, cond (obj.writingAt messageSize replies cache k) ∧
      obj.writeStep messageSize (fun k _ => replies k) cache
        (obj.writingAt messageSize replies cache k) =
          .ok (obj.writingAt messageSize replies cache (k + 1)) :=
    fun k hk => ⟨below k hk, writeStep_writingAt room first (below k hk)⟩
  have hrun := WhileLoop.run_of_sequence hsteps (Nat.not_lt.mpr ended) fuel
  have hstart : obj.writingAt messageSize replies cache 0 = {} := rfl
  rw [hstart] at hrun
  rw [write_of_size encoded size, hrun]
  split <;> rfl

/-- A loop that never comes to its end has no outcome. -/
theorem write_of_endless (encoded : obj.encode newvalue = some cache)
    (size : cache.length = obj.bytecount) (room : 7 ≤ messageSize)
    (first : 4 ≤ (replies 0).2.length) (below : ∀ k, offsetAfter replies k < obj.bytecount)
    (fuel : ℕ) : obj.write messageSize (fun k _ => replies k) fuel value newvalue = none := by
  let cond (w : Writing) : Prop := w.index < obj.bytecount
  have hsteps : ∀ k, cond (obj.writingAt messageSize replies cache k) ∧
      obj.writeStep messageSize (fun k _ => replies k) cache
        (obj.writingAt messageSize replies cache k) =
          .ok (obj.writingAt messageSize replies cache (k + 1)) :=
    fun k => ⟨below k, writeStep_writingAt room first (below k)⟩
  have hrun := WhileLoop.run_of_endless hsteps fuel
  have hstart : obj.writingAt messageSize replies cache 0 = {} := rfl
  rw [hstart] at hrun
  rw [write_of_size encoded size, hrun]
  rfl

/-! ## A first message that raises -/

private theorem write_of_raise {send : SendWrites} {e : WriteError} {exchanges : List Exchange}
    (encoded : obj.encode newvalue = some cache) (size : cache.length = obj.bytecount)
    (pos : 0 < obj.bytecount)
    (raises : obj.writeStep messageSize send cache {} = .error (e, exchanges)) :
    obj.write messageSize send 1 value newvalue = some ⟨.error e, value, exchanges⟩ := by
  let cond (w : Writing) : Prop := w.index < obj.bytecount
  have hbegun : cond {} := pos
  have hrun := WhileLoop.run_of_error hbegun raises 0
  rw [write_of_size encoded size, hrun]
  rfl

private theorem writeStep_of_no_room (noRoom : messageSize < 7) (pos : 0 < obj.bytecount) :
    obj.writeStep messageSize (fun k _ => replies k) cache {} = .error (.badSpecifier, []) := by
  have hnegative : (if ((obj.bytecount : ℤ) - (0 : ℕ) > messageSize - 7) then
      (messageSize : ℤ) - 7 else obj.bytecount - (0 : ℕ)) < 0 := by
    split <;> omega
  simp only [writeStep]
  rw [if_pos hnegative]

private theorem writeStep_of_short_first (room : 7 ≤ messageSize)
    (short : (replies 0).2.length < 4) :
    ∃ exchanges, obj.writeStep messageSize (fun k _ => replies k) cache {} =
      .error (.noVariable "written", exchanges) := by
  have hscan : scanWritten (replies 0) = none := if_neg (Nat.not_le.mpr short)
  have hroom : ¬ (if ((obj.bytecount : ℤ) - (0 : ℕ) > messageSize - 7) then
      (messageSize : ℤ) - 7 else obj.bytecount - (0 : ℕ)) < 0 := by
    split <;> omega
  simp only [writeStep]
  rw [if_neg hroom]
  simp only [List.length_nil, hscan, Option.none_or]
  exact ⟨_, rfl⟩

/-! ## Answers with counts -/

/-- With room in a message and a first answer that has a count, writing says what happened
just if the answers are honest to the end. -/
theorem reportsFailure_iff_honest (encoded : obj.encode newvalue = some cache)
    (size : cache.length = obj.bytecount) (room : 7 ≤ messageSize)
    (first : 4 ≤ (replies 0).2.length) :
    obj.ReportsFailure messageSize replies value newvalue ↔
      obj.HonestToTheEnd messageSize replies := by
  classical
  by_cases hend : ∃ n, obj.bytecount ≤ offsetAfter replies n
  · -- the first number of answers that reach the end
    let n := Nat.find hend
    have ended : obj.bytecount ≤ offsetAfter replies n := Nat.find_spec hend
    have below : ∀ k < n, offsetAfter replies k < obj.bytecount :=
      fun k hk => Nat.lt_of_not_le (Nat.find_min hend hk)
    constructor
    · rintro ⟨fuel, outcome, hwrite, hreport⟩
      rw [write_of_end encoded size room first below ended] at hwrite
      split at hwrite
      · obtain rfl := Option.some.inj hwrite
        obtain ⟨-, hall⟩ := hreport
        refine ⟨n, ended, fun k hk _ => honest_of_acknowledges size first below ?_ hk⟩
        intro p hp
        obtain ⟨x, hx, hack⟩ := hall p hp
        obtain ⟨k, hk, rfl⟩ := List.mem_map.mp hx
        exact ⟨k, List.mem_range.mp hk, hack⟩
      · exact absurd hwrite nofun
    · rintro ⟨m, hm, honest⟩
      have hle : n ≤ m := Nat.find_min' hend hm
      have hwrite : obj.write messageSize (fun k _ => replies k) n value newvalue = _ :=
        write_of_end encoded size room first below ended
      rw [if_pos (Nat.le_refl n)] at hwrite
      refine ⟨n, _, hwrite, ?_⟩
      constructor
      · rfl
      · intro p hp
        obtain ⟨k, hk, hack⟩ := acknowledges_of_honest size below
          (fun k hk => honest k (Nat.lt_of_lt_of_le hk hle) (below k hk)) hp
          (Nat.lt_of_lt_of_le hp ended)
        exact ⟨_, List.mem_map.mpr ⟨k, List.mem_range.mpr hk, rfl⟩, hack⟩
  · have below : ∀ k, offsetAfter replies k < obj.bytecount :=
      fun k => Nat.lt_of_not_le fun h => hend ⟨k, h⟩
    constructor
    · rintro ⟨fuel, outcome, hwrite, -⟩
      rw [write_of_endless encoded size room first below fuel] at hwrite
      exact absurd hwrite nofun
    · rintro ⟨n, hn, -⟩
      exact absurd ⟨n, hn⟩ hend

/-- Writing ends, and returns only with every byte acknowledged, just if the value is
refused at once, there is nothing to send, a message has no room for the fields in front
of a chunk, the first answer has no count, or the answers are honest to the end. -/
theorem write_reports_iff (obj : ParmObj) (messageSize : ℕ) (replies : ℕ → ℤ × Bytes)
    (value : Option ParmValue) (newvalue : ParmValue) :
    obj.ReportsFailure messageSize replies value newvalue ↔
      (∀ cache, obj.encode newvalue = some cache → cache.length ≠ obj.bytecount) ∨
      obj.bytecount = 0 ∨ messageSize < 7 ∨ (replies 0).2.length < 4 ∨
      obj.HonestToTheEnd messageSize replies := by
  cases hencode : obj.encode newvalue with
  | none =>
      refine iff_of_true ⟨0, _, by simp only [write, hencode]; rfl, rfl⟩ (Or.inl nofun)
  | some cache =>
      by_cases hsize : cache.length = obj.bytecount
      swap
      · refine iff_of_true ⟨0, _, write_of_wrong_size hencode hsize, rfl⟩ (Or.inl ?_)
        intro other hother
        obtain rfl := Option.some.inj hother
        exact hsize
      have hnot : ¬ ∀ other, some cache = some other → other.length ≠ obj.bytecount :=
        fun h => h cache rfl hsize
      simp only [hnot, false_or]
      by_cases hempty : obj.bytecount = 0
      · refine iff_of_true ⟨0, ⟨.ok (), some newvalue, []⟩, ?_, rfl, ?_⟩ (Or.inl hempty)
        · rw [write_of_size hencode hsize,
            WhileLoop.run_of_not (by rw [hempty]; exact Nat.not_lt_zero _)]
          rfl
        · rw [hempty]
          exact fun p hp => absurd hp (Nat.not_lt_zero p)
      have hpos : 0 < obj.bytecount := Nat.pos_of_ne_zero hempty
      by_cases hroom : messageSize < 7
      · have hraise : obj.writeStep messageSize (fun k _ => replies k) cache {} =
            .error (.badSpecifier, []) := writeStep_of_no_room hroom hpos
        have hwrite : obj.write messageSize (fun k _ => replies k) 1 value newvalue = _ :=
          write_of_raise hencode hsize hpos hraise
        exact iff_of_true ⟨1, _, hwrite, rfl⟩ (Or.inr (Or.inl hroom))
      by_cases hfirst : (replies 0).2.length < 4
      · obtain ⟨exchanges, hstep⟩ : ∃ exchanges,
            obj.writeStep messageSize (fun k _ => replies k) cache {} =
              .error (.noVariable "written", exchanges) :=
          writeStep_of_short_first (Nat.le_of_not_lt hroom) hfirst
        have hwrite : obj.write messageSize (fun k _ => replies k) 1 value newvalue = _ :=
          write_of_raise hencode hsize hpos hstep
        exact iff_of_true ⟨1, _, hwrite, rfl⟩ (Or.inr (Or.inr (Or.inl hfirst)))
      rw [reportsFailure_iff_honest hencode hsize (Nat.le_of_not_lt hroom)
        (Nat.le_of_not_lt hfirst)]
      simp only [hempty, hroom, hfirst, false_or]

/-! ## A failure that is not reported -/

/-- A parameter of two bytes. -/
def limits : ParmObj where
  name := "limits"
  number := 1
  type := .uint8
  vectorsize := 2
  size := 1
  sizes_lt := by decide

/-- The first byte is taken, the second is answered by an error status alone. -/
def refusesSecond : ℕ → ℤ × Bytes
  | 0 => (0, [0, 0, 0, 1])
  | _ => (0xc7, [])

/-- Writing returns with the new value recorded, and the second byte not acknowledged. -/
theorem write_passes_over_refusal :
    (∃ exchanges, limits.write 8 (fun k _ => refusesSecond k) 2 none (.ints [5, 6]) =
        some ⟨.ok (), some (.ints [5, 6]), exchanges⟩ ∧
      ∀ x ∈ exchanges, ¬ x.Acknowledges 1) ∧
    ¬ limits.ReportsFailure 8 refusesSecond none (.ints [5, 6]) := by
  constructor
  · refine ⟨[⟨writeCommand 1 0 [5], (0, [0, 0, 0, 1])⟩, ⟨writeCommand 1 1 [6], (0xc7, [])⟩],
      by decide +kernel, by decide +kernel⟩
  · have hencode : limits.encode (.ints [5, 6]) = some [5, 6] := by decide +kernel
    rw [reportsFailure_iff_honest hencode (by decide) (by decide) (by decide)]
    rintro ⟨n, hn, honest⟩
    match n with
    | 0 => exact absurd hn (by decide +kernel)
    | 1 => exact absurd hn (by decide +kernel)
    | n + 2 =>
        obtain hzero | ⟨hstatus, -, -⟩ := honest 1 (by omega) (by decide +kernel)
        · exact absurd hzero (by decide +kernel)
        · exact absurd hstatus (by decide)

end ParmObj

end Amester.Parm
