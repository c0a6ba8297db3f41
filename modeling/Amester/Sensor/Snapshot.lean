/-
# The bytes of one snapshot

`histogram_read` goes on to use the bytes that it has put together. They are those of one
snapshot exactly when every answer that is not discarded has all the bytes it says to have.

A read is proved sound forwards: each round keeps what is put together in order, and bytes come
in until none is missing. The converse goes backwards from the end. Two bytes say how many a
piece has, and two say where it was asked for; if the count of any piece were wrong, the pieces
behind it would not stand where they were asked for, or their number would not come out.
-/

import Amester.Sensor.Histogram

namespace Amester.Sensor

open BinaryFormat

/-! ## Snapshots -/

/-- The bytes of messages. -/
def chunks (exchanges : List Exchange) : Bytes := exchanges.flatMap fun e => e.reply.chunk

/-- All bytes are from one snapshot, every piece stands at the offset that its message asked
for, and they are as many as the histogram has. -/
structure FromSnapshot (h : Histogram) (tag : Tag) (bytes : Bytes) (exchanges : List Exchange) :
    Prop where
  assembled : bytes = chunks exchanges
  one : ∀ e ∈ exchanges, e.reply.tag.map Tag.snapshot = some tag
  offsets : ∀ before e behind, exchanges = before ++ e :: behind → e.offset = (chunks before).length
  total : (bytes.length : ℤ) = h.total

/-- `histogram_read` returns, and where it uses bytes they are those of a snapshot. -/
def ReadOutcome.Sound (h : Histogram) : ReadOutcome → Prop
  | .noHistogram => True
  | .unchanged => True
  | .raised _ => False
  | .unreadable _ => True
  | .read tag bytes exchanges => FromSnapshot h tag bytes exchanges

private theorem length_chunks_appended (h : Histogram) (s : Snapshot) (reply : Reply)
    (chars : List Digit)
    (size : ℤ) :
    (chunks (s.appended h reply chars size).exchanges).length =
      (chunks s.exchanges).length + reply.chunk.length := by
  simp [Snapshot.appended, Snapshot.append, chunks]

/-- What a message asks for is the offset, as far as it fits. -/
theorem offset_histogramRequest (sensornum offset numbytes : ℤ) (reply : Reply) :
    ((⟨histogramRequest sensornum offset numbytes, reply⟩ : Exchange).offset : ℤ) =
      offset % 2 ^ 16 := by
  have hfield :
      ((histogramRequest sensornum offset numbytes).drop 3).take 2 = bigEndian 2 offset := by
    simp [histogramRequest, bigEndian]
  rw [Exchange.offset, hfield, unsigned_bigEndian]
  rfl

theorem Reply.size_range {reply : Reply} (whole : 4 ≤ reply.databytes.length) :
    -2 ^ 15 ≤ reply.size ∧ reply.size < 2 ^ 15 := by
  have hrange := signed_range ((reply.databytes.drop 2).take 2)
  have htwo : ((reply.databytes.drop 2).take 2).length = 2 := by
    rw [List.length_take, List.length_drop]
    omega
  rw [htwo] at hrange
  rw [Reply.size]
  omega

theorem Reply.chunk_of_short {reply : Reply} (short : reply.databytes.length < 4) :
    reply.chunk = [] :=
  List.drop_of_length_le short.le

/-! ## Runs -/

/-- A round after which the loop goes on. -/
abbrev Rounds (h : Histogram) (replies : ℕ → Reply) : Snapshot → Snapshot → Prop :=
  WhileLoop.Round (fun s => 0 < s.len) (readStep h replies)

/-- The loop is over at a state. -/
abbrev Over (h : Histogram) (replies : ℕ → Reply) : Snapshot → Except ReadStop Snapshot → Prop :=
  WhileLoop.Over (fun s => 0 < s.len) (readStep h replies)

abbrev Reaches (h : Histogram) (replies : ℕ → Reply) : Snapshot → Snapshot → Prop :=
  Relation.ReflTransGen (Rounds h replies)

/-- The states of the loop. -/
abbrev Reached (h : Histogram) (limit : ℕ) (replies : ℕ → Reply) : Snapshot → Prop :=
  Reaches h replies (h.begin limit 0)

/-- The tag of the snapshot changes finitely often. -/
def Settles (replies : ℕ → Reply) : Prop :=
  ∃ N n, ∀ i ≥ N, ∀ m ∈ (replies i).tag, m = n

/-- What was read so far is not used: a later answer is from another snapshot, or from the one
that was read last. -/
def Discarded (h : Histogram) (replies : ℕ → Reply) (s : Snapshot) : Prop :=
  ∃ t, Reaches h replies s t ∧ 0 < t.len ∧ ¬ t.Appends h (replies t.sent)

/-- From here on all answers are from one snapshot and bytes are missing. If they would be used,
none of the answers has any. -/
def Stalls (h : Histogram) (replies : ℕ → Reply) (s : Snapshot) : Prop :=
  ∀ t, Reaches h replies s t → 0 < t.len ∧ t.Appends h (replies t.sent) ∧
    (h.Readable → t.newSize (replies t.sent) = some 0)

/-- An answer has all the bytes it says to have, as far as they are missing, or it is cut off
behind its tag and the piece before was empty; and its offset fits into the field. -/
structure Complete (s : Snapshot) (reply : Reply) : Prop where
  whole : 4 ≤ reply.databytes.length ∧ (reply.chunk.length : ℤ) = min reply.size s.len ∨
    2 ≤ reply.databytes.length ∧ reply.databytes.length < 4 ∧ s.size = some 0
  offset : s.offset < 2 ^ 16

/-- What the loop relies on in a round. -/
structure Proper (h : Histogram) (replies : ℕ → Reply) (s : Snapshot) : Prop where
  known : s.Appends h (replies s.sent) → s.newSize (replies s.sent) ≠ none
  nested : s.Restarts h (replies s.sent) → 0 < s.nested
  complete : h.Readable → s.Appends h (replies s.sent) → ¬ Discarded h replies s →
    Complete s (replies s.sent)
  progress : ¬ Stalls h replies s

section

variable {h : Histogram} {limit : ℕ} {replies : ℕ → Reply} {s s' t last : Snapshot}
  {r : Except ReadStop Snapshot}

/-- Reading begins again, or a piece is appended. -/
theorem round_cases (round : Rounds h replies s s') :
    (s.Restarts h (replies s.sent) ∧
      ∃ nested, s.nested = nested + 1 ∧ s' = h.begin nested (s.sent + 1)) ∨
    ∃ size chars, s.Appends h (replies s.sent) ∧ s.newSize (replies s.sent) = some size ∧
      s.newChars (replies s.sent) = some chars ∧
      s' = s.appended h (replies s.sent) chars size := by
  obtain ⟨-, step⟩ := round
  rcases readStep_cases h replies s with ⟨-, hstop⟩ | ⟨-, -, m, hstop⟩ |
    ⟨nested, restarts, hnested, hbegin⟩ | ⟨-, -, m, hstop⟩ |
    ⟨size, chars, appends, hsize, hchars, happend⟩
  · rw [hstop] at step
    cases step
  · rw [hstop] at step
    cases step
  · rw [hbegin] at step
    exact .inl ⟨restarts, nested, hnested, (Except.ok.inj step).symm⟩
  · rw [hstop] at step
    cases step
  · rw [happend] at step
    exact .inr ⟨size, chars, appends, hsize, hchars, (Except.ok.inj step).symm⟩

theorem Snapshot.Appends.not_restarts {reply : Reply} (appends : s.Appends h reply) :
    ¬ s.Restarts h reply := by
  intro restarts
  exact appends.same.elim restarts.other restarts.begun

/-- The two variables are set together. -/
theorem Reached.size_none_iff (reached : Reached h limit replies s) :
    s.size = none ↔ s.chars = none := by
  induction reached with
  | refl => simp [Histogram.begin]
  | tail _ round _ =>
      rcases round_cases round with ⟨-, nested, -, rfl⟩ | ⟨size, chars, -, -, -, rfl⟩
      · simp [Histogram.begin]
      · simp [Snapshot.appended, Snapshot.append]

theorem Reached.newSize_none_iff (reached : Reached h limit replies s) (reply : Reply) :
    s.newSize reply = none ↔ s.newChars reply = none := by
  unfold Snapshot.newSize Snapshot.newChars
  split
  · simp
  · exact reached.size_none_iff

theorem Reached.len_eq (reached : Reached h limit replies s) : s.len = h.total - s.offset := by
  induction reached with
  | refl => exact (sub_zero h.total).symm
  | tail _ round ih =>
      rcases round_cases round with ⟨-, nested, -, rfl⟩ | ⟨size, chars, -, -, -, rfl⟩
      · exact (sub_zero h.total).symm
      · simp only [Snapshot.appended, Snapshot.append]
        omega

theorem Reached.size_range (reached : Reached h limit replies s) {z : ℤ}
    (size : s.newSize (replies s.sent) = some z) : -2 ^ 15 ≤ z ∧ z < 2 ^ 15 := by
  suffices old : ∀ z ∈ s.size, -2 ^ 15 ≤ z ∧ z < 2 ^ 15 by
    unfold Snapshot.newSize at size
    split at size
    · rename_i whole
      rw [← Option.some.inj size]
      exact Reply.size_range whole
    · exact old z size
  clear size
  induction reached with
  | refl => simp [Histogram.begin]
  | @tail u _ _ round ih =>
      rcases round_cases round with ⟨-, nested, -, rfl⟩ | ⟨new, chars, -, hnew, -, rfl⟩
      · simp [Histogram.begin]
      · intro z hz
        obtain rfl : new = z := Option.some.inj hz
        unfold Snapshot.newSize at hnew
        split at hnew
        · rename_i whole
          rw [← Option.some.inj hnew]
          exact Reply.size_range whole
        · exact ih new hnew

/-! ### What is discarded -/

theorem Discarded.of_reaches (reaches : Reaches h replies s t) (discarded : Discarded h replies t) :
    Discarded h replies s := by
  obtain ⟨u, later, again, other⟩ := discarded
  exact ⟨u, reaches.trans later, again, other⟩

private theorem appends_of_not_discarded (used : ¬ Discarded h replies s) (again : 0 < s.len) :
    s.Appends h (replies s.sent) := by
  by_contra other
  exact used ⟨s, .refl, again, other⟩

/-- Where a piece is appended, nothing is discarded before the next round. -/
theorem not_discarded_of_round (round : Rounds h replies s s')
    (appends : s.Appends h (replies s.sent)) (used : ¬ Discarded h replies s') :
    ¬ Discarded h replies s := by
  rintro ⟨t, reaches, again, other⟩
  rcases reaches.cases_head with rfl | ⟨u, first, later⟩
  · exact other appends
  · obtain rfl := WhileLoop.round_rightUnique round first
    exact used ⟨t, later, again, other⟩

private theorem not_discarded_of_over (atEnd : Over h replies last (.ok s)) :
    ¬ Discarded h replies last := by
  rintro ⟨t, reaches, again, -⟩
  rcases reaches.cases_head with rfl | ⟨u, round, -⟩
  · exact atEnd.2 again
  · exact atEnd.not_round round

/-! ### Complete answers -/

theorem Complete.size_nonneg {reply : Reply} (complete : Complete s reply) {size : ℤ}
    (hsize : s.newSize reply = some size) (again : 0 < s.len) : 0 ≤ size := by
  unfold Snapshot.newSize at hsize
  rcases complete.whole with ⟨whole, sized⟩ | ⟨-, short, empty⟩
  · rw [if_pos whole, Option.some_inj] at hsize
    omega
  · rw [if_neg (by omega), empty, Option.some_inj] at hsize
    omega

/-- The bytes so far, in the loop. -/
structure Assembled (h : Histogram) (s : Snapshot) : Prop where
  assembled : s.histogrambytes = hexDigits (chunks s.exchanges)
  one : ∀ e ∈ s.exchanges, e.reply.tag.map Tag.snapshot = some s.tag
  offsets : ∀ before e behind, s.exchanges = before ++ e :: behind →
    e.offset = (chunks before).length
  length : ((chunks s.exchanges).length : ℤ) = min s.offset h.total
  len : s.len = h.total - s.offset
  begun : s.oldtag = .empty ∧ s.exchanges = [] ∨ s.oldtag = s.tag
  piece : s.size = some 0 → s.chars = some []

private theorem hexDigits_append (bytes bytes' : Bytes) :
    hexDigits (bytes ++ bytes') = hexDigits bytes ++ hexDigits bytes' :=
  List.flatMap_append

private theorem assembled_begin (total : 0 ≤ h.total) (nested sent : ℕ) :
    Assembled h (h.begin nested sent) where
  assembled := rfl
  one := by simp [Histogram.begin]
  offsets := by
    intro before e behind hsplit
    simp [Histogram.begin] at hsplit
  length := (min_eq_left total).symm
  len := (sub_zero h.total).symm
  begun := .inl ⟨rfl, rfl⟩
  piece := by simp [Histogram.begin]

theorem Snapshot.tag_of_two_le (s : Snapshot) {reply : Reply}
    (tagged : 2 ≤ reply.databytes.length) : reply.tag.map Tag.snapshot = some (s.newTag reply) := by
  rw [newTag, Reply.tag, if_pos tagged]
  rfl

/-- A complete answer is what is appended. -/
theorem Assembled.taken (inv : Assembled h s) {reply : Reply} (complete : Complete s reply)
    (again : 0 < s.len) {size : ℤ} {chars : List Digit} (hsize : s.newSize reply = some size)
    (hchars : s.newChars reply = some chars) :
    chars = hexDigits reply.chunk ∧ (reply.chunk.length : ℤ) = min size s.len := by
  unfold Snapshot.newSize at hsize
  unfold Snapshot.newChars at hchars
  rcases complete.whole with ⟨whole, sized⟩ | ⟨-, short, empty⟩
  · rw [if_pos whole, Option.some_inj] at hsize hchars
    exact ⟨hchars.symm, hsize ▸ sized⟩
  · rw [if_neg (by omega), empty, Option.some_inj] at hsize
    rw [if_neg (by omega), inv.piece empty, Option.some_inj] at hchars
    rw [Reply.chunk_of_short short, ← hchars, ← hsize]
    exact ⟨rfl, (min_eq_left again.le).symm⟩

/-- The piece stands behind those before it. -/
theorem offsets_append {exchanges : List Exchange} {new : Exchange}
    (offsets : ∀ before e behind, exchanges = before ++ e :: behind →
      e.offset = (chunks before).length)
    (last : new.offset = (chunks exchanges).length) (before : List Exchange) (e : Exchange)
    (behind : List Exchange) (split : exchanges ++ [new] = before ++ e :: behind) :
    e.offset = (chunks before).length := by
  rcases List.eq_nil_or_concat behind with rfl | ⟨behind, x, rfl⟩
  · obtain ⟨rfl, hnew⟩ := List.append_inj' split rfl
    rwa [← List.singleton_inj.mp hnew]
  · rw [List.concat_eq_append, ← List.cons_append, ← List.append_assoc] at split
    exact offsets before e behind (List.append_inj' split rfl).1

/-- Appending a complete answer keeps what is assembled in order. -/
theorem Assembled.appended (inv : Assembled h s) {reply : Reply} (appends : s.Appends h reply)
    (complete : Complete s reply) (again : 0 < s.len) {size : ℤ} {chars : List Digit}
    (hsize : s.newSize reply = some size) (hchars : s.newChars reply = some chars) :
    Assembled h (s.appended h reply chars size) := by
  obtain ⟨htaken, hsized⟩ := inv.taken complete again hsize hchars
  have htag : reply.tag.map Tag.snapshot = some (s.newTag reply) := by
    apply s.tag_of_two_le
    rcases complete.whole with ⟨whole, -⟩ | ⟨tagged, -, -⟩
    · omega
    · exact tagged
  have hlength := inv.length
  have hlen := inv.len
  have hasked := offset_histogramRequest h.sensornum s.offset s.numbytes reply
  rw [Int.emod_eq_of_lt (by omega) complete.offset] at hasked
  constructor
  · simp [Snapshot.appended, Snapshot.append, inv.assembled, htaken, chunks, hexDigits_append]
  · intro e he
    rcases List.mem_append.mp he with hold | hnew
    · have hcurrent : s.oldtag = s.tag := by
        rcases inv.begun with ⟨-, hnone⟩ | hcurrent
        · rw [hnone] at hold
          exact absurd hold List.not_mem_nil
        · exact hcurrent
      have hone := inv.one e hold
      rcases appends.same with hsame | hempty
      · rw [hone, ← hcurrent, hsame]
        rfl
      · rw [← hcurrent, hempty] at hone
        cases hreply : e.reply.tag <;> simp [hreply] at hone
    · rw [List.mem_singleton.mp hnew]
      exact htag
  · apply offsets_append inv.offsets
    omega
  · rw [length_chunks_appended]
    simp only [Snapshot.appended, Snapshot.append]
    push_cast
    omega
  · simp only [Snapshot.appended, Snapshot.append]
    omega
  · exact .inr rfl
  · intro hzero
    obtain rfl : size = 0 := Option.some.inj hzero
    have hnone : reply.chunk.length = 0 := by omega
    rw [List.length_eq_zero_iff] at hnone
    rw [htaken, hnone]
    rfl

private theorem total_nonneg (bins : 0 ≤ h.numBins) (readable : h.Readable) : 0 ≤ h.total := by
  have width : 0 ≤ h.bytesPerBin := by
    simp only [List.mem_cons, List.not_mem_nil, or_false] at readable
    omega
  exact mul_nonneg width (by omega)

/-- When the loop is over, the bytes are those of a snapshot. -/
theorem Assembled.fromSnapshot (inv : Assembled h s) (ended : ¬ 0 < s.len) :
    FromSnapshot h s.tag (bytesOfDigits s.histogrambytes) s.exchanges where
  assembled := by rw [inv.assembled, bytesOfDigits_hexDigits]
  one := inv.one
  offsets := inv.offsets
  total := by
    have hlength := inv.length
    have hlen := inv.len
    rw [inv.assembled, bytesOfDigits_hexDigits]
    omega

/-- Where every round is proper, what was read so far and is used is in order. -/
theorem Reached.assembled (total : 0 ≤ h.total) (readable : h.Readable)
    (proper : ∀ s, Reached h limit replies s → 0 < s.len → Proper h replies s)
    (reached : Reached h limit replies s) (used : ¬ Discarded h replies s) : Assembled h s := by
  induction reached with
  | refl => exact assembled_begin total limit 0
  | @tail u _ before round ih =>
      rcases round_cases round with ⟨-, nested, -, rfl⟩ | ⟨size, chars, appends, hsize, hchars, rfl⟩
      · exact assembled_begin total _ _
      · have usedBefore := not_discarded_of_round round appends used
        have complete := (proper u before round.1).complete readable appends usedBefore
        exact (ih usedBefore).appended appends complete round.1 hsize hchars

/-! ### The loop ends -/

/-- The loop is over at some state. -/
def LoopEnds (h : Histogram) (replies : ℕ → Reply) (s : Snapshot) : Prop :=
  ∃ last r, Reaches h replies s last ∧ Over h replies last r

theorem LoopEnds.of_reaches (reaches : Reaches h replies s t) (ends : LoopEnds h replies t) :
    LoopEnds h replies s := by
  obtain ⟨last, r, later, atEnd⟩ := ends
  exact ⟨last, r, reaches.trans later, atEnd⟩

private theorem nested_le (reaches : Reaches h replies s t) : t.nested ≤ s.nested := by
  induction reaches with
  | refl => exact le_rfl
  | tail _ round ih =>
      rcases round_cases round with ⟨-, nested, hnested, rfl⟩ | ⟨size, chars, -, -, -, rfl⟩
      · simp only [Histogram.begin]
        omega
      · exact ih

section

variable (proper : ∀ s, Reached h limit replies s → 0 < s.len → Proper h replies s)

include proper

/-- Complete answers leave no more bytes missing. -/
theorem Reached.len_le (readable : h.Readable) (reached : Reached h limit replies s)
    (used : ¬ Discarded h replies s) (reaches : Reaches h replies s t) : t.len ≤ s.len := by
  induction reaches with
  | refl => exact le_rfl
  | @tail u _ later round ih =>
      have usedLater : ¬ Discarded h replies u := fun discarded => used (discarded.of_reaches later)
      have appends := appends_of_not_discarded usedLater round.1
      rcases round_cases round with ⟨restarts, -⟩ | ⟨size, chars, -, hsize, -, rfl⟩
      · exact absurd restarts appends.not_restarts
      · have complete :=
          (proper u (reached.trans later) round.1).complete readable appends usedLater
        have nonneg := complete.size_nonneg hsize round.1
        simp only [Snapshot.appended, Snapshot.append]
        omega

/-- What is used is complete some time: bytes come in until none is missing. -/
theorem Reached.loopEnds_of_used (reached : Reached h limit replies s)
    (used : ¬ Discarded h replies s) : LoopEnds h replies s := by
  induction hmissing : s.len.toNat using Nat.strong_induction_on generalizing s with
  | _ missing ih =>
      by_cases again : 0 < s.len
      · obtain ⟨t, later, other⟩ := not_forall₂.mp (proper s reached again).progress
        by_cases more : 0 < t.len
        · have usedLater : ¬ Discarded h replies t := fun discarded =>
            used (discarded.of_reaches later)
          have appends := appends_of_not_discarded usedLater more
          obtain ⟨readable, bytes⟩ := Classical.not_imp.mp fun empty => other ⟨more, appends, empty⟩
          have hproper := proper t (reached.trans later) more
          rcases readStep_cases h replies t with ⟨hlast, -⟩ | ⟨restarts, -⟩ | ⟨_, restarts, -⟩ |
            ⟨-, unknown, -⟩ | ⟨size, chars, -, hsize, -, happend⟩
          · exact absurd hlast appends.changed
          · exact absurd restarts appends.not_restarts
          · exact absurd restarts appends.not_restarts
          · have unset :=
              unknown.elim id (Reached.newSize_none_iff (reached.trans later) _).mpr
            exact absurd unset (hproper.known appends)
          · have next : Reaches h replies s (t.appended h (replies t.sent) chars size) :=
              later.tail ⟨more, happend⟩
            have nonneg := (hproper.complete readable appends usedLater).size_nonneg hsize more
            have hless := reached.len_le proper readable used later
            have hsome : size ≠ 0 := fun zero => bytes (zero ▸ hsize)
            refine (ih _ ?_ (reached.trans next)
              (fun discarded => used (discarded.of_reaches next)) rfl).of_reaches next
            simp only [Snapshot.appended, Snapshot.append]
            omega
        · exact ⟨t, .ok t, later, rfl, more⟩
      · exact ⟨s, .ok s, .refl, rfl, again⟩

/-- The induction is on the calls that are left, since a tag that changes takes one. -/
theorem Reached.loopEnds (reached : Reached h limit replies s) : LoopEnds h replies s := by
  induction hnested : s.nested using Nat.strong_induction_on generalizing s with
  | _ n ih =>
      by_cases used : Discarded h replies s
      · obtain ⟨t, later, again, other⟩ := used
        have hle := nested_le later
        rcases readStep_cases h replies t with ⟨-, hstop⟩ | ⟨-, -, m, hstop⟩ |
          ⟨nested, -, hless, hbegin⟩ | ⟨appends, -⟩ | ⟨_, _, appends, -⟩
        · exact ⟨t, .error .unchanged, later, again, hstop⟩
        · exact ⟨t, .error (.raised m), later, again, hstop⟩
        · have next : Reaches h replies s (h.begin nested (t.sent + 1)) :=
            later.tail ⟨again, hbegin⟩
          exact (ih nested (by omega) (reached.trans next) rfl).of_reaches next
        · exact absurd appends other
        · exact absurd appends other
      · exact reached.loopEnds_of_used proper used

/-- A round only raises if the stack is not deep enough or a variable is missing. -/
theorem Reached.unchanged_of_error (reached : Reached h limit replies s) {e : ReadStop}
    (atEnd : Over h replies s (.error e)) : e = .unchanged := by
  obtain ⟨again, stop⟩ := atEnd
  have hproper := proper s reached again
  rcases readStep_cases h replies s with ⟨-, hstop⟩ | ⟨restarts, hnone, -⟩ | ⟨_, -, -, hbegin⟩ |
    ⟨appends, unknown, -⟩ | ⟨_, _, -, -, -, happend⟩
  · rw [hstop] at stop
    exact (Except.error.inj stop).symm
  · exact absurd (hproper.nested restarts) (by omega)
  · rw [hbegin] at stop
    cases stop
  · have unset := unknown.elim id (reached.newSize_none_iff _).mpr
    exact absurd unset (hproper.known appends)
  · rw [happend] at stop
    cases stop

end

/-! ### What a sound read says of its rounds -/

/-- A state that the loop leaves raises nothing. -/
theorem readStep_ne_raised (reaches : Reaches h replies s last) (atEnd : Over h replies last r)
    (sound : (h.outcome r).Sound h) (again : 0 < s.len) (m : String) :
    readStep h replies s ≠ .error (.raised m) := by
  intro raises
  rcases reaches.cases_head with rfl | ⟨u, round, -⟩
  · cases r with
    | ok s' => exact atEnd.2 again
    | error e =>
        obtain rfl := Except.error.inj (atEnd.2.symm.trans raises)
        exact sound
  · have step := round.2
    rw [raises] at step
    cases step

private theorem proper_known (reaches : Reaches h replies s last) (atEnd : Over h replies last r)
    (sound : (h.outcome r).Sound h) (again : 0 < s.len) (appends : s.Appends h (replies s.sent)) :
    s.newSize (replies s.sent) ≠ none := by
  intro unset
  have raises := readStep_ne_raised reaches atEnd sound again
  rcases readStep_cases h replies s with ⟨hlast, -⟩ | ⟨restarts, -⟩ | ⟨_, restarts, -⟩ |
    ⟨-, -, m, hstop⟩ | ⟨_, _, -, hsize, -⟩
  · exact appends.changed hlast
  · exact appends.not_restarts restarts
  · exact appends.not_restarts restarts
  · exact raises m hstop
  · rw [unset] at hsize
    cases hsize

private theorem proper_nested (reaches : Reaches h replies s last)
    (atEnd : Over h replies last r) (sound : (h.outcome r).Sound h) (again : 0 < s.len)
    (restarts : s.Restarts h (replies s.sent)) : 0 < s.nested := by
  have raises := readStep_ne_raised reaches atEnd sound again
  rcases readStep_cases h replies s with ⟨hlast, -⟩ | ⟨-, -, m, hstop⟩ | ⟨_, -, hnested, -⟩ |
    ⟨appends, -⟩ | ⟨_, _, appends, -⟩
  · exact absurd hlast restarts.changed
  · exact absurd hstop (raises m)
  · omega
  · exact absurd restarts appends.not_restarts
  · exact absurd restarts appends.not_restarts

/-- The loop is over because no bytes are missing, or an answer is not appended. -/
theorem over_cases (atEnd : Over h replies last r) (sound : (h.outcome r).Sound h) :
    r = .ok last ∧ ¬ 0 < last.len ∨ 0 < last.len ∧ ¬ last.Appends h (replies last.sent) := by
  cases r with
  | ok s' =>
      obtain ⟨rfl, ended⟩ := atEnd
      exact .inl ⟨rfl, ended⟩
  | error e =>
      refine .inr ⟨atEnd.1, fun appends => ?_⟩
      cases e with
      | raised m => exact sound
      | unchanged =>
          rcases readStep_cases h replies last with ⟨hlast, -⟩ | ⟨restarts, -⟩ |
            ⟨_, restarts, -⟩ | ⟨-, -, m, hstop⟩ | ⟨_, _, -, -, -, happend⟩
          · exact appends.changed hlast
          · exact appends.not_restarts restarts
          · exact appends.not_restarts restarts
          · rw [atEnd.2] at hstop
            cases hstop
          · rw [atEnd.2] at happend
            cases happend

/-- How far the bytes so far are ahead of the offset. -/
def Snapshot.ahead (s : Snapshot) : ℤ := (chunks s.exchanges).length - s.offset

private theorem ahead_appended (h : Histogram) (s : Snapshot) (reply : Reply) (chars : List Digit)
    (size : ℤ) : (s.appended h reply chars size).ahead = s.ahead + reply.chunk.length - size := by
  rw [Snapshot.ahead, length_chunks_appended, Snapshot.ahead]
  simp only [Snapshot.appended, Snapshot.append]
  push_cast
  ring

section

variable {bytes : Bytes} (snapshot : FromSnapshot h last.tag bytes last.exchanges)

/-- The messages of what is used stay. -/
theorem exchanges_prefix (used : ¬ Discarded h replies s) (reaches : Reaches h replies s last) :
    s.exchanges <+: last.exchanges := by
  induction reaches using Relation.ReflTransGen.head_induction_on with
  | refl => exact List.prefix_rfl
  | @head u _ round later ih =>
      have appends := appends_of_not_discarded used round.1
      have usedLater := fun discarded : Discarded h replies _ =>
        used (discarded.of_reaches (.single round))
      rcases round_cases round with ⟨restarts, -⟩ | ⟨size, chars, -, -, -, rfl⟩
      · exact absurd restarts appends.not_restarts
      · exact (List.prefix_append _ _).trans (ih usedLater)

include snapshot

/-- The message of a round is among those of the snapshot, and asks for what comes next. -/
theorem round_in_snapshot (used : ¬ Discarded h replies s) (round : Rounds h replies s s')
    (later : Reaches h replies s' last) :
    (replies s.sent).tag.map Tag.snapshot = some last.tag ∧
      s.offset % 2 ^ 16 = (chunks s.exchanges).length := by
  have appends := appends_of_not_discarded used round.1
  have usedLater := fun discarded : Discarded h replies s' =>
    used (discarded.of_reaches (.single round))
  obtain ⟨behind, hbehind⟩ := exchanges_prefix usedLater later
  rcases round_cases round with ⟨restarts, -⟩ | ⟨size, chars, -, -, -, rfl⟩
  · exact absurd restarts appends.not_restarts
  · have split : last.exchanges = s.exchanges ++
        ⟨histogramRequest h.sensornum s.offset s.numbytes, replies s.sent⟩ :: behind := by
      rw [← hbehind]
      simp [Snapshot.appended, Snapshot.append]
    constructor
    · exact snapshot.one _ (split ▸ List.mem_append_right _ List.mem_cons_self)
    · rw [← offset_histogramRequest h.sensornum s.offset s.numbytes (replies s.sent),
        snapshot.offsets _ _ _ split]

/-- Backwards from the end, where no bytes are missing: they are not ahead. -/
theorem ahead_le (ended : ¬ 0 < last.len) (reached : Reached h limit replies s)
    (used : ¬ Discarded h replies s) (reaches : Reaches h replies s last) : s.ahead ≤ 0 := by
  induction reaches using Relation.ReflTransGen.head_induction_on with
  | refl =>
      have hlen := reached.len_eq
      have htotal := snapshot.total
      rw [snapshot.assembled] at htotal
      rw [Snapshot.ahead]
      omega
  | @head u _ round later ih =>
      have appends := appends_of_not_discarded used round.1
      have usedLater := fun discarded : Discarded h replies _ =>
        used (discarded.of_reaches (.single round))
      have hnext := ih (reached.tail round) usedLater
      obtain ⟨-, hasked⟩ := round_in_snapshot snapshot used round later
      rcases round_cases round with ⟨restarts, -⟩ | ⟨size, chars, -, hsize, -, rfl⟩
      · exact absurd restarts appends.not_restarts
      · obtain ⟨-, hsmall⟩ := reached.size_range hsize
        rw [ahead_appended] at hnext
        have hahead : u.ahead = (chunks u.exchanges).length - u.offset := rfl
        omega

/-- Forwards from the beginning: at every round the bytes are just those up to the offset. -/
theorem ahead_eq (ended : ¬ 0 < last.len) (reached : Reached h limit replies s)
    (used : ¬ Discarded h replies s) (round : Rounds h replies s s')
    (later : Reaches h replies s' last) : s.ahead = 0 := by
  induction reached generalizing s' with
  | refl => rfl
  | @tail u _ before first ih =>
      rcases round_cases first with ⟨-, nested, -, rfl⟩ | ⟨size, chars, appends, hsize, -, rfl⟩
      · rfl
      · have usedBefore := not_discarded_of_round first appends used
        have hbefore := ih usedBefore first (.head round later)
        have hle := ahead_le snapshot ended (before.tail first) used (.head round later)
        obtain ⟨-, hasked⟩ := round_in_snapshot snapshot used round later
        obtain ⟨-, hsmall⟩ := Reached.size_range before hsize
        have hahead : (u.appended h (replies u.sent) chars size).ahead =
          (chunks (u.appended h (replies u.sent) chars size).exchanges).length -
            (u.appended h (replies u.sent) chars size).offset := rfl
        have hnext := ahead_appended h u (replies u.sent) chars size
        omega

/-- The answers of a snapshot are complete. -/
theorem complete_of_snapshot (ended : ¬ 0 < last.len) (reached : Reached h limit replies s)
    (used : ¬ Discarded h replies s) (round : Rounds h replies s s')
    (later : Reaches h replies s' last) : Complete s (replies s.sent) := by
  have appends := appends_of_not_discarded used round.1
  have usedLater := fun discarded : Discarded h replies s' =>
    used (discarded.of_reaches (.single round))
  obtain ⟨htag, hasked⟩ := round_in_snapshot snapshot used round later
  have hahead : s.ahead = (chunks s.exchanges).length - s.offset := rfl
  have hzero := ahead_eq snapshot ended reached used round later
  rcases round_cases round with ⟨restarts, -⟩ | ⟨size, chars, -, hsize, -, rfl⟩
  · exact absurd restarts appends.not_restarts
  have hnext := ahead_appended h s (replies s.sent) chars size
  have hlen := Reached.len_eq (reached.tail round)
  have hlenBefore := reached.len_eq
  have again := round.1
  have hoffset : (s.appended h (replies s.sent) chars size).offset = s.offset + size := rfl
  have hsized : ((replies s.sent).chunk.length : ℤ) = min size s.len := by
    rcases later.cases_head with rfl | ⟨u, second, rest⟩
    · have htotal := snapshot.total
      rw [snapshot.assembled, length_chunks_appended] at htotal
      push_cast at htotal
      omega
    · have hzeroNext := ahead_eq snapshot ended (reached.tail round) usedLater second rest
      have more := second.1
      omega
  refine ⟨?_, by omega⟩
  by_cases whole : 4 ≤ (replies s.sent).databytes.length
  · rw [Snapshot.newSize, if_pos whole, Option.some_inj] at hsize
    exact .inl ⟨whole, hsize ▸ hsized⟩
  · rw [Snapshot.newSize, if_neg whole] at hsize
    have tagged : 2 ≤ (replies s.sent).databytes.length := by
      by_contra short
      rw [Reply.tag, if_neg short] at htag
      cases htag
    rw [Reply.chunk_of_short (by omega)] at hsized
    obtain rfl : size = 0 := by
      simp only [List.length_nil] at hsized
      omega
    exact .inr ⟨tagged, by omega, hsize⟩

end

/-- Every round of a sound read is proper. -/
theorem proper_of_sound (reached : Reached h limit replies s)
    (reaches : Reaches h replies s last) (atEnd : Over h replies last r)
    (sound : (h.outcome r).Sound h) (again : 0 < s.len) : Proper h replies s where
  known := proper_known reaches atEnd sound again
  nested := proper_nested reaches atEnd sound again
  complete := by
    intro readable appends used
    rcases over_cases atEnd sound with ⟨rfl, ended⟩ | ⟨more, other⟩
    · have snapshot : FromSnapshot h last.tag (bytesOfDigits last.histogrambytes)
          last.exchanges := by
        simp only [Histogram.outcome, if_pos readable] at sound
        exact sound
      rcases reaches.cases_head with rfl | ⟨next, round, later⟩
      · exact absurd again ended
      · exact complete_of_snapshot snapshot ended reached used round later
    · exact absurd ⟨last, reaches, more, other⟩ used
  progress := by
    intro stalls
    obtain ⟨more, appends, -⟩ := stalls last reaches
    rcases over_cases atEnd sound with ⟨-, ended⟩ | ⟨-, other⟩
    · exact ended more
    · exact other appends

/-- A result is what the loop is over with. -/
theorem histogramRead_iff_over (hist : h.hasHist = true) (P : ReadOutcome → Prop) :
    (∃ outcome, (∃ enough, ∀ fuel ≥ enough, histogramRead h limit replies fuel = some outcome) ∧
      P outcome) ↔
    ∃ last r, Reached h limit replies last ∧ Over h replies last r ∧ P (h.outcome r) := by
  constructor
  · rintro ⟨outcome, ⟨enough, hread⟩, holds⟩
    have hrun := hread enough le_rfl
    rw [histogramRead, if_neg (by simp [hist]), Option.map_eq_some_iff] at hrun
    obtain ⟨r, hrun, rfl⟩ := hrun
    obtain ⟨last, reached, atEnd⟩ := WhileLoop.run_iff_reaches.mp ⟨enough, hrun⟩
    exact ⟨last, r, reached, atEnd, holds⟩
  · rintro ⟨last, r, reached, atEnd, holds⟩
    obtain ⟨enough, hrun⟩ := WhileLoop.run_iff_reaches.mpr ⟨last, reached, atEnd⟩
    refine ⟨h.outcome r, ⟨enough, fun fuel hle => ?_⟩, holds⟩
    obtain ⟨later, rfl⟩ := Nat.exists_eq_add_of_le hle
    rw [histogramRead, if_neg (by simp [hist]), WhileLoop.run_add hrun later]
    rfl

/-- `histogram_read` returns, and the bytes that it uses are those of one snapshot, exactly when
every round of its loop is proper. -/
theorem histogramRead_sound_iff (bins : 0 ≤ h.numBins) :
    (∃ outcome, (∃ enough, ∀ fuel ≥ enough, histogramRead h limit replies fuel = some outcome) ∧
      outcome.Sound h) ↔
    (h.hasHist = true → ∀ s, Reached h limit replies s → 0 < s.len → Proper h replies s) := by
  cases hist : h.hasHist with
  | false =>
      refine ⟨fun _ has => absurd has (by decide), fun _ => ?_⟩
      refine ⟨.noHistogram, ⟨0, fun fuel _ => ?_⟩, trivial⟩
      rw [histogramRead, if_pos hist]
  | true =>
      rw [histogramRead_iff_over hist]
      constructor
      · rintro ⟨last, r, ended, atEnd, sound⟩ - s reached again
        exact proper_of_sound reached (WhileLoop.reaches_last ended atEnd reached) atEnd sound again
      · intro proper
        obtain ⟨last, r, reached, atEnd⟩ := Reached.loopEnds (proper rfl) .refl
        refine ⟨last, r, reached, atEnd, ?_⟩
        cases r with
        | error e =>
            obtain rfl := Reached.unchanged_of_error (proper rfl) reached atEnd
            trivial
        | ok s =>
            have used := not_discarded_of_over atEnd
            obtain ⟨rfl, ended⟩ := atEnd
            by_cases readable : h.Readable
            · have total := total_nonneg bins readable
              simp only [Histogram.outcome, if_pos readable]
              exact (Reached.assembled total readable (proper rfl) reached used).fromSnapshot ended
            · simp only [Histogram.outcome, if_neg readable]
              trivial

/-- A result does not depend on the fuel. -/
theorem histogramRead_add {fuel : ℕ} {outcome : ReadOutcome}
    (ended : histogramRead h limit replies fuel = some outcome) (later : ℕ) :
    histogramRead h limit replies (fuel + later) = some outcome := by
  by_cases hhist : h.hasHist = false
  · rw [histogramRead, if_pos hhist] at ended ⊢
    exact ended
  · rw [histogramRead, if_neg hhist] at ended ⊢
    obtain ⟨r, hrun, rfl⟩ := Option.map_eq_some_iff.mp ended
    rw [WhileLoop.run_add hrun later]
    rfl

end

/-- Forty-eight bytes. -/
def twoPieces : Histogram where
  hasHist := true
  sensornum := 3
  numBins := 22
  bytesPerBin := 2
  lastTag := .snapshot 4

/-- An answer of twenty-four bytes. -/
def piece : Reply := ⟨0, [0, 5, 0, 24] ++ List.replicate 24 7⟩

private theorem tag_piece {m : ℤ} (mem : m ∈ piece.tag) : m = 5 := by
  have htag : piece.tag = some 5 := by decide
  rw [htag] at mem
  exact (Option.some.inj mem).symm

theorem twoPieces_reached {limit : ℕ} {s : Snapshot}
    (reached : Reached twoPieces limit (fun _ => piece) s) :
    s.offset = 0 ∧ s.len = 48 ∧ s.oldtag = .empty ∨
      s.offset = 24 ∧ s.len = 24 ∧ s.oldtag = .snapshot 5 ∨ s.len = 0 := by
  induction reached with
  | refl => exact .inl ⟨rfl, rfl, rfl⟩
  | @tail s s' _ round ih =>
      have again := round.1
      rcases round_cases round with ⟨-, nested, -, rfl⟩ | ⟨size, chars, -, hsize, -, rfl⟩
      · exact .inl ⟨rfl, rfl, rfl⟩
      · obtain rfl : (24 : ℤ) = size := Option.some.inj hsize
        simp only [Snapshot.appended, Snapshot.append]
        rcases ih with ⟨hoffset, hlen, -⟩ | ⟨-, hlen, -⟩ | hlen
        · exact .inr (.inl ⟨by omega, by omega, rfl⟩)
        · exact .inr (.inr (by omega))
        · omega

theorem twoPieces_sound :
    ∃ outcome, (∃ enough, ∀ fuel ≥ enough,
      histogramRead twoPieces 100 (fun _ => piece) fuel = some outcome) ∧
        outcome.Sound twoPieces := by
  apply (histogramRead_sound_iff (by decide : 0 ≤ twoPieces.numBins)).mpr
  intro _ s reached again
  have hsize : s.newSize piece = some 24 := rfl
  have hwhole : 4 ≤ piece.databytes.length := by decide
  have hchunk : (piece.chunk.length : ℤ) = 24 := by decide
  have hbytes : piece.size = 24 := by decide
  have hplace := twoPieces_reached reached
  constructor
  · intro _
    simp [hsize]
  · intro restarts
    rcases hplace with ⟨-, -, hold⟩ | ⟨-, -, hold⟩ | hlen
    · exact absurd hold restarts.begun
    · exact absurd hold restarts.other
    · omega
  · intro _ _ _
    exact ⟨.inl ⟨hwhole, by omega⟩, by omega⟩
  · intro stalls
    have hnone := (stalls s .refl).2.2 (by decide)
    simp [hsize] at hnone

/-- The second answer is an error. -/
def errorReplies (n : ℕ) : Reply := if n = 1 then ⟨0xC3, []⟩ else piece

/-- The first piece is appended again, and the histogram is used. -/
theorem piece_appended_twice :
    ¬ ∀ (h : Histogram) (limit : ℕ) (replies : ℕ → Reply), 0 ≤ h.numBins → Settles replies →
        ∃ outcome, (∃ enough, ∀ fuel ≥ enough,
          histogramRead h limit replies fuel = some outcome) ∧ outcome.Sound h := by
  intro sound
  have settles : Settles errorReplies := by
    refine ⟨0, 5, fun i _ m hm => ?_⟩
    unfold errorReplies at hm
    split_ifs at hm
    · simp [Reply.tag] at hm
    · exact tag_piece hm
  obtain ⟨outcome, ⟨enough, hfuel⟩, hsound⟩ := sound twoPieces 100 errorReplies (by decide) settles
  have hread : histogramRead twoPieces 100 errorReplies 2 = some (.read (.snapshot 5)
      (List.replicate 48 7) [⟨histogramRequest 3 0 24, piece⟩,
        ⟨histogramRequest 3 24 24, ⟨0xC3, []⟩⟩]) := by
    decide +kernel
  have hend := hfuel (2 + enough) (Nat.le_add_left enough 2)
  rw [histogramRead_add hread] at hend
  obtain rfl := Option.some.inj hend
  have htag := hsound.one _ (List.mem_cons_of_mem _ List.mem_cons_self)
  simp [Reply.tag] at htag

end Amester.Sensor
