/-
# Frames in a byte stream and a reader that does not wait

A frame starts with a header of fixed size that announces the size of the whole
frame. A stream of frames arrives in pieces. The reader is woken up when
something has arrived; it reads a header and then the rest of the frame, and a
read takes what is there without waiting for more, although something may arrive
between the two reads.

Nothing is kept between two wakeups except what has not been read. The two theorems
at the end say which arrivals such a reader can stand: those in which every wakeup
finds a whole header and, at the second read, the whole frame.
-/

import Amester.Lib.EventMachine
import Mathlib.Tactic.Common

namespace Framing

open EventMachine

universe u v

/-- The header size of a format, and the frame size that a whole header announces. -/
structure Format (α : Type u) where
  headerSize : ℕ
  frameSize : List α → ℕ

/-- What is done with the results of reading. -/
structure Reader (α : Type u) (σ : Type v) extends Format α where
  /-- The stream is still read from. -/
  isOpen : σ → Bool
  /-- Take what was read for a frame. -/
  handle : List α → σ → σ
  /-- The header was not there whole. -/
  refuse : List α → σ → σ

/-- A wakeup, by the number of bytes that arrive before the header is read and
between the two reads. -/
structure Wakeup where
  before : ℕ
  between : ℕ
  deriving DecidableEq, Repr

structure Receiver (α : Type u) (σ : Type v) where
  /-- Sent and not arrived. -/
  stream : List α
  /-- Arrived and not read. -/
  pending : List α := []
  /-- What was taken for frames. -/
  handled : List (List α) := []
  /-- What was read of headers that were not there whole. -/
  refused : List (List α) := []
  state : σ

variable {α : Type u} {σ : Type v}

namespace Format

variable (F : Format α)

/-- The size of the frame is the one that its header announces. -/
def IsFrame (m : List α) : Prop :=
  F.headerSize ≤ m.length ∧ F.frameSize (m.take F.headerSize) = m.length

/-- Read a header from `pending` and the rest of its frame after `arrived` has come.
The result is what was read and what is left. -/
def readFrame (pending arrived : List α) : Option (List α × List α) :=
  let header := pending.take F.headerSize
  if header.length < F.headerSize then none
  else
    let rest := pending.drop F.headerSize ++ arrived
    let size := F.frameSize header - F.headerSize
    some (header ++ rest.take size, rest.drop size)

/-- The wakeups find whole frames, when so many bytes are left from before. -/
def FindsWhole : ℕ → List Wakeup → List (List α) → Prop
  | _, [], _ => True
  | _, _ :: _, [] => False
  | surplus, w :: ws, m :: ms =>
    F.headerSize ≤ surplus + w.before ∧ m.length ≤ surplus + w.before + w.between ∧
      FindsWhole (surplus + w.before + w.between - m.length) ws ms

end Format

namespace Reader

variable (R : Reader α σ)

/-- Read one frame. -/
def step (r : Receiver α σ) (w : Wakeup) : Receiver α σ :=
  let pending := r.pending ++ r.stream.take w.before
  let stream := r.stream.drop w.before
  match R.readFrame pending (stream.take w.between) with
  | none =>
    { r with
      stream := stream
      pending := []
      refused := r.refused ++ [pending]
      state := R.refuse pending r.state }
  | some (packet, left) =>
    { r with
      stream := stream.drop w.between
      pending := left
      handled := r.handled ++ [packet]
      state := R.handle packet r.state }

/-- The reader is woken up when there is something to read, as long as the stream is
open. -/
def machine : Machine (Receiver α σ) Wakeup where
  admissible r w :=
    R.isOpen r.state = true ∧ 0 < r.pending.length + w.before ∧
      w.before + w.between ≤ r.stream.length
  step := R.step

/-- Nothing is left to read. -/
def Finished (r : Receiver α σ) : Prop :=
  R.isOpen r.state = false ∨ r.stream = [] ∧ r.pending = []

/-- Handle whole frames one after the other, as long as the stream is open. The result
is what was handled and the last state. -/
def direct : List (List α) → σ → List (List α) × σ
  | [], s => ([], s)
  | m :: ms, s =>
    if R.isOpen s then ((m :: (direct ms (R.handle m s)).1), (direct ms (R.handle m s)).2)
    else ([], s)

theorem direct_of_closed {s : σ} (closed : R.isOpen s = false) (ms : List (List α)) :
    R.direct ms s = ([], s) := by
  cases ms with
  | nil => rfl
  | cons m ms => simp [direct, closed]

theorem direct_of_open {s : σ} (opened : R.isOpen s = true) (m : List α) (ms : List (List α)) :
    R.direct (m :: ms) s =
      (m :: (R.direct ms (R.handle m s)).1, (R.direct ms (R.handle m s)).2) := by
  simp [direct, opened]

/-! ## One wakeup -/

variable {R}

theorem step_of_short {r : Receiver α σ} {w : Wakeup}
    (short : (r.pending ++ r.stream.take w.before).length < R.headerSize) :
    (R.step r w).refused = r.refused ++ [r.pending ++ r.stream.take w.before] := by
  have hheader : ((r.pending ++ r.stream.take w.before).take R.headerSize).length <
      R.headerSize := by
    rw [List.length_take]
    omega
  rw [step, Format.readFrame, if_pos hheader]

/-- With a whole header, as much is read as is there of the frame. -/
theorem readFrame_of_header {F : Format α} {m rest pending arrived later : List α}
    (frame : F.IsFrame m) (sent : pending ++ arrived ++ later = m ++ rest)
    (header : F.headerSize ≤ pending.length) :
    F.readFrame pending arrived =
      some ((pending ++ arrived).take m.length, (pending ++ arrived).drop m.length) := by
  have htake : pending.take F.headerSize = m.take F.headerSize := by
    calc pending.take F.headerSize
        = (pending ++ (arrived ++ later)).take F.headerSize :=
          (List.take_append_of_le_length header).symm
      _ = (m ++ rest).take F.headerSize := by rw [← List.append_assoc, sent]
      _ = m.take F.headerSize := List.take_append_of_le_length frame.1
  have hlength : ¬ (pending.take F.headerSize).length < F.headerSize := by
    rw [List.length_take]
    omega
  have hsize : F.headerSize + (F.frameSize (pending.take F.headerSize) - F.headerSize) =
      m.length := by
    rw [htake, frame.2]
    exact Nat.add_sub_cancel' frame.1
  have hpending : pending.take F.headerSize = (pending ++ arrived).take F.headerSize :=
    (List.take_append_of_le_length header).symm
  have hrest : pending.drop F.headerSize ++ arrived = (pending ++ arrived).drop F.headerSize :=
    (List.drop_append_of_le_length header).symm
  have htaken : (pending ++ arrived).take m.length = pending.take F.headerSize ++
      ((pending ++ arrived).drop F.headerSize).take
        (F.frameSize (pending.take F.headerSize) - F.headerSize) := by
    rw [hpending, ← List.take_add, ← hpending, hsize]
  simp only [Format.readFrame, if_neg hlength, hrest, htaken, List.drop_drop, hsize]

/-- What has arrived when a wakeup reads for the second time. -/
def arrived (r : Receiver α σ) (w : Wakeup) : List α :=
  r.pending ++ r.stream.take (w.before + w.between)

theorem length_arrived {r : Receiver α σ} {w : Wakeup} (admissible : R.machine.admissible r w) :
    (arrived r w).length = r.pending.length + w.before + w.between := by
  have hstream := admissible.2.2
  rw [arrived, List.length_append, List.length_take]
  omega

theorem step_of_header {r : Receiver α σ} {w : Wakeup} {m rest : List α}
    (frame : R.IsFrame m) (sent : r.pending ++ r.stream = m ++ rest)
    (admissible : R.machine.admissible r w)
    (header : R.headerSize ≤ r.pending.length + w.before) :
    R.step r w =
      { r with
        stream := r.stream.drop (w.before + w.between)
        pending := (arrived r w).drop m.length
        handled := r.handled ++ [(arrived r w).take m.length]
        state := R.handle ((arrived r w).take m.length) r.state } := by
  have hstream := admissible.2.2
  have harrived : r.pending ++ r.stream.take w.before ++
      (r.stream.drop w.before).take w.between = arrived r w := by
    rw [arrived, List.append_assoc, ← List.take_add]
  have hsent : r.pending ++ r.stream.take w.before ++ (r.stream.drop w.before).take w.between ++
      (r.stream.drop w.before).drop w.between = m ++ rest := by
    rw [List.append_assoc, List.append_assoc, List.take_append_drop, List.take_append_drop, sent]
  have hheader : R.headerSize ≤ (r.pending ++ r.stream.take w.before).length := by
    rw [List.length_append, List.length_take]
    omega
  rw [step, readFrame_of_header frame hsent hheader, harrived, List.drop_drop]

/-- With the whole frame at the second read, the wakeup handles the frame. -/
theorem step_of_whole {r : Receiver α σ} {w : Wakeup} {m rest : List α}
    (frame : R.IsFrame m) (sent : r.pending ++ r.stream = m ++ rest)
    (admissible : R.machine.admissible r w)
    (header : R.headerSize ≤ r.pending.length + w.before)
    (whole : m.length ≤ r.pending.length + w.before + w.between) :
    (R.step r w).handled = r.handled ++ [m] ∧ (R.step r w).refused = r.refused ∧
      (R.step r w).state = R.handle m r.state ∧
      (R.step r w).pending ++ (R.step r w).stream = rest ∧
      (R.step r w).pending.length = r.pending.length + w.before + w.between - m.length := by
  have hlength := length_arrived admissible
  have hle : m.length ≤ (arrived r w).length := by omega
  have hsent : arrived r w ++ r.stream.drop (w.before + w.between) = m ++ rest := by
    rw [arrived, List.append_assoc, List.take_append_drop, sent]
  have htake : (arrived r w).take m.length = m := by
    rw [← List.take_append_of_le_length hle, hsent, List.take_left]
  have hdrop : (arrived r w).drop m.length ++ r.stream.drop (w.before + w.between) = rest := by
    rw [← List.drop_append_of_le_length hle, hsent, List.drop_left]
  rw [step_of_header frame sent admissible header, htake]
  refine ⟨rfl, rfl, rfl, hdrop, ?_⟩
  rw [List.length_drop, hlength]

/-! ## Runs -/

/-- What was handled and what was refused stays. -/
theorem step_grows (r : Receiver α σ) (w : Wakeup) :
    r.handled <+: (R.step r w).handled ∧ r.refused <+: (R.step r w).refused := by
  unfold step
  simp only
  split
  · exact ⟨List.prefix_rfl, List.prefix_append _ _⟩
  · exact ⟨List.prefix_append _ _, List.prefix_rfl⟩

theorem run_grows (ws : List Wakeup) (r : Receiver α σ) :
    r.handled <+: (R.machine.run r ws).handled ∧ r.refused <+: (R.machine.run r ws).refused := by
  induction ws generalizing r with
  | nil => exact ⟨List.prefix_rfl, List.prefix_rfl⟩
  | cons w ws ih =>
      obtain ⟨hhandled, hrefused⟩ := step_grows (R := R) r w
      obtain ⟨hhandled', hrefused'⟩ := ih (R.step r w)
      exact ⟨hhandled.trans hhandled', hrefused.trans hrefused'⟩

variable (R) in
/-- The run handled the frames as if each had been there whole. -/
def Framed (ms : List (List α)) (r r' : Receiver α σ) : Prop :=
  r'.handled = r.handled ++ (R.direct ms r.state).1 ∧ r'.refused = r.refused ∧
    r'.state = (R.direct ms r.state).2

/-- A wakeup on an open stream finds the stream's next frame begun. -/
theorem exists_frame {r : Receiver α σ} {w : Wakeup} {ms : List (List α)}
    (sent : r.pending ++ r.stream = ms.flatten) (admissible : R.machine.admissible r w) :
    ∃ m ms', ms = m :: ms' := by
  cases ms with
  | nil =>
      obtain ⟨hpending, hstream⟩ := List.append_eq_nil_iff.mp sent
      obtain ⟨-, hsome, hmore⟩ := admissible
      simp only [hpending, hstream, List.length_nil] at hsome hmore
      omega
  | cons m ms => exact ⟨m, ms, rfl⟩

/-- Handling the first of the frames as it is needs it whole: a header that was refused
stays refused, and a frame that was cut short stays handled that way. -/
theorem whole_of_handled {r : Receiver α σ} {w : Wakeup} {ws : List Wakeup} {m : List α}
    {ms done : List (List α)}
    (handled : (R.machine.run r (w :: ws)).handled = r.handled ++ done)
    (refused : (R.machine.run r (w :: ws)).refused = r.refused) (whole : done <+: m :: ms)
    (frame : R.IsFrame m) (sent : r.pending ++ r.stream = m ++ ms.flatten)
    (admissible : R.machine.admissible r w) :
    R.headerSize ≤ r.pending.length + w.before ∧
      m.length ≤ r.pending.length + w.before + w.between := by
  obtain ⟨hgrows, hgrows'⟩ := run_grows (R := R) ws (R.step r w)
  have hheader : R.headerSize ≤ r.pending.length + w.before := by
    by_contra hshort
    have hstep : (R.step r w).refused = r.refused ++ [r.pending ++ r.stream.take w.before] := by
      apply step_of_short
      rw [List.length_append, List.length_take]
      omega
    rw [hstep] at hgrows'
    have hlength := hgrows'.length_le
    rw [Machine.run_cons] at refused
    rw [show R.machine.step r w = R.step r w from rfl] at refused
    rw [refused, List.length_append, List.length_singleton] at hlength
    omega
  refine ⟨hheader, ?_⟩
  by_contra hcut
  have hstep := step_of_header frame sent admissible hheader
  have hlast : (R.step r w).handled = r.handled ++ [(arrived r w).take m.length] := by
    rw [hstep]
  have hgrown : r.handled ++ [(arrived r w).take m.length] <+: r.handled ++ done := by
    rw [← hlast, ← handled]
    exact hgrows
  rw [List.prefix_append_right_inj] at hgrown
  have hfirst := (List.cons_prefix_cons.mp (hgrown.trans whole)).1
  have hlength := congrArg List.length hfirst
  rw [List.length_take, length_arrived admissible] at hlength
  omega

/-- Reading has come to its end where no frame is begun. -/
theorem Finished.direct_eq (positive : 0 < R.headerSize) {r : Receiver α σ}
    (finished : R.Finished r) {ms : List (List α)} (frames : ∀ m ∈ ms, R.IsFrame m)
    (sent : r.pending ++ r.stream = ms.flatten) : R.direct ms r.state = ([], r.state) := by
  obtain hclosed | ⟨hstream, hpending⟩ := finished
  · exact R.direct_of_closed hclosed ms
  · cases ms with
    | nil => rfl
    | cons m ms =>
        have hframe := (frames m List.mem_cons_self).1
        rw [hstream, hpending, List.append_nil, List.flatten_cons] at sent
        rw [(List.append_eq_nil_iff.mp sent.symm).1, List.length_nil] at hframe
        omega

/-- A run that handles nothing but frames, and refuses none, finds them whole, and handles
all that can be handled. -/
theorem direct_of_handled (positive : 0 < R.headerSize) {ws : List Wakeup}
    {ms done : List (List α)} {r : Receiver α σ} (frames : ∀ m ∈ ms, R.IsFrame m)
    (sent : r.pending ++ r.stream = ms.flatten) (admits : R.machine.Admits r ws)
    (finished : R.Finished (R.machine.run r ws))
    (handled : (R.machine.run r ws).handled = r.handled ++ done)
    (refused : (R.machine.run r ws).refused = r.refused) (whole : done <+: ms) :
    R.FindsWhole r.pending.length ws ms ∧ (R.direct ms r.state).1 = done := by
  induction ws generalizing ms done r with
  | nil =>
      refine ⟨trivial, ?_⟩
      rw [Machine.run_nil] at finished
      rw [finished.direct_eq positive frames sent]
      exact (List.self_eq_append_right.mp handled).symm
  | cons w ws ih =>
      obtain ⟨hadmissible, hadmits⟩ := admits
      obtain ⟨m, ms, rfl⟩ := exists_frame sent hadmissible
      have hframe := frames m List.mem_cons_self
      rw [List.flatten_cons] at sent
      obtain ⟨hheader, hwhole⟩ :=
        whole_of_handled handled refused whole hframe sent hadmissible
      obtain ⟨hhandled, hrefused, hstate, hsent, hlength⟩ :=
        step_of_whole hframe sent hadmissible hheader hwhole
      obtain ⟨later, hlater⟩ := (run_grows (R := R) ws (R.step r w)).1
      have hdone : done = m :: later := by
        rw [hhandled, List.append_assoc] at hlater
        exact (List.append_cancel_left (hlater.trans handled)).symm
      subst hdone
      have hlater' : (R.machine.run (R.step r w) ws).handled = (R.step r w).handled ++ later :=
        hlater.symm
      obtain ⟨hfinds, hdirect⟩ :=
        ih (fun m' hm' => frames m' (List.mem_cons_of_mem _ hm')) hsent hadmits finished hlater'
          (refused.trans hrefused.symm) (List.cons_prefix_cons.mp whole).2
      rw [hlength] at hfinds
      refine ⟨⟨hheader, hwhole, hfinds⟩, ?_⟩
      rw [R.direct_of_open hadmissible.1, ← hstate, hdirect]

/-- Wakeups that find whole frames handle every frame that can be handled. -/
theorem framed_of_findsWhole (positive : 0 < R.headerSize) {ws : List Wakeup}
    {ms : List (List α)} {r : Receiver α σ} (frames : ∀ m ∈ ms, R.IsFrame m)
    (sent : r.pending ++ r.stream = ms.flatten) (admits : R.machine.Admits r ws)
    (finished : R.Finished (R.machine.run r ws))
    (finds : R.FindsWhole r.pending.length ws ms) : R.Framed ms r (R.machine.run r ws) := by
  induction ws generalizing ms r with
  | nil =>
      rw [Machine.run_nil] at finished
      rw [Framed, finished.direct_eq positive frames sent]
      exact ⟨(List.append_nil _).symm, rfl, rfl⟩
  | cons w ws ih =>
      obtain ⟨hadmissible, hadmits⟩ := admits
      obtain ⟨m, ms, rfl⟩ := exists_frame sent hadmissible
      obtain ⟨hheader, hwhole, hfinds⟩ := finds
      rw [List.flatten_cons] at sent
      obtain ⟨hhandled, hrefused, hstate, hsent, hlength⟩ :=
        step_of_whole (frames m List.mem_cons_self) sent hadmissible hheader hwhole
      rw [← hlength] at hfinds
      obtain ⟨hall, hnone, hlast⟩ :=
        ih (fun m' hm' => frames m' (List.mem_cons_of_mem _ hm')) hsent hadmits finished hfinds
      rw [hhandled, hstate, List.append_assoc] at hall
      rw [hstate] at hlast
      rw [Framed, R.direct_of_open hadmissible.1]
      exact ⟨hall, hnone.trans hrefused, hlast⟩

end Reader

end Framing
