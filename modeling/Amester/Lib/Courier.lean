/-
# A courier who carries one message at a time

Messages are accepted at any time and wait. The courier takes the oldest of the most urgent
ones, carries it until it is answered, and only then takes the next. A message that could not
be delivered is returned: it waits again, in front of the messages of its own priority, since
all of them were accepted after it. Or it is dropped.

A log of what happened to the messages is replayed step by step, and the replay fails at the
first entry that the courier could not have made. So a log that can be replayed is a proof of
good order: within a priority the messages are settled in the order in which they were
accepted, none is settled twice, only dropped messages are lost, and what is sent is never less
urgent than what waits.
-/

import Amester.Lib.PriorityQueue
import Amester.Lib.QueueDiscipline

namespace Courier

open PriorityQueue

universe u v

/-- What can happen to a message. -/
inductive Label (α : Type u)
  | accepted (x : α)
  | sent (x : α)
  | answered (x : α)
  | returned (x : α)
  | dropped (x : α)
  deriving DecidableEq

/-- The messages that wait, and the one that is on the way. -/
structure Line (α : Type u) where
  waiting : List α := []
  carried : Option α := none
  deriving DecidableEq

section Logs

variable {α : Type u}

def accepted (log : List (Label α)) : List α :=
  log.filterMap fun
    | .accepted x => some x
    | _ => none

def answered (log : List (Label α)) : List α :=
  log.filterMap fun
    | .answered x => some x
    | _ => none

def dropped (log : List (Label α)) : List α :=
  log.filterMap fun
    | .dropped x => some x
    | _ => none

/-- The messages that were answered or dropped. -/
def settled (log : List (Label α)) : List α :=
  log.filterMap fun
    | .answered x | .dropped x => some x
    | _ => none

@[simp]
theorem accepted_append (first second : List (Label α)) :
    accepted (first ++ second) = accepted first ++ accepted second :=
  List.filterMap_append

@[simp]
theorem settled_append (first second : List (Label α)) :
    settled (first ++ second) = settled first ++ settled second :=
  List.filterMap_append

@[simp]
theorem dropped_append (first second : List (Label α)) :
    dropped (first ++ second) = dropped first ++ dropped second :=
  List.filterMap_append

theorem length_settled (log : List (Label α)) :
    (settled log).length = (answered log).length + (dropped log).length := by
  induction log with
  | nil => rfl
  | cons label log ih =>
      rw [settled, answered, dropped] at ih ⊢
      cases label <;> simp only [List.filterMap_cons, List.length_cons] <;> omega

theorem settled_of_dropped_nil {log : List (Label α)} (none : dropped log = []) :
    settled log = answered log := by
  induction log with
  | nil => rfl
  | cons label log ih =>
      rw [dropped] at ih none
      rw [settled, answered] at ih ⊢
      cases label <;> simp only [List.filterMap_cons, List.cons.injEq, true_and, reduceCtorEq]
        at none ⊢
      all_goals exact ih none

end Logs

variable {α : Type u} {κ : Type v} [LinearOrder κ] (priority : α → κ)

/-- The line behind an entry, if the courier can make it. -/
def step [DecidableEq α] (l : Line α) : Label α → Option (Line α)
  | .accepted x => some { l with waiting := l.waiting ++ [x] }
  | .sent x =>
    match l.carried, sort priority l.waiting with
    | none, y :: rest => if y = x then some ⟨rest, some x⟩ else none
    | _, _ => none
  | .answered x => if l.carried = some x then some { l with carried := none } else none
  | .returned x => if l.carried = some x then some ⟨x :: l.waiting, none⟩ else none
  | .dropped x => if l.carried = some x then some { l with carried := none } else none

/-- Replay a log. -/
def replay [DecidableEq α] (l : Line α) (log : List (Label α)) : Option (Line α) :=
  log.foldlM (step priority) l

/-- The messages that are not settled yet, in the order in which they will be. -/
def Line.outstanding (l : Line α) : List α := l.carried.toList ++ sort priority l.waiting

section Replay

variable [DecidableEq α] {priority}

@[simp]
theorem replay_nil (l : Line α) : replay priority l [] = some l := rfl

theorem replay_cons (l : Line α) (label : Label α) (log : List (Label α)) :
    replay priority l (label :: log) =
      (step priority l label).bind fun l' => replay priority l' log :=
  List.foldlM_cons

theorem replay_append (l : Line α) (first second : List (Label α)) :
    replay priority l (first ++ second) =
      (replay priority l first).bind fun l' => replay priority l' second :=
  List.foldlM_append

/-- What the entry says about the line in front of it and behind it. -/
theorem step_sent {l l' : Line α} {x : α} (h : step priority l (.sent x) = some l') :
    l.carried = none ∧ sort priority l.waiting = x :: l'.waiting ∧ l'.carried = some x := by
  unfold step at h
  cases hcarried : l.carried with
  | some y =>
      rw [hcarried] at h
      exact absurd h (by simp)
  | none =>
      rw [hcarried] at h
      cases hsort : sort priority l.waiting with
      | nil =>
          rw [hsort] at h
          exact absurd h (by simp)
      | cons y rest =>
          rw [hsort] at h
          simp only [Option.ite_none_right_eq_some, Option.some.injEq] at h
          obtain ⟨rfl, rfl⟩ := h
          exact ⟨rfl, rfl, rfl⟩

theorem step_answered {l l' : Line α} {x : α} (h : step priority l (.answered x) = some l') :
    l.carried = some x ∧ l' = { l with carried := none } := by
  simpa [step, eq_comm] using h

theorem step_returned {l l' : Line α} {x : α} (h : step priority l (.returned x) = some l') :
    l.carried = some x ∧ l' = ⟨x :: l.waiting, none⟩ := by
  simpa [step, eq_comm] using h

theorem step_dropped {l l' : Line α} {x : α} (h : step priority l (.dropped x) = some l') :
    l.carried = some x ∧ l' = { l with carried := none } := by
  simpa [step, eq_comm] using h

/-- What is settled and what is outstanding are, within a priority, what they were before, and a
newly accepted message is behind them. -/
theorem step_order {l l' : Line α} {label : Label α} (h : step priority l label = some l')
    (p : κ) :
    (settled [label] ++ l'.outstanding priority).filter (fun y => priority y = p) =
      (l.outstanding priority ++ accepted [label]).filter fun y => priority y = p := by
  cases label with
  | accepted x =>
      obtain rfl : { l with waiting := l.waiting ++ [x] } = l' := Option.some_inj.mp h
      simp [settled, accepted, Line.outstanding, sort_filter]
  | sent x =>
      obtain ⟨hidle, hsort, hcarried⟩ := step_sent h
      have hrest : sort priority l'.waiting = l'.waiting := by
        have hsorted := sort_sorted priority l.waiting
        rw [hsort] at hsorted
        exact sort_eq_self priority hsorted.of_cons
      simp [settled, accepted, Line.outstanding, hidle, hsort, hcarried, hrest]
  | answered x =>
      obtain ⟨hcarried, rfl⟩ := step_answered h
      simp [settled, accepted, Line.outstanding, hcarried]
  | returned x =>
      obtain ⟨hcarried, rfl⟩ := step_returned h
      rw [Line.outstanding, Line.outstanding, hcarried]
      simp only [settled, accepted, List.filterMap_cons, List.filterMap_nil, List.nil_append,
        List.append_nil, Option.toList_none, Option.toList_some, sort_filter,
        List.singleton_append, List.filter_cons]
  | dropped x =>
      obtain ⟨hcarried, rfl⟩ := step_dropped h
      simp [settled, accepted, Line.outstanding, hcarried]

theorem replay_order {l l' : Line α} {log : List (Label α)}
    (h : replay priority l log = some l') (p : κ) :
    (settled log ++ l'.outstanding priority).filter (fun y => priority y = p) =
      (l.outstanding priority ++ accepted log).filter fun y => priority y = p := by
  induction log generalizing l with
  | nil =>
      obtain rfl : l = l' := Option.some_inj.mp h
      simp [settled, accepted]
  | cons label log ih =>
      rw [replay_cons] at h
      obtain ⟨between, hstep, hrest⟩ := Option.bind_eq_some_iff.mp h
      have hfirst := step_order hstep p
      have hlater := ih hrest
      rw [← List.singleton_append, settled_append, accepted_append, List.append_assoc,
        List.filter_append, hlater, ← List.filter_append, ← List.append_assoc, List.filter_append,
        hfirst, ← List.filter_append, List.append_assoc]

/-- Within a priority, the messages are settled in the order in which they were accepted, and
what is accepted and not settled is outstanding, in that order too. -/
theorem replay_fifo {l : Line α} {log : List (Label α)} (h : replay priority {} log = some l)
    (p : κ) :
    (accepted log).filter (fun y => priority y = p) =
      (settled log ++ l.outstanding priority).filter fun y => priority y = p := by
  have horder := replay_order h p
  have hnone : Line.outstanding priority ({} : Line α) = [] := rfl
  rw [hnone, List.nil_append] at horder
  exact horder.symm

/-- Lists with the same entries of each priority in the same order have the same entries. -/
theorem perm_of_filter_eq {first second : List α}
    (same : ∀ p, first.filter (fun y => priority y = p) =
      second.filter fun y => priority y = p) : first.Perm second := by
  rw [List.perm_iff_count]
  intro x
  have hcount := congrArg (List.count x) (same (priority x))
  rwa [List.count_filter (by simp), List.count_filter (by simp)] at hcount

/-- The messages are answered in the order in which they were accepted, and none is lost, exactly
if none was dropped. -/
theorem replay_answered_iff {l : Line α} {log : List (Label α)}
    (h : replay priority {} log = some l) :
    (∀ p, (accepted log).filter (fun y => priority y = p) =
      (answered log ++ l.outstanding priority).filter fun y => priority y = p) ↔
      dropped log = [] := by
  constructor
  · intro hanswered
    have hfirst := (perm_of_filter_eq hanswered).length_eq
    have hsecond := (perm_of_filter_eq (replay_fifo h)).length_eq
    rw [List.length_append, length_settled] at hsecond
    rw [List.length_append] at hfirst
    exact List.eq_nil_of_length_eq_zero (by omega)
  · intro hnone p
    rw [replay_fifo h, settled_of_dropped_nil hnone]

/-- A message that is sent is the oldest of its priority that is not settled yet, and all that
are more urgent are settled. -/
theorem sent_oldest {l : Line α} {before after : List (Label α)} {x : α}
    (h : replay priority {} (before ++ .sent x :: after) = some l) :
    (∃ later, (accepted before).filter (fun y => priority y = priority x) =
      (settled before).filter (fun y => priority y = priority x) ++ x :: later) ∧
      ∀ p < priority x, (accepted before).filter (fun y => priority y = p) =
        (settled before).filter fun y => priority y = p := by
  rw [replay_append] at h
  obtain ⟨line, hbefore, hrest⟩ := Option.bind_eq_some_iff.mp h
  rw [replay_cons] at hrest
  obtain ⟨line', hsent, -⟩ := Option.bind_eq_some_iff.mp hrest
  obtain ⟨hidle, hsort, -⟩ := step_sent hsent
  have hout : line.outstanding priority = x :: line'.waiting := by
    rw [Line.outstanding, hidle, hsort]
    rfl
  have hfifo := replay_fifo hbefore
  simp only [hout, List.filter_append] at hfifo
  refine ⟨⟨line'.waiting.filter fun y => priority y = priority x, ?_⟩, fun p hp => ?_⟩
  · rw [hfifo, List.filter_cons_of_pos (by simp)]
  · have hsorted := sort_sorted priority line.waiting
    rw [hsort] at hsorted
    have hnone : (x :: line'.waiting).filter (fun y => priority y = p) = [] := by
      rw [List.filter_eq_nil_iff]
      intro y hy
      have hle : priority x ≤ priority y := by
        obtain rfl | hy := List.mem_cons.mp hy
        · exact le_rfl
        · exact List.rel_of_pairwise_cons hsorted hy
      simpa using (hp.trans_le hle).ne'
    rw [hfifo, hnone, List.append_nil]

/-! ## Queues that are sorted now and then -/

/-- The courier with this log carries this message, and these wait, up to what sorting them does. -/
def Stands (priority : α → κ) (log : List (Label α)) (carried : Option α) (waiting : List α) :
    Prop :=
  ∃ l, replay priority {} log = some l ∧ l.carried = carried ∧
    sort priority l.waiting = sort priority waiting

variable {log : List (Label α)} {carried : Option α} {waiting : List α}

theorem Stands.start : Stands priority [] none [] := ⟨{}, rfl, rfl, rfl⟩

theorem Stands.step {label : Label α} {carried' : Option α} {waiting' : List α}
    (h : Stands priority log carried waiting)
    (steps : ∀ l : Line α, l.carried = carried →
      sort priority l.waiting = sort priority waiting →
      ∃ l', Courier.step priority l label = some l' ∧ l'.carried = carried' ∧
        sort priority l'.waiting = sort priority waiting') :
    Stands priority (log ++ [label]) carried' waiting' := by
  obtain ⟨l, hreplay, hcarried, hwaiting⟩ := h
  obtain ⟨l', hstep, hcarried', hwaiting'⟩ := steps l hcarried hwaiting
  refine ⟨l', ?_, hcarried', hwaiting'⟩
  rw [replay_append, hreplay, Option.bind_some, replay_cons, hstep]
  rfl

omit [DecidableEq α] in
/-- Insertions into queues that sort alike sort alike. -/
theorem sort_insertAt_congr {first second : List α} (position : Position) (x : α)
    (same : sort priority first = sort priority second) :
    sort priority (insertAt position x first) = sort priority (insertAt position x second) := by
  rw [← enqueue_sort, ← enqueue_sort, same]

theorem Stands.accepted (h : Stands priority log carried waiting) (x : α) :
    Stands priority (log ++ [.accepted x]) carried (insertAt .back x waiting) :=
  h.step fun l hcarried hwaiting =>
    ⟨{ l with waiting := l.waiting ++ [x] }, rfl, hcarried, sort_insertAt_congr .back x hwaiting⟩

theorem Stands.sorted (h : Stands priority log carried waiting) :
    Stands priority log carried (sort priority waiting) := by
  obtain ⟨l, hreplay, hcarried, hwaiting⟩ := h
  exact ⟨l, hreplay, hcarried, hwaiting.trans (sort_eq_self _ (sort_sorted _ _)).symm⟩

theorem Stands.sent {x : α} {rest : List α} (h : Stands priority log none waiting)
    (next : sort priority waiting = x :: rest) :
    Stands priority (log ++ [.sent x]) (some x) rest := by
  refine h.step fun l hcarried hwaiting => ⟨⟨rest, some x⟩, ?_, rfl, rfl⟩
  simp [Courier.step, hcarried, hwaiting, next]

theorem Stands.answered {x : α} (h : Stands priority log (some x) waiting) :
    Stands priority (log ++ [.answered x]) none waiting :=
  h.step fun l hcarried hwaiting =>
    ⟨{ l with carried := none }, by simp [Courier.step, hcarried], rfl, hwaiting⟩

theorem Stands.returned {x : α} (h : Stands priority log (some x) waiting) :
    Stands priority (log ++ [.returned x]) none (insertAt .front x waiting) :=
  h.step fun l hcarried hwaiting =>
    ⟨⟨x :: l.waiting, none⟩, by simp [Courier.step, hcarried], rfl,
      sort_insertAt_congr .front x hwaiting⟩

theorem Stands.dropped {x : α} (h : Stands priority log (some x) waiting) :
    Stands priority (log ++ [.dropped x]) none waiting :=
  h.step fun l hcarried hwaiting =>
    ⟨{ l with carried := none }, by simp [Courier.step, hcarried], rfl, hwaiting⟩

/-- The messages are answered in order and none is lost exactly if none was dropped. -/
theorem Stands.answered_iff (h : Stands priority log carried waiting) :
    (∀ p, (Courier.accepted log).filter (fun y => priority y = p) =
      (Courier.answered log ++ (carried.toList ++ sort priority waiting)).filter
        fun y => priority y = p) ↔ Courier.dropped log = [] := by
  obtain ⟨l, hreplay, hcarried, hwaiting⟩ := h
  have hiff := replay_answered_iff hreplay
  rwa [Line.outstanding, hcarried, hwaiting] at hiff

end Replay

end Courier
