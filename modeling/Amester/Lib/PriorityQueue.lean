/-
# Priority queues kept by stable sorting

A queue is a list whose entries carry a priority, the smallest first. An entry
is inserted at one of the two ends of the list and the list is then sorted with
a stable sort, so an entry inserted at the back comes after every entry of its
priority and one inserted at the front before every entry of its priority. The
results below say this for a queue that is already sorted: nothing moves but
the new entry.

Insertion sort is used because it is structurally recursive; any stable sort
computes the same list.
-/

import Mathlib.Data.List.Sort
import Mathlib.Data.List.TakeWhile
import Mathlib.Order.Defs.LinearOrder

namespace PriorityQueue

universe u v

variable {α : Type u} {κ : Type v} [LinearOrder κ] (priority : α → κ)

/-- The end of the list at which an entry is inserted. -/
inductive Position
  | front
  | back
  deriving DecidableEq, Repr

/-- Insert at one end. -/
def insertAt (position : Position) (x : α) (queue : List α) : List α :=
  match position with
  | .front => x :: queue
  | .back => queue ++ [x]

/-- Stable sort by increasing priority. -/
def sort (queue : List α) : List α :=
  queue.insertionSort fun x y => priority x ≤ priority y

/-- Insert at one end and sort. -/
def enqueue (position : Position) (x : α) (queue : List α) : List α :=
  sort priority (insertAt position x queue)

/-- The smallest priority comes first. -/
def Sorted (queue : List α) : Prop :=
  queue.Pairwise fun x y => priority x ≤ priority y

theorem insertAt_perm (position : Position) (x : α) (queue : List α) :
    (insertAt position x queue).Perm (x :: queue) := by
  cases position with
  | front => exact List.Perm.refl _
  | back => exact List.perm_append_singleton x queue

theorem sort_perm (queue : List α) : (sort priority queue).Perm queue :=
  List.perm_insertionSort _ queue

theorem sort_sorted (queue : List α) : Sorted priority (sort priority queue) := by
  have htrans : IsTrans α fun x y => priority x ≤ priority y := ⟨fun _ _ _ => le_trans⟩
  have htotal : Std.Total fun x y : α => priority x ≤ priority y :=
    ⟨fun x y => le_total (priority x) (priority y)⟩
  exact List.pairwise_insertionSort _ queue

theorem sort_eq_self {queue : List α} (h : Sorted priority queue) :
    sort priority queue = queue :=
  List.Pairwise.insertionSort_eq h

/-- Nothing is lost or invented by an insertion. -/
theorem enqueue_perm (position : Position) (x : α) (queue : List α) :
    (enqueue priority position x queue).Perm (x :: queue) :=
  (sort_perm priority _).trans (insertAt_perm position x queue)

theorem enqueue_sorted (position : Position) (x : α) (queue : List α) :
    Sorted priority (enqueue priority position x queue) :=
  sort_sorted priority _

/-! ## Stability -/

/-- An entry is inserted in front of the entries of its own priority. -/
theorem orderedInsert_filter (p : κ) (x : α) (queue : List α) :
    (queue.orderedInsert (fun x y => priority x ≤ priority y) x).filter
        (fun y => priority y = p) =
      (x :: queue).filter fun y => priority y = p := by
  induction queue with
  | nil => rfl
  | cons y queue ih =>
      rw [List.orderedInsert_cons]
      split_ifs with hle
      · rfl
      · rw [List.filter_cons, ih]
        by_cases hx : priority x = p
        · -- the entry that is passed has a smaller priority
          have hy : priority y ≠ p := by
            intro hy
            exact hle (hx.le.trans hy.ge)
          simp [hx, hy]
        · simp [hx, List.filter_cons]

/-- Sorting keeps the order of the entries of one priority. -/
theorem sort_filter (p : κ) (queue : List α) :
    (sort priority queue).filter (fun y => priority y = p) =
      queue.filter fun y => priority y = p := by
  unfold sort
  induction queue with
  | nil => rfl
  | cons x queue ih =>
      rw [List.insertionSort_cons, orderedInsert_filter, List.filter_cons, List.filter_cons, ih]

/-- An entry inserted at the back comes last among those of its priority. -/
theorem enqueue_back_filter (p : κ) (x : α) (queue : List α) :
    (enqueue priority .back x queue).filter (fun y => priority y = p) =
      (queue ++ [x]).filter fun y => priority y = p :=
  sort_filter priority p (queue ++ [x])

/-- A front insertion into a sorted queue stops before the first entry whose
priority is not smaller: the new entry is the first of its priority class, and
the entries around it keep their order. -/
theorem enqueue_front_of_sorted {queue : List α} (h : Sorted priority queue) (x : α) :
    ∃ before after, queue = before ++ after ∧
      enqueue priority .front x queue = before ++ x :: after ∧
      ∀ y ∈ before, priority y < priority x := by
  refine ⟨queue.takeWhile fun y => !decide (priority x ≤ priority y),
    queue.dropWhile fun y => !decide (priority x ≤ priority y), ?_, ?_, ?_⟩
  · exact List.takeWhile_append_dropWhile.symm
  · have hsort : queue.insertionSort (fun x y => priority x ≤ priority y) = queue :=
      sort_eq_self priority h
    simp only [enqueue, sort, insertAt, List.insertionSort_cons, hsort,
      List.orderedInsert_eq_take_drop, decide_not]
  · intro y hy
    have hlt := List.mem_takeWhile_imp hy
    simpa using hlt

end PriorityQueue
