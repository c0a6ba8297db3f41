/-
# The slot and the messages behind it

A host has one message in progress, under its tag, and with a timer if the message has a
timeout. When the answer has been taken the slot is free, and the waiting messages move on:
those in front that the host answers itself go through the slot one inside the other, so
that the last of them is done first, and the message behind them stays in it.
-/

import Amester.Ipmi.Queue

namespace Amester

open PriorityQueue

universe u

variable {κ : Type u}

namespace MessageQueue

/-- The slot is free, or it holds one message under its tag. A message has a timer unless
its timeout is 0. -/
def SingleSlot (q : MessageQueue κ) (tags : List String) : Prop :=
  q.inprogress = [] ∧ tags = [] ∨
    ∃ e, q.inprogress = [e] ∧ tags = [e.tag] ∧ (e.after = none ↔ e.timeout = 0)

namespace SingleSlot

variable {q : MessageQueue κ} {tags : List String}

/-- The queue does not matter. -/
theorem congr {q' : MessageQueue κ} {tags' : List String} (h : q.SingleSlot tags)
    (inprogress : q'.inprogress = q.inprogress) (same : tags' = tags) : q'.SingleSlot tags' := by
  rw [SingleSlot, inprogress, same]
  exact h

/-- The host finds the message in progress by its tag. -/
theorem lookup (h : q.SingleSlot tags) {e : InProgress κ} (inprogress : q.inprogress = [e]) :
    lookupTag (tags.headD "") q.inprogress = some e := by
  obtain ⟨hempty, -⟩ | ⟨e', htable, htags, -⟩ := h
  · rw [inprogress] at hempty
    exact absurd hempty (List.cons_ne_nil _ _)
  · rw [inprogress] at htable
    obtain rfl : e = e' := List.singleton_inj.mp htable
    simp [lookupTag, inprogress, htags]

/-- Whether it has a timer is said by its timeout. -/
theorem after_eq_none_iff (h : q.SingleSlot tags) {e : InProgress κ}
    (inprogress : q.inprogress = [e]) : e.after = none ↔ e.timeout = 0 := by
  obtain ⟨hempty, -⟩ | ⟨e', htable, -, hafter⟩ := h
  · rw [inprogress] at hempty
    exact absurd hempty (List.cons_ne_nil _ _)
  · rw [inprogress] at htable
    obtain rfl : e = e' := List.singleton_inj.mp htable
    exact hafter

theorem of_lookup (h : q.SingleSlot tags) {tag : String} {e : InProgress κ}
    (found : lookupTag tag q.inprogress = some e) : q.inprogress = [e] := by
  have hmem : e ∈ q.inprogress := List.mem_of_find?_eq_some found
  obtain ⟨hempty, -⟩ | ⟨e', htable, -⟩ := h
  · rw [hempty] at hmem
    exact absurd hmem List.not_mem_nil
  · rw [htable] at hmem
    rw [htable, List.mem_singleton.mp hmem]

theorem inprogress_eq_nil (h : q.SingleSlot tags) (free : tags = []) : q.inprogress = [] := by
  obtain ⟨hempty, -⟩ | ⟨e, -, htags, -⟩ := h
  · exact hempty
  · rw [free] at htags
    exact absurd htags.symm (List.cons_ne_nil _ _)

theorem tags_eq_nil (h : q.SingleSlot tags) (free : q.inprogress = []) : tags = [] := by
  obtain ⟨-, htags⟩ | ⟨e, htable, -⟩ := h
  · exact htags
  · rw [free] at htable
    exact absurd htable.symm (List.cons_ne_nil _ _)

/-- Clearing the entries of the message in progress frees the slot. -/
theorem remove (h : q.SingleSlot tags) {e : InProgress κ} (inprogress : q.inprogress = [e]) :
    q.remove e.tag = ⟨q.ipmiMsgq, []⟩ ∧ tags.drop 1 = [] := by
  obtain ⟨hempty, -⟩ | ⟨e', htable, htags, -⟩ := h
  · rw [inprogress] at hempty
    exact absurd hempty (List.cons_ne_nil _ _)
  · simp [MessageQueue.remove, unsetTag, inprogress, htags]

/-- A message that starts goes into the free slot. -/
theorem dispatch (h : q.SingleSlot tags) (free : q.inprogress = []) (item : Item κ)
    (nextAfter : ℕ) (rest : List (Item κ)) :
    (q.dispatch (item.entry nextAfter) rest).SingleSlot (tags ++ [item.tag]) := by
  rw [dispatch_of_free free, h.tags_eq_nil free, List.nil_append]
  refine Or.inr ⟨item.entry nextAfter, rfl, rfl, ?_⟩
  by_cases hzero : item.timeout = 0
  · simp [Item.entry, hzero]
  · simp [Item.entry, hzero]

end SingleSlot

end MessageQueue

/-! ## Moving on -/

/-- The messages whose callbacks run: those that have one. -/
def withCallback (items : List (Item κ)) : List (Item κ) :=
  items.filter fun item => item.callback.isSome

theorem withCallback_append (first second : List (Item κ)) :
    withCallback (first ++ second) = withCallback first ++ withCallback second :=
  List.filter_append first second

/-- The messages in front of `moving` that satisfy `spot` are answered, the last one first,
and after them `answered`; the message behind them is sent, if the outside takes it, and is
in progress; the others wait. -/
structure Moves (spot : Item κ → Bool) (taken : Bool) (moving answered : List (Item κ))
    (q q' : MessageQueue κ) (called sent : List (Item κ)) : Prop where
  slot : q'.inprogress.map InProgress.toItem = (moving.dropWhile spot).take 1
  waiting : q.ipmiMsgq =
    moving.takeWhile spot ++ (moving.dropWhile spot).take 1 ++ q'.ipmiMsgq
  called : called = withCallback ((moving.takeWhile spot).reverse ++ answered)
  sent : sent = if taken then (moving.dropWhile spot).take 1 else []

namespace Moves

variable {spot : Item κ → Bool} {taken : Bool} {q q₁ q' : MessageQueue κ}
variable {item : Item κ} {rest moving called sent : List (Item κ)}

/-- Nothing moves. -/
theorem none (free : q.inprogress = []) : Moves spot taken [] [] q q [] [] where
  slot := by
    rw [free]
    rfl
  waiting := rfl
  called := rfl
  sent := by
    rw [List.dropWhile_nil, List.take_nil, ite_self]

/-- The first message goes into the slot. -/
theorem send (hspot : spot item = false) (msgq : q.ipmiMsgq = item :: rest)
    (free : q.inprogress = []) (nextAfter : ℕ) :
    Moves spot taken (item :: rest) [] q (q.dispatch (item.entry nextAfter) rest) []
      (if taken then [item] else []) where
  slot := by
    rw [List.dropWhile_cons_of_neg (by simp [hspot]), MessageQueue.dispatch_of_free free]
    rfl
  waiting := by
    rw [List.takeWhile_cons_of_neg (by simp [hspot]),
      List.dropWhile_cons_of_neg (by simp [hspot]), msgq]
    rfl
  called := by
    rw [List.takeWhile_cons_of_neg (by simp [hspot])]
    rfl
  sent := by
    rw [List.dropWhile_cons_of_neg (by simp [hspot])]
    rfl

/-- The first message has gone through the slot and was answered after the others. -/
theorem onSpot (hspot : spot item = true) (msgq : q.ipmiMsgq = item :: q₁.ipmiMsgq)
    (h : Moves spot taken rest [item] q₁ q' called sent) :
    Moves spot taken (item :: rest) [] q q' called sent where
  slot := by
    rw [List.dropWhile_cons_of_pos hspot]
    exact h.slot
  waiting := by
    rw [List.takeWhile_cons_of_pos hspot, List.dropWhile_cons_of_pos hspot, msgq, h.waiting]
    rfl
  called := by
    rw [List.takeWhile_cons_of_pos hspot, h.called, List.reverse_cons, List.append_nil]
  sent := by
    rw [List.dropWhile_cons_of_pos hspot]
    exact h.sent

/-- The message that was in progress is answered, after the others have moved. -/
theorem answer (h : Moves spot taken moving [] q₁ q' called sent)
    (msgq : q₁.ipmiMsgq = q.ipmiMsgq) (item : Item κ) :
    Moves spot taken moving [item] q q' (called ++ withCallback [item]) sent where
  slot := h.slot
  waiting := by
    rw [← msgq]
    exact h.waiting
  called := by
    rw [h.called, ← withCallback_append, List.append_nil]
  sent := h.sent

end Moves

end Amester
