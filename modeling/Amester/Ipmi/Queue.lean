/-
# The books of a request queue

A host keeps its requests in a sorted queue and in the in-progress table, one
message at a time. Seen from outside only three places matter: a request waits,
is in progress, or has been answered. `Books` says that the accepted requests
are distributed over these places without loss and without copies, and that
every request that can still be sent has the form its host relies on.

The four things that happen to a request are one operation each, and each keeps
the books: it is accepted, dispatched, answered, or put back.
-/

import Amester.Ipmi.Request

namespace Amester

open PriorityQueue

universe u v

/-- The values of a connection's status. -/
inductive Status
  | disconnected
  | opening
  | connected
  | timeout
  | error
  | closed
  deriving DecidableEq, Repr

/-- Cancel the timers that the entries of a table have. -/
def cancelAll {ε : Type u} {τ : Type v} (after : ε → Option ℕ) (name : τ → ℕ) (table : List ε)
    (afters : List τ) : List τ :=
  afters.filter fun t => ∀ e ∈ table, after e ≠ some (name t)

theorem mem_cancelAll {ε : Type u} {τ : Type v} {after : ε → Option ℕ} {name : τ → ℕ}
    {table : List ε} {afters : List τ} {t : τ} :
    t ∈ cancelAll after name table afters ↔
      t ∈ afters ∧ ∀ e ∈ table, after e ≠ some (name t) := by
  rw [cancelAll, List.mem_filter, decide_eq_true_iff]

/-- The entry of a message that starts, with the next timer if it has a timeout. -/
def Item.entry {κ : Type u} (item : Item κ) (nextAfter : ℕ) : InProgress κ :=
  { item with after := if item.timeout ≠ 0 then some nextAfter else none }

/-- The queue and the in-progress table of a host. -/
structure MessageQueue (κ : Type u) where
  ipmiMsgq : List (Item κ) := []
  inprogress : List (InProgress κ) := []

namespace MessageQueue

variable {κ : Type u} (q : MessageQueue κ)

/-- Insert a message at one end of the queue and sort by priority. -/
def insertMessage (position : Position) (item : Item κ) : MessageQueue κ :=
  { q with ipmiMsgq := enqueue Item.priority position item q.ipmiMsgq }

/-- Enter a message into the table and leave the rest of the queue. -/
def dispatch (e : InProgress κ) (rest : List (Item κ)) : MessageQueue κ where
  ipmiMsgq := rest
  inprogress := q.inprogress ++ [e]

/-- Into an empty table. -/
theorem dispatch_of_free {q : MessageQueue κ} (inprogress : q.inprogress = []) (e : InProgress κ)
    (rest : List (Item κ)) : q.dispatch e rest = ⟨rest, [e]⟩ := by
  rw [dispatch, inprogress, List.nil_append]

/-- Remove a message from the table. -/
def remove (tag : String) : MessageQueue κ :=
  { q with inprogress := unsetTag tag q.inprogress }

/-- Where the accepted requests are: waiting, in progress, answered. -/
def places (answered : List (Item κ)) : List (Item κ) :=
  q.ipmiMsgq ++ q.inprogress.map InProgress.toItem ++ answered

/-- The queue with the message in progress, if there is one, put back. -/
def reposted (position : Position) : List (Item κ) :=
  match q.inprogress with
  | [] => q.ipmiMsgq
  | e :: _ => enqueue Item.priority position e.toItem q.ipmiMsgq

end MessageQueue

variable {κ : Type u}

/-- What a host with a single tag makes of a request with a timeout. -/
def Timed (item : Item κ) : Prop := item.tag = "0" ∧ 0 < item.timeout

/-- The accepted requests balance with the three places, at most one is in
progress, and those that are not answered yet are well-formed. -/
structure Books (WellFormed : Item κ → Prop) (accepted answered : List (Item κ))
    (q : MessageQueue κ) : Prop where
  conserved : accepted.Perm (q.places answered)
  single : q.inprogress = [] ∨ ∃ e, q.inprogress = [e]
  waiting : ∀ item ∈ q.ipmiMsgq, WellFormed item
  pending : ∀ e ∈ q.inprogress, WellFormed e.toItem
  sorted : Sorted Item.priority q.ipmiMsgq

namespace Books

variable {WellFormed : Item κ → Prop} {accepted answered : List (Item κ)}
variable {q : MessageQueue κ}

theorem empty (WellFormed : Item κ → Prop) : Books WellFormed [] [] {} where
  conserved := List.Perm.refl _
  single := Or.inl rfl
  waiting := nofun
  pending := nofun
  sorted := List.Pairwise.nil

/-- Accepting a request. -/
theorem insertMessage (h : Books WellFormed accepted answered q) {item : Item κ}
    (wellFormed : WellFormed item) (position : Position) :
    Books WellFormed (item :: accepted) answered (q.insertMessage position item) where
  conserved := by
    have hperm := enqueue_perm Item.priority position item q.ipmiMsgq
    refine (h.conserved.cons item).trans ?_
    simp only [MessageQueue.places, MessageQueue.insertMessage, List.append_assoc]
    exact (hperm.append_right _).symm
  single := h.single
  waiting other hother := by
    have hmem := (enqueue_perm Item.priority position item q.ipmiMsgq).subset hother
    obtain rfl | hmem := List.mem_cons.mp hmem
    · exact wellFormed
    · exact h.waiting other hmem
  pending := h.pending
  sorted := enqueue_sorted Item.priority position item q.ipmiMsgq

/-- The order of the answers does not matter. -/
theorem of_answered_perm {answered' : List (Item κ)}
    (h : Books WellFormed accepted answered q) (perm : answered.Perm answered') :
    Books WellFormed accepted answered' q :=
  { h with conserved := h.conserved.trans (perm.append_left _) }

/-- Moving the first waiting message into an empty table. -/
theorem dispatch (h : Books WellFormed accepted answered q) {e : InProgress κ}
    {rest : List (Item κ)} (msgq : q.ipmiMsgq = e.toItem :: rest)
    (empty : q.inprogress = []) : Books WellFormed accepted answered (q.dispatch e rest) where
  conserved := by
    refine h.conserved.trans ?_
    simp only [MessageQueue.places, MessageQueue.dispatch, msgq, empty, List.map_nil,
      List.append_nil, List.nil_append, List.map_cons, List.cons_append, List.append_assoc]
    exact List.perm_middle.symm
  single := Or.inr ⟨e, by simp [MessageQueue.dispatch, empty]⟩
  waiting item hitem := h.waiting item (by rw [msgq]; exact List.mem_cons_of_mem _ hitem)
  pending e' he' := by
    obtain rfl : e' = e := by simpa [MessageQueue.dispatch, empty] using he'
    exact h.waiting e'.toItem (by simp [msgq])
  sorted := by
    have hsorted := h.sorted
    rw [msgq] at hsorted
    exact hsorted.tail

theorem remove_eq (h : Books WellFormed accepted answered q) {e : InProgress κ}
    (mem : e ∈ q.inprogress) : q.inprogress = [e] ∧ q.remove e.tag = ⟨q.ipmiMsgq, []⟩ := by
  obtain hempty | ⟨e', htable⟩ := h.single
  · simp [hempty] at mem
  · obtain rfl : e = e' := by simpa [htable] using mem
    exact ⟨htable, by simp [MessageQueue.remove, unsetTag, htable]⟩

/-- Answering the message in progress. -/
theorem answer (h : Books WellFormed accepted answered q) {e : InProgress κ}
    (mem : e ∈ q.inprogress) :
    Books WellFormed accepted (answered ++ [e.toItem]) (q.remove e.tag) := by
  obtain ⟨htable, hremove⟩ := h.remove_eq mem
  rw [hremove]
  refine ⟨?_, Or.inl rfl, h.waiting, nofun, h.sorted⟩
  refine h.conserved.trans ?_
  simp only [MessageQueue.places, htable, List.map_cons, List.map_nil, List.append_nil,
    List.append_assoc]
  exact List.Perm.append_left _ (List.perm_append_singleton e.toItem answered).symm

/-- The queue after putting the message in progress back holds what was waiting
or in progress. -/
theorem reposted_perm (h : Books WellFormed accepted answered q) (position : Position) :
    (q.reposted position).Perm (q.ipmiMsgq ++ q.inprogress.map InProgress.toItem) := by
  obtain hempty | ⟨e, htable⟩ := h.single
  · simp [MessageQueue.reposted, hempty]
  · simp only [MessageQueue.reposted, htable, List.map_cons, List.map_nil]
    exact (enqueue_perm Item.priority position e.toItem q.ipmiMsgq).trans
      (List.perm_append_singleton e.toItem q.ipmiMsgq).symm

/-- Putting the message in progress back on the queue. -/
theorem repost (h : Books WellFormed accepted answered q) (position : Position) :
    Books WellFormed accepted answered ⟨q.reposted position, []⟩ where
  conserved := by
    refine h.conserved.trans ?_
    simp only [MessageQueue.places, List.map_nil, List.append_nil]
    exact (h.reposted_perm position).symm.append_right _
  single := Or.inl rfl
  waiting item hitem := by
    obtain hwaiting | hpending :=
      List.mem_append.mp ((h.reposted_perm position).subset hitem)
    · exact h.waiting item hwaiting
    · obtain ⟨e, he, rfl⟩ := List.mem_map.mp hpending
      exact h.pending e he
  pending := nofun
  sorted := by
    simp only [MessageQueue.reposted]
    split
    · exact h.sorted
    · exact enqueue_sorted Item.priority position _ q.ipmiMsgq

/-- The places account for all accepted requests. -/
theorem length_places (h : Books WellFormed accepted answered q) :
    (q.places answered).length = accepted.length :=
  h.conserved.length_eq.symm

/-- Different requests are in one place once. -/
theorem nodup (h : Books WellFormed accepted answered q) (distinct : accepted.Nodup) :
    (q.places answered).Nodup :=
  h.conserved.nodup_iff.mp distinct

/-- A message put back at the front stands before the messages of its priority
and behind the more urgent ones only. -/
theorem reposted_front (h : Books WellFormed accepted answered q) {e : InProgress κ}
    (mem : e ∈ q.inprogress) :
    ∃ before after, q.ipmiMsgq = before ++ after ∧
      q.reposted .front = before ++ e.toItem :: after ∧
      ∀ item ∈ before, item.priority < e.priority := by
  obtain ⟨before, after, hsplit, hfront, hurgent⟩ :=
    enqueue_front_of_sorted Item.priority h.sorted e.toItem
  refine ⟨before, after, hsplit, ?_, hurgent⟩
  rw [MessageQueue.reposted, (h.remove_eq mem).1]
  exact hfront

end Books

end Amester
