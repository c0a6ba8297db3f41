/-
# Callbacks that wait, on all host types

A callback may queue a request and wait for its answer. That answer can only
come if the message whose callback it is does not keep the slot: on netc and
openpower a message leaves the slot before the next one is sent and before its
callback runs, on localhost and emtagent only after the callback has returned.
There a waiting callback waits for ever, because nothing is handed on while its
own message, which is answered, is in the slot.

On emtagent the network can be off when a message is handed over, or when its
result comes. The one or the other is dropped then, and the message keeps the
slot.
-/

import Amester.LocalHost.RetryOrder
import Amester.Netc.Callbacks

namespace Amester.Callbacks

open BinaryFormat PriorityQueue EventMachine
open OpenPower (Text Interp)

universe u

variable {κ : Type u}

/-! ## openpower -/

section OpenPower

open OpenPower

/-- The message whose result the worker was asked for, if the effect is that. -/
def dispatched? : Effect κ → Option (Item κ)
  | .dispatched item => some item
  | .answered _ _ _ => none

/-- The messages handed to the worker by a command, in order. -/
def dispatchedSince (s t : State κ) : List (Item κ) :=
  (t.effects.drop s.effects.length).filterMap dispatched?

/-- The messages whose callbacks a command runs. -/
def callbacksSince (s t : State κ) : List (Item κ) :=
  ((t.effects.drop s.effects.length).filterMap Effect.answered?).filter fun item =>
    item.callback.isSome

/-- A session with the messages that the worker has and that have no result yet,
oldest first. The worker may lose a message; it is owed then for ever. -/
structure OpenPowerWorld (κ : Type u) where
  session : State κ := {}
  owed : List (Item κ) := []

/-- What the event loop, or a callback, can call next. -/
inductive OpenPowerEvent (κ : Type u)
  | ipmiQueue (r : Request κ)
  /-- The worker sends the result of the oldest message it has. -/
  | ipmiProcess (result : Text)
  | ipmiHealth
  | network (on : Bool)
  | configure (timeout : ℤ)

/-- The world after a command, with what it handed to the worker. -/
def OpenPowerWorld.after (w : OpenPowerWorld κ) (t : State κ) : OpenPowerWorld κ :=
  ⟨t, w.owed ++ dispatchedSince w.session t⟩

/-- A handler up to the callback it runs. Nothing but statistics follows one. -/
def openpowerHandle (interp : Interp) (w : OpenPowerWorld κ) :
    OpenPowerEvent κ → OpenPowerWorld κ × Option (Item κ)
  | .ipmiQueue r => (w.after (ipmiQueue r .back w.session), none)
  | .ipmiProcess result =>
    match w.owed with
    | [] => (w, none)
    | item :: owed =>
      let t := (ipmiProcess interp item.tag result w.session).state
      (OpenPowerWorld.after { w with owed := owed } t, (callbacksSince w.session t).head?)
  | .ipmiHealth => (w.after (ipmiHealth w.session), none)
  | .network on => ({ w with session := { w.session with network := on } }, none)
  | .configure timeout => ({ w with session := { w.session with timeout := timeout } }, none)

/-- A result comes for a message that the worker has. -/
def openpowerAdmissible (w : OpenPowerWorld κ) : OpenPowerEvent κ → Prop
  | .ipmiProcess _ => w.owed ≠ []
  | .ipmiQueue _ | .ipmiHealth | .network _ | .configure _ => True

instance (w : OpenPowerWorld κ) : DecidablePred (openpowerAdmissible w)
  | .ipmiProcess _ => inferInstanceAs (Decidable (w.owed ≠ []))
  | .ipmiQueue _ | .ipmiHealth | .network _ | .configure _ => isTrue trivial

/-- The session as an event loop whose callbacks may wait. -/
def openpowerReentrant (interp : Interp) (κ : Type u) :
    Reentrant (OpenPowerWorld κ) (OpenPowerEvent κ) (Item κ) where
  admissible := openpowerAdmissible
  handle := openpowerHandle interp
  resume _ w := (w, none)

instance (interp : Interp) (w : OpenPowerWorld κ) :
    DecidablePred ((openpowerReentrant interp κ).admissible w) :=
  inferInstanceAs (DecidablePred (openpowerAdmissible w))

/-- Requests are served: the message in the slot has been handed to the worker
and has no result, and while the network is on nothing else keeps a waiting
request from being sent. -/
structure OpenPowerServed (w : OpenPowerWorld κ) : Prop where
  slot : ∀ e ∈ w.session.inprogress, e.toItem ∈ w.owed
  blocked : w.session.network = true → w.session.ipmiMsgq ≠ [] →
    (ipmiDequeue w.session).ipmiMsgq.length < w.session.ipmiMsgq.length ∨
      ∃ e ∈ w.session.inprogress, e.toItem ∈ w.owed

/-- All messages carry the name of the object, and just the one in the slot is
owed. -/
structure OpenPowerKept (w : OpenPowerWorld κ) : Prop where
  waiting : ∀ item ∈ w.session.ipmiMsgq, item.tag = w.session.name
  tagged : ∀ e ∈ w.session.inprogress, e.tag = w.session.name
  single : w.session.inprogress = [] ∨ ∃ e, w.session.inprogress = [e]
  owed : w.owed = w.session.inprogress.map InProgress.toItem

theorem OpenPowerKept.busy {w : OpenPowerWorld κ} (h : OpenPowerKept w) {item : Item κ}
    {owed : List (Item κ)} (howed : w.owed = item :: owed) :
    ∃ e, w.session.inprogress = [e] ∧ e.toItem = item ∧ owed = [] := by
  have hmap := h.owed
  rw [howed] at hmap
  obtain hempty | ⟨e, htable⟩ := h.single
  · simp [hempty] at hmap
  · rw [htable, List.map_singleton, List.cons.injEq] at hmap
    exact ⟨e, htable, hmap.1.symm, hmap.2⟩

/-- An answer hands nothing over. -/
theorem dispatchedSince_emit (s t : State κ) (item : Item κ) (status : Text)
    (databytes : Bytes) :
    dispatchedSince s (t.emit (.answered item status databytes)) = dispatchedSince s t := by
  have hlast : ∀ n : ℕ, (([Effect.answered item status databytes] : List (Effect κ)).drop
      n).filterMap dispatched? = [] := by
    intro n
    cases n with
    | zero => rfl
    | succ n => simp
  simp only [dispatchedSince, State.emit, List.drop_append, List.filterMap_append, hlast,
    List.append_nil]

/-- A dequeue hands over what it puts into the slot. -/
theorem ipmiDequeue_kept {s t : State κ} {owed : List (Item κ)} (h : OpenPowerKept ⟨t, owed⟩)
    (effects : t.effects = s.effects) :
    OpenPowerKept ⟨ipmiDequeue t, owed ++ dispatchedSince s (ipmiDequeue t)⟩ := by
  have hnone : dispatchedSince s t = [] := by simp [dispatchedSince, effects]
  unfold ipmiDequeue
  split
  · rw [hnone, List.append_nil]
    exact h
  · split
    · rw [hnone, List.append_nil]
      exact h
    · rename_i item rest hmsgq
      split
      · rw [hnone, List.append_nil]
        exact h
      · rename_i hlookup
        have hitem : item.tag = t.name := h.waiting item (by simp [hmsgq])
        have hfree : t.inprogress = [] := by
          obtain hempty | ⟨e, htable⟩ := h.single
          · exact hempty
          · simp only at htable
            have htag : e.tag = t.name := h.tagged e (by simp [htable])
            simp [lookupTag, htable, htag, hitem] at hlookup
        have htable : (t.sendToWorker item rest).inprogress =
            [({ item with after := none } : InProgress κ)] := by
          show t.inprogress ++ [({ item with after := none } : InProgress κ)] = _
          rw [hfree, List.nil_append]
        have hhanded : dispatchedSince s (t.sendToWorker item rest) = [item] := by
          have hlog : (t.sendToWorker item rest).effects = s.effects ++ [.dispatched item] := by
            rw [← effects]
            rfl
          rw [dispatchedSince, hlog, List.drop_left]
          rfl
        have howed : owed = [] := by
          have hmap := h.owed
          simpa [hfree] using hmap
        refine ⟨?_, ?_, Or.inr ⟨_, htable⟩, ?_⟩
        · intro other hother
          have hwaiting := h.waiting other
          simp only [hmsgq] at hwaiting
          exact hwaiting (List.mem_cons_of_mem _ hother)
        · show ∀ e ∈ (t.sendToWorker item rest).inprogress, e.tag = t.name
          rw [htable]
          intro e he
          rw [List.mem_singleton] at he
          rw [he]
          exact hitem
        · show owed ++ dispatchedSince s (t.sendToWorker item rest) = _
          rw [htable, hhanded, howed]
          rfl

theorem ipmiQueue_kept {s t : State κ} {owed : List (Item κ)} (h : OpenPowerKept ⟨t, owed⟩)
    (effects : t.effects = s.effects) (r : Request κ) :
    OpenPowerKept ⟨ipmiQueue r .back t, owed ++ dispatchedSince s (ipmiQueue r .back t)⟩ := by
  have hqueued : OpenPowerKept ⟨t.enqueueMessage .back (r.item t.name t.timeout), owed⟩ := by
    refine ⟨?_, h.tagged, h.single, h.owed⟩
    intro item hitem
    have hmem := (enqueue_perm Item.priority .back _ t.ipmiMsgq).subset hitem
    obtain rfl | hmem := List.mem_cons.mp hmem
    · rfl
    · exact h.waiting item hmem
  unfold ipmiQueue
  split
  · exact ipmiDequeue_kept hqueued effects
  · have hnone : dispatchedSince s (t.enqueueMessage .back (r.item t.name t.timeout)) = [] := by
      have hlog : (t.enqueueMessage .back (r.item t.name t.timeout)).effects = s.effects := effects
      simp [dispatchedSince, hlog]
    rw [hnone, List.append_nil]
    exact hqueued

/-- Every handler keeps the slot and the worker in step, up to its callback. -/
theorem openpowerHandle_kept (interp : Interp) (w : OpenPowerWorld κ)
    (event : OpenPowerEvent κ) (h : OpenPowerKept w) :
    OpenPowerKept (openpowerHandle interp w event).1 := by
  cases event with
  | ipmiQueue r => exact ipmiQueue_kept h rfl r
  | ipmiHealth => exact ipmiDequeue_kept h rfl
  | network on => exact ⟨h.waiting, h.tagged, h.single, h.owed⟩
  | configure timeout => exact ⟨h.waiting, h.tagged, h.single, h.owed⟩
  | ipmiProcess result =>
      unfold openpowerHandle
      simp only
      split
      · exact h
      · rename_i item owed howed
        obtain ⟨e, htable, rfl, rfl⟩ := h.busy howed
        have hlookup : lookupTag e.tag w.session.inprogress = some e := by
          simp [lookupTag, htable]
        have hfree : (w.session.unsetInprogress e.tag).inprogress = [] := by
          show unsetTag e.tag w.session.inprogress = []
          simp [unsetTag, htable]
        have hfreed : OpenPowerKept ⟨w.session.unsetInprogress e.tag, []⟩ :=
          ⟨h.waiting, by simp [hfree], Or.inl hfree, by rw [hfree]; rfl⟩
        simp only [OpenPowerWorld.after]
        unfold ipmiProcess
        rw [hlookup]
        simp only
        split
        · exact ipmiQueue_kept hfreed rfl e.repost
        · have hnext := ipmiDequeue_kept (s := w.session) hfreed rfl
          split
          · rw [Outcome.ok_state, dispatchedSince_emit]
            exact ⟨hnext.waiting, hnext.tagged, hnext.single, hnext.owed⟩
          · exact hnext

theorem OpenPowerKept.served {w : OpenPowerWorld κ} (h : OpenPowerKept w) :
    OpenPowerServed w := by
  have hslot : ∀ e ∈ w.session.inprogress, e.toItem ∈ w.owed := by
    intro e he
    rw [h.owed]
    exact List.mem_map_of_mem he
  refine ⟨hslot, ?_⟩
  intro network waiting
  obtain hempty | ⟨e, htable⟩ := h.single
  · left
    unfold ipmiDequeue
    cases hmsgq : w.session.ipmiMsgq with
    | nil => exact absurd hmsgq waiting
    | cons item rest =>
        have hlookup : ¬(lookupTag item.tag w.session.inprogress).isSome := by
          simp [lookupTag, hempty]
        rw [if_neg (by simp [network])]
        simp only [if_neg hlookup]
        exact Nat.lt_succ_self _
  · right
    have hmem : e ∈ w.session.inprogress := by simp [htable]
    exact ⟨e, hmem, hslot e hmem⟩

/-- In every state of every run, whatever callbacks have not returned, a waiting
request is held up only by one that the worker has. -/
theorem openpower_served (interp : Interp) {s : State κ} (fresh : s.Fresh)
    {happenings : List (Happening (OpenPowerEvent κ))}
    (admits : (openpowerReentrant interp κ).machine.Admits ⟨⟨s, []⟩, []⟩ happenings) :
    (openpowerReentrant interp κ).machine.Always (fun w => OpenPowerServed w.state)
      ⟨⟨s, []⟩, []⟩ happenings := by
  have hstart : OpenPowerKept (⟨s, []⟩ : OpenPowerWorld κ) := by
    refine ⟨?_, ?_, Or.inl ?_, ?_⟩ <;> simp [fresh.queue]
  have each : (openpowerReentrant interp κ).machine.EachStep
      (Reentrant.Meets fun _ _ => True) ⟨⟨s, []⟩, []⟩ happenings := by
    refine Machine.EachStep.mono ?_ admits
    rintro w (event | _) _
    · trivial
    · trivial
  have hkept := (openpowerReentrant interp κ).always_of_invariant (I := OpenPowerKept)
    (fun w event h _ _ => openpowerHandle_kept interp w event h) (fun _ _ h => h) hstart admits
    each
  exact hkept.mono fun _ h => h.served

end OpenPower

/-! ## localhost and emtagent -/

section LocalHost

open LocalHost

/-- Requests are served: the message in the slot has been handed over and has no
result, and nothing else keeps a waiting request from being handed over while
messages pass. -/
structure LocalServed (c : HostClass) (s : State κ) : Prop where
  slot : ∀ e ∈ s.inprogress, e.toItem ∈ s.owed
  blocked : s.passes c → s.ipmiMsgq ≠ [] →
    (ipmiDequeue c s).ipmiMsgq.length < s.ipmiMsgq.length ∨
      ∃ e ∈ s.inprogress, e.toItem ∈ s.owed

/-- The condition: a result comes only while it passes, and it is empty, or it
can be read and its message has no callback; and nothing is queued on a host
without requests, and no waiting request is due while the slot is free, as long
as messages do not pass. -/
def Serves (c : HostClass) (w : World κ) : Event κ → Prop
  | .ipmiProcess result =>
    w.session.passes c ∧ (result = [] ∨
      (c.decode result).isSome ∧ ∀ item ∈ w.session.owed.head?, item.callback = none)
  | .ipmiQueue _ =>
    w.session.passes c ∨ w.session.inprogress ≠ [] ∨ w.session.ipmiMsgq ≠ []
  | .ipmiHealth => w.session.passes c ∨ w.session.inprogress ≠ [] ∨ w.session.ipmiMsgq = []
  | .network _ => True

instance (c : HostClass) (w : World κ) : DecidablePred (Serves c w)
  | .ipmiProcess result => inferInstanceAs (Decidable (w.session.passes c ∧ (result = [] ∨
      (c.decode result).isSome ∧ ∀ item ∈ w.session.owed.head?, item.callback = none)))
  | .ipmiQueue _ => inferInstanceAs (Decidable
      (w.session.passes c ∨ w.session.inprogress ≠ [] ∨ w.session.ipmiMsgq ≠ []))
  | .ipmiHealth => inferInstanceAs (Decidable
      (w.session.passes c ∨ w.session.inprogress ≠ [] ∨ w.session.ipmiMsgq = []))
  | .network _ => isTrue trivial

/-- Just the message in the slot is owed. -/
structure LocalKept (s : State κ) : Prop extends Named s where
  owed : s.owed = s.inprogress.map InProgress.toItem

theorem LocalKept.sortQueue {s : State κ} (h : LocalKept s) : LocalKept s.sortQueue :=
  ⟨h.toNamed.sortQueue, h.owed⟩

/-- A dequeue keeps the invariant, unless it hands over what does not pass. -/
theorem LocalKept.ipmiDequeue {c : HostClass} {s : State κ} (h : LocalKept s)
    (passes : s.passes c ∨ s.inprogress ≠ [] ∨ s.ipmiMsgq = []) :
    LocalKept (ipmiDequeue c s) := by
  obtain hfree | ⟨e, hbusy⟩ := h.single
  · obtain ⟨-, hsame⟩ | ⟨item, rest, hsorted, hnext⟩ := ipmiDequeue_of_free c hfree
    · rw [hsame]
      exact h
    · have htable := handOver_inprogress c s item rest hfree
      have howed : s.owed = [] := by rw [h.owed, hfree, List.map_nil]
      have hmore : s.ipmiMsgq ≠ [] := by
        intro hempty
        have hlength := (sort_perm Item.priority s.ipmiMsgq).length_eq
        have hsame : sort Item.priority s.ipmiMsgq = item :: rest := hsorted
        rw [hsame, hempty] at hlength
        exact absurd hlength (Nat.succ_ne_zero _)
      have hpasses : s.sortQueue.passes c :=
        passes.resolve_right fun hother => hother.elim (absurd hfree) hmore
      rw [hnext]
      refine ⟨h.toNamed.handOver c hfree hsorted, ?_⟩
      rw [htable, handOver_owed, if_pos hpasses]
      show s.owed ++ [item] = _
      rw [howed]
      rfl
  · rw [ipmiDequeue_of_busy c h.toNamed hbusy]
    exact h.sortQueue

theorem LocalKept.ipmiQueue {c : HostClass} {s : State κ} (h : LocalKept s) (r : Request κ)
    (passes : s.passes c ∨ s.inprogress ≠ [] ∨ s.ipmiMsgq ≠ []) :
    LocalKept (ipmiQueue c r .back s) := by
  have hqueued : LocalKept (s.enqueueMessage .back (r.item s.name 10000)) :=
    ⟨h.toNamed.enqueueMessage .back rfl, h.owed⟩
  unfold LocalHost.ipmiQueue
  split
  · rename_i hlength
    have hempty : s.ipmiMsgq = [] := by
      have happended : (s.ipmiMsgq ++ [r.item s.name 10000]).length = 1 := hlength
      rw [List.length_append, List.length_singleton] at happended
      exact List.length_eq_zero_iff.mp (by omega)
    refine hqueued.ipmiDequeue ?_
    obtain hpasses | hbusy | hmore := passes
    · exact .inl hpasses
    · exact .inr (.inl hbusy)
    · exact absurd hempty hmore
  · exact hqueued

theorem LocalKept.served {c : HostClass} {s : State κ} (h : LocalKept s) : LocalServed c s := by
  have hslot : ∀ e ∈ s.inprogress, e.toItem ∈ s.owed := by
    intro e he
    rw [h.owed]
    exact List.mem_map_of_mem he
  refine ⟨hslot, ?_⟩
  intro _ waiting
  obtain hfree | ⟨e, hbusy⟩ := h.single
  · left
    obtain ⟨hempty, -⟩ | ⟨item, rest, hsorted, hnext⟩ := ipmiDequeue_of_free c hfree
    · exact absurd hempty waiting
    · have hlength := (sort_perm Item.priority s.ipmiMsgq).length_eq
      have hsame : sort Item.priority s.ipmiMsgq = item :: rest := hsorted
      rw [hsame, List.length_cons] at hlength
      rw [hnext, handOver_ipmiMsgq]
      omega
  · right
    have hmem : e ∈ s.inprogress := by simp [hbusy]
    exact ⟨e, hmem, hslot e hmem⟩

/-- A message that is in the slot and not owed is not served. -/
theorem not_served_of_slot {c : HostClass} {s : State κ} {e : InProgress κ}
    (busy : s.inprogress = [e]) (owed : s.owed = []) : ¬LocalServed c s := by
  intro hserved
  have hmem := hserved.slot e (by simp [busy])
  simp [owed] at hmem

/-- A dequeue hands the first waiting message over in vain if it does not pass. -/
theorem ipmiDequeue_not_served {c : HostClass} {s : State κ} (owed : s.owed = [])
    (blocked : ¬(s.passes c ∨ s.inprogress ≠ [] ∨ s.ipmiMsgq = [])) :
    ¬LocalServed c (ipmiDequeue c s) := by
  obtain ⟨hpasses, hbusy, hmore⟩ : ¬s.passes c ∧ ¬s.inprogress ≠ [] ∧ ¬s.ipmiMsgq = [] := by
    simpa only [not_or] using blocked
  have hfree : s.inprogress = [] := not_not.mp hbusy
  obtain ⟨hempty, -⟩ | ⟨item, rest, hsorted, hnext⟩ := ipmiDequeue_of_free c hfree
  · exact absurd hempty hmore
  · rw [hnext]
    refine not_served_of_slot (handOver_inprogress c s item rest hfree) ?_
    have hsorted : ¬s.sortQueue.passes c := hpasses
    rw [handOver_owed, if_neg hsorted]
    exact owed

/-- So does a request that is put on an empty queue. -/
theorem ipmiQueue_not_served {c : HostClass} {s : State κ} (owed : s.owed = []) (r : Request κ)
    (blocked : ¬(s.passes c ∨ s.inprogress ≠ [] ∨ s.ipmiMsgq ≠ [])) :
    ¬LocalServed c (ipmiQueue c r .back s) := by
  obtain ⟨hpasses, hbusy, hempty⟩ : ¬s.passes c ∧ ¬s.inprogress ≠ [] ∧ ¬s.ipmiMsgq ≠ [] := by
    simpa only [not_or] using blocked
  have hqueue : (s.enqueueMessage .back (r.item s.name 10000)).ipmiMsgq =
      [r.item s.name 10000] := by
    show s.ipmiMsgq ++ [r.item s.name 10000] = _
    rw [not_not.mp hempty, List.nil_append]
  unfold LocalHost.ipmiQueue
  rw [if_pos (by rw [hqueue]; rfl)]
  refine ipmiDequeue_not_served (s := s.enqueueMessage .back (r.item s.name 10000)) owed ?_
  rintro (h | h | h)
  · exact hpasses h
  · exact hbusy h
  · rw [hqueue] at h
    exact absurd h (List.cons_ne_nil _ _)

/-- What a result for the message in the slot leaves: it serves the requests just
when the result passes and runs no callback. -/
theorem receive_served_iff (c : HostClass) {s : State κ} {e : InProgress κ}
    (h : Named s) (busy : s.inprogress = [e]) (owed : s.owed = []) (result : Text) :
    (LocalServed c (receive c e.tag result s).1.state ↔
        s.passes c ∧ (result = [] ∨ (c.decode result).isSome ∧ e.callback = none)) ∧
      (s.passes c ∧ (result = [] ∨ (c.decode result).isSome ∧ e.callback = none) →
        LocalKept (receive c e.tag result s).1.state ∧
          (receive c e.tag result s).2 = none) := by
  have hlookup : lookupTag e.tag s.inprogress = some e := by simp [lookupTag, busy]
  have hfree := unsetInprogress_of_single busy
  by_cases hpasses : s.passes c
  swap
  · rw [receive, if_neg hpasses]
    simp only [hpasses, false_and, iff_false, false_implies, and_true]
    exact not_served_of_slot busy owed
  rw [receive, if_pos hpasses]
  simp only [hpasses, true_and]
  by_cases hempty : result = []
  · have hunset : LocalKept (s.unsetInprogress e.tag) :=
      ⟨⟨h.waiting, by simp [hfree], Or.inl hfree⟩, by rw [hfree]; exact owed⟩
    have hprocess : ipmiProcess c e.tag result s =
        (.ok (ipmiQueue c (repost e) .back (s.unsetInprogress e.tag)), none) := by
      rw [ipmiProcess, if_pos hempty, hlookup]
    rw [hprocess]
    have hkept := hunset.ipmiQueue (c := c) (repost e) (.inl hpasses)
    exact ⟨iff_of_true hkept.served (Or.inl hempty), fun _ => ⟨hkept, rfl⟩⟩
  · cases hdecode : c.decode result with
    | none =>
        have hprocess : ipmiProcess c e.tag result s =
            (.raise s "result cannot be read", none) := by
          rw [ipmiProcess, if_neg hempty, hdecode]
        rw [hprocess]
        simp only [hempty, Option.isSome_none, Bool.false_eq_true, false_and, or_self,
          iff_false, false_implies, and_true]
        exact not_served_of_slot busy owed
    | some read =>
        obtain ⟨status, databytes⟩ := read
        cases hcallback : e.callback with
        | none =>
            have hprocess : ipmiProcess c e.tag result s =
                (.ok (finish c e.tag (s.emit (.answered e.toItem status databytes))), none) := by
              rw [ipmiProcess, if_neg hempty, hdecode]
              simp only [hlookup, hcallback]
            have hunset : LocalKept
                ((s.emit (.answered e.toItem status databytes)).unsetInprogress e.tag) :=
              ⟨⟨h.waiting, by simp [unsetInprogress_of_single (s := s.emit _) busy],
                Or.inl (unsetInprogress_of_single (s := s.emit _) busy)⟩, by
                  rw [unsetInprogress_of_single (s := s.emit _) busy]
                  exact owed⟩
            rw [hprocess]
            have hkept : LocalKept
                (finish c e.tag (s.emit (.answered e.toItem status databytes))) :=
              hunset.ipmiDequeue (.inl hpasses)
            exact ⟨iff_of_true hkept.served (Or.inr ⟨rfl, rfl⟩), fun _ => ⟨hkept, rfl⟩⟩
        | some callback =>
            have hprocess : ipmiProcess c e.tag result s =
                (.ok (s.emit (.answered e.toItem status databytes)), some ⟨e.tag, e.toItem⟩) := by
              rw [ipmiProcess, if_neg hempty, hdecode]
              simp only [hlookup, hcallback]
            rw [hprocess]
            simp only [hempty, reduceCtorEq, and_false, or_self, iff_false, false_implies,
              and_true]
            exact not_served_of_slot (s := s.emit _) busy owed

/-- The invariant of the runs without callbacks. -/
structure Idle (w : Suspended (World κ) (Frame κ)) : Prop where
  kept : LocalKept w.state.session
  stack : w.stack = []

/-- With the slot free nothing is owed. -/
theorem LocalKept.owed_of_free {s : State κ} (h : LocalKept s) (free : ¬s.inprogress ≠ []) :
    s.owed = [] := by
  rw [h.owed, not_not.mp free]
  rfl

/-- One step: requests are served after it just when it meets the condition, and
then the invariant stays. -/
theorem localStep_iff (c : HostClass) (w : Suspended (World κ) (Frame κ))
    (h : Happening (Event κ)) (idle : Idle w) (admits : (reentrant c κ).Admissible w h) :
    (LocalServed c ((reentrant c κ).step w h).state.session ↔
        Reentrant.Meets (Serves c) w h) ∧
      (Reentrant.Meets (Serves c) w h → Idle ((reentrant c κ).step w h)) := by
  obtain ⟨⟨s, accepted⟩, stack⟩ := w
  obtain ⟨hkept, hstack⟩ := idle
  simp only at hkept hstack
  subst hstack
  cases h with
  | returns => exact absurd rfl admits
  | occurs event =>
      cases event with
      | ipmiQueue r =>
          have hnext : (s.passes c ∨ s.inprogress ≠ [] ∨ s.ipmiMsgq ≠ []) →
              LocalKept (ipmiQueue c r .back s) := hkept.ipmiQueue r
          refine ⟨⟨fun hserved => ?_, fun meets => (hnext meets).served⟩,
            fun meets => ⟨hnext meets, rfl⟩⟩
          by_contra hblocked
          have hfree : ¬s.inprogress ≠ [] := fun hbusy => hblocked (.inr (.inl hbusy))
          exact ipmiQueue_not_served (hkept.owed_of_free hfree) r hblocked hserved
      | ipmiHealth =>
          have hnext : (s.passes c ∨ s.inprogress ≠ [] ∨ s.ipmiMsgq = []) →
              LocalKept (ipmiHealth c s) := hkept.ipmiDequeue
          refine ⟨⟨fun hserved => ?_, fun meets => (hnext meets).served⟩,
            fun meets => ⟨hnext meets, rfl⟩⟩
          by_contra hblocked
          have hfree : ¬s.inprogress ≠ [] := fun hbusy => hblocked (.inr (.inl hbusy))
          exact ipmiDequeue_not_served (hkept.owed_of_free hfree) hblocked hserved
      | network on =>
          have hnext : LocalKept { s with network := on } :=
            ⟨⟨hkept.waiting, hkept.tagged, hkept.single⟩, hkept.owed⟩
          exact ⟨iff_of_true hnext.served trivial, fun _ => ⟨hnext, rfl⟩⟩
      | ipmiProcess result =>
          obtain hfree | ⟨e, hbusy⟩ := hkept.single
          · exact absurd (by rw [hkept.owed, hfree]; rfl) admits
          · have howed : s.owed = [e.toItem] := by rw [hkept.owed, hbusy]; rfl
            have hdelivered : Named { s with owed := [] } :=
              ⟨hkept.waiting, hkept.tagged, hkept.single⟩
            obtain ⟨hserved, hnext⟩ := receive_served_iff c hdelivered hbusy rfl result
            have hcondition : Reentrant.Meets (Serves c)
                (⟨⟨s, accepted⟩, []⟩ : Suspended (World κ) (Frame κ))
                (.occurs (.ipmiProcess result)) ↔ s.passes c ∧
                  (result = [] ∨ (c.decode result).isSome ∧ e.callback = none) := by
              simp [Reentrant.Meets, Serves, howed]
            have hstep : (reentrant c κ).step ⟨⟨s, accepted⟩, []⟩
                (.occurs (.ipmiProcess result)) =
                  ⟨⟨(receive c e.tag result { s with owed := [] }).1.state, accepted⟩,
                    (receive c e.tag result { s with owed := [] }).2.toList⟩ := by
              show Reentrant.push (handle c ⟨s, accepted⟩ (.ipmiProcess result)) [] = _
              simp only [handle, howed, Reentrant.push, List.append_nil]
            rw [hcondition, hstep]
            refine ⟨hserved, ?_⟩
            intro hquiet
            obtain ⟨hlast, hnone⟩ := hnext hquiet
            exact ⟨hlast, by simp [hnone]⟩

/-- Requests are served in every state of a run just when every step meets the
condition. -/
theorem local_served_iff (c : HostClass) {s : State κ} (fresh : Fresh s)
    {happenings : List (Happening (Event κ))}
    (admits : (reentrant c κ).machine.Admits ⟨⟨s, []⟩, []⟩ happenings) :
    (reentrant c κ).machine.Always (fun w => LocalServed c w.state.session) ⟨⟨s, []⟩, []⟩
        happenings ↔
      (reentrant c κ).machine.EachStep (Reentrant.Meets (Serves c)) ⟨⟨s, []⟩, []⟩
        happenings := by
  have hstart : Idle (⟨⟨s, []⟩, []⟩ : Suspended (World κ) (Frame κ)) := by
    have hqueue : s.ipmiMsgq = [] ∧ s.inprogress = [] := by simp [fresh.queue]
    refine ⟨⟨⟨?_, ?_, Or.inl hqueue.2⟩, ?_⟩, rfl⟩
    · simp [hqueue.1]
    · simp [hqueue.2]
    · rw [fresh.owed, hqueue.2]
      rfl
  rw [Machine.always_iff_eachStep]
  have hsteps := (reentrant c κ).machine.eachStep_iff_of_invariant
    (C := Reentrant.Meets (Serves c))
    (Q := fun w h => LocalServed c ((reentrant c κ).step w h).state.session)
    (fun w h (idle : Idle w) admits meets => (localStep_iff c w h idle admits).2 meets)
    (fun w h idle admits => (localStep_iff c w h idle admits).1) hstart admits
  exact ⟨fun h => hsteps.mp h.2, fun h => ⟨hstart.kept.served, hsteps.mpr h⟩⟩

end LocalHost

/-! ## All host types -/

/-- A request, a response, a request from the callback of the first, and the
return of that callback, on a netc session. -/
def netcCallbackRun : List (Happening (Netc.Event ℕ)) :=
  let message (function ncop : List Digit) (ncdata : Bytes) : Netc.NetcPacket :=
    ⟨[], [], 0, [], function, [], 0, [], ncop, [0, 0, 0, 0], ncdata⟩
  [.occurs (.netcOpen (.established 7)),
    .occurs (.netcProcess (message [0, 0, 0, 7] [0, 0, 0, 2] (.replicate 28 0)) .socketFailed),
    .occurs (.netcProcess (message [0, 0, 0, 7] [7, 4, 1, 2] [0]) .socketFailed),
    .occurs (.ipmiQueue (RetryOrder.sampleRequest 1 1)),
    .occurs (.netcProcess (message [0, 0, 0, 5] [9, 0, 14, 1] Netc.fakeDeviceId) .socketFailed),
    .occurs (.ipmiQueue (RetryOrder.sampleRequest 2 1)), .returns]

/-- The same on a host whose results are texts. -/
def localCallbackRun (result : Text) : List (Happening (LocalHost.Event ℕ)) :=
  [.occurs (.ipmiQueue (RetryOrder.sampleRequest 1 1)), .occurs (.ipmiProcess result),
    .occurs (.ipmiQueue (RetryOrder.sampleRequest 2 1)), .occurs .ipmiHealth]

/-- A callback that queues a request waits for ever: its own message, which is
answered, keeps the slot. -/
structure BlocksSlot (c : LocalHost.HostClass) (result : OpenPower.Text) : Prop where
  admits : (LocalHost.reentrant c ℕ).machine.Admits ⟨⟨{}, []⟩, []⟩ (localCallbackRun result)
  running : ((LocalHost.reentrant c ℕ).machine.run ⟨⟨{}, []⟩, []⟩
    (localCallbackRun result)).stack.map (fun f => f.item.callback) = [some 1]
  inprogress : ((LocalHost.reentrant c ℕ).machine.run ⟨⟨{}, []⟩, []⟩
    (localCallbackRun result)).state.session.inprogress.map (fun e => e.callback) = [some 1]
  waiting : ((LocalHost.reentrant c ℕ).machine.run ⟨⟨{}, []⟩, []⟩
    (localCallbackRun result)).state.session.ipmiMsgq.map Item.callback = [some 2]
  unserved : ¬(LocalHost.reentrant c ℕ).machine.Always
    (fun w => LocalServed c w.state.session) ⟨⟨{}, []⟩, []⟩ (localCallbackRun result)

end Amester.Callbacks
