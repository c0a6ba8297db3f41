/-
# Retries and the order of requests

A request whose result is empty is put back on the queue, at its end. Requests
of its priority that were accepted while it was in progress are then in front
of it, although they came later. As long as no request of the same priority is
waiting when one is put back, the callbacks of each priority run in the order
in which the requests were accepted.

The invariant lists the callbacks of one priority that have run, then that of
the message in progress, then those that wait: this is a sublist of the
accepted ones. Sorting by priority does not change it.
-/

import Amester.LocalHost.Session
import Amester.OpenPower.Completion

namespace Amester.RetryOrder

open BinaryFormat PriorityQueue EventMachine
open OpenPower (Text Interp)

universe u

variable {κ : Type u}

/-! ## The callbacks of one priority -/

/-- The callbacks of the messages of one priority, in the order of the list. -/
def callbacksAt (p : ℤ) (items : List (Item κ)) : List (Option κ) :=
  (items.filter fun item => item.priority = p).map Item.callback

/-- The callbacks of each priority ran in the order in which their requests were
accepted. -/
def InOrder (accepted answered : List (Item κ)) : Prop :=
  ∀ p : ℤ, (callbacksAt p answered).Sublist (callbacksAt p accepted)

@[simp]
theorem callbacksAt_nil (p : ℤ) : callbacksAt p ([] : List (Item κ)) = [] := rfl

@[simp]
theorem callbacksAt_append (p : ℤ) (first second : List (Item κ)) :
    callbacksAt p (first ++ second) = callbacksAt p first ++ callbacksAt p second := by
  simp [callbacksAt]

theorem callbacksAt_sort (p : ℤ) (queue : List (Item κ)) :
    callbacksAt p (sort Item.priority queue) = callbacksAt p queue := by
  rw [callbacksAt, sort_filter, callbacksAt]

theorem callbacksAt_enqueue_back (p : ℤ) (item : Item κ) (queue : List (Item κ)) :
    callbacksAt p (enqueue Item.priority .back item queue) = callbacksAt p (queue ++ [item]) := by
  rw [callbacksAt, enqueue_back_filter, callbacksAt]

/-- Two messages that differ neither in priority nor in callback. -/
theorem callbacksAt_congr {item item' : Item κ} (priority : item'.priority = item.priority)
    (callback : item'.callback = item.callback) (p : ℤ) :
    callbacksAt p [item'] = callbacksAt p [item] := by
  by_cases hp : item.priority = p
  · simp [callbacksAt, priority, callback, hp]
  · simp [callbacksAt, priority, hp]

/-- A message may go behind the waiting ones when none of them has its priority. -/
theorem callbacksAt_moved {item item' : Item κ} {queue : List (Item κ)}
    (priority : item'.priority = item.priority) (callback : item'.callback = item.callback)
    (alone : ∀ other ∈ queue, other.priority ≠ item.priority) (p : ℤ) :
    callbacksAt p (queue ++ [item']) = callbacksAt p (item :: queue) := by
  have hcons : callbacksAt p (item :: queue) = callbacksAt p [item] ++ callbacksAt p queue :=
    callbacksAt_append p [item] queue
  rw [hcons, callbacksAt_append, callbacksAt_congr priority callback]
  by_cases hp : item.priority = p
  · have hnone : callbacksAt p queue = [] := by
      simp only [callbacksAt, List.map_eq_nil_iff, List.filter_eq_nil_iff, decide_eq_true_eq]
      intro other hother hsame
      exact alone other hother (hsame.trans hp.symm)
    rw [hnone, List.nil_append, List.append_nil]
  · have hnone : callbacksAt p [item] = [] := by
      simp [callbacksAt, hp]
    rw [hnone, List.append_nil, List.nil_append]

/-! ## openpower -/

section OpenPower

open OpenPower

/-- What is on its way: the message in progress and the waiting ones. -/
def pending (s : State κ) : List (Item κ) := s.inprogress.map InProgress.toItem ++ s.ipmiMsgq

/-- The messages on their way carry the name of the object, at most one is in
progress, and with those answered they are in the order of acceptance. -/
structure Kept (w : World κ) : Prop where
  waiting : ∀ item ∈ w.session.ipmiMsgq, item.tag = w.session.name
  tagged : ∀ e ∈ w.session.inprogress, e.tag = w.session.name
  single : w.session.inprogress = [] ∨ ∃ e, w.session.inprogress = [e]
  ordered : ∀ p, (callbacksAt p (w.session.answered ++ pending w.session)).Sublist
    (callbacksAt p w.accepted.reverse)

/-- What the invariant reads. -/
theorem Kept.congr {s t : State κ} {accepted : List (Item κ)} (h : Kept ⟨s, accepted⟩)
    (queue : t.toMessageQueue = s.toMessageQueue) (name : t.name = s.name)
    (effects : t.effects = s.effects) : Kept ⟨t, accepted⟩ where
  waiting := by
    rw [queue, name]
    exact h.waiting
  tagged := by
    rw [queue, name]
    exact h.tagged
  single := by
    rw [queue]
    exact h.single
  ordered := by
    simp only [State.answered, pending, queue, effects]
    exact h.ordered

/-- The condition: when an empty result is taken, no waiting request has the
priority of the message it is for. -/
def Alone (w : World κ) : Event κ → Prop
  | .ipmiProcess => ∀ e ∈ w.session.inprogress,
    w.session.results.head? = some (e.tag, []) →
      ∀ item ∈ w.session.ipmiMsgq, item.priority ≠ e.priority
  | _ => True

instance (w : World κ) : DecidablePred (Alone w)
  | .ipmiProcess => inferInstanceAs (Decidable (∀ e ∈ w.session.inprogress,
      w.session.results.head? = some (e.tag, []) →
        ∀ item ∈ w.session.ipmiMsgq, item.priority ≠ e.priority))
  | .ipmiQueue _ | .ipmiHealth | .ipmi _ | .network _ | .configure _ => isTrue trivial

/-- Dequeueing moves the first waiting message into the empty slot. -/
theorem Kept.ipmiDequeue {w : World κ} (h : Kept w) :
    Kept { w with session := ipmiDequeue w.session } ∧
      pending (OpenPower.ipmiDequeue w.session) = pending w.session := by
  have hanswered := ipmiDequeue_answered w.session
  unfold OpenPower.ipmiDequeue
  split
  · exact ⟨h, rfl⟩
  · split
    · exact ⟨h, rfl⟩
    · rename_i item rest hmsgq
      split
      · exact ⟨h, rfl⟩
      · rename_i hlookup
        have htag : item.tag = w.session.name := h.waiting item (by simp [hmsgq])
        have hempty : w.session.inprogress = [] := by
          obtain hempty | ⟨e, htable⟩ := h.single
          · exact hempty
          · have hfound := h.tagged e (by simp [htable])
            simp [lookupTag, htable, hfound, htag] at hlookup
        have hpending : pending (w.session.sendToWorker item rest) = pending w.session := by
          simp [pending, State.sendToWorker, MessageQueue.dispatch, hempty, hmsgq]
        refine ⟨⟨?_, ?_, ?_, ?_⟩, hpending⟩
        · intro other hother
          have hmem : other ∈ w.session.ipmiMsgq := by
            rw [hmsgq]
            exact List.mem_cons_of_mem _ hother
          exact h.waiting other hmem
        · intro e he
          simp only [State.sendToWorker, MessageQueue.dispatch, hempty, List.nil_append,
            List.mem_singleton] at he
          rw [he]
          exact htag
        · exact Or.inr ⟨{ item with after := none }, by
            simp [State.sendToWorker, MessageQueue.dispatch, hempty]⟩
        · rw [hpending, sendToWorker_answered]
          exact h.ordered

/-- Queueing a message at the back. -/
theorem ipmiQueue_kept {s : State κ} {accepted : List (Item κ)} {r : Request κ}
    (waiting : ∀ item ∈ s.ipmiMsgq, item.tag = s.name)
    (tagged : ∀ e ∈ s.inprogress, e.tag = s.name)
    (single : s.inprogress = [] ∨ ∃ e, s.inprogress = [e])
    (ordered : ∀ p, (callbacksAt p (s.answered ++ (pending s ++ [r.item s.name s.timeout]))).Sublist
      (callbacksAt p accepted.reverse)) :
    Kept ⟨ipmiQueue r .back s, accepted⟩ := by
  have hqueued : Kept ⟨s.enqueueMessage .back (r.item s.name s.timeout), accepted⟩ := by
    refine ⟨?_, tagged, single, ?_⟩
    · intro item hitem
      have hmem := (enqueue_perm Item.priority .back _ s.ipmiMsgq).subset hitem
      obtain rfl | hmem := List.mem_cons.mp hmem
      · rfl
      · exact waiting item hmem
    · intro p
      have hsame : callbacksAt p ((s.enqueueMessage .back (r.item s.name s.timeout)).answered ++
          pending (s.enqueueMessage .back (r.item s.name s.timeout))) =
            callbacksAt p (s.answered ++ (pending s ++ [r.item s.name s.timeout])) := by
        simp only [pending, State.enqueueMessage, MessageQueue.insertMessage, State.answered,
          callbacksAt_append, callbacksAt_enqueue_back, List.append_assoc]
      rw [hsame]
      exact ordered p
  unfold ipmiQueue
  split
  · exact hqueued.ipmiDequeue.1
  · exact hqueued

/-- A message whose result was read: the next one is sent, and then its callback
runs. -/
theorem answered_kept {s : State κ} {accepted : List (Item κ)} (h : Kept ⟨s, accepted⟩)
    {item : Item κ}
    (ordered : ∀ p, (callbacksAt p (s.answered ++ item :: pending s)).Sublist
      (callbacksAt p accepted.reverse)) (status : Text) (databytes : Bytes) :
    Kept ⟨(ipmiDequeue s).emit (.answered item status databytes), accepted⟩ := by
  obtain ⟨hnext, hsame⟩ := h.ipmiDequeue
  refine ⟨hnext.waiting, hnext.tagged, hnext.single, ?_⟩
  intro p
  have hanswered : ((ipmiDequeue s).emit (.answered item status databytes)).answered =
      s.answered ++ [item] := by
    rw [emit_answered, ipmiDequeue_answered]
  have hpending : pending ((ipmiDequeue s).emit (.answered item status databytes)) =
      pending s := hsame
  rw [hanswered, hpending, List.append_assoc]
  exact ordered p

/-- A result for the message in progress. -/
theorem takeResult_kept {interp : Interp} {s : State κ} {accepted : List (Item κ)}
    (h : Kept ⟨s, accepted⟩) (alone : Alone ⟨s, accepted⟩ .ipmiProcess) :
    Kept ⟨(takeResult interp s).state, accepted⟩ := by
  unfold takeResult
  split
  · exact h
  · rename_i tag result results hresults
    unfold ipmiProcess
    split
    · exact h.congr rfl rfl rfl
    · rename_i e hlookup
      have hmem : e ∈ s.inprogress := List.mem_of_find?_eq_some hlookup
      have htag : e.tag = tag := by
        simpa using List.find?_some hlookup
      have htable : s.inprogress = [e] := by
        have hsingle : s.inprogress = [] ∨ ∃ e, s.inprogress = [e] := h.single
        obtain hempty | ⟨e', htable⟩ := hsingle
        · exact absurd hmem (by simp [hempty])
        · rw [htable, List.mem_singleton] at hmem
          rw [htable, hmem]
      have hfree : unsetTag tag s.inprogress = [] := by simp [unsetTag, htable, htag]
      have hunset : State.unsetInprogress { s with results := results } tag =
          { s with toMessageQueue := ⟨s.ipmiMsgq, []⟩, results := results } := by
        simp [State.unsetInprogress, MessageQueue.remove, hfree]
      have hpending : pending s = e.toItem :: s.ipmiMsgq := by simp [pending, htable]
      have hordered := h.ordered
      simp only [hpending] at hordered
      rw [hunset]
      split
      · rename_i hempty
        refine ipmiQueue_kept h.waiting (by simp) (Or.inl rfl) ?_
        intro p
        have halone := alone e hmem (by rw [hresults, htag, hempty]; rfl)
        have hpriority : (e.repost.item s.name s.timeout).priority = e.toItem.priority := rfl
        have hcallback : (e.repost.item s.name s.timeout).callback = e.toItem.callback := rfl
        have hmoved := callbacksAt_moved hpriority hcallback halone p
        have hgoal :
            callbacksAt p (s.answered ++ (s.ipmiMsgq ++ [e.repost.item s.name s.timeout])) =
            callbacksAt p (s.answered ++ e.toItem :: s.ipmiMsgq) := by
          rw [callbacksAt_append, hmoved, ← callbacksAt_append]
        have hsublist := hordered p
        rw [← hgoal] at hsublist
        exact hsublist
      · have hfreed : Kept ⟨{ s with toMessageQueue := ⟨s.ipmiMsgq, []⟩, results := results },
            accepted⟩ := by
          refine ⟨h.waiting, by simp, Or.inl rfl, ?_⟩
          intro p
          have hdropped : (s.answered ++ s.ipmiMsgq).Sublist
              (s.answered ++ e.toItem :: s.ipmiMsgq) :=
            ((List.Sublist.refl s.ipmiMsgq).cons e.toItem).append_left s.answered
          exact ((hdropped.filter _).map _).trans (hordered p)
        split
        · exact answered_kept hfreed hordered _ _
        · exact hfreed.ipmiDequeue.1

/-- One event, under the condition. -/
theorem step_kept (interp : Interp) (w : World κ) (event : Event κ) (h : Kept w)
    (alone : Alone w event) : Kept (w.step interp event) := by
  cases event with
  | ipmiQueue r =>
      refine ipmiQueue_kept h.waiting h.tagged h.single ?_
      intro p
      rw [List.reverse_cons, ← List.append_assoc, callbacksAt_append, callbacksAt_append p _ [_]]
      exact (h.ordered p).append_right _
  | ipmiHealth => exact h.ipmiDequeue.1
  | ipmi run =>
      show Kept ⟨ipmi interp run w.session, w.accepted⟩
      unfold ipmi
      split
      · exact h
      · split
        · exact h.congr rfl rfl rfl
        · exact h.congr rfl rfl rfl
  | ipmiProcess => exact takeResult_kept h alone
  | network on => exact h.congr rfl rfl rfl
  | configure timeout => exact h.congr rfl rfl rfl

theorem Kept.inOrder {w : World κ} (h : Kept w) :
    InOrder w.accepted.reverse w.session.answered := by
  intro p
  have hordered := h.ordered p
  rw [callbacksAt_append] at hordered
  exact (List.sublist_append_left _ _).trans hordered

theorem fresh_kept {s : State κ} (fresh : s.Fresh) : Kept ⟨s, []⟩ := by
  have hqueue : s.ipmiMsgq = [] ∧ s.inprogress = [] := by simp [fresh.queue]
  have hanswered : s.answered = [] := by simp [State.answered, fresh.effects]
  refine ⟨by simp [hqueue.1], by simp [hqueue.2], Or.inl hqueue.2, ?_⟩
  intro p
  simp [hanswered, pending, hqueue.1, hqueue.2]

/-- In an openpower run without a retry past a request of the same priority the
callbacks run in order, in every state. -/
theorem openpower_inOrder (interp : Interp) {s : State κ} (fresh : s.Fresh)
    {events : List (Event κ)} (admits : (machine interp κ).Admits ⟨s, []⟩ events)
    (each : (machine interp κ).EachStep Alone ⟨s, []⟩ events) :
    (machine interp κ).Always (fun w => InOrder w.accepted.reverse w.session.answered)
      ⟨s, []⟩ events := by
  have hkept : (machine interp κ).Always Kept ⟨s, []⟩ events :=
    (machine interp κ).always_of_invariant
      (fun w event h _ alone => step_kept interp w event h alone) (fresh_kept fresh) admits each
  exact hkept.mono fun _ h => h.inOrder

end OpenPower

/-! ## localhost and emtagent -/

section LocalHost

open LocalHost

/-- Only the message in the slot can be owed, and the messages on their way, of
which those given are unanswered ones in the slot, are with the answered ones
in the order of acceptance. -/
structure SessionKept (unanswered accepted : List (Item κ)) (s : State κ) : Prop
    extends Named s where
  owed : s.owed = [] ∨ s.owed = s.inprogress.map InProgress.toItem
  ordered : ∀ p, (callbacksAt p (s.answered ++ (unanswered ++ s.ipmiMsgq))).Sublist
    (callbacksAt p accepted)

/-- Sorting the queue is not visible. -/
theorem SessionKept.sortQueue {unanswered accepted : List (Item κ)} {s : State κ}
    (h : SessionKept unanswered accepted s) : SessionKept unanswered accepted s.sortQueue where
  toNamed := h.toNamed.sortQueue
  owed := h.owed
  ordered p := by
    have hsame : callbacksAt p (s.sortQueue.answered ++ (unanswered ++ s.sortQueue.ipmiMsgq)) =
        callbacksAt p (s.answered ++ (unanswered ++ s.ipmiMsgq)) := by
      simp only [State.sortQueue, State.answered, callbacksAt_append, callbacksAt_sort]
    rw [hsame]
    exact h.ordered p

/-- With an empty slot a dequeue moves the first waiting message into it. -/
theorem SessionKept.ipmiDequeue (c : HostClass) {accepted : List (Item κ)} {s : State κ}
    (h : SessionKept [] accepted s) (free : s.inprogress = []) :
    SessionKept ((ipmiDequeue c s).inprogress.map InProgress.toItem) accepted
      (ipmiDequeue c s) := by
  have howed : s.sortQueue.owed = [] := by
    show s.owed = []
    simpa [free] using h.owed
  obtain ⟨-, hsame⟩ | ⟨item, rest, hsorted, hnext⟩ := ipmiDequeue_of_free c free
  · rw [hsame, free]
    exact h
  · have htable := handOver_inprogress c s item rest free
    rw [hnext, htable]
    refine ⟨h.toNamed.handOver c free hsorted, ?_, ?_⟩
    · rw [htable, handOver_owed, howed]
      -- The message is owed, unless it was dropped.
      split
      · exact .inr rfl
      · exact .inl rfl
    · intro p
      have hordered := h.sortQueue.ordered p
      rw [hsorted, List.nil_append] at hordered
      rw [handOver_answered, handOver_ipmiMsgq]
      exact hordered

/-- Putting a message on the queue. -/
theorem SessionKept.enqueueMessage {unanswered accepted accepted' : List (Item κ)} {s : State κ}
    (h : SessionKept unanswered accepted s) {item : Item κ} (tag : item.tag = s.name)
    (ordered : ∀ p, (callbacksAt p (s.answered ++ (unanswered ++ (s.ipmiMsgq ++ [item])))).Sublist
      (callbacksAt p accepted')) :
    SessionKept unanswered accepted' (s.enqueueMessage .back item) where
  toNamed := h.toNamed.enqueueMessage .back tag
  owed := h.owed
  ordered := ordered

/-- A dequeue while no callback runs. -/
theorem ipmiDequeue_idle (c : HostClass) {accepted : List (Item κ)} {s : State κ}
    (h : SessionKept (s.inprogress.map InProgress.toItem) accepted s) :
    SessionKept ((ipmiDequeue c s).inprogress.map InProgress.toItem) accepted
      (ipmiDequeue c s) := by
  obtain hfree | ⟨e, hbusy⟩ := h.single
  · rw [hfree, List.map_nil] at h
    exact h.ipmiDequeue c hfree
  · rw [ipmiDequeue_of_busy c h.toNamed hbusy]
    exact h.sortQueue

/-- A request is queued while no callback runs. -/
theorem ipmiQueue_idle (c : HostClass) {accepted accepted' : List (Item κ)} {s : State κ}
    (h : SessionKept (s.inprogress.map InProgress.toItem) accepted s) {r : Request κ}
    (ordered : ∀ p, (callbacksAt p (s.answered ++
      (s.inprogress.map InProgress.toItem ++ (s.ipmiMsgq ++ [r.item s.name 10000])))).Sublist
      (callbacksAt p accepted')) :
    SessionKept ((ipmiQueue c r .back s).inprogress.map InProgress.toItem) accepted'
      (ipmiQueue c r .back s) := by
  have hqueued : SessionKept (s.inprogress.map InProgress.toItem) accepted'
      (s.enqueueMessage .back (r.item s.name 10000)) := h.enqueueMessage rfl ordered
  unfold ipmiQueue
  split
  · exact ipmiDequeue_idle c hqueued
  · exact hqueued

/-- A request is queued while the callback of the message in the slot runs. -/
theorem ipmiQueue_running (c : HostClass) {accepted accepted' : List (Item κ)} {s : State κ}
    (h : SessionKept [] accepted s) {e : InProgress κ} (busy : s.inprogress = [e])
    {r : Request κ}
    (ordered : ∀ p, (callbacksAt p (s.answered ++
      ([] ++ (s.ipmiMsgq ++ [r.item s.name 10000])))).Sublist (callbacksAt p accepted')) :
    SessionKept [] accepted' (ipmiQueue c r .back s) ∧
      (ipmiQueue c r .back s).inprogress = [e] ∧ (ipmiQueue c r .back s).owed = s.owed := by
  have hqueued : SessionKept [] accepted' (s.enqueueMessage .back (r.item s.name 10000)) :=
    h.enqueueMessage rfl ordered
  unfold ipmiQueue
  split
  · rw [ipmiDequeue_of_busy c hqueued.toNamed busy]
    exact ⟨hqueued.sortQueue, busy, rfl⟩
  · exact ⟨hqueued, busy, rfl⟩

/-- While no callback runs, the message in the slot is unanswered; at most one
callback runs, that of the message in the slot, and then no message is owed. -/
inductive LocalKept : Suspended (World κ) (Frame κ) → Prop
  | idle {s : State κ} {accepted : List (Item κ)}
      (kept : SessionKept (s.inprogress.map InProgress.toItem) accepted s) :
      LocalKept ⟨⟨s, accepted⟩, []⟩
  | running {s : State κ} {accepted : List (Item κ)} {f : Frame κ} {e : InProgress κ}
      (kept : SessionKept [] accepted s) (busy : s.inprogress = [e]) (owed : s.owed = [])
      (tag : f.tag = e.tag) : LocalKept ⟨⟨s, accepted⟩, [f]⟩

/-- The condition: when an empty result is taken, no waiting request has the
priority of the message in progress. -/
def LocalAlone (c : HostClass) (w : World κ) : Event κ → Prop
  | .ipmiProcess result => w.session.passes c → result = [] → ∀ e ∈ w.session.inprogress,
    ∀ item ∈ w.session.ipmiMsgq, item.priority ≠ e.priority
  | .ipmiQueue _ | .ipmiHealth | .network _ => True

instance (c : HostClass) (w : World κ) : DecidablePred (LocalAlone c w)
  | .ipmiProcess result => inferInstanceAs (Decidable (w.session.passes c → result = [] →
      ∀ e ∈ w.session.inprogress, ∀ item ∈ w.session.ipmiMsgq, item.priority ≠ e.priority))
  | .ipmiQueue _ | .ipmiHealth | .network _ => isTrue trivial

/-- The slot is freed after the callback, and the next message sent. -/
theorem finish_kept (c : HostClass) {accepted : List (Item κ)} {s : State κ}
    (h : SessionKept [] accepted s) {e : InProgress κ} (busy : s.inprogress = [e])
    (owed : s.owed = []) : LocalKept ⟨⟨finish c e.tag s, accepted⟩, []⟩ := by
  have hfree := unsetInprogress_of_single busy
  have hfreed : SessionKept [] accepted (s.unsetInprogress e.tag) :=
    ⟨⟨h.waiting, by simp [hfree], Or.inl hfree⟩, Or.inl owed, h.ordered⟩
  exact .idle (hfreed.ipmiDequeue c hfree)

/-- A result for the message in the slot. -/
theorem ipmiProcess_kept (c : HostClass) {accepted : List (Item κ)} {s : State κ}
    (h : SessionKept (s.inprogress.map InProgress.toItem) accepted s) {e : InProgress κ}
    (busy : s.inprogress = [e]) (owed : s.owed = []) (result : Text)
    (alone : result = [] → ∀ item ∈ s.ipmiMsgq, item.priority ≠ e.priority) :
    LocalKept ⟨⟨(ipmiProcess c e.tag result s).1.state, accepted⟩,
      (ipmiProcess c e.tag result s).2.toList⟩ := by
  have hlookup : lookupTag e.tag s.inprogress = some e := by simp [lookupTag, busy]
  have hfree := unsetInprogress_of_single busy
  have hordered := h.ordered
  rw [busy, List.map_singleton, List.singleton_append] at hordered
  have hemitted : ∀ (status : Text) (databytes : Bytes),
      SessionKept [] accepted (s.emit (.answered e.toItem status databytes)) := by
    intro status databytes
    have hanswered : (s.emit (.answered e.toItem status databytes)).answered =
        s.answered ++ [e.toItem] := by
      simp [State.answered, State.emit, Effect.answered?]
    refine ⟨⟨h.waiting, h.tagged, h.single⟩, Or.inl owed, ?_⟩
    intro p
    rw [hanswered, List.nil_append, List.append_assoc]
    exact hordered p
  unfold ipmiProcess
  split
  · rename_i hempty
    rw [hlookup]
    have hunset : SessionKept ((s.unsetInprogress e.tag).inprogress.map InProgress.toItem)
        accepted (s.unsetInprogress e.tag) := by
      rw [hfree]
      refine ⟨⟨h.waiting, by simp [hfree], Or.inl hfree⟩, Or.inl owed, ?_⟩
      intro p
      have hdropped : (s.answered ++ s.ipmiMsgq).Sublist
          (s.answered ++ e.toItem :: s.ipmiMsgq) :=
        ((List.Sublist.refl s.ipmiMsgq).cons e.toItem).append_left s.answered
      exact ((hdropped.filter _).map _).trans (hordered p)
    refine .idle (ipmiQueue_idle c hunset ?_)
    intro p
    have hpriority : ((repost e).item s.name 10000).priority = e.toItem.priority := rfl
    have hcallback : ((repost e).item s.name 10000).callback = e.toItem.callback := rfl
    have hmoved := callbacksAt_moved hpriority hcallback (alone hempty) p
    have hsublist := hordered p
    rw [callbacksAt_append, ← hmoved, ← callbacksAt_append] at hsublist
    rw [hfree]
    exact hsublist
  · split
    · exact .idle h
    · rename_i status databytes _
      simp only [hlookup]
      split
      · exact finish_kept c (hemitted status databytes) busy owed
      · exact .running (hemitted status databytes) busy owed rfl

/-- It is processed, or dropped. -/
theorem receive_kept (c : HostClass) {accepted : List (Item κ)} {s : State κ}
    (h : SessionKept (s.inprogress.map InProgress.toItem) accepted s) {e : InProgress κ}
    (busy : s.inprogress = [e]) (owed : s.owed = []) (result : Text)
    (alone : s.passes c → result = [] → ∀ item ∈ s.ipmiMsgq, item.priority ≠ e.priority) :
    LocalKept ⟨⟨(receive c e.tag result s).1.state, accepted⟩,
      (receive c e.tag result s).2.toList⟩ := by
  unfold receive
  split
  · rename_i hpasses
    exact ipmiProcess_kept c h busy owed result (alone hpasses)
  · exact .idle h

/-- One event or return, under the condition. -/
theorem localStep_kept (c : HostClass) (w : Suspended (World κ) (Frame κ))
    (h : Happening (Event κ)) (kept : LocalKept w)
    (admits : (reentrant c κ).Admissible w h) (alone : Reentrant.Meets (LocalAlone c) w h) :
    LocalKept ((reentrant c κ).step w h) := by
  cases kept with
  | @idle s accepted kept =>
      cases h with
      | returns => exact absurd rfl admits
      | occurs event =>
          cases event with
          | ipmiQueue r =>
              refine .idle (ipmiQueue_idle c kept ?_)
              intro p
              have hordered := (kept.ordered p).append_right
                (callbacksAt p [r.item s.name 10000])
              rw [← callbacksAt_append, ← callbacksAt_append] at hordered
              simpa only [List.append_assoc] using hordered
          | ipmiHealth => exact .idle (ipmiDequeue_idle c kept)
          | network on =>
              exact .idle ⟨⟨kept.waiting, kept.tagged, kept.single⟩, kept.owed, kept.ordered⟩
          | ipmiProcess result =>
              have howed : s.owed = s.inprogress.map InProgress.toItem :=
                kept.owed.resolve_left admits
              obtain hfree | ⟨e, hbusy⟩ := kept.single
              · exact absurd (by rw [howed, hfree]; rfl) admits
              · rw [hbusy, List.map_singleton] at howed
                have hdelivered : SessionKept
                    (({ s with owed := [] } : State κ).inprogress.map InProgress.toItem) accepted
                    { s with owed := [] } :=
                  ⟨⟨kept.waiting, kept.tagged, kept.single⟩, Or.inl rfl, kept.ordered⟩
                have hprocessed := receive_kept c hdelivered hbusy rfl result
                  fun hpasses hempty => alone hpasses hempty e (by simp [hbusy])
                show LocalKept (Reentrant.push (handle c ⟨s, accepted⟩ (.ipmiProcess result)) [])
                simp only [handle, howed, Reentrant.push, List.append_nil]
                exact hprocessed
  | @running s accepted f e kept busy owed tag =>
      cases h with
      | returns =>
          show LocalKept ⟨⟨finish c f.tag s, accepted⟩, []⟩
          rw [tag]
          exact finish_kept c kept busy owed
      | occurs event =>
          cases event with
          | ipmiQueue r =>
              have hordered : ∀ p, (callbacksAt p (s.answered ++
                  ([] ++ (s.ipmiMsgq ++ [r.item s.name 10000])))).Sublist
                    (callbacksAt p (accepted ++ [r.item s.name 10000])) := by
                intro p
                have hsublist := (kept.ordered p).append_right
                  (callbacksAt p [r.item s.name 10000])
                rw [← callbacksAt_append, ← callbacksAt_append] at hsublist
                simpa only [List.append_assoc, List.nil_append] using hsublist
              obtain ⟨hkept, hbusy, howed⟩ := ipmiQueue_running c kept busy hordered
              exact .running hkept hbusy (howed.trans owed) tag
          | ipmiHealth =>
              have hdequeue : ipmiHealth c s = s.sortQueue :=
                ipmiDequeue_of_busy c kept.toNamed busy
              show LocalKept ⟨⟨ipmiHealth c s, accepted⟩, [f]⟩
              rw [hdequeue]
              exact .running kept.sortQueue busy owed tag
          | network on =>
              exact .running (s := { s with network := on })
                ⟨⟨kept.waiting, kept.tagged, kept.single⟩, kept.owed, kept.ordered⟩ busy owed tag
          | ipmiProcess result => exact absurd owed admits

theorem LocalKept.inOrder {w : Suspended (World κ) (Frame κ)} (kept : LocalKept w) :
    InOrder w.state.accepted w.state.session.answered := by
  have hprefix : ∀ {unanswered accepted : List (Item κ)} {s : State κ},
      SessionKept unanswered accepted s → InOrder accepted s.answered := by
    intro unanswered accepted s h p
    have hordered := h.ordered p
    rw [callbacksAt_append] at hordered
    exact (List.sublist_append_left _ _).trans hordered
  cases kept with
  | idle kept => exact hprefix kept
  | running kept => exact hprefix kept

theorem fresh_localKept {s : State κ} (fresh : Fresh s) : LocalKept ⟨⟨s, []⟩, []⟩ := by
  have hqueue : s.ipmiMsgq = [] ∧ s.inprogress = [] := by simp [fresh.queue]
  have hanswered : s.answered = [] := by simp [State.answered, fresh.effects]
  refine .idle ⟨⟨by simp [hqueue.1], by simp [hqueue.2], Or.inl hqueue.2⟩, Or.inl fresh.owed,
    ?_⟩
  intro p
  simp [hanswered, hqueue.1, hqueue.2]

/-- The same for localhost and emtagent, whatever callbacks have not returned. -/
theorem local_inOrder (c : HostClass) {s : State κ} (fresh : Fresh s)
    {happenings : List (Happening (Event κ))}
    (admits : (reentrant c κ).machine.Admits ⟨⟨s, []⟩, []⟩ happenings)
    (each : (reentrant c κ).machine.EachStep (Reentrant.Meets (LocalAlone c)) ⟨⟨s, []⟩, []⟩
      happenings) :
    (reentrant c κ).machine.Always
      (fun w => InOrder w.state.accepted w.state.session.answered) ⟨⟨s, []⟩, []⟩ happenings := by
  have hkept : (reentrant c κ).machine.Always LocalKept ⟨⟨s, []⟩, []⟩ happenings :=
    (reentrant c κ).machine.always_of_invariant
      (fun w h kept admits alone => localStep_kept c w h kept admits alone)
      (fresh_localKept fresh) admits each
  exact hkept.mono fun _ kept => kept.inOrder

end LocalHost

/-! ## All three host types -/

/-- Without a retry past a request of the same priority the callbacks of each
priority run in the order of acceptance: in every state of every such run of an
openpower host, and of a localhost or emtagent host with callbacks that have
not returned. -/
theorem retries_keep_order :
    (∀ (interp : Interp) (s : OpenPower.State κ), s.Fresh →
      ∀ events : List (OpenPower.Event κ),
        (OpenPower.machine interp κ).Admits ⟨s, []⟩ events →
          (OpenPower.machine interp κ).EachStep Alone ⟨s, []⟩ events →
            (OpenPower.machine interp κ).Always
              (fun w => InOrder w.accepted.reverse w.session.answered) ⟨s, []⟩ events) ∧
      ∀ (c : LocalHost.HostClass) (s : LocalHost.State κ), LocalHost.Fresh s →
        ∀ happenings : List (Happening (LocalHost.Event κ)),
          (LocalHost.reentrant c κ).machine.Admits ⟨⟨s, []⟩, []⟩ happenings →
            (LocalHost.reentrant c κ).machine.EachStep (Reentrant.Meets (LocalAlone c))
                ⟨⟨s, []⟩, []⟩ happenings →
              (LocalHost.reentrant c κ).machine.Always
                (fun w => InOrder w.state.accepted w.state.session.answered)
                ⟨⟨s, []⟩, []⟩ happenings :=
  ⟨fun interp _ fresh _ admits each => openpower_inOrder interp fresh admits each,
    fun c _ fresh _ admits each => local_inOrder c fresh admits each⟩

/-- A request of a priority. -/
def sampleRequest (callback : ℕ) (priority : ℤ) : Request ℕ :=
  ⟨⟨2, 0⟩, ⟨0, 0⟩, ⟨0, 1⟩, ⟨3, 10⟩, ⟨3, 12⟩, [], some callback, priority, none⟩

/-- What a tool prints that succeeds. -/
def succeeds : OpenPower.ToolRun :=
  .ran [' ' :: ListFormat.joined ([0x41, 0x07].map OpenPower.hexPair), []] none

/-- The result of a request on a localhost. -/
def succeeded : Text := ListFormat.joined ([0x00, 0x07].map OpenPower.byteWord)

/-- Two requests, of which the first has an empty result once, on openpower. -/
def retriedRun (second : ℤ) : List (OpenPower.Event ℕ) :=
  [.ipmiQueue (sampleRequest 1 1), .ipmiQueue (sampleRequest 2 second), .ipmi (.ran [[]] none),
    .ipmiProcess, .ipmiHealth, .ipmi succeeds, .ipmiProcess, .ipmi succeeds, .ipmiProcess]

/-- The same on a localhost. -/
def retriedHappenings (second : ℤ) : List (Happening (LocalHost.Event ℕ)) :=
  [.occurs (.ipmiQueue (sampleRequest 1 1)), .occurs (.ipmiQueue (sampleRequest 2 second)),
    .occurs (.ipmiProcess []), .occurs .ipmiHealth, .occurs (.ipmiProcess succeeded), .returns,
    .occurs (.ipmiProcess succeeded), .returns]

theorem retries_keep_order_sample :
    (OpenPower.machine OpenPower.hexInterp ℕ).Always
        (fun w => InOrder w.accepted.reverse w.session.answered) ⟨{}, []⟩ (retriedRun 2) ∧
      (LocalHost.reentrant (LocalHost.localhost OpenPower.hexInterp) ℕ).machine.Always
        (fun w => InOrder w.state.accepted w.state.session.answered) ⟨⟨{}, []⟩, []⟩
        (retriedHappenings 2) := by
  constructor
  · refine retries_keep_order.1 OpenPower.hexInterp {} ⟨rfl, rfl, rfl, rfl⟩ (retriedRun 2) ?_ ?_
    · decide +kernel
    · decide +kernel
  · refine retries_keep_order.2 _ {} ⟨rfl, rfl, rfl⟩ (retriedHappenings 2) ?_ ?_
    · decide +kernel
    · decide +kernel

/-- A request of the same priority overtakes one that is retried, on openpower and
on a localhost. -/
theorem retry_is_overtaken :
    (∃ events, (OpenPower.machine OpenPower.hexInterp ℕ).Admits ⟨{}, []⟩ events ∧
        ((OpenPower.machine OpenPower.hexInterp ℕ).run ⟨{}, []⟩ events).session.answered.map
          Item.callback = [some 2, some 1] ∧
        ¬(OpenPower.machine OpenPower.hexInterp ℕ).Always
          (fun w => InOrder w.accepted.reverse w.session.answered) ⟨{}, []⟩ events) ∧
      ∃ happenings,
        (LocalHost.reentrant (LocalHost.localhost OpenPower.hexInterp) ℕ).machine.Admits
            ⟨⟨{}, []⟩, []⟩ happenings ∧
          ((LocalHost.reentrant (LocalHost.localhost OpenPower.hexInterp) ℕ).machine.run
            ⟨⟨{}, []⟩, []⟩ happenings).state.session.answered.map Item.callback =
              [some 2, some 1] ∧
          ¬(LocalHost.reentrant (LocalHost.localhost OpenPower.hexInterp) ℕ).machine.Always
            (fun w => InOrder w.state.accepted w.state.session.answered) ⟨⟨{}, []⟩, []⟩
            happenings := by
  refine ⟨⟨retriedRun 1, by decide +kernel, by decide +kernel, ?_⟩,
    retriedHappenings 1, by decide +kernel, by decide +kernel, ?_⟩
  · intro always
    have hlast := always.last 1
    revert hlast
    decide +kernel
  · intro always
    have hlast := always.last 1
    revert hlast
    decide +kernel

end Amester.RetryOrder
