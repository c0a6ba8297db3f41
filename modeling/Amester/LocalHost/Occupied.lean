/-
# Hosts that leave their requests waiting

On openpower and on localhost a request that is queued while another one is in progress is
handed on when the result of that one is taken. An empty result puts its message back with
`ipmi_queue`, which hands something on only if the message is alone in the queue: with others
in front of or behind it nothing is in progress afterwards, nothing that is queued later is
handed on either, and all of them wait for the next health tick.

A message may also keep the slot although nothing comes back for it any more: its job raised in
the worker, because the tool could not be started. What is queued then waits, and no health tick
ends that. On localhost the slot can also be taken by a message that the worker has answered: one
whose result could not be read, and one whose callback has not returned.
-/

import Amester.LocalHost.Callbacks
import Amester.OpenPower.Completion

namespace Amester.Occupied

open BinaryFormat PriorityQueue EventMachine
open OpenPower (Text Interp)
open Callbacks (callbacksSince)

universe u v w

/-- A step that ends the handling of such an event leaves the host busy. -/
def LeavesBusy {σ : Type u} {ε : Type v} {φ : Type w} (M : Reentrant σ ε φ) (handled : ε → Prop)
    (busy : σ → Prop) (s : Suspended σ φ) (h : Happening ε) : Prop :=
  M.Ends s h → Reentrant.Meets (fun _ event => handled event) s h → busy (M.step s h).state

variable {κ : Type u}

/-! ## openpower -/

section OpenPower

open OpenPower

/-- The event is a queue operation or a response. -/
def openpowerHandled : Event κ → Prop
  | .ipmiQueue _ | .ipmiProcess => True
  | .ipmiHealth | .ipmi _ | .network _ | .configure _ => False

/-- The worker needs a job and the object a result, and the network is not switched off. -/
def openpowerAdmissible (s : State κ) : Event κ → Prop
  | .ipmi _ => s.worker ≠ []
  | .ipmiProcess => s.results ≠ []
  | .network on => on = true
  | .ipmiQueue _ | .ipmiHealth | .configure _ => True

instance (s : State κ) : DecidablePred (openpowerAdmissible s)
  | .ipmi _ => inferInstanceAs (Decidable (s.worker ≠ []))
  | .ipmiProcess => inferInstanceAs (Decidable (s.results ≠ []))
  | .network on => inferInstanceAs (Decidable (on = true))
  | .ipmiQueue _ | .ipmiHealth | .configure _ => isTrue trivial

/-- A handler, of the object up to the callback it runs, or of the worker. Nothing but
statistics follows a callback. -/
def openpowerHandle (interp : Interp) (s : State κ) : Event κ → State κ × Option (Item κ)
  | .ipmiQueue r => (ipmiQueue r .back s, none)
  | .ipmiProcess =>
    ((takeResult interp s).state, (callbacksSince s (takeResult interp s).state).head?)
  | .ipmiHealth => (ipmiHealth s, none)
  | .ipmi run => (ipmi interp run s, none)
  | .network on => ({ s with network := on }, none)
  | .configure timeout => ({ s with timeout := timeout }, none)

/-- The session and its worker with `::network` on throughout. Callbacks may wait. -/
def openpowerOn (interp : Interp) (κ : Type u) : Reentrant (State κ) (Event κ) (Item κ) where
  admissible := openpowerAdmissible
  handle := openpowerHandle interp
  resume _ s := (s, none)

instance (interp : Interp) (s : State κ) : DecidablePred ((openpowerOn interp κ).admissible s) :=
  inferInstanceAs (DecidablePred (openpowerAdmissible s))

/-- If requests wait, one is in progress at the worker: the worker has its job, or the result is
on the way. -/
def OpenPowerBusy (s : State κ) : Prop :=
  s.ipmiMsgq ≠ [] → ∃ e ∈ s.inprogress,
    jobOf e.toItem ∈ s.worker ∨ ∃ result, (e.tag, result) ∈ s.results

/-- The worker has a job, or a result is on the way. -/
def UnderWay (s : State κ) : Prop := s.worker ≠ [] ∨ s.results ≠ []

instance (s : State κ) : Decidable (UnderWay s) := inferInstanceAs (Decidable (_ ∨ _))

/-- The condition on an event: an empty result is taken only while no request waits, and a request
is queued only while the slot is free or the message in it is not lost. -/
def HandsOnJobs (s : State κ) : Event κ → Prop
  | .ipmiQueue _ => s.inprogress = [] ∨ UnderWay s
  | .ipmiProcess => s.results.head?.map Prod.snd = some [] → s.ipmiMsgq = []
  | .ipmiHealth | .ipmi _ | .network _ | .configure _ => True

instance (s : State κ) : DecidablePred (HandsOnJobs s)
  | .ipmiQueue _ => inferInstanceAs (Decidable (s.inprogress = [] ∨ UnderWay s))
  | .ipmiProcess =>
    inferInstanceAs (Decidable (s.results.head?.map Prod.snd = some [] → s.ipmiMsgq = []))
  | .ipmiHealth | .ipmi _ | .network _ | .configure _ => isTrue trivial

/-- The condition: a callback returns only while no request waits or the message in the slot is
not lost, and the events meet theirs. -/
def OpenPowerCondition (w : Suspended (State κ) (Item κ)) : Happening (Event κ) → Prop
  | .occurs event => HandsOnJobs w.state event
  | .returns => w.state.ipmiMsgq = [] ∨ UnderWay w.state

instance (w : Suspended (State κ) (Item κ)) : DecidablePred (OpenPowerCondition w)
  | .occurs event => inferInstanceAs (Decidable (HandsOnJobs w.state event))
  | .returns => inferInstanceAs (Decidable (w.state.ipmiMsgq = [] ∨ UnderWay w.state))

/-- Where the message in the slot is. -/
inductive JobSlot (s : State κ) : Prop
  /-- There is none, and then none waits. -/
  | free (waiting : s.ipmiMsgq = []) (inprogress : s.inprogress = []) (worker : s.worker = [])
    (results : s.results = [])
  | working (e : InProgress κ) (inprogress : s.inprogress = [e])
    (worker : s.worker = [jobOf e.toItem]) (results : s.results = [])
  | returning (e : InProgress κ) (result : Text) (inprogress : s.inprogress = [e])
    (worker : s.worker = []) (results : s.results = [(e.tag, result)])
  /-- Its job has raised. -/
  | lost (e : InProgress κ) (inprogress : s.inprogress = [e]) (worker : s.worker = [])
    (results : s.results = [])

/-- The invariant. -/
structure OpenPowerInv (s : State κ) : Prop where
  network : s.network = true
  waiting : ∀ item ∈ s.ipmiMsgq, item.tag = s.name
  tagged : ∀ e ∈ s.inprogress, e.tag = s.name
  slot : JobSlot s

/-- Under the invariant the host is busy just while no request waits or the message in the slot
is not lost. -/
theorem OpenPowerInv.busy_iff {s : State κ} (h : OpenPowerInv s) :
    OpenPowerBusy s ↔ s.ipmiMsgq = [] ∨ UnderWay s := by
  cases h.slot with
  | free waiting inprogress worker results =>
      exact iff_of_true (fun more => absurd waiting more) (.inl waiting)
  | working e inprogress worker results =>
      refine iff_of_true (fun _ => ⟨e, by simp [inprogress], .inl (by simp [worker])⟩) ?_
      exact .inr (.inl (by simp [worker]))
  | returning e result inprogress worker results =>
      refine iff_of_true
        (fun _ => ⟨e, by simp [inprogress], .inr ⟨result, by simp [results]⟩⟩) ?_
      exact .inr (.inr (by simp [results]))
  | lost e inprogress worker results =>
      constructor
      · intro hbusy
        by_contra hnot
        obtain ⟨e', -, hjob | ⟨result, hresult⟩⟩ := hbusy (not_or.mp hnot).1
        · simp [worker] at hjob
        · simp [results] at hresult
      · rintro (hempty | hworker | hresults)
        · exact fun more => absurd hempty more
        · exact absurd worker hworker
        · exact absurd results hresults

/-- A dequeue with the slot empty hands a message on if one waits. -/
theorem ipmiDequeue_jobSlot {s : State κ} (network : s.network = true)
    (waiting : ∀ item ∈ s.ipmiMsgq, item.tag = s.name) (inprogress : s.inprogress = [])
    (worker : s.worker = []) (results : s.results = []) :
    OpenPowerInv (ipmiDequeue s) ∧ OpenPowerBusy (ipmiDequeue s) := by
  have hinv : OpenPowerInv (ipmiDequeue s) ∧
      ((ipmiDequeue s).ipmiMsgq = [] ∨ UnderWay (ipmiDequeue s)) := by
    unfold ipmiDequeue
    rw [if_neg (by simp [network])]
    split
    · rename_i hmsgq
      exact ⟨⟨network, waiting, by simp [inprogress], .free hmsgq inprogress worker results⟩,
        .inl hmsgq⟩
    · rename_i item rest hmsgq
      have hlookup : ¬ (lookupTag item.tag s.inprogress).isSome := by
        simp [lookupTag, inprogress]
      have htable : (s.sendToWorker item rest).inprogress = [{ item with after := none }] := by
        show s.inprogress ++ [({ item with after := none } : InProgress κ)] = _
        rw [inprogress, List.nil_append]
      have hworker : (s.sendToWorker item rest).worker = [jobOf item] := by
        show s.worker ++ [jobOf item] = _
        rw [worker, List.nil_append]
      rw [if_neg hlookup]
      refine ⟨⟨network, fun other hother => ?_, fun e he => ?_, .working _ htable hworker results⟩,
        .inr (.inl (by simp [hworker]))⟩
      · exact waiting other (by rw [hmsgq]; exact List.mem_cons_of_mem _ hother)
      · rw [htable, List.mem_singleton] at he
        rw [he]
        exact waiting item (by simp [hmsgq])
  exact ⟨hinv.1, hinv.1.busy_iff.mpr hinv.2⟩

/-- With a message in the slot a dequeue does nothing. -/
theorem ipmiDequeue_of_taken {s : State κ} {e : InProgress κ}
    (waiting : ∀ item ∈ s.ipmiMsgq, item.tag = s.name) (tag : e.tag = s.name)
    (inprogress : s.inprogress = [e]) : ipmiDequeue s = s := by
  unfold ipmiDequeue
  split
  · rfl
  · split
    · rfl
    · rename_i item rest hmsgq
      have hitem : item.tag = s.name := waiting item (by simp [hmsgq])
      rw [if_pos (by simp [lookupTag, inprogress, tag, hitem])]

private theorem length_enqueueMessage (s : State κ) (position : Position) (item : Item κ) :
    (s.enqueueMessage position item).ipmiMsgq.length = s.ipmiMsgq.length + 1 :=
  (enqueue_perm Item.priority position item s.ipmiMsgq).length_eq

private theorem enqueueMessage_tagged {s : State κ}
    (waiting : ∀ item ∈ s.ipmiMsgq, item.tag = s.name)
    (r : Request κ) :
    ∀ item ∈ (s.enqueueMessage .back (r.item s.name s.timeout)).ipmiMsgq, item.tag = s.name := by
  intro item hitem
  have hmem := (enqueue_perm Item.priority .back _ s.ipmiMsgq).subset hitem
  obtain rfl | hmem := List.mem_cons.mp hmem
  · rfl
  · exact waiting item hmem

/-- A message put on an empty queue is handed on if the slot is empty. -/
theorem ipmiQueue_of_free {s : State κ} (network : s.network = true) (msgq : s.ipmiMsgq = [])
    (inprogress : s.inprogress = []) (worker : s.worker = []) (results : s.results = [])
    (r : Request κ) :
    OpenPowerInv (ipmiQueue r .back s) ∧ OpenPowerBusy (ipmiQueue r .back s) := by
  have hlength := length_enqueueMessage s .back (r.item s.name s.timeout)
  unfold ipmiQueue
  rw [if_pos (by rw [hlength, msgq]; rfl)]
  exact ipmiDequeue_jobSlot network (enqueueMessage_tagged (by simp [msgq]) r) inprogress worker
    results

/-- A message put on a queue with others in it is not handed on, and no other is. -/
theorem ipmiQueue_of_waiting {s : State κ} (waiting : s.ipmiMsgq ≠ []) (r : Request κ)
    (position : Position) :
    ipmiQueue r position s = s.enqueueMessage position (r.item s.name s.timeout) := by
  have hlength := length_enqueueMessage s position (r.item s.name s.timeout)
  have hpos := List.length_pos_of_ne_nil waiting
  unfold ipmiQueue
  rw [if_neg (by omega)]

/-- With a message in the slot a request is put on the queue. -/
theorem ipmiQueue_of_taken {s : State κ} {e : InProgress κ}
    (waiting : ∀ item ∈ s.ipmiMsgq, item.tag = s.name) (tag : e.tag = s.name)
    (inprogress : s.inprogress = [e]) (r : Request κ) :
    ipmiQueue r .back s = s.enqueueMessage .back (r.item s.name s.timeout) := by
  have htaken : ipmiDequeue (s.enqueueMessage .back (r.item s.name s.timeout)) =
      s.enqueueMessage .back (r.item s.name s.timeout) :=
    ipmiDequeue_of_taken (s := s.enqueueMessage .back (r.item s.name s.timeout))
      (enqueueMessage_tagged waiting r) tag inprogress
  unfold ipmiQueue
  rw [htaken, ite_self]

/-- Another queue changes nothing for the message in the slot. -/
theorem JobSlot.congr {s t : State κ} (slot : JobSlot s) {e : InProgress κ}
    (taken : s.inprogress = [e]) (inprogress : t.inprogress = s.inprogress)
    (worker : t.worker = s.worker) (results : t.results = s.results) : JobSlot t := by
  cases slot with
  | free _ hfree _ _ => exact absurd (taken.symm.trans hfree) (List.cons_ne_nil e [])
  | working e htable hworker hresults =>
      exact .working e (inprogress.trans htable) (worker.trans hworker) (results.trans hresults)
  | returning e result htable hworker hresults =>
      exact .returning e result (inprogress.trans htable) (worker.trans hworker)
        (results.trans hresults)
  | lost e htable hworker hresults =>
      exact .lost e (inprogress.trans htable) (worker.trans hworker) (results.trans hresults)

/-- The slot is free, or the invariant names the message in it. -/
theorem OpenPowerInv.taken {s : State κ} (h : OpenPowerInv s) :
    (s.ipmiMsgq = [] ∧ s.inprogress = [] ∧ s.worker = [] ∧ s.results = []) ∨
      ∃ e, s.inprogress = [e] ∧ e.tag = s.name := by
  have htagged : ∀ e, s.inprogress = [e] → e.tag = s.name :=
    fun e htable => h.tagged e (by simp [htable])
  cases h.slot with
  | free waiting inprogress worker results =>
      exact .inl ⟨waiting, inprogress, worker, results⟩
  | working e inprogress worker results => exact .inr ⟨e, inprogress, htagged e inprogress⟩
  | returning e result inprogress worker results =>
      exact .inr ⟨e, inprogress, htagged e inprogress⟩
  | lost e inprogress worker results => exact .inr ⟨e, inprogress, htagged e inprogress⟩

/-- Queueing a request keeps the invariant, and leaves the host busy exactly when the slot is
free or the message in it is not lost. -/
theorem ipmiQueue_jobSlot {s : State κ} (h : OpenPowerInv s) (r : Request κ) :
    OpenPowerInv (ipmiQueue r .back s) ∧
      (OpenPowerBusy (ipmiQueue r .back s) ↔ s.inprogress = [] ∨ UnderWay s) := by
  obtain ⟨hempty, hfree, hworker, hresults⟩ | ⟨e, htable, htag⟩ := h.taken
  · obtain ⟨hinv, hbusy⟩ := ipmiQueue_of_free h.network hempty hfree hworker hresults r
    exact ⟨hinv, iff_of_true hbusy (.inl hfree)⟩
  · have hqueued := ipmiQueue_of_taken h.waiting htag htable r
    have hinv : OpenPowerInv (s.enqueueMessage .back (r.item s.name s.timeout)) :=
      ⟨h.network, enqueueMessage_tagged h.waiting r, h.tagged, h.slot.congr htable rfl rfl rfl⟩
    have hmore : (s.enqueueMessage .back (r.item s.name s.timeout)).ipmiMsgq ≠ [] := by
      refine List.ne_nil_of_length_pos ?_
      rw [length_enqueueMessage]
      exact Nat.succ_pos _
    have htaken : s.inprogress ≠ [] := by simp [htable]
    rw [hqueued]
    refine ⟨hinv, hinv.busy_iff.trans ?_⟩
    simp only [hmore, false_or, htaken]
    exact Iff.rfl

/-- Taking the result of the message in the slot keeps the invariant and leaves the host busy,
unless it is empty and requests wait. -/
theorem takeResult_jobSlot (interp : Interp) {s : State κ} (h : OpenPowerInv s) {e : InProgress κ}
    {result : Text} (inprogress : s.inprogress = [e]) (worker : s.worker = [])
    (results : s.results = [(e.tag, result)]) (alone : result = [] → s.ipmiMsgq = []) :
    OpenPowerInv (takeResult interp s).state ∧ OpenPowerBusy (takeResult interp s).state := by
  by_cases hempty : result = []
  · subst hempty
    rw [takeResult_of_empty interp inprogress results]
    exact ipmiQueue_of_free (s := s.freed) h.network (alone rfl) rfl worker rfl e.repost
  · have hnext : OpenPowerInv (ipmiDequeue s.freed) ∧ OpenPowerBusy (ipmiDequeue s.freed) :=
      ipmiDequeue_jobSlot (s := s.freed) h.network h.waiting rfl worker rfl
    cases hdecode : interp.decode result with
    | none =>
        rw [takeResult_of_unread inprogress results hempty hdecode]
        exact hnext
    | some read =>
        rw [takeResult_of_read inprogress results hempty hdecode]
        refine ⟨⟨hnext.1.network, hnext.1.waiting, hnext.1.tagged, ?_⟩, hnext.2⟩
        cases hnext.1.slot with
        | free waiting inprogress worker results =>
            exact .free waiting inprogress worker results
        | working e inprogress worker results => exact .working e inprogress worker results
        | returning e result inprogress worker results =>
            exact .returning e result inprogress worker results
        | lost e inprogress worker results => exact .lost e inprogress worker results

/-- An empty result that is taken while requests wait runs no callback and leaves the host
idle. -/
theorem takeResult_idle (interp : Interp) {s : State κ} {e : InProgress κ}
    (inprogress : s.inprogress = [e]) (results : s.results = [(e.tag, [])])
    (waiting : s.ipmiMsgq ≠ []) :
    (callbacksSince s (takeResult interp s).state).head? = none ∧
      ¬ OpenPowerBusy (takeResult interp s).state := by
  have hqueued : ipmiQueue e.repost .back s.freed =
      s.freed.enqueueMessage .back (e.repost.item s.freed.name s.freed.timeout) :=
    ipmiQueue_of_waiting (s := s.freed) waiting e.repost .back
  rw [takeResult_of_empty interp inprogress results, hqueued]
  constructor
  · simp [callbacksSince, State.enqueueMessage, State.freed]
  · intro hbusy
    obtain ⟨e', he', -⟩ := hbusy (List.ne_nil_of_length_pos (by
      rw [length_enqueueMessage]
      exact Nat.succ_pos _))
    exact absurd he' List.not_mem_nil

/-- The worker's job sends its result, or raises. -/
theorem ipmi_inv (interp : Interp) {s : State κ} (h : OpenPowerInv s) (run : ToolRun) :
    OpenPowerInv (ipmi interp run s) := by
  cases h.slot with
  | free waiting inprogress worker results =>
      have hsame : ipmi interp run s = s := by simp [ipmi, worker]
      rwa [hsame]
  | returning e result inprogress worker results =>
      have hsame : ipmi interp run s = s := by simp [ipmi, worker]
      rwa [hsame]
  | lost e inprogress worker results =>
      have hsame : ipmi interp run s = s := by simp [ipmi, worker]
      rwa [hsame]
  | working e inprogress worker results =>
      cases hrun : doipmi interp.longBits run with
      | none =>
          have hipmi : ipmi interp run s = { s with worker := [] } := by simp [ipmi, worker, hrun]
          rw [hipmi]
          exact ⟨h.network, h.waiting, h.tagged, .lost e inprogress rfl results⟩
      | some result =>
          have hipmi : ipmi interp run s =
              { s with worker := [], results := [(e.tag, result)] } := by
            simp [ipmi, worker, hrun, results, jobOf]
          rw [hipmi]
          exact ⟨h.network, h.waiting, h.tagged, .returning e result inprogress rfl rfl⟩

/-- A health tick keeps the invariant. -/
theorem ipmiHealth_inv {s : State κ} (h : OpenPowerInv s) : OpenPowerInv (ipmiHealth s) := by
  unfold ipmiHealth
  obtain ⟨-, hfree, hworker, hresults⟩ | ⟨e, htable, htag⟩ := h.taken
  · exact (ipmiDequeue_jobSlot h.network h.waiting hfree hworker hresults).1
  · rw [ipmiDequeue_of_taken h.waiting htag htable]
    exact h

/-- A result comes for the message in the slot. -/
theorem OpenPowerInv.returning {s : State κ} (h : OpenPowerInv s) (results : s.results ≠ []) :
    ∃ e result, s.inprogress = [e] ∧ s.worker = [] ∧ s.results = [(e.tag, result)] := by
  cases h.slot with
  | free _ _ _ hresults => exact absurd hresults results
  | working _ _ _ hresults => exact absurd hresults results
  | returning e result htable hworker hresults => exact ⟨e, result, htable, hworker, hresults⟩
  | lost _ _ _ hresults => exact absurd hresults results

/-- An event that meets its condition keeps the invariant. -/
theorem openpowerHandle_inv (interp : Interp) (s : State κ) (event : Event κ)
    (h : OpenPowerInv s) (admits : (openpowerOn interp κ).admissible s event)
    (condition : HandsOnJobs s event) : OpenPowerInv (openpowerHandle interp s event).1 := by
  cases event with
  | ipmiQueue r => exact (ipmiQueue_jobSlot h r).1
  | ipmiHealth => exact ipmiHealth_inv h
  | ipmi run => exact ipmi_inv _ h run
  | network on =>
      have hon : on = true := admits
      subst hon
      obtain ⟨hmsgq, hfree, hworker, hresults⟩ | ⟨e, htable, htag⟩ := h.taken
      · exact ⟨rfl, h.waiting, h.tagged, .free hmsgq hfree hworker hresults⟩
      · exact ⟨rfl, h.waiting, h.tagged, h.slot.congr htable rfl rfl rfl⟩
  | configure timeout =>
      obtain ⟨hmsgq, hfree, hworker, hresults⟩ | ⟨e, htable, htag⟩ := h.taken
      · exact ⟨h.network, h.waiting, h.tagged, .free hmsgq hfree hworker hresults⟩
      · exact ⟨h.network, h.waiting, h.tagged, h.slot.congr htable rfl rfl rfl⟩
  | ipmiProcess =>
      obtain ⟨e, result, htable, hworker, hresults⟩ := h.returning admits
      have halone : result = [] → s.ipmiMsgq = [] := by
        intro hempty
        exact condition (by rw [hresults, hempty]; rfl)
      exact (takeResult_jobSlot interp h htable hworker hresults halone).1

/-- A step that meets the condition keeps the invariant. -/
theorem openpowerStep_inv (interp : Interp) (w : Suspended (State κ) (Item κ))
    (h : Happening (Event κ)) (inv : OpenPowerInv w.state)
    (admits : (openpowerOn interp κ).Admissible w h) (meets : OpenPowerCondition w h) :
    OpenPowerInv ((openpowerOn interp κ).step w h).state := by
  refine (openpowerOn interp κ).step_invariant (C := HandsOnJobs)
    (openpowerHandle_inv interp) (fun _ _ h => h) w h inv admits ?_
  rintro event rfl
  exact meets

/-- One step from the invariant leaves the host busy exactly when it meets the condition. -/
theorem openpowerStep_iff (interp : Interp) (w : Suspended (State κ) (Item κ))
    (h : Happening (Event κ)) (inv : OpenPowerInv w.state)
    (admits : (openpowerOn interp κ).Admissible w h) :
    LeavesBusy (openpowerOn interp κ) openpowerHandled OpenPowerBusy w h ↔
      OpenPowerCondition w h := by
  cases h with
  | returns =>
      -- what is left of a handler changes nothing
      have hstate : ((openpowerOn interp κ).step w .returns).state = w.state := by
        obtain ⟨s, stack⟩ := w
        cases stack with
        | nil => rfl
        | cons frame stack => rfl
      have hends : (openpowerOn interp κ).Ends w .returns := fun _ _ => rfl
      rw [LeavesBusy, hstate, inv.busy_iff]
      exact ⟨fun h => h hends trivial, fun h _ _ => h⟩
  | occurs event =>
      cases event with
      | ipmiQueue r =>
          have hbusy := (ipmiQueue_jobSlot inv r).2
          exact ⟨fun h => hbusy.mp (h rfl trivial), fun h _ _ => hbusy.mpr h⟩
      | ipmiProcess =>
          obtain ⟨e, result, htable, hworker, hresults⟩ := inv.returning admits
          constructor
          · intro hleaves hempty
            by_contra hwaiting
            rw [hresults] at hempty
            obtain rfl : result = [] := Option.some.inj hempty
            obtain ⟨hends, hidle⟩ := takeResult_idle interp htable hresults hwaiting
            exact hidle (hleaves hends trivial)
          · intro hmeets _ _
            have halone : result = [] → w.state.ipmiMsgq = [] := by
              intro hempty
              exact hmeets (by rw [hresults, hempty]; rfl)
            exact (takeResult_jobSlot interp inv htable hworker hresults halone).2
      | ipmiHealth => exact iff_of_true (fun _ handled => absurd handled id) trivial
      | ipmi run => exact iff_of_true (fun _ handled => absurd handled id) trivial
      | network on => exact iff_of_true (fun _ handled => absurd handled id) trivial
      | configure timeout => exact iff_of_true (fun _ handled => absurd handled id) trivial

/-- With the network on throughout, the host is left busy in a run exactly when every empty
result is taken while no request waits, and no request waits for a message that is lost. -/
theorem openpower_busy_iff (interp : Interp) {s : State κ} (fresh : s.Fresh)
    (network : s.network = true) {happenings : List (Happening (Event κ))}
    (admits : (openpowerOn interp κ).machine.Admits ⟨s, []⟩ happenings) :
    (openpowerOn interp κ).machine.EachStep
        (LeavesBusy (openpowerOn interp κ) openpowerHandled OpenPowerBusy) ⟨s, []⟩ happenings ↔
      (openpowerOn interp κ).machine.EachStep OpenPowerCondition ⟨s, []⟩ happenings := by
  have hqueue : s.ipmiMsgq = [] ∧ s.inprogress = [] := by simp [fresh.queue]
  have hstart : OpenPowerInv s :=
    ⟨network, by simp [hqueue.1], by simp [hqueue.2],
      .free hqueue.1 hqueue.2 fresh.worker fresh.results⟩
  exact (openpowerOn interp κ).machine.eachStep_iff_of_invariant
    (fun w h (inv : OpenPowerInv w.state) => openpowerStep_inv interp w h inv)
    (openpowerStep_iff interp) hstart admits

end OpenPower

/-! ## localhost -/

section LocalHost

open LocalHost

/-- What happens to the session, or to its worker. -/
inductive WorkerEvent (κ : Type u)
  | session (event : Event κ)
  /-- `doipmi` raises on the oldest message of the worker, since the tool cannot be started or
  its pipe not be closed, and nothing is sent back. -/
  | fails

variable (interp : Interp)

def workerHandle (w : World κ) : WorkerEvent κ → World κ × Option (Frame κ)
  | .session event => handle (localhost interp) w event
  | .fails => ({ w with session := { w.session with owed := w.session.owed.drop 1 } }, none)

def workerAdmissible (w : World κ) : WorkerEvent κ → Prop
  | .session event => LocalHost.admissible w event
  | .fails => w.session.owed ≠ []

instance (w : World κ) : DecidablePred (workerAdmissible w)
  | .session event => inferInstanceAs (Decidable (LocalHost.admissible w event))
  | .fails => inferInstanceAs (Decidable (w.session.owed ≠ []))

/-- The session and its worker. -/
def localWithWorker (κ : Type u) : Reentrant (World κ) (WorkerEvent κ) (Frame κ) where
  admissible := workerAdmissible
  handle := workerHandle interp
  resume := (reentrant (localhost interp) κ).resume

instance (w : World κ) : DecidablePred ((localWithWorker interp κ).admissible w) :=
  inferInstanceAs (DecidablePred (workerAdmissible w))

/-- The event is a queue operation or a response. -/
def localHandled : WorkerEvent κ → Prop
  | .session (.ipmiQueue _) | .session (.ipmiProcess _) => True
  | .session .ipmiHealth | .session (.network _) | .fails => False

/-- If requests wait, one is in progress at the worker: it has been handed over, its job has not
raised and its result has not come. -/
def LocalBusy (s : State κ) : Prop :=
  s.ipmiMsgq ≠ [] → ∃ e ∈ s.inprogress, e.toItem ∈ s.owed

/-- The condition: a request is queued while the slot is free or the worker has the message in
it, and a result that is taken while requests wait is not empty and can be read. -/
def HandsOn (w : World κ) : WorkerEvent κ → Prop
  | .session (.ipmiQueue _) => w.session.inprogress = [] ∨ w.session.owed ≠ []
  | .session (.ipmiProcess result) =>
    w.session.ipmiMsgq = [] ∨ (result ≠ [] ∧ (interp.decode result).isSome)
  | .session .ipmiHealth | .session (.network _) | .fails => True

instance (w : World κ) : DecidablePred (HandsOn interp w)
  | .session (.ipmiQueue _) =>
    inferInstanceAs (Decidable (w.session.inprogress = [] ∨ w.session.owed ≠ []))
  | .session (.ipmiProcess result) => inferInstanceAs (Decidable (w.session.ipmiMsgq = [] ∨
      (result ≠ [] ∧ (interp.decode result).isSome)))
  | .session .ipmiHealth | .session (.network _) | .fails => isTrue trivial

/-- Where the message in the slot is. -/
inductive Slot (s : State κ) : List (Frame κ) → Prop
  /-- There is none, and then none waits. -/
  | free (waiting : s.ipmiMsgq = []) (inprogress : s.inprogress = []) (owed : s.owed = []) :
      Slot s []
  | atWorker (e : InProgress κ) (inprogress : s.inprogress = [e]) (owed : s.owed = [e.toItem]) :
      Slot s []
  /-- Its result could not be read, or its job has raised. -/
  | lost (e : InProgress κ) (inprogress : s.inprogress = [e]) (owed : s.owed = []) : Slot s []
  /-- Its callback has not returned. -/
  | called (e : InProgress κ) (inprogress : s.inprogress = [e]) (owed : s.owed = [])
      (item : Item κ) : Slot s [⟨e.tag, item⟩]

/-- Only the queue, the table and what is owed matter. -/
theorem Slot.congr {s t : State κ} {stack : List (Frame κ)} (slot : Slot s stack)
    (ipmiMsgq : t.ipmiMsgq = s.ipmiMsgq) (inprogress : t.inprogress = s.inprogress)
    (owed : t.owed = s.owed) : Slot t stack := by
  cases slot with
  | free waiting hfree howed =>
      exact .free (ipmiMsgq.trans waiting) (inprogress.trans hfree) (owed.trans howed)
  | atWorker e htable howed => exact .atWorker e (inprogress.trans htable) (owed.trans howed)
  | lost e htable howed => exact .lost e (inprogress.trans htable) (owed.trans howed)
  | called e htable howed item =>
      exact .called e (inprogress.trans htable) (owed.trans howed) item

/-- The invariant. -/
structure LocalInv (w : Suspended (World κ) (Frame κ)) : Prop where
  named : Named w.state.session
  slot : Slot w.state.session w.stack

private theorem passes_localhost (s : State κ) : s.passes (localhost interp) :=
  fun h => absurd h Bool.false_ne_true

/-- A dequeue with the slot empty hands a message on if one waits. -/
theorem ipmiDequeue_slot {s : State κ} (named : Named s) (inprogress : s.inprogress = [])
    (owed : s.owed = []) :
    Named (ipmiDequeue (localhost interp) s) ∧ Slot (ipmiDequeue (localhost interp) s) [] ∧
      LocalBusy (ipmiDequeue (localhost interp) s) := by
  obtain ⟨hempty, hsame⟩ | ⟨item, rest, hsorted, hnext⟩ :=
    ipmiDequeue_of_free (localhost interp) inprogress
  · rw [hsame]
    exact ⟨named, .free hempty inprogress owed, fun waiting => absurd hempty waiting⟩
  · have htable := handOver_inprogress (localhost interp) s item rest inprogress
    have howed : (s.sortQueue.handOver (localhost interp) item rest).owed = [item] := by
      rw [handOver_owed, if_pos (passes_localhost interp _)]
      show s.owed ++ [item] = [item]
      rw [owed, List.nil_append]
    rw [hnext]
    refine ⟨named.handOver (localhost interp) inprogress hsorted, .atWorker _ htable howed,
      fun _ => ?_⟩
    rw [htable, howed]
    exact ⟨_, List.mem_cons_self, List.mem_cons_self⟩

private theorem length_enqueueMessage_local (s : LocalHost.State κ) (item : Item κ) :
    (s.enqueueMessage .back item).ipmiMsgq.length = s.ipmiMsgq.length + 1 := by
  show (s.ipmiMsgq ++ [item]).length = _
  rw [List.length_append, List.length_singleton]

/-- With a message in the slot a request is put on the queue, which may be sorted then. -/
theorem ipmiQueue_taken {s : State κ} (named : Named s) {e : InProgress κ}
    (inprogress : s.inprogress = [e]) (r : Request κ) :
    Named (ipmiQueue (localhost interp) r .back s) ∧
      (ipmiQueue (localhost interp) r .back s).inprogress = [e] ∧
      (ipmiQueue (localhost interp) r .back s).owed = s.owed ∧
      (ipmiQueue (localhost interp) r .back s).ipmiMsgq ≠ [] := by
  have hqueued : Named (s.enqueueMessage .back (r.item s.name 10000)) :=
    named.enqueueMessage .back rfl
  have hmore : (s.enqueueMessage .back (r.item s.name 10000)).ipmiMsgq ≠ [] := by
    refine List.ne_nil_of_length_pos ?_
    rw [length_enqueueMessage_local]
    exact Nat.succ_pos _
  unfold LocalHost.ipmiQueue
  split
  · rw [ipmiDequeue_of_busy (localhost interp) hqueued inprogress]
    refine ⟨hqueued.sortQueue, inprogress, rfl, fun hnone => hmore ?_⟩
    exact ((sort_perm Item.priority _).symm.trans (List.Perm.of_eq hnone)).eq_nil
  · exact ⟨hqueued, inprogress, rfl, hmore⟩

/-- A request put on an empty queue is handed on if the slot is empty. -/
theorem ipmiQueue_free {s : State κ} (named : Named s) (waiting : s.ipmiMsgq = [])
    (inprogress : s.inprogress = []) (owed : s.owed = []) (r : Request κ) :
    Named (ipmiQueue (localhost interp) r .back s) ∧
      Slot (ipmiQueue (localhost interp) r .back s) [] ∧
      LocalBusy (ipmiQueue (localhost interp) r .back s) := by
  have hqueued : Named (s.enqueueMessage .back (r.item s.name 10000)) :=
    named.enqueueMessage .back rfl
  have hlength := length_enqueueMessage_local s (r.item s.name 10000)
  unfold LocalHost.ipmiQueue
  rw [if_pos (by rw [hlength, waiting]; rfl)]
  exact ipmiDequeue_slot interp hqueued inprogress owed

/-- A message put on a queue with others in it is not handed on, and no other is. -/
theorem ipmiQueue_idle {s : State κ} (waiting : s.ipmiMsgq ≠ []) (inprogress : s.inprogress = [])
    (r : Request κ) : ¬ LocalBusy (ipmiQueue (localhost interp) r .back s) := by
  have hlength := length_enqueueMessage_local s (r.item s.name 10000)
  have hpos := List.length_pos_of_ne_nil waiting
  unfold LocalHost.ipmiQueue
  rw [if_neg (by omega)]
  intro hbusy
  obtain ⟨e, he, -⟩ := hbusy (List.ne_nil_of_length_pos (by omega))
  have hmem : e ∈ s.inprogress := he
  rw [inprogress] at hmem
  exact absurd hmem List.not_mem_nil

/-- Queueing a request keeps the invariant, and leaves the host busy exactly when the message
in the slot, if there is one, is at the worker. -/
theorem ipmiQueue_slot {s : State κ} {stack : List (Frame κ)} (named : Named s)
    (slot : Slot s stack) (r : Request κ) :
    Named (ipmiQueue (localhost interp) r .back s) ∧
      Slot (ipmiQueue (localhost interp) r .back s) stack ∧
      (LocalBusy (ipmiQueue (localhost interp) r .back s) ↔ s.inprogress = [] ∨ s.owed ≠ []) := by
  cases slot with
  | free waiting inprogress owed =>
      obtain ⟨hnamed, hslot, hbusy⟩ := ipmiQueue_free interp named waiting inprogress owed r
      exact ⟨hnamed, hslot, iff_of_true hbusy (Or.inl inprogress)⟩
  | atWorker e inprogress owed =>
      obtain ⟨hnamed, htable, howed, -⟩ := ipmiQueue_taken interp named inprogress r
      rw [owed] at howed
      refine ⟨hnamed, .atWorker e htable howed, iff_of_true (fun _ => ⟨e, ?_, ?_⟩) (Or.inr ?_)⟩
      · simp [htable]
      · simp [howed]
      · simp [owed]
  | lost e inprogress owed =>
      obtain ⟨hnamed, htable, howed, hmore⟩ := ipmiQueue_taken interp named inprogress r
      rw [owed] at howed
      refine ⟨hnamed, .lost e htable howed, iff_of_false (fun hbusy => ?_) ?_⟩
      · obtain ⟨e', -, hmem⟩ := hbusy hmore
        simp [howed] at hmem
      · simp [inprogress, owed]
  | called e inprogress owed item =>
      obtain ⟨hnamed, htable, howed, hmore⟩ := ipmiQueue_taken interp named inprogress r
      rw [owed] at howed
      refine ⟨hnamed, .called e htable howed item, iff_of_false (fun hbusy => ?_) ?_⟩
      · obtain ⟨e', -, hmem⟩ := hbusy hmore
        simp [howed] at hmem
      · simp [inprogress, owed]

/-- A health tick keeps the invariant. -/
theorem ipmiHealth_slot {s : State κ} {stack : List (Frame κ)} (named : Named s)
    (slot : Slot s stack) :
    Named (ipmiHealth (localhost interp) s) ∧ Slot (ipmiHealth (localhost interp) s) stack := by
  unfold ipmiHealth
  cases slot with
  | free waiting inprogress owed =>
      obtain ⟨hnamed, hslot, -⟩ := ipmiDequeue_slot interp named inprogress owed
      exact ⟨hnamed, hslot⟩
  | atWorker e inprogress owed =>
      rw [ipmiDequeue_of_busy (localhost interp) named inprogress]
      exact ⟨named.sortQueue, .atWorker e inprogress owed⟩
  | lost e inprogress owed =>
      rw [ipmiDequeue_of_busy (localhost interp) named inprogress]
      exact ⟨named.sortQueue, .lost e inprogress owed⟩
  | called e inprogress owed item =>
      rw [ipmiDequeue_of_busy (localhost interp) named inprogress]
      exact ⟨named.sortQueue, .called (s := s.sortQueue) e inprogress owed item⟩

/-- What is left of `ipmi_process` after the callback hands the next message on. -/
theorem finish_slot {s : State κ} (named : Named s) {e : InProgress κ}
    (inprogress : s.inprogress = [e]) (owed : s.owed = []) :
    Named (finish (localhost interp) e.tag s) ∧ Slot (finish (localhost interp) e.tag s) [] ∧
      LocalBusy (finish (localhost interp) e.tag s) := by
  have hfree := unsetInprogress_of_single inprogress
  exact ipmiDequeue_slot interp (s := s.unsetInprogress e.tag)
    ⟨named.waiting, by simp [hfree], Or.inl hfree⟩ hfree owed

/-- The result of the message in the slot: if it meets the condition, the next message is
handed on or the callback runs. -/
theorem ipmiProcess_slot {s : State κ} (named : Named s) {e : InProgress κ}
    (inprogress : s.inprogress = [e]) (owed : s.owed = []) {result : Text}
    (condition : s.ipmiMsgq = [] ∨ (result ≠ [] ∧ (interp.decode result).isSome)) :
    Named (ipmiProcess (localhost interp) e.tag result s).1.state ∧
      Slot (ipmiProcess (localhost interp) e.tag result s).1.state
        (ipmiProcess (localhost interp) e.tag result s).2.toList ∧
      ((ipmiProcess (localhost interp) e.tag result s).2 = none →
        LocalBusy (ipmiProcess (localhost interp) e.tag result s).1.state) := by
  have hlookup : lookupTag e.tag s.inprogress = some e := by simp [lookupTag, inprogress]
  have hfree := unsetInprogress_of_single inprogress
  unfold ipmiProcess
  by_cases hempty : result = []
  · have hwaiting : s.ipmiMsgq = [] := condition.resolve_right fun h => h.1 hempty
    rw [if_pos hempty, hlookup]
    obtain ⟨hnamed, hslot, hbusy⟩ := ipmiQueue_free interp (s := s.unsetInprogress e.tag)
      ⟨named.waiting, by simp [hfree], Or.inl hfree⟩ hwaiting hfree owed (repost e)
    exact ⟨hnamed, hslot, fun _ => hbusy⟩
  · have hread : (localhost interp).decode = interp.decode := rfl
    rw [if_neg hempty, hread]
    cases hdecode : interp.decode result with
    | none =>
        have hwaiting : s.ipmiMsgq = [] := condition.resolve_right fun h => by simp [hdecode] at h
        exact ⟨named, .lost e inprogress owed, fun _ more => absurd hwaiting more⟩
    | some read =>
        obtain ⟨status, databytes⟩ := read
        simp only [hlookup]
        cases e.callback with
        | none =>
            obtain ⟨hnamed, hslot, hbusy⟩ := finish_slot interp
              (s := s.emit (.answered e.toItem status databytes))
              ⟨named.waiting, named.tagged, named.single⟩ inprogress owed
            exact ⟨hnamed, hslot, fun _ => hbusy⟩
        | some callback =>
            exact ⟨⟨named.waiting, named.tagged, named.single⟩,
              .called (s := s.emit (.answered e.toItem status databytes)) e inprogress owed
                e.toItem, by simp⟩

/-- A result that misses the condition leaves the host idle. -/
theorem ipmiProcess_idle {s : State κ} {e : InProgress κ}
    (inprogress : s.inprogress = [e]) (owed : s.owed = []) {result : Text}
    (misses : ¬ (s.ipmiMsgq = [] ∨ (result ≠ [] ∧ (interp.decode result).isSome))) :
    (ipmiProcess (localhost interp) e.tag result s).2 = none ∧
      ¬ LocalBusy (ipmiProcess (localhost interp) e.tag result s).1.state := by
  have hlookup : lookupTag e.tag s.inprogress = some e := by simp [lookupTag, inprogress]
  obtain ⟨hwaiting, hresult⟩ := not_or.mp misses
  unfold ipmiProcess
  by_cases hempty : result = []
  · rw [if_pos hempty, hlookup]
    exact ⟨rfl, ipmiQueue_idle interp (s := s.unsetInprogress e.tag) hwaiting
      (unsetInprogress_of_single inprogress) (repost e)⟩
  · have hread : (localhost interp).decode = interp.decode := rfl
    rw [if_neg hempty, hread]
    cases hdecode : interp.decode result with
    | none =>
        refine ⟨rfl, fun hbusy => ?_⟩
        obtain ⟨e', -, hmem⟩ := hbusy hwaiting
        rw [Outcome.raise_state, owed] at hmem
        exact absurd hmem List.not_mem_nil
    | some read => exact absurd ⟨hempty, by rw [hdecode, Option.isSome_some]⟩ hresult

/-- A result comes for the message in the slot. -/
theorem LocalInv.owed {w : Suspended (World κ) (Frame κ)} (h : LocalInv w)
    (admits : w.state.session.owed ≠ []) :
    ∃ e, w.state.session.inprogress = [e] ∧ w.state.session.owed = [e.toItem] ∧ w.stack = [] := by
  obtain ⟨⟨s, accepted⟩, stack⟩ := w
  obtain ⟨named, slot⟩ := h
  simp only at slot admits
  cases slot with
  | free waiting inprogress owed => exact absurd owed admits
  | atWorker e inprogress owed => exact ⟨e, inprogress, owed, rfl⟩
  | lost e inprogress owed => exact absurd owed admits
  | called e inprogress owed item => exact absurd owed admits

/-- The step of a result. -/
theorem step_ipmiProcess {w : Suspended (World κ) (Frame κ)} {e : InProgress κ}
    (owed : w.state.session.owed = [e.toItem]) (stack : w.stack = []) (result : Text) :
    ((localWithWorker interp κ).step w (.occurs (.session (.ipmiProcess result)))).state =
        { w.state with
          session := (ipmiProcess (localhost interp) e.tag result
            { w.state.session with owed := [] }).1.state } ∧
      ((localWithWorker interp κ).step w (.occurs (.session (.ipmiProcess result)))).stack =
        (ipmiProcess (localhost interp) e.tag result { w.state.session with owed := [] }).2.toList ∧
      ((localWithWorker interp κ).handle w.state (.session (.ipmiProcess result))).2 =
        (ipmiProcess (localhost interp) e.tag result { w.state.session with owed := [] }).2 := by
  have hhandle : (localWithWorker interp κ).handle w.state (.session (.ipmiProcess result)) =
      ({ w.state with
          session := (ipmiProcess (localhost interp) e.tag result
            { w.state.session with owed := [] }).1.state },
        (ipmiProcess (localhost interp) e.tag result { w.state.session with owed := [] }).2) := by
    show handle (localhost interp) w.state (.ipmiProcess result) = _
    simp only [handle, owed, receive, if_pos (passes_localhost interp _)]
  refine ⟨congrArg Prod.fst hhandle, ?_, congrArg Prod.snd hhandle⟩
  show (Reentrant.push ((localWithWorker interp κ).handle w.state
    (.session (.ipmiProcess result))) w.stack).stack = _
  rw [hhandle, stack]
  exact List.append_nil _

/-- A step that meets the condition keeps the invariant and leaves the host busy. -/
theorem localStep_inv (w : Suspended (World κ) (Frame κ))
    (h : Happening (WorkerEvent κ)) (inv : LocalInv w)
    (admits : (localWithWorker interp κ).Admissible w h)
    (meets : Reentrant.Meets (HandsOn interp) w h) :
    LocalInv ((localWithWorker interp κ).step w h) ∧
      LeavesBusy (localWithWorker interp κ) localHandled (fun w => LocalBusy w.session) w h := by
  cases h with
  | returns =>
      obtain ⟨⟨s, accepted⟩, stack⟩ := w
      obtain ⟨named, slot⟩ := inv
      cases slot with
      | called e inprogress owed item =>
          obtain ⟨hnamed, hslot, hbusy⟩ := finish_slot interp named inprogress owed
          exact ⟨⟨hnamed, hslot⟩, fun _ _ => hbusy⟩
      | free waiting inprogress owed => exact absurd rfl admits
      | atWorker e inprogress owed => exact absurd rfl admits
      | lost e inprogress owed => exact absurd rfl admits
  | occurs event =>
      cases event with
      | session event =>
          cases event with
          | ipmiQueue r =>
              obtain ⟨hnamed, hslot, hbusy⟩ := ipmiQueue_slot interp inv.named inv.slot r
              exact ⟨⟨hnamed, hslot⟩, fun _ _ => hbusy.mpr meets⟩
          | ipmiHealth =>
              obtain ⟨hnamed, hslot⟩ := ipmiHealth_slot interp inv.named inv.slot
              exact ⟨⟨hnamed, hslot⟩, fun _ handled => absurd handled id⟩
          | network on =>
              refine ⟨⟨⟨inv.named.waiting, inv.named.tagged, inv.named.single⟩,
                inv.slot.congr (s := w.state.session) rfl rfl rfl⟩,
                fun _ handled => absurd handled id⟩
          | ipmiProcess result =>
              obtain ⟨e, inprogress, owed, stack⟩ := inv.owed admits
              obtain ⟨hstate, hstack, hreturn⟩ := step_ipmiProcess interp owed stack result
              obtain ⟨hnamed, hslot, hbusy⟩ := ipmiProcess_slot interp
                (s := { w.state.session with owed := [] })
                ⟨inv.named.waiting, inv.named.tagged, inv.named.single⟩ inprogress rfl meets
              refine ⟨⟨?_, ?_⟩, fun ends _ => ?_⟩
              · rw [hstate]
                exact hnamed
              · rw [hstate, hstack]
                exact hslot
              · rw [hstate]
                exact hbusy (hreturn.symm.trans ends)
      | fails =>
          obtain ⟨e, inprogress, owed, stack⟩ := inv.owed admits
          refine ⟨⟨⟨inv.named.waiting, inv.named.tagged, inv.named.single⟩, ?_⟩,
            fun _ handled => absurd handled id⟩
          show Slot { w.state.session with owed := w.state.session.owed.drop 1 } w.stack
          rw [stack]
          exact .lost e inprogress (by rw [owed]; rfl)

/-- A step that misses it does not. -/
theorem localStep_idle (w : Suspended (World κ) (Frame κ))
    (h : Happening (WorkerEvent κ)) (inv : LocalInv w)
    (admits : (localWithWorker interp κ).Admissible w h)
    (misses : ¬ Reentrant.Meets (HandsOn interp) w h) :
    ¬ LeavesBusy (localWithWorker interp κ) localHandled (fun w => LocalBusy w.session) w h := by
  cases h with
  | returns => exact absurd trivial misses
  | occurs event =>
      intro hleaves
      cases event with
      | fails => exact misses trivial
      | session event =>
          cases event with
          | ipmiQueue r =>
              obtain ⟨-, -, hbusy⟩ := ipmiQueue_slot interp inv.named inv.slot r
              exact misses (hbusy.mp (hleaves rfl trivial))
          | ipmiHealth => exact misses trivial
          | network on => exact misses trivial
          | ipmiProcess result =>
              obtain ⟨e, inprogress, owed, stack⟩ := inv.owed admits
              obtain ⟨hstate, -, hreturn⟩ := step_ipmiProcess interp owed stack result
              obtain ⟨hends, hidle⟩ := ipmiProcess_idle interp
                (s := { w.state.session with owed := [] }) inprogress rfl misses
              have hbusy := hleaves (hreturn.trans hends) trivial
              rw [hstate] at hbusy
              exact hidle hbusy

/-- The host is left busy in a run exactly when nothing is queued while the slot is taken by
a message that the worker does not have, and no result that is taken while requests wait is
empty or cannot be read. -/
theorem local_busy_iff {s : State κ} (fresh : Fresh s)
    {happenings : List (Happening (WorkerEvent κ))}
    (admits : (localWithWorker interp κ).machine.Admits ⟨⟨s, []⟩, []⟩ happenings) :
    (localWithWorker interp κ).machine.EachStep
        (LeavesBusy (localWithWorker interp κ) localHandled fun w => LocalBusy w.session)
        ⟨⟨s, []⟩, []⟩ happenings ↔
      (localWithWorker interp κ).machine.EachStep (Reentrant.Meets (HandsOn interp)) ⟨⟨s, []⟩, []⟩
        happenings := by
  have hqueue : s.ipmiMsgq = [] ∧ s.inprogress = [] := by simp [fresh.queue]
  have hstart : LocalInv (⟨⟨s, []⟩, []⟩ : Suspended (World κ) (Frame κ)) := by
    refine ⟨⟨?_, ?_, Or.inl hqueue.2⟩, .free hqueue.1 hqueue.2 fresh.owed⟩
    · simp [hqueue.1]
    · simp [hqueue.2]
  refine (localWithWorker interp κ).machine.eachStep_iff_of_invariant
    (fun w h (inv : LocalInv w) hadmits hmeets => (localStep_inv interp w h inv hadmits hmeets).1)
    (fun w h inv hadmits => ?_) hstart admits
  constructor
  · intro hleaves
    by_contra hmisses
    exact localStep_idle interp w h inv hadmits hmisses hleaves
  · exact fun hmeets => (localStep_inv interp w h inv hadmits hmeets).2

end LocalHost

/-! ## Both hosts -/

/-- In which runs queue operations and responses leave no host idle while requests wait. -/
theorem host_busy_iff :
    (∀ (interp : Interp) (s : OpenPower.State κ), s.Fresh → s.network = true →
        ∀ happenings : List (Happening (OpenPower.Event κ)),
          (openpowerOn interp κ).machine.Admits ⟨s, []⟩ happenings →
            ((openpowerOn interp κ).machine.EachStep
                (LeavesBusy (openpowerOn interp κ) openpowerHandled OpenPowerBusy) ⟨s, []⟩
                happenings ↔
              (openpowerOn interp κ).machine.EachStep OpenPowerCondition ⟨s, []⟩ happenings)) ∧
      ∀ (interp : Interp) (s : LocalHost.State κ), LocalHost.Fresh s →
        ∀ happenings : List (Happening (WorkerEvent κ)),
          (localWithWorker interp κ).machine.Admits ⟨⟨s, []⟩, []⟩ happenings →
            ((localWithWorker interp κ).machine.EachStep
                (LeavesBusy (localWithWorker interp κ) localHandled
                  fun w => LocalBusy w.session) ⟨⟨s, []⟩, []⟩ happenings ↔
              (localWithWorker interp κ).machine.EachStep (Reentrant.Meets (HandsOn interp))
                ⟨⟨s, []⟩, []⟩ happenings) :=
  ⟨fun interp _ fresh network _ admits => openpower_busy_iff interp fresh network admits,
    fun interp _ fresh _ admits => local_busy_iff interp fresh admits⟩

/-- A request alone, whose first result is empty, and another one. -/
def openpowerAlone : List (Happening (OpenPower.Event ℕ)) :=
  [.occurs (.ipmiQueue (RetryOrder.sampleRequest 1 1)), .occurs (.ipmi (.ran [[]] none)),
    .occurs .ipmiProcess, .occurs (.ipmiQueue (RetryOrder.sampleRequest 2 1)),
    .occurs (.ipmi RetryOrder.succeeds), .occurs .ipmiProcess, .returns]

def localAlone : List (Happening (WorkerEvent ℕ)) :=
  [.occurs (.session (.ipmiQueue (RetryOrder.sampleRequest 1 1))),
    .occurs (.session (.ipmiProcess [])),
    .occurs (.session (.ipmiQueue (RetryOrder.sampleRequest 2 1))),
    .occurs (.session (.ipmiProcess RetryOrder.succeeded)), .returns]

theorem host_busy_alone :
    (openpowerOn OpenPower.hexInterp ℕ).machine.EachStep
        (LeavesBusy (openpowerOn OpenPower.hexInterp ℕ) openpowerHandled OpenPowerBusy)
        ⟨{}, []⟩ openpowerAlone ∧
      (localWithWorker OpenPower.hexInterp ℕ).machine.EachStep
        (LeavesBusy (localWithWorker OpenPower.hexInterp ℕ) localHandled
          fun w => LocalBusy w.session) ⟨⟨{}, []⟩, []⟩ localAlone := by
  constructor
  · refine (host_busy_iff.1 OpenPower.hexInterp {} ⟨rfl, rfl, rfl, rfl⟩ rfl openpowerAlone ?_).mpr
      ?_
    · decide +kernel
    · decide +kernel
  · refine (host_busy_iff.2 OpenPower.hexInterp {} ⟨rfl, rfl, rfl⟩ localAlone ?_).mpr ?_
    · decide +kernel
    · decide +kernel

/-- The first of two requests has an empty result, and then a third is queued. -/
def openpowerWaiting : List (Happening (OpenPower.Event ℕ)) :=
  [.occurs (.ipmiQueue (RetryOrder.sampleRequest 1 1)),
    .occurs (.ipmiQueue (RetryOrder.sampleRequest 2 1)), .occurs (.ipmi (.ran [[]] none)),
    .occurs .ipmiProcess, .occurs (.ipmiQueue (RetryOrder.sampleRequest 3 1))]

def localWaiting : List (Happening (WorkerEvent ℕ)) :=
  [.occurs (.session (.ipmiQueue (RetryOrder.sampleRequest 1 1))),
    .occurs (.session (.ipmiQueue (RetryOrder.sampleRequest 2 1))),
    .occurs (.session (.ipmiProcess [])),
    .occurs (.session (.ipmiQueue (RetryOrder.sampleRequest 3 1)))]

/-- All three wait and none is in progress, until the next health tick. -/
theorem requests_left_waiting :
    (let M := openpowerOn OpenPower.hexInterp ℕ
      let s := (M.machine.run ⟨{}, []⟩ openpowerWaiting).state
      M.machine.Admits ⟨{}, []⟩ openpowerWaiting ∧
        s.ipmiMsgq.map Item.callback = [some 2, some 1, some 3] ∧
        s.inprogress = [] ∧ s.worker = [] ∧ s.results = [] ∧
        (OpenPower.ipmiHealth s).inprogress.map (fun e => e.callback) = [some 2] ∧
        ¬ M.machine.EachStep (LeavesBusy M openpowerHandled OpenPowerBusy) ⟨{}, []⟩
          openpowerWaiting) ∧
      let M := localWithWorker OpenPower.hexInterp ℕ
      let s := (M.machine.run ⟨⟨{}, []⟩, []⟩ localWaiting).state.session
      M.machine.Admits ⟨⟨{}, []⟩, []⟩ localWaiting ∧
        s.ipmiMsgq.map Item.callback = [some 2, some 1, some 3] ∧
        s.inprogress = [] ∧ s.owed = [] ∧
        (LocalHost.ipmiHealth (LocalHost.localhost OpenPower.hexInterp) s).inprogress.map
          (fun e => e.callback) = [some 2] ∧
        ¬ M.machine.EachStep (LeavesBusy M localHandled fun w => LocalBusy w.session)
          ⟨⟨{}, []⟩, []⟩ localWaiting := by
  refine ⟨⟨by decide +kernel, by decide +kernel, by decide +kernel, by decide +kernel,
    by decide +kernel, by decide +kernel, ?_⟩, by decide +kernel, by decide +kernel,
    by decide +kernel, by decide +kernel, by decide +kernel, ?_⟩
  · intro heach
    obtain ⟨-, -, -, hthird, -⟩ := heach
    obtain ⟨e, hmem, -⟩ := hthird (by decide +kernel) trivial (by decide +kernel)
    have hfree : ((openpowerOn OpenPower.hexInterp ℕ).machine.run ⟨{}, []⟩
        (openpowerWaiting.take 4)).state.inprogress = [] := by decide +kernel
    exact List.not_mem_nil (hfree ▸ hmem)
  · intro heach
    obtain ⟨-, -, hthird, -⟩ := heach
    obtain ⟨e, hmem, -⟩ := hthird (by decide +kernel) trivial (by decide +kernel)
    have hfree : ((localWithWorker OpenPower.hexInterp ℕ).machine.run ⟨⟨{}, []⟩, []⟩
        (localWaiting.take 3)).state.session.inprogress = [] := by decide +kernel
    exact List.not_mem_nil (hfree ▸ hmem)

end Amester.Occupied
