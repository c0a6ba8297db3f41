/-
# The order in which requests are taken from a queue

The older host types sort their queue when they take a request from it, the newer ones
when they put one on it. Whatever is put on the queue, at the end or at position 0, and
whenever a request is taken, both take the same ones in the same order: the smallest
priority first, within a priority in the order in which they came, and a request put at
position 0 before the others of its priority.

What the functions of the hosts are gated by differs: the network switch, the connection, a
message in progress. A host that is not ready takes nothing. A request for the device
identifier is answered on the spot, by netc and openbmc, and the next one is taken at once.
-/

import Amester.Lib.QueueDiscipline
import Amester.LineHost.Session
import Amester.LocalHost.Session
import Amester.Netc.Callbacks
import Amester.OpenBmc.Session

namespace Amester.Discipline

open BinaryFormat PriorityQueue QueueHost
open OpenPower (Interp)

universe u

/-- The host types with a request queue. An emtagent has two of them. -/
inductive HostType
  | localhost
  /-- `ipmi_queue` and `ipmi_dequeue` of an emtagent. -/
  | emtagent
  /-- `agent_send_msg` and `agent_write_msg` of an emtagent. -/
  | agent
  /-- `net_send_msg` and `net_write_msg`. -/
  | host
  | netc
  | openpower
  | openbmc
  deriving DecidableEq, Repr

/-! ## The queues of the hosts -/

section Hosts

variable (κ : Type u)

def netcQueue : QueueHost.{u} where
  State := Netc.State κ
  Request := Request κ
  Entry := Item κ
  priority := Item.priority
  queue s := s.ipmiMsgq
  entry r s := r.item "0" s.timeout
  enqueues position r s t := t = (Netc.ipmiQueue r position s).state
  dequeues s t := t = (Netc.ipmiDequeue s).state
  ready s item := s.network = true ∧ s.inprogressQ = [] ∧ s.netcStatus = .connected ∧
    lookupTag item.tag s.inprogress = none
  spot item := item.netfn.eqDigit 6 && item.cmd.eqDigit 1

def openpowerQueue : QueueHost.{u} where
  State := OpenPower.State κ
  Request := Request κ
  Entry := Item κ
  priority := Item.priority
  queue s := s.ipmiMsgq
  entry r s := r.item s.name s.timeout
  enqueues position r s t := t = OpenPower.ipmiQueue r position s
  dequeues s t := t = OpenPower.ipmiDequeue s
  ready s item := s.network = true ∧ lookupTag item.tag s.inprogress = none
  spot _ := false

/-- However the post ends. -/
def openbmcQueue : QueueHost.{u} where
  State := OpenBmc.State κ
  Request := Request κ
  Entry := Item κ
  priority := Item.priority
  queue s := s.ipmiMsgq
  entry r s := r.item "0" s.timeout
  enqueues position r s t := ∃ result, t = (OpenBmc.ipmiQueue result r position s).state
  dequeues s t := ∃ result, t = (OpenBmc.ipmiDequeue result s).state
  ready s item := s.network = true ∧ s.inprogressQ = [] ∧ s.openbmcStatus = .connected ∧
    lookupTag item.tag s.inprogress = none
  spot item := OpenBmc.fakesDeviceId item

/-- The queue of a localhost, and of an emtagent, whose gate is the slot alone. -/
def localQueue (c : LocalHost.HostClass) : QueueHost.{u} where
  State := LocalHost.State κ
  Request := Request κ
  Entry := Item κ
  priority := Item.priority
  queue s := s.ipmiMsgq
  entry r s := r.item s.name 10000
  enqueues position r s t := t = LocalHost.ipmiQueue c r position s
  dequeues s t := t = LocalHost.ipmiDequeue c s
  ready s item := lookupTag item.tag s.inprogress = none
  spot _ := false

/-- The queue of lines of an emtagent, and of a host. While the network is off a line is not
accepted. Nothing is ever entered into `netsockcallback`, so a write that fails puts nothing
back. -/
def lineQueue : QueueHost.{u} where
  State := LineHost.State κ
  Request := LineHost.LineRequest κ
  Entry := LineHost.LineItem κ
  priority := LineHost.LineItem.priority
  queue s := s.msgq
  entry r s := s.lineItem r
  enqueues position r s t := s.network = true ∧ s.netsockcallback = [] ∧
    ∃ written, t = LineHost.sendMsgWith LineHost.closeSock written r position s
  dequeues s t := s.netsockcallback = [] ∧ ∃ written, t = LineHost.writeMsg written s
  ready s item := s.network = true ∧ s.status = .connected ∧ s.pending item.tag = none
  spot _ := false

def HostType.queueHost (interp : Interp) : HostType → QueueHost.{u}
  | .localhost => localQueue κ (LocalHost.localhost interp)
  | .emtagent => localQueue κ (LocalHost.emtagent interp)
  | .agent | .host => lineQueue κ
  | .netc => netcQueue κ
  | .openpower => openpowerQueue κ
  | .openbmc => openbmcQueue κ

end Hosts

variable {κ : Type u}

/-! ## They obey the schemes -/

/-- A localhost and an emtagent sort late. -/
theorem localQueue_obeys (c : LocalHost.HostClass) :
    (localQueue κ c).Obeys (lazyScheme (localQueue κ c).priority) := by
  have hdequeue : ∀ s : LocalHost.State κ,
      (lazyScheme Item.priority).Dequeued (fun item => lookupTag item.tag s.inprogress = none)
        (fun _ => false) s.ipmiMsgq (LocalHost.ipmiDequeue c s).ipmiMsgq := by
    intro s
    unfold LocalHost.ipmiDequeue
    cases hqueue : s.sortQueue.ipmiMsgq with
    | nil =>
        have hempty : s.ipmiMsgq = [] := by
          have hlength := length_sort Item.priority s.ipmiMsgq
          have hnil : sort Item.priority s.ipmiMsgq = [] := hqueue
          rw [hnil] at hlength
          exact List.length_eq_zero_iff.mp hlength.symm
        exact .nothing hempty hempty
    | cons item rest =>
        by_cases hblocks : (lookupTag item.tag s.inprogress).isSome = true
        · simp only [hblocks, if_true]
          exact .blocked hqueue (fun h => by simp [h] at hblocks) (.inr hqueue)
        · simp only [hblocks]
          refine .single ?_ (by simpa using hblocks)
          rw [if_neg Bool.false_ne_true, LocalHost.handOver_ipmiMsgq]
          exact hqueue
  refine ⟨fun s t step => ?_, fun position r s t step => ?_⟩
  · obtain rfl : t = LocalHost.ipmiDequeue c s := step
    exact hdequeue s
  · obtain rfl : t = LocalHost.ipmiQueue c r position s := step
    show if (s.enqueueMessage position (r.item s.name 10000)).ipmiMsgq.length = 1 then _ else _
    unfold LocalHost.ipmiQueue
    split
    · exact hdequeue (s.enqueueMessage position (r.item s.name 10000))
    · rfl

/-- Closing a connection from which nothing is to be put back leaves the queue. -/
theorem closeSock_msgq (s : LineHost.State κ) (netsockcallback : s.netsockcallback = []) :
    (LineHost.closeSock s).msgq = s.msgq := by
  unfold LineHost.closeSock
  split
  · rfl
  · rw [netsockcallback, List.filter_nil, LineHost.repostAll]
    rfl

/-- An emtagent and a host sort their lines late. -/
theorem lineQueue_obeys : (lineQueue κ).Obeys (lazyScheme (lineQueue κ).priority) := by
  have hwrite : ∀ (s : LineHost.State κ) (written : Bool), s.netsockcallback = [] →
      (lazyScheme LineHost.LineItem.priority).Dequeued
        (fun item => s.network = true ∧ s.status = .connected ∧ s.pending item.tag = none)
        (fun _ => false) s.msgq (LineHost.writeMsg written s).msgq := by
    intro s written netsockcallback
    unfold LineHost.writeMsg LineHost.writeMsgWith
    cases hqueue : sort LineHost.LineItem.priority s.msgq with
    | nil =>
        have hempty : s.msgq = [] := by
          have hlength := length_sort LineHost.LineItem.priority s.msgq
          rw [hqueue] at hlength
          exact List.length_eq_zero_iff.mp hlength.symm
        refine .nothing hempty ?_
        rw [if_pos hempty, ite_self]
        exact hempty
    | cons item rest =>
        by_cases hnetwork : s.network = false
        · rw [if_pos hnetwork]
          exact .blocked hqueue (fun h => by simp [hnetwork] at h) (.inl rfl)
        rw [if_neg hnetwork]
        have hmore : s.msgq ≠ [] := by
          intro hempty
          rw [hempty] at hqueue
          exact absurd hqueue.symm (List.cons_ne_nil item rest)
        rw [if_neg hmore]
        by_cases hstatus : s.status = .connected
        swap
        · rw [if_pos hstatus]
          exact .blocked hqueue (fun h => hstatus h.2.1) (.inl rfl)
        rw [if_neg (not_not.mpr hstatus), LineHost.writeFirst]
        by_cases hpending : (s.pending item.tag).isSome = true
        · have hsame : (LineHost.State.pending { s with msgq := item :: rest } item.tag).isSome =
              true := hpending
          rw [if_pos hsame]
          exact .blocked hqueue (fun h => by simp [h.2.2] at hpending) (.inr rfl)
        have hsame : ¬(LineHost.State.pending { s with msgq := item :: rest } item.tag).isSome =
            true := hpending
        rw [if_neg hsame]
        have hready : s.network = true ∧ s.status = .connected ∧ s.pending item.tag = none :=
          ⟨by simpa using hnetwork, hstatus, by simpa using hpending⟩
        refine .single ?_ hready
        refine hqueue.trans (congrArg (List.cons item) ?_)
        split
        · split
          · rfl
          · rfl
        · exact (closeSock_msgq (LineHost.State.enterMessage _ item rest) netsockcallback).symm
  have hsend : ∀ (s : LineHost.State κ) (written : Bool) (r : LineHost.LineRequest κ)
      (position : Position), s.network = true → s.netsockcallback = [] →
        if (s.enqueueMessage position r).msgq.length = 1 then
          (lazyScheme LineHost.LineItem.priority).Dequeued
            (fun item => s.network = true ∧ s.status = .connected ∧ s.pending item.tag = none)
            (fun _ => false) (s.enqueueMessage position r).msgq
            (LineHost.sendMsgWith LineHost.closeSock written r position s).msgq
        else (LineHost.sendMsgWith LineHost.closeSock written r position s).msgq =
          (s.enqueueMessage position r).msgq := by
    intro s written r position network netsockcallback
    have hnetwork : ¬s.network = false := by simp [network]
    rw [LineHost.sendMsgWith, if_neg hnetwork]
    by_cases halone : (s.enqueueMessage position r).msgq.length = 1
    · rw [if_pos halone, if_pos halone]
      exact hwrite (s.enqueueMessage position r) written netsockcallback
    · rw [if_neg halone, if_neg halone]
  refine ⟨fun s t step => ?_, fun position r s t step => ?_⟩
  · obtain ⟨netsockcallback, written, rfl⟩ := step
    exact hwrite s written netsockcallback
  · obtain ⟨network, netsockcallback, written, rfl⟩ := step
    exact hsend s written r position network netsockcallback

/-- An openpower sorts early. -/
theorem openpowerQueue_obeys :
    (openpowerQueue κ).Obeys (eagerScheme (openpowerQueue κ).priority) := by
  have hdequeue : ∀ s : OpenPower.State κ,
      (eagerScheme Item.priority).Dequeued
        (fun item => s.network = true ∧ lookupTag item.tag s.inprogress = none)
        (fun _ => false) s.ipmiMsgq (OpenPower.ipmiDequeue s).ipmiMsgq := by
    intro s
    unfold OpenPower.ipmiDequeue
    cases hqueue : s.ipmiMsgq with
    | nil => exact .nothing rfl (by split <;> exact hqueue)
    | cons item rest =>
        by_cases hnetwork : s.network = false
        · rw [if_pos hnetwork, hqueue]
          exact .blocked rfl (fun h => by simp [hnetwork] at h) (.inl rfl)
        rw [if_neg hnetwork]
        by_cases hblocks : (lookupTag item.tag s.inprogress).isSome = true
        · simp only [hblocks, if_true, hqueue]
          exact .blocked rfl (fun h => by simp [h.2] at hblocks) (.inl rfl)
        · simp only [hblocks]
          exact .single rfl ⟨by simpa using hnetwork, by simpa using hblocks⟩
  refine ⟨fun s t step => ?_, fun position r s t step => ?_⟩
  · obtain rfl : t = OpenPower.ipmiDequeue s := step
    exact hdequeue s
  · obtain rfl : t = OpenPower.ipmiQueue r position s := step
    show if (s.enqueueMessage position (r.item s.name s.timeout)).ipmiMsgq.length = 1 then _
      else _
    unfold OpenPower.ipmiQueue
    split
    · exact hdequeue (s.enqueueMessage position (r.item s.name s.timeout))
    · rfl

/-- A netc sorts early. -/
theorem netcQueue_obeys : (netcQueue κ).Obeys (eagerScheme (netcQueue κ).priority) := by
  have hdequeue : ∀ s : Netc.State κ,
      (eagerScheme Item.priority).Dequeued
        (fun item => s.network = true ∧ s.inprogressQ = [] ∧ s.netcStatus = .connected ∧
          lookupTag item.tag s.inprogress = none)
        (fun item => item.netfn.eqDigit 6 && item.cmd.eqDigit 1) s.ipmiMsgq
        (Netc.ipmiDequeue s).state.ipmiMsgq := by
    intro s
    unfold Netc.ipmiDequeue
    cases hqueue : s.ipmiMsgq with
    | nil => exact .nothing rfl hqueue
    | cons item rest =>
        have hbegin : (s.beginMessage item rest).ipmiMsgq = rest := rfl
        unfold Netc.ipmiDequeueFrom
        split_ifs with hnetwork htags hstatus hlookup hfake
        · exact .blocked rfl (fun h => by simp [hnetwork] at h) (.inl hqueue)
        · exact .blocked rfl (fun h => htags h.2.1) (.inl hqueue)
        · exact .blocked rfl (fun h => hstatus h.2.2.1) (.inl hqueue)
        · exact .blocked rfl (fun h => by simp [h.2.2.2] at hlookup) (.inl hqueue)
        · have hsuffix : (s.beginMessage item rest).ipmiMsgq <:+ rest := by rw [hbegin]
          obtain ⟨more, hmore⟩ := Netc.Callbacks.processIpmiWith_suffix
            (Netc.Callbacks.ipmiDequeueFrom_suffix rest) Netc.fakeDeviceId hsuffix
          have hlook : item :: rest = item :: (more ++ _) := congrArg (List.cons item) hmore.symm
          refine .took hlook ⟨by simpa using hnetwork, not_not.mp htags, not_not.mp hstatus,
            by simpa using hlookup⟩ fun hspot => ?_
          simp [hfake] at hspot
        · refine .single (x := item) ?_ ⟨by simpa using hnetwork, not_not.mp htags,
            not_not.mp hstatus, by simpa using hlookup⟩
          exact congrArg (List.cons item) hbegin.symm
  refine ⟨fun s t step => ?_, fun position r s t step => ?_⟩
  · obtain rfl : t = (Netc.ipmiDequeue s).state := step
    exact hdequeue s
  · obtain rfl : t = (Netc.ipmiQueue r position s).state := step
    show if (s.enqueueMessage position (r.item "0" s.timeout)).ipmiMsgq.length = 1 then _ else _
    unfold Netc.ipmiQueue
    split
    · exact hdequeue (s.enqueueMessage position (r.item "0" s.timeout))
    · rfl

section OpenBmc

open OpenBmc

theorem answer_queue (item origin : Item κ) (packet : Bytes) (s : State κ) :
    (s.answer item origin packet).ipmiMsgq = s.ipmiMsgq := by
  unfold State.answer
  split
  · rfl
  · rfl

/-- A message that is sent, or answered on the spot, has left the queue for good. -/
theorem openbmcSendWith_suffix {dequeue : State κ → Outcome (State κ)} {queue : List (Item κ)}
    (keeps : ∀ t : State κ, t.ipmiMsgq <:+ queue → (dequeue t).state.ipmiMsgq <:+ queue)
    (result : SendResult) (item : Item κ) {s : State κ} (h : s.ipmiMsgq <:+ queue) :
    (openbmcSendWith dequeue result item s).state.ipmiMsgq <:+ queue ∧
      (fakesDeviceId item = false →
        (openbmcSendWith dequeue result item s).state.ipmiMsgq = s.ipmiMsgq) := by
  unfold openbmcSendWith
  by_cases hfake : fakesDeviceId item = true
  · rw [if_pos hfake]
    refine ⟨?_, fun hspot => by simp [hfake] at hspot⟩
    unfold openbmcProcessPacketWith
    split
    · exact h
    · split
      · exact h
      · split
        · exact h
        · refine Outcome.andThen_state (P := fun t : State κ => t.ipmiMsgq <:+ queue) (keeps _ h)
            fun hnext => ?_
          rw [Outcome.ok_state, answer_queue]
          exact hnext
  · rw [if_neg hfake]
    split
    · exact ⟨h, fun _ => rfl⟩
    · cases result with
      | started token => exact ⟨h, fun _ => rfl⟩
      | failed => exact ⟨h, fun _ => rfl⟩

theorem openbmc_ipmiDequeueFrom_suffix (result : SendResult) (msgq : List (Item κ)) :
    ∀ s : State κ, s.ipmiMsgq <:+ msgq →
      (ipmiDequeueFrom result msgq s).state.ipmiMsgq <:+ msgq := by
  induction msgq with
  | nil => exact fun s h => h
  | cons item rest ih =>
      intro s h
      have hbegin : (s.beginMessage item rest).ipmiMsgq <:+ rest := List.suffix_refl rest
      unfold ipmiDequeueFrom
      split_ifs with hnetwork htags hstatus hlookup
      · exact h
      · exact h
      · exact h
      · exact h
      · exact (openbmcSendWith_suffix ih result item hbegin).1.trans (List.suffix_cons item rest)

/-- So does an openbmc. -/
theorem openbmcQueue_obeys : (openbmcQueue κ).Obeys (eagerScheme (openbmcQueue κ).priority) := by
  have hdequeue : ∀ (result : SendResult) (s : State κ),
      (eagerScheme Item.priority).Dequeued
        (fun item => s.network = true ∧ s.inprogressQ = [] ∧ s.openbmcStatus = .connected ∧
          lookupTag item.tag s.inprogress = none) fakesDeviceId s.ipmiMsgq
        (ipmiDequeue result s).state.ipmiMsgq := by
    intro result s
    unfold ipmiDequeue
    cases hqueue : s.ipmiMsgq with
    | nil => exact .nothing rfl hqueue
    | cons item rest =>
        have hbegin : (s.beginMessage item rest).ipmiMsgq = rest := rfl
        unfold ipmiDequeueFrom
        split_ifs with hnetwork htags hstatus hlookup
        · exact .blocked rfl (fun h => by simp [hnetwork] at h) (.inl hqueue)
        · exact .blocked rfl (fun h => htags h.2.1) (.inl hqueue)
        · exact .blocked rfl (fun h => hstatus h.2.2.1) (.inl hqueue)
        · exact .blocked rfl (fun h => by simp [h.2.2.2] at hlookup) (.inl hqueue)
        · have hsuffix : (s.beginMessage item rest).ipmiMsgq <:+ rest := by rw [hbegin]
          obtain ⟨⟨more, hmore⟩, hsingle⟩ := openbmcSendWith_suffix
            (openbmc_ipmiDequeueFrom_suffix result rest) result item hsuffix
          have hlook : item :: rest = item :: (more ++ _) := congrArg (List.cons item) hmore.symm
          refine .took hlook ⟨by simpa using hnetwork, not_not.mp htags, not_not.mp hstatus,
            by simpa using hlookup⟩ fun hspot => ?_
          rw [hsingle hspot, hbegin] at hmore
          exact List.append_left_eq_self.mp hmore
  refine ⟨fun s t step => ?_, fun position r s t step => ?_⟩
  · obtain ⟨result, rfl⟩ := step
    exact hdequeue result s
  · obtain ⟨result, rfl⟩ := step
    have hqueue : ∀ s : State κ,
        if (s.enqueueMessage position (r.item "0" s.timeout)).ipmiMsgq.length = 1 then
          (eagerScheme Item.priority).Dequeued
            (fun item => s.network = true ∧ s.inprogressQ = [] ∧ s.openbmcStatus = .connected ∧
              lookupTag item.tag s.inprogress = none) fakesDeviceId
            (s.enqueueMessage position (r.item "0" s.timeout)).ipmiMsgq
            (ipmiQueue result r position s).state.ipmiMsgq
        else (ipmiQueue result r position s).state.ipmiMsgq =
          (s.enqueueMessage position (r.item "0" s.timeout)).ipmiMsgq := by
      intro s
      unfold ipmiQueue
      by_cases halone : (s.enqueueMessage position (r.item "0" s.timeout)).ipmiMsgq.length = 1
      · rw [if_pos halone, if_pos halone]
        exact hdequeue result (s.enqueueMessage position (r.item "0" s.timeout))
      · rw [if_neg halone, if_neg halone]
        rfl
    exact hqueue s

end OpenBmc

/-! ## All host types -/

variable (interp : Interp)

/-- A localhost, an emtagent and a host sort late, a netc, an openpower and an openbmc early. -/
def HostType.scheme : (t : HostType) → Scheme (t.queueHost κ interp).Entry
  | .localhost | .emtagent => lazyScheme Item.priority
  | .agent | .host => lazyScheme LineHost.LineItem.priority
  | .netc | .openpower | .openbmc => eagerScheme Item.priority

theorem queueHost_obeys (t : HostType) :
    (t.queueHost κ interp).Obeys (t.scheme (κ := κ) interp) := by
  cases t with
  | localhost => exact localQueue_obeys _
  | emtagent => exact localQueue_obeys _
  | agent => exact lineQueue_obeys
  | host => exact lineQueue_obeys
  | netc => exact netcQueue_obeys
  | openpower => exact openpowerQueue_obeys
  | openbmc => exact openbmcQueue_obeys

/-- An empty queue is a start for each of the schemes. -/
theorem scheme_keeps (t : HostType) : ∃ kept : List (t.queueHost κ interp).Entry → Prop,
    (t.scheme (κ := κ) interp).Keeps (t.queueHost κ interp).priority kept := by
  cases t with
  | localhost => exact ⟨_, lazyScheme_keeps Item.priority⟩
  | emtagent => exact ⟨_, lazyScheme_keeps Item.priority⟩
  | agent => exact ⟨_, lazyScheme_keeps LineHost.LineItem.priority⟩
  | host => exact ⟨_, lazyScheme_keeps LineHost.LineItem.priority⟩
  | netc => exact ⟨_, eagerScheme_keeps Item.priority⟩
  | openpower => exact ⟨_, eagerScheme_keeps Item.priority⟩
  | openbmc => exact ⟨_, eagerScheme_keeps Item.priority⟩

/-- All host types take the same requests in the same order, and this order is by priority,
first-in first-out within a priority. In every run of a host from an empty queue the requests
are taken so. A host that is ready takes the first request, and just this one unless it answers
it itself; one that is not takes none. Two hosts that take a request at the same operations
take the same requests, and they do take one at the same operations if these find both of them
ready or both not ready, and neither of them answers a request itself. -/
theorem queue_discipline (a b : HostType) {s s' : (a.queueHost κ interp).State}
    {t t' : (b.queueHost κ interp).State} {operations operations' : List Operation}
    {events : List (QueueEvent (a.queueHost κ interp).Entry)}
    {events' : List (QueueEvent (b.queueHost κ interp).Entry)}
    (empty : (a.queueHost κ interp).queue s = []) (empty' : (b.queueHost κ interp).queue t = [])
    (run : (a.queueHost κ interp).Run s operations events s')
    (run' : (b.queueHost κ interp).Run t operations' events' t') :
    Follows (a.queueHost κ interp).priority (fun _ => []) events
        (classes (a.queueHost κ interp).priority ((a.queueHost κ interp).queue s')) ∧
      (∀ u x rest, (a.queueHost κ interp).dequeues s' u →
        sort (a.queueHost κ interp).priority ((a.queueHost κ interp).queue s') = x :: rest →
          ((a.queueHost κ interp).ready s' x →
            ∃ more, rest = more ++ (a.queueHost κ interp).queue u ∧
              ((a.queueHost κ interp).spot x = false → more = [])) ∧
          (¬(a.queueHost κ interp).ready s' x →
            sort (a.queueHost κ interp).priority ((a.queueHost κ interp).queue u) =
              x :: rest)) ∧
      (events.map (QueueEvent.shape (a.queueHost κ interp).priority) =
          events'.map (QueueEvent.shape (b.queueHost κ interp).priority) →
        Together (a.queueHost κ interp).priority events events') ∧
      (operations = operations' →
        (a.queueHost κ interp).Spotless (events.filterMap inserted?) →
        (b.queueHost κ interp).Spotless (events'.filterMap inserted?) →
          Together (a.queueHost κ interp).priority events events') := by
  obtain ⟨kept, keeps⟩ := scheme_keeps (κ := κ) interp a
  obtain ⟨kept', keeps'⟩ := scheme_keeps (κ := κ) interp b
  have hkept : kept ((a.queueHost κ interp).queue s) := by
    rw [empty]
    exact keeps.empty
  have hkept' : kept' ((b.queueHost κ interp).queue t) := by
    rw [empty']
    exact keeps'.empty
  have hfollows := run.follows (queueHost_obeys interp a) keeps hkept
  have hfollows' := run'.follows (queueHost_obeys interp b) keeps' hkept'
  have hstart : classes (a.queueHost κ interp).priority ((a.queueHost κ interp).queue s) =
      fun _ => [] := by
    rw [empty]
    rfl
  have hstart' : classes (b.queueHost κ interp).priority ((b.queueHost κ interp).queue t) =
      fun _ => [] := by
    rw [empty']
    rfl
  rw [hstart] at hfollows
  rw [hstart'] at hfollows'
  refine ⟨hfollows, fun u x rest step sorted => ?_, hfollows.together hfollows',
    fun same spotless spotless' => hfollows.together hfollows' ?_⟩
  · exact (queueHost_obeys interp a).takes_first keeps
      (run.keeps (queueHost_obeys interp a) keeps hkept) step sorted
  · have hempty : (a.queueHost κ interp).Spotless ((a.queueHost κ interp).queue s) := by
      rw [empty]
      exact fun x hx => absurd hx List.not_mem_nil
    have hempty' : (b.queueHost κ interp).Spotless ((b.queueHost κ interp).queue t) := by
      rw [empty']
      exact fun x hx => absurd hx List.not_mem_nil
    rw [run.shapes (queueHost_obeys interp a) keeps hkept hempty spotless,
      run'.shapes (queueHost_obeys interp b) keeps' hkept' hempty' spotless', empty, empty', same]
    rfl

/-- Three requests while the host is not ready, the last one urgent, and then three dequeues. -/
def sampleOperations : List Operation :=
  [.enqueue .back 1 false, .enqueue .front 1 false, .enqueue .back 0 false, .dequeue true,
    .dequeue true, .dequeue true]

def sampleRequest (callback : ℕ) (priority : ℤ) : Request ℕ :=
  ⟨⟨2, 0⟩, ⟨0, 0⟩, ⟨0, 0⟩, ⟨3, 10⟩, ⟨3, 12⟩, [], some callback, priority, none⟩

def sampleLine (callback : ℕ) (priority : ℤ) : LineHost.LineRequest ℕ :=
  { msg := "me", callback := some callback, priority := priority }

/-- What happens to them. -/
def sampleHistory : List (QueueEvent (Option ℕ)) :=
  [.inserted .back (some 1), .inserted .front (some 2), .inserted .back (some 3),
    .taken (some 3), .taken (some 2), .taken (some 1)]

/-- A session that is connected, with nothing in progress. -/
def readyNetc (queue : List (Item ℕ)) : Netc.State ℕ :=
  { ipmiMsgq := queue, netcStatus := .connected }

def readyHost (queue : List (LineHost.LineItem ℕ)) : LineHost.State ℕ :=
  { msgq := queue, status := .connected }

theorem netc_sampleRun : ∃ events s,
    (netcQueue ℕ).Run ({} : Netc.State ℕ) sampleOperations events s ∧
      events.map (QueueEvent.map Item.callback) = sampleHistory ∧
      (netcQueue ℕ).Spotless (events.filterMap inserted?) := by
  have henqueues : ∀ (position : Position) (r : Request ℕ) (s : Netc.State ℕ),
      (netcQueue ℕ).enqueues position r s (Netc.ipmiQueue r position s).state :=
    fun _ _ _ => rfl
  have hclosed : ∀ (s : Netc.State ℕ) (queue : List (Item ℕ)), s.netcStatus = .disconnected →
      (netcQueue ℕ).FirstReady s queue false :=
    fun s queue status x _ => ⟨fun h => absurd h Bool.false_ne_true,
      fun h => by rw [h.2.2.1] at status; exact absurd status (by decide)⟩
  have hready : ∀ waiting queue : List (Item ℕ),
      (netcQueue ℕ).FirstReady (readyNetc waiting) queue true :=
    fun waiting queue x _ => ⟨fun _ => ⟨rfl, rfl, rfl, rfl⟩, fun _ => rfl⟩
  have hstep : ∀ {s u : Netc.State ℕ} {waiting : List (Item ℕ)} {operations : List Operation}
      {events : List (QueueEvent (netcQueue ℕ).Entry)}, s.ipmiMsgq = waiting →
      (netcQueue ℕ).Run (Netc.ipmiDequeue (readyNetc waiting)).state operations events u →
      (netcQueue ℕ).Run s (.dequeue true :: operations) ((netcQueue ℕ).left waiting
        (Netc.ipmiDequeue (readyNetc waiting)).state.ipmiMsgq ++ events) u := by
    intro s u waiting operations events same run
    have hsame : (netcQueue ℕ).queue (readyNetc waiting) = (netcQueue ℕ).queue s := same.symm
    exact .other hsame (.dequeue rfl (hready _ _) run)
  refine ⟨_, _, .enqueue (henqueues _ (sampleRequest 1 1) _) (hclosed _ _ rfl) <|
    .enqueue (henqueues _ (sampleRequest 2 1) _) (hclosed _ _ rfl) <|
    .enqueue (henqueues _ (sampleRequest 3 0) _) (hclosed _ _ rfl) <|
    hstep rfl <| hstep rfl <| hstep rfl <| .done _, ?_, ?_⟩
  · decide +kernel
  · show ∀ item ∈ List.filterMap inserted? _,
      ((Item.netfn item).eqDigit 6 && (Item.cmd item).eqDigit 1) = false
    decide +kernel

theorem host_sampleRun : ∃ events s,
    (lineQueue ℕ).Run ({} : LineHost.State ℕ) sampleOperations events s ∧
      events.map (QueueEvent.map LineHost.LineItem.callback) = sampleHistory ∧
      (lineQueue ℕ).Spotless (events.filterMap inserted?) := by
  have henqueues : ∀ (position : Position) (r : LineHost.LineRequest ℕ) (s : LineHost.State ℕ),
      s.network = true → s.netsockcallback = [] → (lineQueue ℕ).enqueues position r s
        (LineHost.sendMsgWith LineHost.closeSock true r position s) :=
    fun _ _ _ network netsockcallback => ⟨network, netsockcallback, true, rfl⟩
  have hdequeues : ∀ waiting : List (LineHost.LineItem ℕ),
      (lineQueue ℕ).dequeues (readyHost waiting) (LineHost.writeMsg true (readyHost waiting)) :=
    fun _ => ⟨rfl, true, rfl⟩
  have hclosed : ∀ (s : LineHost.State ℕ) (queue : List (LineHost.LineItem ℕ)),
      s.status = .disconnected → (lineQueue ℕ).FirstReady s queue false :=
    fun s queue status x _ => ⟨fun h => absurd h Bool.false_ne_true,
      fun h => by rw [h.2.1] at status; exact absurd status (by decide)⟩
  have hready : ∀ waiting queue : List (LineHost.LineItem ℕ),
      (lineQueue ℕ).FirstReady (readyHost waiting) queue true :=
    fun waiting queue x _ => ⟨fun _ => ⟨rfl, rfl, rfl⟩, fun _ => rfl⟩
  have hstep : ∀ {s u : LineHost.State ℕ} {waiting : List (LineHost.LineItem ℕ)}
      {operations : List Operation} {events : List (QueueEvent (lineQueue ℕ).Entry)},
      s.msgq = waiting →
      (lineQueue ℕ).Run (LineHost.writeMsg true (readyHost waiting)) operations events u →
      (lineQueue ℕ).Run s (.dequeue true :: operations) ((lineQueue ℕ).left waiting
        (LineHost.writeMsg true (readyHost waiting)).msgq ++ events) u := by
    intro s u waiting operations events same run
    have hsame : (lineQueue ℕ).queue (readyHost waiting) = (lineQueue ℕ).queue s := same.symm
    exact .other hsame (.dequeue (hdequeues _) (hready _ _) run)
  refine ⟨_, _, .enqueue (henqueues _ (sampleLine 1 1) _ rfl rfl) (hclosed _ _ rfl) <|
    .enqueue (henqueues _ (sampleLine 2 1) _ rfl rfl) (hclosed _ _ rfl) <|
    .enqueue (henqueues _ (sampleLine 3 0) _ rfl rfl) (hclosed _ _ rfl) <|
    hstep rfl <| hstep rfl <| hstep rfl <| .done _, ?_, fun _ _ => rfl⟩
  decide +kernel

/-- A netc and a host take them in the same order. -/
theorem queue_discipline_sample :
    ∃ (events : List (QueueEvent (Item ℕ))) (events' : List (QueueEvent (LineHost.LineItem ℕ))),
      Together Item.priority events events' ∧
        events.map (QueueEvent.map Item.callback) = sampleHistory ∧
        events'.map (QueueEvent.map LineHost.LineItem.callback) = sampleHistory := by
  obtain ⟨events, s, hrun, hevents, hspotless⟩ := netc_sampleRun
  obtain ⟨events', s', hrun', hevents', hspotless'⟩ := host_sampleRun
  exact ⟨events, events',
    (queue_discipline OpenPower.hexInterp .netc .host rfl rfl hrun hrun').2.2.2 rfl hspotless
      hspotless', hevents, hevents'⟩

end Amester.Discipline
