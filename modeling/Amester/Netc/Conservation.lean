/-
# Request conservation of the netc session

A request that was accepted is waiting, in progress or answered, and it is in
one of these places once, whatever the order of responses, timeouts, closes and
reopens. The invariant behind it says that the in-progress table and the queue
of tags describe the same single message, that this message has a timer, and
that the FSP owes at most the answer to this message.

Every method keeps the invariant for the list of accepted requests it was
called with; `ipmiQueue` keeps it for the list extended by the request. Closing
the connection takes the message in progress out of the books and queues it
again, so the books balance after the close as before.
-/

import Amester.Lib.EventMachine
import Amester.Netc.Session

namespace Amester.Netc

open BinaryFormat PriorityQueue EventMachine

universe u

variable {κ : Type u}

/-! ## The invariant -/

/-- Where the accepted requests are: waiting, in progress, answered. -/
def State.places (s : State κ) : List (Item κ) := s.toMessageQueue.places s.answered

/-- What every method of a session keeps, for the requests accepted so far: the
books balance, the queue of tags and the timers follow the in-progress table,
and a message is in progress on an open channel only, from which at most its
answer is still to come. -/
structure Inv (accepted : List (Item κ)) (s : State κ) : Prop where
  books : Books Timed accepted s.answered s.toMessageQueue
  tags : s.inprogressQ = s.inprogress.map fun e => e.tag
  timers : ∀ e ∈ s.inprogress, e.after.isSome
  channel : s.inprogress ≠ [] → s.netcSock ≠ 0
  answers : s.fsp = [] ∨ s.fsp = s.inprogress.map InProgress.toItem
  connected : s.netcStatus = .connected → s.netcSock ≠ 0

/-- Changes to timers, to the network switch and to the log of effects other
than answers do not concern the invariant. -/
theorem Inv.congr {accepted : List (Item κ)} {s t : State κ} (h : Inv accepted s)
    (queue : t.toMessageQueue = s.toMessageQueue) (tags : t.inprogressQ = s.inprogressQ)
    (sock : t.netcSock = s.netcSock)
    (status : t.netcStatus = .connected → s.netcStatus = .connected)
    (fsp : t.fsp = s.fsp) (answered : t.answered = s.answered) : Inv accepted t where
  books := by
    rw [queue, answered]
    exact h.books
  tags := by
    rw [queue, tags]
    exact h.tags
  timers := by
    rw [queue]
    exact h.timers
  channel := by
    rw [queue, sock]
    exact h.channel
  answers := by
    rw [queue, fsp]
    exact h.answers
  connected hconnected := by
    rw [sock]
    exact h.connected (status hconnected)

@[simp]
theorem answered_emit_received (s : State κ) (item : Item κ) :
    (s.emit (.received item)).answered = s.answered ++ [item] := by
  simp [State.answered, State.emit, Effect.received?]

/-- An effect that is not an answer leaves the invariant alone. -/
theorem Inv.emit {accepted : List (Item κ)} {s : State κ} (h : Inv accepted s)
    {e : Effect κ} (notAnswer : e.received? = none) : Inv accepted (s.emit e) :=
  h.congr rfl rfl rfl id rfl (by simp [State.answered, State.emit, notAnswer])

theorem Inv.after {accepted : List (Item κ)} {s : State κ} (h : Inv accepted s)
    (timer : Timer) : Inv accepted (s.after timer) :=
  h.congr rfl rfl rfl id rfl rfl

theorem Inv.afterCancel {accepted : List (Item κ)} {s : State κ} (h : Inv accepted s)
    (id : ℕ) : Inv accepted (s.afterCancel id) :=
  h.congr rfl rfl rfl (fun c => c) rfl rfl

theorem Inv.inprogress_eq_nil {accepted : List (Item κ)} {s : State κ}
    (h : Inv accepted s) (empty : s.inprogressQ = []) : s.inprogress = [] := by
  have htags := h.tags
  rw [empty] at htags
  exact List.map_eq_nil_iff.mp htags.symm

/-- `processIpmi` finds the message in progress. -/
theorem Inv.lookup {accepted : List (Item κ)} {s : State κ} (h : Inv accepted s)
    {e : InProgress κ} (inprogress : s.inprogress = [e]) :
    lookupTag (s.inprogressQ.headD "") s.inprogress = some e := by
  simp [lookupTag, h.tags, inprogress]

/-! ## Queueing, sending and answering -/

theorem runCallback_inv {accepted : List (Item κ)} {s : State κ} (h : Inv accepted s)
    (item : Item κ) (ncdata : Bytes) : Inv accepted (runCallback item ncdata s).state := by
  unfold runCallback
  split
  · exact h
  · split
    · exact h
    · exact h.emit rfl

/-- Moving the first waiting message into an empty slot. -/
theorem Inv.beginMessage {accepted : List (Item κ)} {s : State κ} (h : Inv accepted s)
    {item : Item κ} {rest : List (Item κ)} (msgq : s.ipmiMsgq = item :: rest)
    (empty : s.inprogressQ = []) (sock : s.netcSock ≠ 0) :
    Inv accepted (s.beginMessage item rest) ∧
      (s.beginMessage item rest).inprogress =
        [{ item with after := some s.nextAfter }] ∧
      (s.beginMessage item rest).ipmiMsgq = rest ∧
      (s.beginMessage item rest).fsp = [] := by
  have htable := h.inprogress_eq_nil empty
  have hfsp : s.fsp = [] := by simpa [htable] using h.answers
  have htimeout : item.timeout ≠ 0 := by
    have htimed := h.books.waiting item (by simp [msgq])
    exact htimed.2.ne'
  have hbegin : s.beginMessage item rest =
      { s.after .netcTimeout with
        toMessageQueue := ⟨rest, [{ item with after := some s.nextAfter }]⟩
        inprogressQ := [item.tag] } := by
    simp [State.beginMessage, Item.entry, htimeout, empty, State.after, MessageQueue.dispatch,
      htable]
  rw [hbegin]
  refine ⟨⟨?_, rfl, ?_, fun _ => sock, Or.inl hfsp, h.connected⟩, rfl, rfl, hfsp⟩
  · have hbooks := h.books.dispatch (e := { item with after := some s.nextAfter }) msgq htable
    rw [MessageQueue.dispatch, htable] at hbooks
    exact hbooks
  · simp

/-- Answering the message in progress. -/
theorem Inv.freeSlot {accepted : List (Item κ)} {s : State κ} (h : Inv accepted s)
    {e : InProgress κ} (inprogress : s.inprogress = [e]) (fsp : s.fsp = []) (timer : ℕ) :
    Inv accepted (s.freeSlot e timer) := by
  have hmem : e ∈ s.inprogress := by simp [inprogress]
  have hbooks := h.books.answer hmem
  have htable := (h.books.remove_eq hmem).2
  have hfree : s.freeSlot e timer =
      ({ s.afterCancel timer with
          toMessageQueue := ⟨s.ipmiMsgq, []⟩
          inprogressQ := [] }).emit (.received e.toItem) := by
    simp [State.freeSlot, htable, h.tags, inprogress]
  rw [hfree]
  refine ⟨?_, rfl, nofun, nofun, Or.inl fsp, h.connected⟩
  rw [answered_emit_received, ← htable]
  exact hbooks

/-- Writing the message in progress: the FSP now owes its answer. -/
theorem Inv.netcSend {accepted : List (Item κ)} {s : State κ} (h : Inv accepted s)
    {e : InProgress κ} (inprogress : s.inprogress = [e]) (fsp : s.fsp = []) :
    Inv accepted (s.netcSend e.toItem) := by
  have hemit : Inv accepted (s.emit (.wroteIpmi e.toItem)) := h.emit rfl
  refine { hemit with answers := Or.inr ?_ }
  change s.fsp ++ [e.toItem] = s.inprogress.map InProgress.toItem
  simp [fsp, inprogress]

/-- Taking a response as the answer to the message in progress, whatever the
dequeue in the middle does as long as it keeps the invariant. -/
theorem processIpmiWith_inv {accepted : List (Item κ)} {dequeue : State κ → Outcome (State κ)}
    {s : State κ} (h : Inv accepted s) (fsp : s.fsp = []) (ncdata : Bytes)
    (keeps : ∀ t, Inv accepted t → t.ipmiMsgq = s.ipmiMsgq → Inv accepted (dequeue t).state) :
    Inv accepted (processIpmiWith dequeue ncdata s).state := by
  unfold processIpmiWith
  split
  · exact h
  · rename_i e hlookup
    have hmem : e ∈ s.inprogress := List.mem_of_find?_eq_some hlookup
    split
    · exact h
    · rename_i timer _
      have hfree := h.freeSlot (h.books.remove_eq hmem).1 fsp timer
      refine Outcome.andThen_state (P := Inv accepted) ?_ fun hnext => ?_
      · exact keeps _ hfree rfl
      · exact runCallback_inv hnext _ ncdata

/-- Dequeueing keeps the invariant. The induction follows the list of waiting
messages, from which each get-device-identifier request takes one. -/
theorem ipmiDequeueFrom_inv {accepted : List (Item κ)} (msgq : List (Item κ)) :
    ∀ s : State κ, Inv accepted s → s.ipmiMsgq = msgq →
      Inv accepted (ipmiDequeueFrom msgq s).state := by
  induction msgq with
  | nil => exact fun s h _ => h
  | cons item rest ih =>
      intro s h hmsgq
      unfold ipmiDequeueFrom
      split_ifs with hnetwork htags hstatus hlookup hfake
      · exact h
      · exact h
      · exact h
      · exact h
      all_goals
        simp only [ne_eq, not_not] at htags hstatus
        obtain ⟨hbegin, htable, hrest, hfsp⟩ :=
          h.beginMessage hmsgq htags (h.connected hstatus)
      · exact processIpmiWith_inv hbegin hfsp fakeDeviceId fun t ht hsame =>
          ih t ht (hsame.trans hrest)
      · exact hbegin.netcSend htable hfsp

theorem ipmiDequeue_inv {accepted : List (Item κ)} {s : State κ} (h : Inv accepted s) :
    Inv accepted (ipmiDequeue s).state :=
  ipmiDequeueFrom_inv s.ipmiMsgq s h rfl

/-- Without an established connection nothing is sent. -/
theorem ipmiDequeue_of_not_connected {s : State κ} (h : s.netcStatus ≠ .connected) :
    ipmiDequeue s = .ok s := by
  unfold ipmiDequeue
  cases s.ipmiMsgq with
  | nil => rfl
  | cons item rest => simp [ipmiDequeueFrom, h]

/-- Accepting a request adds it to the books. -/
theorem Inv.enqueueMessage {accepted : List (Item κ)} {s : State κ} (h : Inv accepted s)
    {item : Item κ} (timed : Timed item) (position : Position) :
    Inv (item :: accepted) (s.enqueueMessage position item) :=
  { h with books := h.books.insertMessage timed position }

theorem ipmiQueue_inv {accepted : List (Item κ)} {s : State κ} (h : Inv accepted s)
    {r : Request κ} (timeout : 0 < r.timeout.getD s.timeout) (position : Position) :
    Inv (r.item "0" s.timeout :: accepted) (ipmiQueue r position s).state := by
  have hqueued : Inv (r.item "0" s.timeout :: accepted)
      (s.enqueueMessage position (r.item "0" s.timeout)) :=
    h.enqueueMessage ⟨rfl, timeout⟩ position
  unfold ipmiQueue
  split
  · exact ipmiDequeue_inv hqueued
  · exact hqueued

/-- Without an established connection queueing does nothing else. -/
theorem ipmiQueue_of_not_connected {s : State κ} (h : s.netcStatus ≠ .connected)
    (r : Request κ) (position : Position) :
    ipmiQueue r position s = .ok (s.enqueueMessage position (r.item "0" s.timeout)) := by
  unfold ipmiQueue
  split
  · exact ipmiDequeue_of_not_connected h
  · rfl

/-! ## Closing -/

/-- Dropping the channel changes the timers, the answers that are pending, and the books of
what was done. -/
theorem dropChannel_eq (s : State κ) :
    s.dropChannel =
      { s.emit (.closed s.netcSock) with
        afters := s.dropChannel.afters
        inprogressQ := []
        fsp := [] } := rfl

theorem sendSetHMCPollingFrequency_inv {accepted : List (Item κ)} {s : State κ}
    (h : Inv accepted s) (status : ℤ) :
    Inv accepted (sendSetHMCPollingFrequency status s) := by
  unfold sendSetHMCPollingFrequency
  split
  · exact h
  · exact h.emit rfl

theorem Inv.markClosed {accepted : List (Item κ)} {s : State κ} (h : Inv accepted s) :
    Inv accepted s.markClosed := by
  unfold State.markClosed
  split
  · exact (sendSetHMCPollingFrequency_inv h 3).congr rfl rfl rfl nofun rfl rfl
  · exact h.congr rfl rfl rfl nofun rfl rfl

@[simp]
theorem markClosed_toMessageQueue (s : State κ) :
    s.markClosed.toMessageQueue = s.toMessageQueue := by
  unfold State.markClosed sendSetHMCPollingFrequency
  split_ifs <;> rfl

/-- Reposting the one message in progress, or none, on a closed connection. -/
theorem repostAll_of_books {accepted : List (Item κ)} {s t : State κ}
    (h : Inv accepted s) (queue : t.toMessageQueue = s.toMessageQueue)
    (closed : t.netcStatus ≠ .connected) :
    repostAll s.inprogress t = .ok { t with toMessageQueue := ⟨s.reposted .front, []⟩ } := by
  obtain hempty | ⟨e, htable⟩ := h.books.single
  · have hqueue : t.toMessageQueue = ⟨s.reposted .front, []⟩ := by
      rw [queue, MessageQueue.reposted, hempty]
      exact congrArg (MessageQueue.mk s.ipmiMsgq) hempty
    rw [hempty, repostAll, ← hqueue]
  · have hmem : e ∈ s.inprogress := by simp [htable]
    have hitem : e.repost.item "0" t.timeout = e.toItem := by
      rw [← (h.books.pending e hmem).1, InProgress.repost_item]
    have hremove : t.remove e.tag = ⟨s.ipmiMsgq, []⟩ := by
      rw [queue]
      exact (h.books.remove_eq hmem).2
    have hqueue := ipmiQueue_of_not_connected
      (s := { t with toMessageQueue := ⟨s.ipmiMsgq, []⟩ }) closed e.repost .front
    rw [htable, repostAll, hremove, hqueue, Outcome.ok_andThen, repostAll,
      State.enqueueMessage, hitem, MessageQueue.reposted, htable]
    rfl

/-- What is left of a session after a close: the channel, the slot and the
FSP's debts are gone, the message in progress is back on the queue. -/
theorem netcClose_of_open {accepted : List (Item κ)} {s : State κ} (h : Inv accepted s)
    (sock : s.netcSock ≠ 0) :
    ∃ t, netcClose s = .ok t ∧ t.toMessageQueue = ⟨s.reposted .front, []⟩ ∧
      t.inprogressQ = [] ∧ t.fsp = [] ∧ t.netcSock = 0 ∧ t.netcStatus = .closed ∧
      t.answered = s.answered := by
  have hdrop := dropChannel_eq s.markClosed
  have hrepost := repostAll_of_books (t := s.markClosed.dropChannel) h
    (by rw [hdrop]; exact markClosed_toMessageQueue s) (by rw [hdrop]; exact nofun)
  have hanswered : (s.markClosed.emit (.closed s.markClosed.netcSock)).answered =
      s.answered := by
    unfold State.markClosed sendSetHMCPollingFrequency
    split_ifs <;> simp [State.answered, State.emit, Effect.received?]
  refine ⟨_, by rw [netcClose, if_neg sock, hrepost, Outcome.ok_andThen], rfl, ?_, ?_,
    rfl, ?_, ?_⟩
  · rw [hdrop]
  · rw [hdrop]
  · rw [hdrop]
    rfl
  · rw [hdrop]
    exact hanswered

/-- Closing keeps the books. -/
theorem netcClose_inv {accepted : List (Item κ)} {s : State κ} (h : Inv accepted s) :
    Inv accepted (netcClose s).state := by
  by_cases sock : s.netcSock = 0
  · rw [netcClose, if_pos sock]
    exact h.markClosed
  · obtain ⟨t, hclose, hqueue, htags, hfsp, hsock, hstatus, hanswered⟩ :=
      netcClose_of_open h sock
    have hbooks := h.books.repost .front
    rw [hclose, Outcome.ok_state]
    rw [← hqueue, ← hanswered] at hbooks
    refine ⟨hbooks, ?_, ?_, ?_, Or.inl hfsp, ?_⟩
    · rw [htags, hqueue, List.map_nil]
    · simp [hqueue]
    · simp [hqueue]
    · simp [hstatus]

/-! ## Opening, timers and messages -/

/-- Without a channel nothing is in progress, so a new channel starts clean. -/
theorem Inv.opened {accepted : List (Item κ)} {s : State κ} (h : Inv accepted s)
    {sock : ℕ} (valid : sock ≠ 0) :
    Inv accepted ({ s with netcSock := sock }.emit (.opened sock)) := by
  have hchannel : Inv accepted { s with netcSock := sock } :=
    { h with channel := fun _ => valid, connected := fun _ => valid }
  exact hchannel.emit rfl

theorem netcOpen_inv {accepted : List (Item κ)} {s : State κ} (h : Inv accepted s)
    {result : OpenResult} (valid : result.Valid) :
    Inv accepted (netcOpen result s).state := by
  unfold netcOpen
  split_ifs with hopen
  · exact h
  · simp only [not_or, not_not] at hopen
    cases result with
    | socketFailed => exact h
    | handshakeFailed sock => exact netcClose_inv (h.opened valid)
    | established sock =>
        have hversion := (h.opened valid).emit (e := .wroteVersion) rfl
        exact (hversion.after .netcTimeout).congr rfl rfl rfl nofun rfl rfl

theorem netcTimeout_inv {accepted : List (Item κ)} {s : State κ} (h : Inv accepted s)
    {result : OpenResult} (valid : result.Valid) :
    Inv accepted (netcTimeout result s).state :=
  Outcome.andThen_state (netcClose_inv h) fun hclosed => netcOpen_inv hclosed valid

theorem netcSurveillance_inv {accepted : List (Item κ)} {s : State κ}
    (h : Inv accepted s) : Inv accepted (netcSurveillance s) := by
  have hcancel := h.afterCancel s.netcSurveillanceAfter
  have hrestart : Inv accepted (sendSetHMCPollingFrequency 1
      (s.afterCancel s.netcSurveillanceAfter)).startSurveillance := by
    have hpolling := sendSetHMCPollingFrequency_inv hcancel 1
    unfold State.startSurveillance
    split
    · exact (hpolling.after .netcSurveillance).congr rfl rfl rfl id rfl rfl
    · exact hpolling
  rcases netcSurveillance_cases s with hstop | hstart
  · rw [hstop]
    exact hcancel
  · rw [hstart]
    exact hrestart

theorem ipmiHealth_inv {accepted : List (Item κ)} {s : State κ} (h : Inv accepted s)
    {result : OpenResult} (valid : result.Valid) :
    Inv accepted (ipmiHealth result s).state := by
  have hcancel := h.afterCancel s.ipmiHealthAfter
  have hrestart : Inv accepted { (s.afterCancel s.ipmiHealthAfter).after .ipmiHealth with
      ipmiHealthAfter := s.nextAfter } :=
    (hcancel.after .ipmiHealth).congr rfl rfl rfl id rfl rfl
  unfold ipmiHealth
  simp only
  split
  · exact hcancel
  · split
    · exact netcOpen_inv hrestart valid
    · exact netcOpen_inv hrestart valid
    · exact hrestart
    · exact ipmiDequeue_inv hrestart
    · exact netcClose_inv hrestart
    · exact netcClose_inv hrestart

/-- A close writes nothing that the FSP would have to answer. -/
theorem netcClose_fsp {accepted : List (Item κ)} {s : State κ} (h : Inv accepted s)
    (fsp : s.fsp = []) : (netcClose s).state.fsp = [] := by
  by_cases sock : s.netcSock = 0
  · rw [netcClose, if_pos sock, Outcome.ok_state, State.markClosed]
    split
    · rw [sendSetHMCPollingFrequency, if_pos sock]
      exact fsp
    · exact fsp
  · obtain ⟨t, hclose, -, -, hfsp, -⟩ := netcClose_of_open h sock
    rw [hclose, Outcome.ok_state, hfsp]

/-- Neither does an open. -/
theorem netcOpen_fsp {accepted : List (Item κ)} {s : State κ} (h : Inv accepted s)
    (fsp : s.fsp = []) {result : OpenResult} (valid : result.Valid) :
    (netcOpen result s).state.fsp = [] := by
  unfold netcOpen
  split_ifs with hopen
  · exact fsp
  · simp only [not_or, not_not] at hopen
    cases result with
    | socketFailed => exact fsp
    | handshakeFailed sock => exact netcClose_fsp (h.opened valid) fsp
    | established sock => exact fsp

theorem processIpmi_inv {accepted : List (Item κ)} {s : State κ} (h : Inv accepted s)
    (fsp : s.fsp = []) (ncdata : Bytes) : Inv accepted (processIpmi ncdata s).state :=
  processIpmiWith_inv h fsp ncdata fun _ ht _ => ipmiDequeue_inv ht

theorem passwordAccepted_inv {accepted : List (Item κ)} {s : State κ}
    (h : Inv accepted s) (sock : s.netcSock ≠ 0) (ncdata : Bytes) :
    Inv accepted (passwordAccepted ncdata s).state := by
  unfold passwordAccepted
  split
  · exact h
  · have hconnected : Inv accepted { s with netcStatus := .connected } :=
      { h with connected := fun _ => sock }
    exact ipmiDequeue_inv (netcSurveillance_inv hconnected)

theorem versionReceived_inv {accepted : List (Item κ)} {s : State κ}
    (h : Inv accepted s) (ncdata : Bytes) :
    Inv accepted (versionReceived ncdata s).state := by
  unfold versionReceived
  split
  · exact h
  · rw [Outcome.ok_state]
    split
    · exact h.emit rfl
    · exact h

theorem nodeConfigReceived_inv {accepted : List (Item κ)} {s : State κ}
    (h : Inv accepted s) (ncdata : Bytes) :
    Inv accepted (nodeConfigReceived ncdata s).state := by
  unfold nodeConfigReceived
  split
  · exact h
  · exact h

theorem netcDispatch_inv {accepted : List (Item κ)} {s : State κ} (h : Inv accepted s)
    {p : NetcPacket} (fsp : p.funcop = .ipmi → s.fsp = [])
    (sock : p.success → s.netcSock ≠ 0) : Inv accepted (netcDispatch p s).state := by
  have hcancel := h.afterCancel s.netcOpenAfter
  unfold netcDispatch
  split
  · split
    · exact Outcome.andThen_state (versionReceived_inv h p.ncdata) ipmiDequeue_inv
    · exact netcClose_inv h
  · simp only
    split
    · rename_i hsuccess
      exact Outcome.andThen_state (passwordAccepted_inv hcancel (sock hsuccess) p.ncdata)
        ipmiDequeue_inv
    · exact netcClose_inv (hcancel.afterCancel _)
  · rename_i hipmi
    exact Outcome.andThen_state (processIpmi_inv h (fsp hipmi) p.ncdata) ipmiDequeue_inv
  · exact Outcome.andThen_state (nodeConfigReceived_inv h p.ncdata) ipmiDequeue_inv
  · exact ipmiDequeue_inv h
  · exact ipmiDequeue_inv (h.emit rfl)

theorem NetcPacket.not_success {p : NetcPacket} (h : p.clientConnected) :
    ¬ p.success := by
  simp only [NetcPacket.clientConnected, decide_eq_true_eq] at h
  simp [NetcPacket.success, h]

/-- A message keeps the books. An IPMI response comes when the FSP owes nothing
more. -/
theorem netcProcess_inv {accepted : List (Item κ)} {s : State κ} (h : Inv accepted s)
    {p : NetcPacket} (fsp : p.funcop = .ipmi → s.fsp = []) (sock : s.netcSock ≠ 0)
    {result : OpenResult} (valid : result.Valid) :
    Inv accepted (netcProcess p result s).state := by
  unfold netcProcess
  split
  · rename_i hconnected
    have hclosed := netcClose_inv h
    obtain ⟨t, hclose, -, -, hfsp, -⟩ := netcClose_of_open h sock
    rw [hclose, Outcome.ok_state] at hclosed
    rw [hclose, Outcome.ok_andThen]
    refine Outcome.andThen_state (netcOpen_inv hclosed valid) fun hopened => ?_
    exact netcDispatch_inv hopened (fun _ => netcOpen_fsp hclosed hfsp valid) fun hsuccess =>
      absurd hsuccess (NetcPacket.not_success hconnected)
  · exact netcDispatch_inv h fsp fun _ => sock

/-! ## Runs

The environment queues requests, lets timers fire, toggles the network switch
and delivers messages. It delivers them on an open channel only, and an IPMI
response only for a request that the FSP still owes an answer. -/

/-- A session together with the requests it has accepted. -/
structure World (κ : Type u) where
  session : State κ := {}
  accepted : List (Item κ) := []

/-- A session as it is created, with any configuration. -/
structure State.Fresh (s : State κ) : Prop where
  queue : s.toMessageQueue = {}
  inprogressQ : s.inprogressQ = []
  netcStatus : s.netcStatus ≠ .connected
  fsp : s.fsp = []
  effects : s.effects = []

/-- What the event loop can call next. -/
inductive Event (κ : Type u)
  | ipmiQueue (r : Request κ)
  | ipmiDequeue
  | netcProcess (p : NetcPacket) (result : OpenResult)
  | netcTimeout (result : OpenResult)
  | netcClose
  | netcOpen (result : OpenResult)
  | ipmiHealth (result : OpenResult)
  | netcSurveillance
  | network (on : Bool)
  | configure (timeout : ℤ)

/-- The FSP has sent this message: one request fewer awaits its answer. -/
def State.delivered (s : State κ) (p : NetcPacket) : State κ :=
  { s with fsp := if p.funcop = .ipmi then s.fsp.tail else s.fsp }

def World.step (w : World κ) : Event κ → World κ
  | .ipmiQueue r =>
    ⟨(ipmiQueue r .back w.session).state, r.item "0" w.session.timeout :: w.accepted⟩
  | .ipmiDequeue => { w with session := (ipmiDequeue w.session).state }
  | .netcProcess p result =>
    { w with session := (netcProcess p result (w.session.delivered p)).state }
  | .netcTimeout result => { w with session := (netcTimeout result w.session).state }
  | .netcClose => { w with session := (netcClose w.session).state }
  | .netcOpen result => { w with session := (netcOpen result w.session).state }
  | .ipmiHealth result => { w with session := (ipmiHealth result w.session).state }
  | .netcSurveillance => { w with session := netcSurveillance w.session }
  | .network on => { w with session := { w.session with network := on } }
  | .configure timeout => { w with session := { w.session with timeout := timeout } }

/-- Timeouts are positive, channels have names, messages come on an open
channel, and an IPMI response answers a request written to that channel. -/
def World.admissible (w : World κ) : Event κ → Prop
  | .ipmiQueue r => 0 < r.timeout.getD w.session.timeout
  | .netcProcess p result =>
    w.session.netcSock ≠ 0 ∧ (p.funcop = .ipmi → w.session.fsp ≠ []) ∧ result.Valid
  | .netcTimeout result | .netcOpen result | .ipmiHealth result => result.Valid
  | .ipmiDequeue | .netcClose | .netcSurveillance | .network _ | .configure _ => True

instance (w : World κ) : DecidablePred w.admissible
  | .ipmiQueue r => inferInstanceAs (Decidable (0 < r.timeout.getD w.session.timeout))
  | .netcProcess p result =>
    inferInstanceAs (Decidable (w.session.netcSock ≠ 0 ∧
      (p.funcop = .ipmi → w.session.fsp ≠ []) ∧ result.Valid))
  | .netcTimeout result | .netcOpen result | .ipmiHealth result =>
    inferInstanceAs (Decidable result.Valid)
  | .ipmiDequeue | .netcClose | .netcSurveillance | .network _ | .configure _ => isTrue trivial

def machine (κ : Type u) : Machine (World κ) (Event κ) := ⟨World.admissible, World.step⟩

instance (w : World κ) : DecidablePred ((machine κ).admissible w) :=
  inferInstanceAs (DecidablePred w.admissible)

theorem fresh_inv {s : State κ} (fresh : s.Fresh) : Inv [] s := by
  have hanswered : s.answered = [] := by simp [State.answered, fresh.effects]
  refine ⟨?_, ?_, ?_, ?_, Or.inl fresh.fsp, fun h => absurd h fresh.netcStatus⟩
  · rw [fresh.queue, hanswered]
    exact Books.empty Timed
  · simp [fresh.queue, fresh.inprogressQ]
  · simp [fresh.queue]
  · simp [fresh.queue]

/-- A response leaves the FSP with nothing to answer. -/
theorem delivered_inv {accepted : List (Item κ)} {s : State κ} (h : Inv accepted s)
    (p : NetcPacket) :
    Inv accepted (s.delivered p) ∧ (p.funcop = .ipmi → (s.delivered p).fsp = []) := by
  have htail : s.fsp.tail = [] := by
    obtain hempty | ⟨e, htable⟩ := h.books.single
    · obtain hfsp | hfsp := h.answers <;> simp [hfsp, hempty]
    · obtain hfsp | hfsp := h.answers <;> simp [hfsp, htable]
  unfold State.delivered
  split
  · exact ⟨{ h with answers := Or.inl htail }, fun _ => htail⟩
  · rename_i hother
    exact ⟨h, fun hipmi => absurd hipmi hother⟩

/-- Every admissible event keeps the invariant. -/
theorem step_inv (w : World κ) (event : Event κ) (h : Inv w.accepted w.session)
    (admissible : w.admissible event) : Inv (w.step event).accepted (w.step event).session := by
  cases event with
  | ipmiQueue r => exact ipmiQueue_inv h admissible .back
  | ipmiDequeue => exact ipmiDequeue_inv h
  | netcProcess p result =>
      obtain ⟨hsock, -, hvalid⟩ := admissible
      obtain ⟨hdelivered, hfsp⟩ := delivered_inv h p
      exact netcProcess_inv hdelivered hfsp hsock hvalid
  | netcTimeout result => exact netcTimeout_inv h admissible
  | netcClose => exact netcClose_inv h
  | netcOpen result => exact netcOpen_inv h admissible
  | ipmiHealth result => exact ipmiHealth_inv h admissible
  | netcSurveillance => exact netcSurveillance_inv h
  | network on => exact h.congr rfl rfl rfl id rfl rfl
  | configure timeout => exact h.congr rfl rfl rfl id rfl rfl

/-- What holds of the requests of a session at any moment. -/
structure World.Conserved (w : World κ) : Prop where
  /-- Every accepted request is waiting, in progress or answered, and nothing
  else is in one of these places. -/
  accepted : w.accepted.Perm w.session.places
  /-- Different requests are in one place once. -/
  once : w.accepted.Nodup → w.session.places.Nodup
  single : w.session.inprogress.length ≤ 1
  tags : w.session.inprogressQ ≠ [] ↔ w.session.inprogress ≠ []
  channel : w.session.inprogressQ ≠ [] → w.session.netcSock ≠ 0
  /-- A close would put the message in progress back on the queue unchanged,
  behind the more urgent messages only. -/
  reposted : ∀ e ∈ w.session.inprogress, ∃ before after,
    w.session.ipmiMsgq = before ++ after ∧
      (netcClose w.session).state.ipmiMsgq = before ++ e.toItem :: after ∧
      (netcClose w.session).state.inprogress = [] ∧
      ∀ item ∈ before, item.priority < e.priority

theorem Inv.conservedWorld {w : World κ} (h : Inv w.accepted w.session) : w.Conserved where
  accepted := h.books.conserved
  once := h.books.nodup
  single := by
    obtain hempty | ⟨e, htable⟩ := h.books.single
    · simp [hempty]
    · simp [htable]
  tags := by simp [h.tags]
  channel := by simpa [h.tags] using h.channel
  reposted e he := by
    obtain ⟨before, after, hsplit, hfront, hurgent⟩ := h.books.reposted_front he
    obtain ⟨t, hclose, hqueue, -⟩ := netcClose_of_open h (h.channel (List.ne_nil_of_mem he))
    refine ⟨before, after, hsplit, ?_, ?_, hurgent⟩
    · rw [hclose, Outcome.ok_state, hqueue]
      exact hfront
    · rw [hclose, Outcome.ok_state, hqueue]

/-- In every state that a fresh session reaches, whatever is queued, answered,
timed out, closed and reopened in whatever order, no request is lost and none
is in two places. -/
theorem requests_conserved {s : State κ} (fresh : s.Fresh) (events : List (Event κ))
    (admits : (machine κ).Admits ⟨s, []⟩ events) :
    ((machine κ).run ⟨s, []⟩ events).Conserved := by
  have keeps : ∀ (w : World κ) (event : Event κ), Inv w.accepted w.session →
      w.admissible event → Inv (w.step event).accepted (w.step event).session := step_inv
  have hrun := (machine κ).invariant_run keeps (fresh_inv fresh) admits
  exact Inv.conservedWorld hrun

/-- A request that is in progress when its timer fires, and answered on the next
connection. -/
def timedOutRun : List (Event ℕ) :=
  let version : NetcPacket :=
    ⟨[], [], 0, [], [0, 0, 0, 7], [], 0, [], [0, 0, 0, 2], [0, 0, 0, 0], .replicate 28 0⟩
  let password : NetcPacket :=
    ⟨[], [], 0, [], [0, 0, 0, 7], [], 0, [], [7, 4, 1, 2], [0, 0, 0, 0], [0]⟩
  let response : NetcPacket :=
    ⟨[], [], 0, [], [0, 0, 0, 5], [], 0, [], [9, 0, 14, 1], [0, 0, 0, 0], fakeDeviceId⟩
  [.ipmiQueue ⟨⟨2, 0⟩, ⟨0, 0⟩, ⟨0, 0⟩, ⟨3, 10⟩, ⟨3, 12⟩, [], some 5, 1, none⟩,
    .netcOpen (.established 7), .netcProcess version .socketFailed,
    .netcProcess password .socketFailed, .netcTimeout (.established 8),
    .netcProcess version .socketFailed, .netcProcess password .socketFailed,
    .netcProcess response .socketFailed]

theorem requests_conserved_timedOut :
    ((machine ℕ).run ⟨{}, []⟩ timedOutRun).Conserved ∧
      ((machine ℕ).run ⟨{}, []⟩ timedOutRun).session.answered.map Item.callback =
        [some 5] := by
  have admits : (machine ℕ).Admits ⟨{}, []⟩ timedOutRun := by decide +kernel
  exact ⟨requests_conserved ⟨rfl, rfl, by decide, rfl, rfl⟩ timedOutRun admits,
    by decide +kernel⟩

end Amester.Netc
