/-
# The localhost and emtagent sessions

Both host types keep their requests in a queue and an in-progress table as
openpower does, hand the next one to a worker thread or to the agent, and take
its result in `ipmi_process`. Three things are different: the queue is sorted
when a message is taken from it, not when one is put on it; a result is read
before its message is looked up; and the message leaves the in-progress table
after its callback has returned.

A callback may wait for other requests and let further events happen meanwhile,
so `ipmi_process` is cut where it runs one: what is left to do is a `Frame`.
`owed` stands for the other side: the messages that were handed to it and whose
result has not come.

The two differ in how they hand a message on. A worker thread is sent its jobs
whatever `::network` says. `agent_send_msg` drops what it is given while the
network is off, and `agent_process_msg` then drops what the agent answers; the
session does not notice either of them.
-/

import Amester.Lib.Reentrant
import Amester.OpenPower.Worker

namespace Amester.LocalHost

open BinaryFormat PriorityQueue EventMachine
open OpenPower (Text Interp hexDigit?)

universe u

/-! ## The two host types -/

structure HostClass where
  /-- How a result is read, `none` when that raises. -/
  decode : Text → Option (Text × Bytes)
  /-- Messages and results pass only while `::network` is on. -/
  overNetwork : Bool

/-- A localhost reads the first word as the status and the others as bytes. -/
def localhost (interp : Interp) : HostClass := ⟨interp.decode, false⟩

/-- An emtagent reads two words, the status and the digits of the data. -/
def emtagent (interp : Interp) : HostClass where
  decode result := do
    let words ← interp.list result
    let digits ← (words.getD 1 []).mapM hexDigit?
    some (words.headD [], bytesOfDigits digits)
  overNetwork := true

/-! ## The session -/

/-- What the session does to the outside. -/
inductive Effect (κ : Type u)
  | dispatched (item : Item κ)
  /-- The result of the message was taken, and its callback, if it has one,
  started with this status and these bytes. -/
  | answered (item : Item κ) (status : Text) (databytes : Bytes)

variable {κ : Type u}

/-- The answered message, if the effect is an answer. -/
def Effect.answered? : Effect κ → Option (Item κ)
  | .answered item _ _ => some item
  | .dispatched _ => none

structure State (κ : Type u) extends MessageQueue κ where
  /-- The name of the object, which is the tag of all its messages. -/
  name : String := "mylocalhost"
  /-- The global `::network`. -/
  network : Bool := true
  /-- Handed to the other side and without a result, oldest first. -/
  owed : List (Item κ) := []
  effects : List (Effect κ) := []

/-- What is left of `ipmi_process` while it runs the callback of a message. -/
structure Frame (κ : Type u) where
  tag : String
  item : Item κ

namespace State

variable (s : State κ)

/-- Append to the log. -/
def emit (e : Effect κ) : State κ := { s with effects := s.effects ++ [e] }

/-- The messages answered so far, in order. -/
def answered : List (Item κ) := s.effects.filterMap Effect.answered?

/-- Put a message on the queue, without sorting. -/
def enqueueMessage (position : Position) (item : Item κ) : State κ :=
  { s with ipmiMsgq := insertAt position item s.ipmiMsgq }

/-- `lsort -integer -index 0`. -/
def sortQueue : State κ := { s with ipmiMsgq := sort Item.priority s.ipmiMsgq }

/-- Remove the entries of a tag from the in-progress table. -/
def unsetInprogress (tag : String) : State κ := { s with toMessageQueue := s.remove tag }

/-- Messages to the other side, and its results, pass. -/
def passes (c : HostClass) : Prop := c.overNetwork = true → s.network = true

instance (c : HostClass) : Decidable (s.passes c) :=
  inferInstanceAs (Decidable (c.overNetwork = true → s.network = true))

/-- `thread::send`, or `agent_send_msg`, which returns if the network is off. -/
def send (c : HostClass) (item : Item κ) : State κ :=
  if s.passes c then { s.emit (.dispatched item) with owed := s.owed ++ [item] } else s

/-- Enter a message into the in-progress table, take it off the queue and hand it
on. -/
def handOver (c : HostClass) (item : Item κ) (rest : List (Item κ)) : State κ :=
  State.send { s with toMessageQueue := s.dispatch { item with after := none } rest } c item

end State

/-- Sort the queue and hand its first message on, unless one is in progress. -/
def ipmiDequeue (c : HostClass) (s : State κ) : State κ :=
  match s.sortQueue.ipmiMsgq with
  | [] => s
  | item :: rest =>
    if (lookupTag item.tag s.inprogress).isSome then s.sortQueue
    else s.sortQueue.handOver c item rest

/-- Put a request on the queue, and hand it on if it is the only one. The default
timeout is 10000 milliseconds. -/
def ipmiQueue (c : HostClass) (r : Request κ) (position : Position) (s : State κ) : State κ :=
  if (s.enqueueMessage position (r.item s.name 10000)).ipmiMsgq.length = 1 then
    ipmiDequeue c (s.enqueueMessage position (r.item s.name 10000))
  else s.enqueueMessage position (r.item s.name 10000)

/-- The arguments with which a message without a result is put back: without
its timeout. -/
def repost (e : InProgress κ) : Request κ := { e.repost with timeout := none }

/-- What `ipmi_process` does after the callback. -/
def finish (c : HostClass) (tag : String) (s : State κ) : State κ :=
  ipmiDequeue c (s.unsetInprogress tag)

/-- Take a result, up to the callback. An empty result reposts its message. -/
def ipmiProcess (c : HostClass) (tag : String) (result : Text) (s : State κ) :
    Outcome (State κ) × Option (Frame κ) :=
  if result = [] then
    match lookupTag tag s.inprogress with
    | none => (.raise s "can't read inprogress(priority): no such element in array", none)
    | some e => (.ok (ipmiQueue c (repost e) .back (s.unsetInprogress tag)), none)
  else
    match c.decode result with
    | none => (.raise s "result cannot be read", none)
    | some (status, databytes) =>
      match lookupTag tag s.inprogress with
      | none => (.ok s, none)
      | some e =>
        match e.callback with
        | none => (.ok (finish c tag (s.emit (.answered e.toItem status databytes))), none)
        | some _ =>
          (.ok (s.emit (.answered e.toItem status databytes)), some ⟨tag, e.toItem⟩)

def ipmiHealth (c : HostClass) (s : State κ) : State κ := ipmiDequeue c s

/-! ## The queue and the slot -/

/-- All messages carry the name of the object, and at most one is in the slot. -/
structure Named (s : State κ) : Prop where
  waiting : ∀ item ∈ s.ipmiMsgq, item.tag = s.name
  tagged : ∀ e ∈ s.inprogress, e.tag = s.name
  single : s.inprogress = [] ∨ ∃ e, s.inprogress = [e]

theorem Named.sortQueue {s : State κ} (h : Named s) : Named s.sortQueue where
  waiting item hitem := h.waiting item ((sort_perm Item.priority s.ipmiMsgq).subset hitem)
  tagged := h.tagged
  single := h.single

theorem Named.enqueueMessage {s : State κ} (h : Named s) (position : Position) {item : Item κ}
    (tag : item.tag = s.name) : Named (s.enqueueMessage position item) where
  waiting other hother := by
    have hmem := (insertAt_perm position item s.ipmiMsgq).subset hother
    obtain rfl | hmem := List.mem_cons.mp hmem
    · exact tag
    · exact h.waiting other hmem
  tagged := h.tagged
  single := h.single

/-- With a message in the slot a dequeue only sorts the queue. -/
theorem ipmiDequeue_of_busy (c : HostClass) {s : State κ} (h : Named s) {e : InProgress κ}
    (busy : s.inprogress = [e]) : ipmiDequeue c s = s.sortQueue := by
  have htag := h.tagged e (by simp [busy])
  unfold ipmiDequeue
  split
  · rename_i hsorted
    have hempty : s.ipmiMsgq = [] :=
      ((sort_perm Item.priority s.ipmiMsgq).symm.trans (List.Perm.of_eq hsorted)).eq_nil
    obtain ⟨⟨ipmiMsgq, inprogress⟩, name, network, owed, effects⟩ := s
    simp only at hempty
    subst hempty
    rfl
  · rename_i item rest hsorted
    have hitem : item.tag = s.name := h.sortQueue.waiting item (by rw [hsorted]; simp)
    rw [if_pos]
    simp [lookupTag, busy, htag, hitem]

/-- With an empty slot a dequeue hands the first waiting message on. -/
theorem ipmiDequeue_of_free (c : HostClass) {s : State κ} (free : s.inprogress = []) :
    (s.ipmiMsgq = [] ∧ ipmiDequeue c s = s) ∨
      ∃ item rest, s.sortQueue.ipmiMsgq = item :: rest ∧
        ipmiDequeue c s = s.sortQueue.handOver c item rest := by
  unfold ipmiDequeue
  split
  · rename_i hsorted
    have hempty : s.ipmiMsgq = [] :=
      ((sort_perm Item.priority s.ipmiMsgq).symm.trans (List.Perm.of_eq hsorted)).eq_nil
    exact Or.inl ⟨hempty, rfl⟩
  · rename_i item rest hsorted
    refine Or.inr ⟨item, rest, hsorted, ?_⟩
    rw [if_neg]
    simp [lookupTag, free]

section handOver

variable (c : HostClass) (s : State κ) (item : Item κ) (rest : List (Item κ))

/-- Sending a message changes nothing but the log and what is owed. -/
theorem send_toMessageQueue : (s.send c item).toMessageQueue = s.toMessageQueue := by
  unfold State.send
  split
  · rfl
  · rfl

@[simp]
theorem send_name : (s.send c item).name = s.name := by
  unfold State.send
  split
  · rfl
  · rfl

@[simp]
theorem send_network : (s.send c item).network = s.network := by
  unfold State.send
  split
  · rfl
  · rfl

theorem handOver_toMessageQueue :
    (s.handOver c item rest).toMessageQueue = s.dispatch { item with after := none } rest :=
  send_toMessageQueue c _ item

@[simp]
theorem handOver_ipmiMsgq : (s.handOver c item rest).ipmiMsgq = rest :=
  congrArg MessageQueue.ipmiMsgq (handOver_toMessageQueue c s item rest)

@[simp]
theorem handOver_name : (s.handOver c item rest).name = s.name := send_name c _ item

@[simp]
theorem handOver_network : (s.handOver c item rest).network = s.network := send_network c _ item

/-- What has been handed on is owed if messages pass. -/
theorem handOver_owed :
    (s.handOver c item rest).owed = if s.passes c then s.owed ++ [item] else s.owed :=
  apply_ite State.owed _ _ _

/-- Handing on answers nothing. -/
theorem handOver_answered : (s.handOver c item rest).answered = s.answered := by
  have hlog : (s.handOver c item rest).effects =
      if s.passes c then s.effects ++ [.dispatched item] else s.effects :=
    apply_ite State.effects _ _ _
  rw [State.answered, hlog]
  split
  · simp [State.answered, Effect.answered?]
  · rfl

/-- The message that is handed on is the only one in the slot. -/
theorem handOver_inprogress (free : s.inprogress = []) :
    (s.sortQueue.handOver c item rest).inprogress =
      [({ item with after := none } : InProgress κ)] := by
  rw [handOver_toMessageQueue]
  show s.inprogress ++ [({ item with after := none } : InProgress κ)] = _
  rw [free, List.nil_append]

end handOver

theorem Named.handOver (c : HostClass) {s : State κ} (h : Named s) (free : s.inprogress = [])
    {item : Item κ} {rest : List (Item κ)} (sorted : s.sortQueue.ipmiMsgq = item :: rest) :
    Named (s.sortQueue.handOver c item rest) := by
  have htable := handOver_inprogress c s item rest free
  have hwaiting := h.sortQueue.waiting
  rw [sorted] at hwaiting
  refine ⟨?_, ?_, Or.inr ⟨_, htable⟩⟩
  · rw [handOver_ipmiMsgq, handOver_name]
    exact fun other hother => hwaiting other (List.mem_cons_of_mem _ hother)
  rw [htable, handOver_name]
  intro e he
  rw [List.mem_singleton] at he
  rw [he]
  exact hwaiting item List.mem_cons_self

/-- The slot after the only message in it has left. -/
theorem unsetInprogress_of_single {s : State κ} {e : InProgress κ} (busy : s.inprogress = [e]) :
    (s.unsetInprogress e.tag).inprogress = [] := by
  show unsetTag e.tag s.inprogress = []
  simp [unsetTag, busy]

/-! ## Events -/

/-- What the event loop, or a callback, can call next. -/
inductive Event (κ : Type u)
  | ipmiQueue (r : Request κ)
  /-- The other side sends the result of the oldest message it has. -/
  | ipmiProcess (result : Text)
  | ipmiHealth
  | network (on : Bool)

/-- A session together with the requests it has accepted, oldest first. -/
structure World (κ : Type u) where
  session : State κ := {}
  accepted : List (Item κ) := []

/-- The result of a message comes: it is processed, or dropped. -/
def receive (c : HostClass) (tag : String) (result : Text) (s : State κ) :
    Outcome (State κ) × Option (Frame κ) :=
  if s.passes c then ipmiProcess c tag result s else (.ok s, none)

def handle (c : HostClass) (w : World κ) : Event κ → World κ × Option (Frame κ)
  | .ipmiQueue r =>
    (⟨ipmiQueue c r .back w.session, w.accepted ++ [r.item w.session.name 10000]⟩, none)
  | .ipmiProcess result =>
    match w.session.owed with
    | [] => (w, none)
    | item :: owed =>
      let received := receive c item.tag result { w.session with owed := owed }
      ({ w with session := received.1.state }, received.2)
  | .ipmiHealth => ({ w with session := ipmiHealth c w.session }, none)
  | .network on => ({ w with session := { w.session with network := on } }, none)

/-- A result comes for a message that was handed over. -/
def admissible (w : World κ) : Event κ → Prop
  | .ipmiProcess _ => w.session.owed ≠ []
  | .ipmiQueue _ | .ipmiHealth | .network _ => True

instance (w : World κ) : DecidablePred (admissible w)
  | .ipmiProcess _ => inferInstanceAs (Decidable (w.session.owed ≠ []))
  | .ipmiQueue _ | .ipmiHealth | .network _ => isTrue trivial

/-- The session as an event loop: a callback that has returned lets the rest of
`ipmi_process` run. -/
def reentrant (c : HostClass) (κ : Type u) : Reentrant (World κ) (Event κ) (Frame κ) where
  admissible := admissible
  handle := handle c
  resume f w := ({ w with session := finish c f.tag w.session }, none)

instance (c : HostClass) (w : World κ) : DecidablePred ((reentrant c κ).admissible w) :=
  inferInstanceAs (DecidablePred (admissible w))

/-- A session as it is created. -/
structure Fresh (s : State κ) : Prop where
  queue : s.toMessageQueue = {}
  owed : s.owed = []
  effects : s.effects = []

end Amester.LocalHost
