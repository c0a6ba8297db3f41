/-
# The books of the openbmc session

The books are kept with a list of owed answers: messages that have left the
slot and whose callback has not run. It grows inside a step and is empty again
at its end, unless the step raises in between. A dequeue raises when the queue
stalls, that is, when its first message that needs the host has a LUN that is
no integer; the messages answered on the spot ahead of it stay owed for ever.
-/

import Amester.OpenBmc.Session

namespace Amester.OpenBmc

open BinaryFormat PriorityQueue

universe u

variable {κ : Type u}

/-! ## The invariant -/

/-- Where the accepted requests are: waiting, in progress, answered. -/
def State.places (s : State κ) : List (Item κ) := s.toMessageQueue.places s.answered

/-- Every answer came from the post of the message it was given to. -/
def State.OwnAnswers (s : State κ) : Prop :=
  ∀ item origin status databytes,
    Effect.answered item origin status databytes ∈ s.effects → origin = item

/-- The invariant, with the answers that are still owed. -/
structure Inv (accepted owed : List (Item κ)) (s : State κ) : Prop where
  books : Books Timed accepted (s.answered ++ owed) s.toMessageQueue
  tags : s.inprogressQ = s.inprogress.map fun e => e.tag
  timers : ∀ e ∈ s.inprogress, e.after.isSome
  own : s.OwnAnswers
  running : s.exited = false

/-- Changes to timers, tokens, posts and the status do not concern the
invariant. -/
theorem Inv.congr {accepted owed : List (Item κ)} {s t : State κ} (h : Inv accepted owed s)
    (queue : t.toMessageQueue = s.toMessageQueue) (tags : t.inprogressQ = s.inprogressQ)
    (effects : t.effects = s.effects) (exited : t.exited = s.exited) :
    Inv accepted owed t where
  books := by
    rw [queue, State.answered, effects]
    exact h.books
  tags := by
    rw [queue, tags]
    exact h.tags
  timers := by
    rw [queue]
    exact h.timers
  own := by
    rw [State.OwnAnswers, effects]
    exact h.own
  running := exited.trans h.running

theorem Inv.inprogress_eq_nil {accepted owed : List (Item κ)} {s : State κ}
    (h : Inv accepted owed s) (empty : s.inprogressQ = []) : s.inprogress = [] := by
  have htags := h.tags
  rw [empty] at htags
  exact List.map_eq_nil_iff.mp htags.symm

/-- `openbmc_process_packet` finds the message in progress. -/
theorem Inv.lookup {accepted owed : List (Item κ)} {s : State κ} (h : Inv accepted owed s)
    {e : InProgress κ} (inprogress : s.inprogress = [e]) :
    lookupTag (s.inprogressQ.headD "") s.inprogress = some e := by
  simp [lookupTag, h.tags, inprogress]

/-- With every answer given the books of the session balance; with one owed they
do not. -/
theorem Inv.perm_iff {accepted owed : List (Item κ)} {s : State κ}
    (h : Inv accepted owed s) : accepted.Perm s.places ↔ owed = [] := by
  have hlength := h.books.length_places
  constructor
  · intro hperm
    have hsame := hperm.length_eq
    simp only [State.places, MessageQueue.places, List.length_append] at hlength hsame
    exact List.eq_nil_of_length_eq_zero (by omega)
  · rintro rfl
    simpa [State.places] using h.books.conserved

/-! ## Sending and answering -/

/-- Moving the first waiting message into an empty slot. -/
theorem Inv.beginMessage {accepted owed : List (Item κ)} {s : State κ}
    (h : Inv accepted owed s) {item : Item κ} {rest : List (Item κ)}
    (msgq : s.ipmiMsgq = item :: rest) (empty : s.inprogressQ = []) :
    ∃ afters, s.beginMessage item rest =
        { s with
          toMessageQueue := ⟨rest, [{ item with after := some s.nextAfter }]⟩
          inprogressQ := [item.tag]
          afters := afters
          nextAfter := s.nextAfter + 1 } ∧
      Inv accepted owed (s.beginMessage item rest) := by
  have htable := h.inprogress_eq_nil empty
  have htimeout : item.timeout ≠ 0 := by
    have htimed := h.books.waiting item (by simp [msgq])
    exact htimed.2.ne'
  have hbegin : s.beginMessage item rest =
      { s with
        toMessageQueue := ⟨rest, [{ item with after := some s.nextAfter }]⟩
        inprogressQ := [item.tag]
        afters := s.afters ++ [s.nextAfter]
        nextAfter := s.nextAfter + 1 } := by
    simp [State.beginMessage, Item.entry, htimeout, empty, MessageQueue.dispatch, htable]
  refine ⟨_, hbegin, ?_⟩
  have hbooks := h.books.dispatch (e := { item with after := some s.nextAfter }) msgq htable
  rw [MessageQueue.dispatch, htable] at hbooks
  rw [hbegin]
  exact ⟨hbooks, rfl, by simp, h.own, h.running⟩

/-- Clearing the slot: the answer of its message is owed now. -/
theorem Inv.freeSlot {accepted owed : List (Item κ)} {s : State κ}
    (h : Inv accepted owed s) {e : InProgress κ} (inprogress : s.inprogress = [e])
    (timer : ℕ) : Inv accepted (owed ++ [e.toItem]) (s.freeSlot e timer) := by
  have hmem : e ∈ s.inprogress := by simp [inprogress]
  have hbooks := h.books.answer hmem
  have htable := (h.books.remove_eq hmem).2
  have hfree : (s.freeSlot e timer).toMessageQueue = ⟨s.ipmiMsgq, []⟩ := htable
  refine ⟨?_, ?_, ?_, h.own, h.running⟩
  · rw [hfree, ← htable, ← List.append_assoc]
    exact hbooks
  · rw [hfree]
    simp [State.freeSlot, h.tags, inprogress]
  · rw [hfree]
    nofun

/-- Running a callback is one effect. -/
theorem answer_eq (item origin : Item κ) (packet : Bytes) (s : State κ) :
    ∃ status databytes,
      s.answer item origin packet = s.emit (.answered item origin status databytes) := by
  unfold State.answer
  split
  · exact ⟨_, _, rfl⟩
  · exact ⟨_, _, rfl⟩

/-- Running the callback of a message with its own answer settles a debt. -/
theorem Inv.answer {accepted owed : List (Item κ)} {s : State κ} {item : Item κ}
    (h : Inv accepted (owed ++ [item]) s) (packet : Bytes) :
    Inv accepted owed (s.answer item item packet) := by
  obtain ⟨status, databytes, hanswer⟩ := answer_eq item item packet s
  rw [hanswer]
  refine ⟨?_, h.tags, h.timers, ?_, h.running⟩
  · have hanswered : (s.emit (.answered item item status databytes)).answered =
        s.answered ++ [item] := by
      simp [State.answered, State.emit, Effect.answered?]
    rw [hanswered]
    refine h.books.of_answered_perm ?_
    rw [List.append_assoc]
    exact List.Perm.append_left _ List.perm_append_comm
  · intro item' origin status' databytes' hmem
    obtain hold | hnew := List.mem_append.mp hmem
    · exact h.own item' origin status' databytes' hold
    · simp only [List.mem_singleton, Effect.answered.injEq] at hnew
      exact hnew.2.1.trans hnew.1.symm

/-- The session could send now: traffic is on, nothing is in progress, and the
host is connected. -/
def State.Ready (s : State κ) : Prop :=
  s.network = true ∧ s.inprogressQ = [] ∧ s.openbmcStatus = .connected

instance (s : State κ) : Decidable s.Ready :=
  inferInstanceAs (Decidable (_ ∧ _ ∧ _))

/-- The first message of the list that needs the host cannot be sent. -/
def stalls : List (Item κ) → Bool
  | [] => false
  | item :: rest => if fakesDeviceId item then stalls rest else (formatD item.lun).isNone

/-- The messages that leave the slot in a dequeue that raises: those answered on
the spot ahead of the one that cannot be sent. -/
def State.lost (s : State κ) : List (Item κ) :=
  if s.Ready ∧ stalls s.ipmiMsgq then s.ipmiMsgq.takeWhile fakesDeviceId else []

/-- Taking a packet for the message in progress: the slot is cleared, then the
next message sent, then the packet handed to the callback. -/
theorem openbmcProcessPacketWith_eq {accepted owed : List (Item κ)} {s : State κ}
    (h : Inv accepted owed s) {e : InProgress κ} (inprogress : s.inprogress = [e])
    (started : e.tag ∈ s.startTimes) (dequeue : State κ → Outcome (State κ))
    (origin : Item κ) (packet : Bytes) :
    ∃ timer, openbmcProcessPacketWith dequeue origin packet s =
      (dequeue (s.freeSlot e timer)).andThen fun s => .ok (s.answer e.toItem origin packet) := by
  obtain ⟨timer, htimer⟩ := Option.isSome_iff_exists.mp (h.timers e (by simp [inprogress]))
  refine ⟨timer, ?_⟩
  unfold openbmcProcessPacketWith
  rw [h.lookup inprogress]
  simp only [started, not_true_eq_false, if_false, htimer]

/-- Posting a message is no answer. -/
theorem Inv.geturl {accepted owed : List (Item κ)} {s : State κ} (h : Inv accepted owed s)
    (result : SendResult) (occNum : ℕ) (item : Item κ) :
    Inv accepted owed (s.geturl result occNum item) := by
  cases result with
  | failed => exact h
  | started token =>
      refine ⟨?_, h.tags, h.timers, ?_, h.running⟩
      · have hanswered : (s.geturl (.started token) occNum item).answered = s.answered := by
          simp [State.answered, State.geturl, State.emit, Effect.answered?]
        rw [hanswered]
        exact h.books
      · intro item' origin status databytes hmem
        obtain hold | hnew := List.mem_append.mp hmem
        · exact h.own item' origin status databytes hold
        · simp at hnew

/-- A session that is ready sends the first message of its queue. -/
theorem ipmiDequeueFrom_of_ready {accepted owed : List (Item κ)} {s : State κ}
    (h : Inv accepted owed s) (ready : s.Ready) (result : SendResult) (item : Item κ)
    (rest : List (Item κ)) :
    ipmiDequeueFrom result (item :: rest) s =
      openbmcSendWith (ipmiDequeueFrom result rest) result item (s.beginMessage item rest) := by
  obtain ⟨hnetwork, htags, hstatus⟩ := ready
  have htable := h.inprogress_eq_nil htags
  unfold ipmiDequeueFrom
  simp [hnetwork, htags, hstatus, htable, lookupTag]

/-- A session that is not ready does nothing. -/
theorem ipmiDequeueFrom_of_not_ready {s : State κ} (idle : ¬ s.Ready) (result : SendResult)
    (msgq : List (Item κ)) : ipmiDequeueFrom result msgq s = .ok s := by
  cases msgq with
  | nil => rfl
  | cons item rest =>
      unfold ipmiDequeueFrom
      split_ifs with hnetwork htags hstatus hlookup
      · rfl
      · rfl
      · rfl
      · rfl
      · exact absurd ⟨by simpa using hnetwork, by simpa using htags, by simpa using hstatus⟩
          idle

/-- A dequeue keeps the books up to the answers it loses, and it raises exactly
when the session is ready and its queue stalls. The induction follows the list
of waiting messages, from which each message that is answered on the spot takes
one. -/
theorem ipmiDequeueFrom_spec {accepted : List (Item κ)} (result : SendResult)
    (msgq : List (Item κ)) :
    ∀ (s : State κ) (owed : List (Item κ)), Inv accepted owed s → s.ipmiMsgq = msgq →
      Inv accepted (owed ++ s.lost) (ipmiDequeueFrom result msgq s).state ∧
        ((ipmiDequeueFrom result msgq s).error = none ↔ ¬ (s.Ready ∧ stalls msgq)) := by
  induction msgq with
  | nil =>
      intro s owed h hmsgq
      simp only [State.lost, hmsgq, stalls, Bool.false_eq_true, and_false, if_false,
        List.append_nil, not_false_eq_true, iff_true]
      exact ⟨h, rfl⟩
  | cons item rest ih =>
      intro s owed h hmsgq
      by_cases hready : s.Ready
      · obtain ⟨afters, hbegin, hinv⟩ := h.beginMessage hmsgq hready.2.1
        have hlost : s.lost =
            if stalls (item :: rest) then (item :: rest).takeWhile fakesDeviceId else [] := by
          simp [State.lost, hready, hmsgq]
        rw [ipmiDequeueFrom_of_ready h hready, hlost]
        by_cases hfake : fakesDeviceId item
        · have hstalls : stalls (item :: rest) = stalls rest := by simp [stalls, hfake]
          have htake : (item :: rest).takeWhile fakesDeviceId =
              item :: rest.takeWhile fakesDeviceId := by simp [hfake]
          have hmarked : Inv accepted owed ((s.beginMessage item rest).markStart item.tag) :=
            hinv.congr rfl rfl rfl rfl
          have htable : ((s.beginMessage item rest).markStart item.tag).inprogress =
              [{ item with after := some s.nextAfter }] := by rw [hbegin]; rfl
          obtain ⟨timer, hprocess⟩ := openbmcProcessPacketWith_eq hmarked htable
            (by simp [State.markStart]) (ipmiDequeueFrom result rest) item fakeDeviceId
          have hfree := hmarked.freeSlot htable timer
          have hfreeMsgq : (((s.beginMessage item rest).markStart item.tag).freeSlot
              { item with after := some s.nextAfter } timer).ipmiMsgq = rest := by
            rw [hbegin]; rfl
          have hfreeReady : (((s.beginMessage item rest).markStart item.tag).freeSlot
              { item with after := some s.nextAfter } timer).Ready := by
            rw [hbegin]; exact ⟨hready.1, rfl, hready.2.2⟩
          obtain ⟨hkept, herror⟩ := ih _ _ hfree hfreeMsgq
          simp only [State.lost, hfreeReady, hfreeMsgq, true_and] at hkept herror
          simp only [openbmcSendWith, hfake, if_true, hprocess, hstalls, htake, hready,
            true_and]
          by_cases hrest : stalls rest
          · simp only [hrest, if_true, not_true_eq_false, iff_false] at hkept herror ⊢
            rw [Outcome.andThen_of_raised herror]
            rw [List.append_assoc] at hkept
            exact ⟨hkept, herror⟩
          · simp only [hrest, Bool.false_eq_true, if_false, not_false_eq_true, iff_true,
              List.append_nil] at hkept herror ⊢
            rw [Outcome.andThen_of_ok herror]
            exact ⟨hkept.answer fakeDeviceId, rfl⟩
        · have hstalls : stalls (item :: rest) = (formatD item.lun).isNone := by
            simp [stalls, hfake]
          have hnone : (item :: rest).takeWhile fakesDeviceId = [] := by simp [hfake]
          simp only [openbmcSendWith, hfake, Bool.false_eq_true, if_false, hnone, ite_self,
            List.append_nil, hstalls]
          cases formatD item.lun with
          | none => exact ⟨hinv, by simp [Outcome.raise, hready]⟩
          | some occNum =>
              exact ⟨(hinv.geturl result occNum item).congr rfl rfl rfl rfl, by simp⟩
      · rw [ipmiDequeueFrom_of_not_ready hready]
        simp [State.lost, hready, h]

theorem ipmiDequeue_spec {accepted owed : List (Item κ)} {s : State κ}
    (h : Inv accepted owed s) (result : SendResult) :
    Inv accepted (owed ++ s.lost) (ipmiDequeue result s).state ∧
      ((ipmiDequeue result s).error = none ↔ ¬ (s.Ready ∧ stalls s.ipmiMsgq)) :=
  ipmiDequeueFrom_spec result s.ipmiMsgq s owed h rfl

/-- A dequeue that does not stall keeps the books. -/
theorem ipmiDequeue_inv {accepted owed : List (Item κ)} {s : State κ}
    (h : Inv accepted owed s) (keeps : s.lost = []) (result : SendResult) :
    Inv accepted owed (ipmiDequeue result s).state := by
  have hspec := (ipmiDequeue_spec h result).1
  rwa [keeps, List.append_nil] at hspec

theorem ipmiQueue_inv {accepted owed : List (Item κ)} {s : State κ}
    (h : Inv accepted owed s) {r : Request κ} (timeout : 0 < r.timeout.getD s.timeout)
    (result : SendResult) (position : Position) :
    Inv (r.item "0" s.timeout :: accepted) owed (ipmiQueue result r position s).state := by
  have hqueued : Inv (r.item "0" s.timeout :: accepted) owed
      (s.enqueueMessage position (r.item "0" s.timeout)) :=
    { h with books := h.books.insertMessage ⟨rfl, timeout⟩ position }
  unfold ipmiQueue
  split
  · rename_i hsingle
    obtain ⟨item, hmsgq⟩ := List.length_eq_one_iff.mp hsingle
    -- a message that stalls the queue is not answered on the spot
    have hkeeps : (s.enqueueMessage position (r.item "0" s.timeout)).lost = [] := by
      by_cases hfake : fakesDeviceId item <;> simp [State.lost, hmsgq, stalls, hfake]
    exact ipmiDequeue_inv hqueued hkeeps result
  · exact hqueued

/-- The queue would stall after the slot is cleared. -/
def State.WouldStall (s : State κ) : Prop :=
  s.network = true ∧ s.openbmcStatus = .connected ∧ stalls s.ipmiMsgq

instance (s : State κ) : Decidable s.WouldStall :=
  inferInstanceAs (Decidable (_ ∧ _ ∧ _))

/-- Clearing the slot makes the session ready if only the slot kept it busy. -/
theorem freeSlot_ready {accepted owed : List (Item κ)} {s : State κ}
    (h : Inv accepted owed s) {e : InProgress κ} (inprogress : s.inprogress = [e])
    (timer : ℕ) :
    ((s.freeSlot e timer).Ready ∧ stalls (s.freeSlot e timer).ipmiMsgq) ↔ s.WouldStall := by
  have htags : (s.freeSlot e timer).inprogressQ = [] := by
    simp [State.freeSlot, h.tags, inprogress]
  have hmsgq : (s.freeSlot e timer).ipmiMsgq = s.ipmiMsgq := rfl
  have hnetwork : (s.freeSlot e timer).network = s.network := rfl
  have hstatus : (s.freeSlot e timer).openbmcStatus = s.openbmcStatus := rfl
  rw [State.Ready, State.WouldStall, htags, hmsgq, hnetwork, hstatus]
  tauto

/-- A message that was never sent takes no packet. -/
theorem openbmcProcessPacket_of_not_started {accepted owed : List (Item κ)} {s : State κ}
    (h : Inv accepted owed s) {e : InProgress κ} (inprogress : s.inprogress = [e])
    (unsent : e.tag ∉ s.startTimes) (origin : Item κ) (result : SendResult)
    (packet : Bytes) : (openbmcProcessPacket result origin packet s).state = s := by
  unfold openbmcProcessPacket openbmcProcessPacketWith
  rw [h.lookup inprogress]
  simp [unsent]

/-- Taking the message's own packet while the queue does not stall. -/
theorem openbmcProcessPacket_own {accepted : List (Item κ)} {s : State κ}
    (h : Inv accepted [] s) {e : InProgress κ} (inprogress : s.inprogress = [e])
    (started : e.tag ∈ s.startTimes) (flows : ¬ s.WouldStall) (result : SendResult)
    (packet : Bytes) :
    Inv accepted [] (openbmcProcessPacket result e.toItem packet s).state := by
  obtain ⟨timer, hprocess⟩ :=
    openbmcProcessPacketWith_eq h inprogress started (ipmiDequeue result) e.toItem packet
  have hfree := h.freeSlot inprogress timer
  obtain ⟨hkept, herror⟩ := ipmiDequeue_spec hfree result
  rw [freeSlot_ready h inprogress timer] at herror
  have hlost : (s.freeSlot e timer).lost = [] := by
    rw [State.lost, if_neg (by rwa [freeSlot_ready h inprogress timer])]
  rw [hlost, List.append_nil] at hkept
  rw [openbmcProcessPacket, hprocess, Outcome.andThen_of_ok (herror.mpr flows)]
  exact hkept.answer packet

/-- Taking another message's packet, or letting the dequeue raise, changes the
session: it records a foreign answer or owes one. -/
theorem openbmcProcessPacket_changes {accepted : List (Item κ)} {s : State κ}
    (h : Inv accepted [] s) {e : InProgress κ} (inprogress : s.inprogress = [e])
    (started : e.tag ∈ s.startTimes) (origin : Item κ) (result : SendResult)
    (packet : Bytes) :
    (s.WouldStall → ¬ accepted.Perm
        (openbmcProcessPacket result origin packet s).state.places) ∧
      (¬ s.WouldStall → ∃ status databytes, Effect.answered e.toItem origin status databytes ∈
        (openbmcProcessPacket result origin packet s).state.effects) := by
  obtain ⟨timer, hprocess⟩ :=
    openbmcProcessPacketWith_eq h inprogress started (ipmiDequeue result) origin packet
  have hfree := h.freeSlot inprogress timer
  obtain ⟨hkept, herror⟩ := ipmiDequeue_spec hfree result
  rw [freeSlot_ready h inprogress timer] at herror
  constructor
  · intro hstall
    have hraised := mt herror.mp (not_not_intro hstall)
    rw [openbmcProcessPacket, hprocess, Outcome.andThen_of_raised hraised, hkept.perm_iff]
    simp
  · intro hflows
    rw [openbmcProcessPacket, hprocess, Outcome.andThen_of_ok (herror.mpr hflows)]
    obtain ⟨status, databytes, hanswer⟩ := answer_eq e.toItem origin packet
      (ipmiDequeue result (s.freeSlot e timer)).state
    refine ⟨status, databytes, ?_⟩
    rw [Outcome.ok_state, hanswer]
    simp [State.emit]

/-- A completed post is harmless when its reply is not ok or cannot be decoded,
when the message in progress was never sent, or when it is that message's own
and the queue does not stall. -/
def State.Harmless (s : State κ) (origin : Item κ) (reply : HttpReply) : Prop :=
  reply.packet = none ∨ ∃ e, s.inprogress = [e] ∧
    (e.tag ∈ s.startTimes → origin = e.toItem ∧ ¬ s.WouldStall)

theorem openbmcProcess_inv {accepted : List (Item κ)} {s : State κ} (h : Inv accepted [] s)
    {origin : Item κ} {reply : HttpReply} (harmless : s.Harmless origin reply)
    (result : SendResult) : Inv accepted [] (openbmcProcess result origin reply s).state := by
  unfold openbmcProcess
  cases hpacket : reply.packet with
  | none => exact h
  | some packet =>
      obtain hnone | ⟨e, htable, hown⟩ := harmless
      · simp [hnone] at hpacket
      · by_cases hstarted : e.tag ∈ s.startTimes
        · obtain ⟨rfl, hflows⟩ := hown hstarted
          exact openbmcProcessPacket_own h htable hstarted hflows result packet
        · rw [openbmcProcessPacket_of_not_started h htable hstarted]
          exact h

/-- A harmless completion of a post whose message is not in progress changes
nothing. -/
theorem openbmcProcess_late {accepted : List (Item κ)} {s : State κ} (h : Inv accepted [] s)
    {origin : Item κ} {reply : HttpReply} (harmless : s.Harmless origin reply)
    (late : ∀ e ∈ s.inprogress, e.toItem ≠ origin) (result : SendResult) :
    (openbmcProcess result origin reply s).state = s := by
  unfold openbmcProcess
  cases hpacket : reply.packet with
  | none => rfl
  | some packet =>
      obtain hnone | ⟨e, htable, hown⟩ := harmless
      · simp [hnone] at hpacket
      · have hunsent : e.tag ∉ s.startTimes := fun hstarted =>
          late e (by simp [htable]) (hown hstarted).1.symm
        exact openbmcProcessPacket_of_not_started h htable hunsent origin result packet

/-- Conversely, a completion that is not harmless exits, records a foreign answer
or loses one. -/
theorem harmless_of_openbmcProcess {accepted : List (Item κ)} {s : State κ}
    (h : Inv accepted [] s) {origin : Item κ} {reply : HttpReply} {result : SendResult}
    (own : (openbmcProcess result origin reply s).state.OwnAnswers)
    (conserved : accepted.Perm (openbmcProcess result origin reply s).state.places)
    (late : (∀ e ∈ s.inprogress, e.toItem ≠ origin) →
      (openbmcProcess result origin reply s).state = s) : s.Harmless origin reply := by
  cases hpacket : reply.packet with
  | none => exact Or.inl hpacket
  | some packet =>
      simp only [openbmcProcess, hpacket] at own conserved late
      refine Or.inr ?_
      obtain hempty | ⟨e, htable⟩ := h.books.single
      · -- nothing is in progress: the program exits
        have hlate := late (by simp [hempty])
        have hexit := congrArg State.exited hlate
        have hrunning := h.running
        simp [openbmcProcessPacket, openbmcProcessPacketWith, hempty, lookupTag, Outcome.raise,
          hrunning] at hexit
      · refine ⟨e, htable, fun hstarted => ?_⟩
        obtain ⟨hstall, hflow⟩ :=
          openbmcProcessPacket_changes h htable hstarted origin result packet
        have hflows : ¬ s.WouldStall := fun hstalls => hstall hstalls conserved
        obtain ⟨status, databytes, hanswer⟩ := hflow hflows
        exact ⟨own _ _ _ _ hanswer, hflows⟩

/-! ## Closing -/

/-- Without an established connection queueing does nothing else. -/
theorem ipmiQueue_of_not_connected {s : State κ} (h : s.openbmcStatus ≠ .connected)
    (result : SendResult) (r : Request κ) (position : Position) :
    ipmiQueue result r position s = .ok (s.enqueueMessage position (r.item "0" s.timeout)) := by
  have hidle : ¬ (s.enqueueMessage position (r.item "0" s.timeout)).Ready := fun hready =>
    h hready.2.2
  unfold ipmiQueue ipmiDequeue
  rw [ipmiDequeueFrom_of_not_ready hidle]
  split <;> rfl

/-- Reposting the one message in progress, or none, on a closed connection. -/
theorem repostAll_of_books {accepted owed : List (Item κ)} {s t : State κ}
    (h : Inv accepted owed s) (queue : t.toMessageQueue = s.toMessageQueue)
    (closed : t.openbmcStatus ≠ .connected) (result : SendResult) :
    ∃ startTimes, repostAll result s.inprogress t =
      .ok { t with toMessageQueue := ⟨s.reposted .front, []⟩, startTimes := startTimes } := by
  obtain hempty | ⟨e, htable⟩ := h.books.single
  · have hqueue : t.toMessageQueue = ⟨s.reposted .front, []⟩ := by
      rw [queue, MessageQueue.reposted, hempty]
      exact congrArg (MessageQueue.mk s.ipmiMsgq) hempty
    exact ⟨t.startTimes, by rw [hempty, repostAll, ← hqueue]⟩
  · have hmem : e ∈ s.inprogress := by simp [htable]
    have hitem : e.repost.item "0" t.timeout = e.toItem := by
      rw [← (h.books.pending e hmem).1, InProgress.repost_item]
    have hremove : t.remove e.tag = ⟨s.ipmiMsgq, []⟩ := by
      rw [queue]
      exact (h.books.remove_eq hmem).2
    have hqueue := ipmiQueue_of_not_connected (s := t.unsetInprogress e.tag) closed
      result e.repost .front
    refine ⟨t.startTimes.filter (· ≠ e.tag), ?_⟩
    rw [htable, repostAll, hqueue, Outcome.ok_andThen, repostAll, State.enqueueMessage,
      State.unsetInprogress, hremove, hitem, MessageQueue.reposted, htable]
    rfl

/-- A close with a token empties the slot and puts its message back. -/
theorem openbmcClose_of_open {accepted owed : List (Item κ)} {s : State κ}
    (h : Inv accepted owed s) (sock : s.openbmcSock ≠ 0) (result : SendResult) :
    ∃ t, openbmcClose result s = .ok t ∧ t.toMessageQueue = ⟨s.reposted .front, []⟩ ∧
      t.inprogressQ = [] ∧ t.effects = s.effects ∧ t.exited = s.exited := by
  have hclosed : Status.closed ≠ .connected := by decide
  obtain ⟨startTimes, hrepost⟩ := repostAll_of_books
    (t := { (s.markClosed.afterCancel s.openbmcOpenAfter).cancelAll s.inprogress with
      inprogressQ := [] }) h rfl hclosed result
  refine ⟨_, by rw [openbmcClose, if_neg sock, hrepost, Outcome.ok_andThen], rfl, ?_, ?_, ?_⟩
  · rfl
  · rfl
  · rfl

/-- Every close keeps the books, also the one that leaves the slot alone. -/
theorem openbmcClose_inv {accepted owed : List (Item κ)} {s : State κ}
    (h : Inv accepted owed s) (result : SendResult) :
    Inv accepted owed (openbmcClose result s).state := by
  by_cases sock : s.openbmcSock = 0
  · rw [openbmcClose, if_pos sock]
    exact h.congr rfl rfl rfl rfl
  · obtain ⟨t, hclose, hqueue, htags, heffects, hexited⟩ := openbmcClose_of_open h sock result
    have hbooks := h.books.repost .front
    rw [hclose, Outcome.ok_state]
    refine ⟨?_, by rw [htags, hqueue, List.map_nil], by simp [hqueue], ?_,
      hexited.trans h.running⟩
    · rw [hqueue, State.answered, heffects]
      exact hbooks
    · rw [State.OwnAnswers, heffects]
      exact h.own

/-- A close leaves no message in progress if there was none or if there was a
token. -/
theorem openbmcClose_clears {accepted owed : List (Item κ)} {s : State κ}
    (h : Inv accepted owed s) (result : SendResult) :
    ((openbmcClose result s).state.inprogress = [] ∧
        (openbmcClose result s).state.inprogressQ = []) ↔
      (s.openbmcSock = 0 → s.inprogress = []) := by
  by_cases sock : s.openbmcSock = 0
  · have htags := h.tags
    rw [openbmcClose, if_pos sock]
    change (s.inprogress = [] ∧ s.inprogressQ = []) ↔ _
    rw [htags, List.map_eq_nil_iff]
    simp [sock]
  · obtain ⟨t, hclose, hqueue, htags, -⟩ := openbmcClose_of_open h sock result
    rw [hclose, Outcome.ok_state]
    simp [hqueue, htags, sock]

theorem openbmcOpen_inv {accepted owed : List (Item κ)} {s : State κ}
    (h : Inv accepted owed s) (connected : Bool) :
    Inv accepted owed (openbmcOpen connected s) := by
  unfold openbmcOpen
  split_ifs
  · exact h
  · exact h.congr rfl rfl rfl rfl
  · exact h

/-- Logging in does not touch the slot. -/
theorem openbmcOpen_slot (connected : Bool) (s : State κ) :
    (openbmcOpen connected s).toMessageQueue = s.toMessageQueue ∧
      (openbmcOpen connected s).inprogressQ = s.inprogressQ := by
  unfold openbmcOpen
  split_ifs <;> exact ⟨rfl, rfl⟩

/-! ## Timers -/

theorem Inv.restartHealth {accepted : List (Item κ)} {s : State κ} (h : Inv accepted [] s) :
    Inv accepted [] s.restartHealth :=
  h.congr rfl rfl rfl rfl

theorem openbmcTimeout_inv {accepted : List (Item κ)} {s : State κ} (h : Inv accepted [] s)
    (result : SendResult) (connected : Bool) :
    Inv accepted [] (openbmcTimeout result connected s).state :=
  Outcome.andThen_state (openbmcClose_inv h result) fun hclosed =>
    openbmcOpen_inv hclosed connected

/-- A close never raises. -/
theorem openbmcClose_error {accepted : List (Item κ)} {s : State κ} (h : Inv accepted [] s)
    (result : SendResult) : (openbmcClose result s).error = none := by
  by_cases sock : s.openbmcSock = 0
  · rw [openbmcClose, if_pos sock]
    rfl
  · obtain ⟨t, hclose, -⟩ := openbmcClose_of_open h sock result
    rw [hclose]
    rfl

/-- The login after a close leaves the slot as the close left it. -/
theorem openbmcTimeout_slot {accepted : List (Item κ)} {s : State κ} (h : Inv accepted [] s)
    (result : SendResult) (connected : Bool) :
    (openbmcTimeout result connected s).state.inprogress =
        (openbmcClose result s).state.inprogress ∧
      (openbmcTimeout result connected s).state.inprogressQ =
        (openbmcClose result s).state.inprogressQ := by
  rw [openbmcTimeout, Outcome.andThen_of_ok (openbmcClose_error h result), Outcome.ok_state]
  obtain ⟨hqueue, htags⟩ := openbmcOpen_slot connected (openbmcClose result s).state
  exact ⟨by rw [hqueue], htags⟩

/-- A health check does what the status asks for, and nothing with the slot
unless the host is connected or the connection has failed. -/
theorem ipmiHealth_inv {accepted : List (Item κ)} {s : State κ} (h : Inv accepted [] s)
    (keeps : s.ipmiHealthPeriod ≠ 0 ∧ s.openbmcStatus = .connected → s.lost = [])
    (result : SendResult) (connected : Bool) :
    Inv accepted [] (ipmiHealth result connected s).state := by
  unfold ipmiHealth
  split
  · exact h.congr rfl rfl rfl rfl
  · rename_i hperiod
    split
    · exact openbmcOpen_inv h.restartHealth connected
    · exact openbmcOpen_inv h.restartHealth connected
    · exact h.restartHealth
    · rename_i hconnected
      exact ipmiDequeue_inv h.restartHealth (keeps ⟨hperiod, hconnected⟩) result
    · exact openbmcClose_inv h.restartHealth result
    · exact openbmcClose_inv h.restartHealth result

/-- A health check closes when the connection has failed, and then as any other
close. -/
theorem ipmiHealth_closes {s : State κ} (period : s.ipmiHealthPeriod ≠ 0)
    (failed : s.openbmcStatus = .timeout ∨ s.openbmcStatus = .error) (result : SendResult)
    (connected : Bool) :
    ipmiHealth result connected s = openbmcClose result s.restartHealth := by
  obtain hstatus | hstatus := failed <;> simp [ipmiHealth, period, hstatus]

end Amester.OpenBmc
