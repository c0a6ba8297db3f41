/-
# Responses and the slot of an openbmc session

The slot is freed as on a netc session, after the identifier of the timer has been asked
for. A message that cannot be sent, because its LUN is no integer, raises in the dequeue,
also in the one that stands between freeing the slot and running the callback.

So the response to the post of the message in progress frees the slot, runs the callback
and sends the next message exactly when its message has a timeout, so has every request for
the device identifier that moves behind it, and the message behind these can be sent.
-/

import Amester.Ipmi.Slot
import Amester.OpenBmc.Matching

namespace Amester.OpenBmc

open BinaryFormat PriorityQueue EventMachine

universe u

variable {κ : Type u}

/-! ## The slot in every run -/

/-- The message needs the host, and it can be sent. -/
def Sendable (item : Item κ) : Prop := fakesDeviceId item = false ∧ (formatD item.lun).isSome

/-- The slot holds one message or none; a message that can be sent has been; and posts carry
messages that can be sent. -/
structure SlotKept (s : State κ) : Prop where
  single : s.SingleSlot s.inprogressQ
  started : ∀ e ∈ s.inprogress, Sendable e.toItem → e.tag ∈ s.startTimes
  posts : ∀ post ∈ s.http, Sendable post.2

namespace SlotKept

theorem congr {s t : State κ} (h : SlotKept s) (inprogress : t.inprogress = s.inprogress)
    (tags : t.inprogressQ = s.inprogressQ) (startTimes : t.startTimes = s.startTimes)
    (http : t.http ⊆ s.http) : SlotKept t where
  single := h.single.congr inprogress tags
  started := by
    rw [inprogress, startTimes]
    exact h.started
  posts post hpost := h.posts post (http hpost)

theorem of_free {s : State κ} (inprogress : s.inprogress = []) (tags : s.inprogressQ = [])
    (posts : ∀ post ∈ s.http, Sendable post.2) : SlotKept s where
  single := Or.inl ⟨inprogress, tags⟩
  started e he := by
    rw [inprogress] at he
    exact absurd he List.not_mem_nil
  posts := posts

theorem freeSlot {s : State κ} (h : SlotKept s) {e : InProgress κ}
    (inprogress : s.inprogress = [e]) (timer : ℕ) :
    SlotKept (s.freeSlot e timer) ∧ (s.freeSlot e timer).inprogress = [] := by
  obtain ⟨hremove, htags⟩ := h.single.remove inprogress
  have hfree : (s.freeSlot e timer).inprogress = [] := congrArg MessageQueue.inprogress hremove
  exact ⟨of_free hfree htags h.posts, hfree⟩

end SlotKept

/-- A message that is entered in a free slot keeps it, once it has been sent if it can be. -/
theorem entered_slotKept {s t : State κ} (h : SlotKept s) (inprogress : s.inprogress = [])
    (item : Item κ) (rest : List (Item κ))
    (slot : t.inprogress = (s.beginMessage item rest).inprogress)
    (tags : t.inprogressQ = (s.beginMessage item rest).inprogressQ)
    (sent : Sendable item → item.tag ∈ t.startTimes) (posts : ∀ post ∈ t.http, Sendable post.2) :
    SlotKept t := by
  have hentered := h.single.dispatch inprogress item s.nextAfter rest
  refine ⟨hentered.congr slot tags, ?_, posts⟩
  intro e he
  have htable : t.inprogress = [item.entry s.nextAfter] :=
    slot.trans (congrArg MessageQueue.inprogress (MessageQueue.dispatch_of_free inprogress _ rest))
  rw [htable] at he
  obtain rfl := List.mem_singleton.mp he
  exact sent

theorem answer_slotKept {s : State κ} (h : SlotKept s) (item origin : Item κ)
    (packet : Bytes) : SlotKept (s.answer item origin packet) := by
  obtain ⟨status, databytes, hanswer⟩ := answer_eq item origin packet s
  rw [hanswer]
  exact h.congr rfl rfl rfl (List.Subset.refl _)

theorem openbmcProcessPacketWith_slotKept {dequeue : State κ → Outcome (State κ)}
    {s : State κ} (h : SlotKept s) (origin : Item κ) (packet : Bytes)
    (keeps : ∀ t, SlotKept t → SlotKept (dequeue t).state) :
    SlotKept (openbmcProcessPacketWith dequeue origin packet s).state := by
  unfold openbmcProcessPacketWith
  split
  · exact h.congr rfl rfl rfl (List.Subset.refl _)
  · rename_i e hlookup
    have htable := h.single.of_lookup hlookup
    split
    · exact h
    · split
      · exact h
      · rename_i timer hafter
        exact Outcome.andThen_state (keeps _ (h.freeSlot htable timer).1) fun hnext =>
          answer_slotKept hnext _ origin packet

/-- Sending a message that was entered in a free slot. -/
theorem openbmcSendWith_slotKept {dequeue : State κ → Outcome (State κ)} {s : State κ}
    (h : SlotKept s) (inprogress : s.inprogress = []) (result : SendResult) (item : Item κ)
    (rest : List (Item κ)) (keeps : ∀ t, SlotKept t → SlotKept (dequeue t).state) :
    SlotKept (openbmcSendWith dequeue result item (s.beginMessage item rest)).state := by
  have hposts : ∀ post ∈ (s.beginMessage item rest).http, Sendable post.2 := h.posts
  unfold openbmcSendWith
  split
  · rename_i hfake
    have hmarked : SlotKept ((s.beginMessage item rest).markStart item.tag) := by
      refine entered_slotKept h inprogress item rest rfl rfl ?_ hposts
      exact fun hsend => absurd hsend.1 (by simp [hfake])
    exact openbmcProcessPacketWith_slotKept hmarked item fakeDeviceId keeps
  · rename_i hfake
    split
    · rename_i hformat
      refine entered_slotKept h inprogress item rest rfl rfl ?_ hposts
      exact fun hsend => absurd hsend.2 (by simp [hformat])
    · rename_i occNum hformat
      have hsendable : Sendable item := ⟨by simpa using hfake, by simp [hformat]⟩
      have hmarked : item.tag ∈ (((s.beginMessage item rest).geturl result occNum item).markStart
          item.tag).startTimes := List.mem_append_right _ (List.mem_singleton.mpr rfl)
      cases result with
      | failed => exact entered_slotKept h inprogress item rest rfl rfl (fun _ => hmarked) hposts
      | started token =>
          refine entered_slotKept h inprogress item rest rfl rfl (fun _ => hmarked) ?_
          intro post hpost
          obtain hold | hnew := List.mem_append.mp hpost
          · exact hposts post hold
          · rw [List.mem_singleton.mp hnew]
            exact hsendable

theorem ipmiDequeueFrom_slotKept (result : SendResult) (msgq : List (Item κ)) :
    ∀ s : State κ, SlotKept s → SlotKept (ipmiDequeueFrom result msgq s).state := by
  induction msgq with
  | nil => exact fun s h => h
  | cons item rest ih =>
      intro s h
      unfold ipmiDequeueFrom
      split_ifs with hnetwork htags hstatus hlookup
      · exact h
      · exact h
      · exact h
      · exact h
      · simp only [ne_eq, not_not] at htags
        exact openbmcSendWith_slotKept h (h.single.inprogress_eq_nil htags) result item rest ih

theorem ipmiDequeue_slotKept {s : State κ} (h : SlotKept s) (result : SendResult) :
    SlotKept (ipmiDequeue result s).state :=
  ipmiDequeueFrom_slotKept result s.ipmiMsgq s h

theorem ipmiQueue_slotKept {s : State κ} (h : SlotKept s) (result : SendResult)
    (r : Request κ) (position : Position) :
    SlotKept (ipmiQueue result r position s).state := by
  have hqueued : SlotKept (s.enqueueMessage position (r.item "0" s.timeout)) :=
    h.congr rfl rfl rfl (List.Subset.refl _)
  unfold ipmiQueue
  split
  · exact ipmiDequeue_slotKept hqueued result
  · exact hqueued

/-- A close with a token frees the slot, and one without leaves it alone. -/
theorem openbmcClose_slotKept {s : State κ} (h : SlotKept s) (result : SendResult) :
    SlotKept (openbmcClose result s).state := by
  have hstatus : Status.closed ≠ .connected := by decide
  by_cases sock : s.openbmcSock = 0
  · rw [openbmcClose, if_pos sock]
    exact h.congr rfl rfl rfl (List.Subset.refl _)
  · rw [openbmcClose, if_neg sock]
    obtain ⟨hempty, -⟩ | ⟨e, htable, -⟩ := h.single
    · rw [hempty, repostAll]
      exact .of_free hempty rfl h.posts
    · have hqueue := ipmiQueue_of_not_connected
        (s := State.unsetInprogress
          { (s.markClosed.afterCancel s.openbmcOpenAfter).cancelAll [e] with
            inprogressQ := [] } e.tag) hstatus result e.repost .front
      rw [htable, repostAll, hqueue, Outcome.ok_andThen, repostAll]
      refine .of_free ?_ rfl h.posts
      show unsetTag e.tag s.inprogress = []
      simp [unsetTag, htable]

theorem openbmcOpen_slotKept {s : State κ} (h : SlotKept s) (connected : Bool) :
    SlotKept (openbmcOpen connected s) := by
  unfold openbmcOpen
  split_ifs
  · exact h
  · exact h.congr rfl rfl rfl (List.Subset.refl _)
  · exact h

theorem ipmiHealth_slotKept {s : State κ} (h : SlotKept s) (result : SendResult)
    (connected : Bool) : SlotKept (ipmiHealth result connected s).state := by
  have hrestart : SlotKept s.restartHealth := h.congr rfl rfl rfl (List.Subset.refl _)
  unfold ipmiHealth
  split
  · exact h.congr rfl rfl rfl (List.Subset.refl _)
  · split
    · exact openbmcOpen_slotKept hrestart connected
    · exact openbmcOpen_slotKept hrestart connected
    · exact hrestart
    · exact ipmiDequeue_slotKept hrestart result
    · exact openbmcClose_slotKept hrestart result
    · exact openbmcClose_slotKept hrestart result

theorem SlotKept.completed {s : State κ} (h : SlotKept s) (token : ℕ) :
    SlotKept (s.completed token) :=
  h.congr rfl rfl rfl List.filter_sublist.subset

theorem openbmcProcess_slotKept {s : State κ} (h : SlotKept s) (result : SendResult)
    (origin : Item κ) (reply : HttpReply) :
    SlotKept (openbmcProcess result origin reply s).state := by
  unfold openbmcProcess
  split
  · exact openbmcProcessPacketWith_slotKept h origin _ fun t ht => ipmiDequeue_slotKept ht result
  · exact h

/-- Every event keeps the slot, also one that raises. -/
theorem step_slotKept (w : World κ) (event : Event κ) (h : SlotKept w.session) :
    SlotKept (w.step event).session := by
  unfold World.step
  split
  · exact h
  · cases event with
    | ipmiQueue r result => exact ipmiQueue_slotKept h result r .back
    | ipmiDequeue result => exact ipmiDequeue_slotKept h result
    | openbmcProcess token reply result =>
        simp only
        cases w.session.http.lookup token with
        | none => exact h
        | some origin => exact openbmcProcess_slotKept (h.completed token) result origin reply
    | openbmcTimeout connected =>
        exact Outcome.andThen_state (openbmcClose_slotKept h .failed) fun hclosed =>
          openbmcOpen_slotKept hclosed connected
    | openbmcClose => exact openbmcClose_slotKept h .failed
    | openbmcOpen connected => exact openbmcOpen_slotKept h connected
    | ipmiHealth result connected => exact ipmiHealth_slotKept h result connected
    | network on => exact h.congr rfl rfl rfl (List.Subset.refl _)
    | configure timeout => exact h.congr rfl rfl rfl (List.Subset.refl _)

/-- The slot is kept in every state that is reached, by whatever events. -/
theorem run_slotKept {w : World κ} (h : SlotKept w.session) (events : List (Event κ)) :
    SlotKept ((machine κ).run w events).session := by
  induction events generalizing w with
  | nil => exact h
  | cons event events ih => exact ih (step_slotKept w event h)

/-! ## What a response does -/

/-- The messages that a dequeue can move: none while the network is off or the host is not
connected. -/
def State.moving (s : State κ) : List (Item κ) :=
  if s.network = true ∧ s.openbmcStatus = .connected then s.ipmiMsgq else []

/-- The library takes the post. -/
def SendResult.taken : SendResult → Bool
  | .started _ => true
  | .failed => false

/-- The message of a post, if the effect is one. -/
def Effect.posted? : Effect κ → Option (Item κ)
  | .posted _ _ item => some item
  | .answered _ _ _ _ => none

/-- The messages whose callbacks a command runs, in order. -/
def callbacksSince (s t : State κ) : List (Item κ) :=
  withCallback ((t.effects.drop s.effects.length).filterMap Effect.answered?)

/-- The messages that a command posts, in order. -/
def postedSince (s t : State κ) : List (Item κ) :=
  (t.effects.drop s.effects.length).filterMap Effect.posted?

/-- The response to `e` frees the slot, runs the callback and sends the next message. -/
structure Frees (result : SendResult) (packet : Bytes) (s : State κ) (e : InProgress κ) :
    Prop where
  returns : (openbmcProcessPacket result e.toItem packet s).error = none
  moves : Moves fakesDeviceId result.taken s.moving [e.toItem] s.toMessageQueue
    (openbmcProcessPacket result e.toItem packet s).state.toMessageQueue
    (callbacksSince s (openbmcProcessPacket result e.toItem packet s).state)
    (postedSince s (openbmcProcessPacket result e.toItem packet s).state)

/-- What has become of the messages, told by the log. -/
def Moved (result : SendResult) (moving answered : List (Item κ)) (s t : State κ) : Prop :=
  ∃ new, t.effects = s.effects ++ new ∧
    Moves fakesDeviceId result.taken moving answered s.toMessageQueue t.toMessageQueue
      (withCallback (new.filterMap Effect.answered?)) (new.filterMap Effect.posted?)

/-- The messages can move: those that are answered on the spot have timeouts, and the one
behind them can be sent. -/
structure Movable (moving : List (Item κ)) : Prop where
  spots : ∀ item ∈ moving.takeWhile fakesDeviceId, item.timeout ≠ 0
  flows : stalls moving = false

/-- When the response does that. -/
structure Freeable (s : State κ) (e : InProgress κ) : Prop extends Movable s.moving where
  timed : e.timeout ≠ 0

theorem movable_nil : Movable ([] : List (Item κ)) := ⟨nofun, rfl⟩

theorem movable_cons_of_fake {item : Item κ} (fake : fakesDeviceId item = true)
    (rest : List (Item κ)) : Movable (item :: rest) ↔ item.timeout ≠ 0 ∧ Movable rest := by
  constructor
  · intro h
    have hspots := h.spots
    have hflows := h.flows
    rw [List.takeWhile_cons_of_pos fake, List.forall_mem_cons] at hspots
    rw [stalls, if_pos fake] at hflows
    exact ⟨hspots.1, hspots.2, hflows⟩
  · rintro ⟨htimed, hrest⟩
    refine ⟨?_, ?_⟩
    · rw [List.takeWhile_cons_of_pos fake, List.forall_mem_cons]
      exact ⟨htimed, hrest.spots⟩
    · rw [stalls, if_pos fake]
      exact hrest.flows

theorem movable_cons_of_not_fake {item : Item κ} (other : fakesDeviceId item = false)
    (rest : List (Item κ)) : Movable (item :: rest) ↔ (formatD item.lun).isSome := by
  have hstalls : stalls (item :: rest) = (formatD item.lun).isNone := by simp [stalls, other]
  constructor
  · intro h
    have hflows := h.flows
    rw [hstalls] at hflows
    simpa [Option.isSome_iff_ne_none] using hflows
  · intro hformat
    refine ⟨?_, ?_⟩
    · rw [List.takeWhile_cons_of_neg (by simp [other])]
      simp
    · rw [hstalls]
      simpa [Option.isSome_iff_ne_none] using hformat

/-- A message without a timeout has no timer to cancel. -/
theorem openbmcProcessPacketWith_of_single {s : State κ} (h : SlotKept s) {e : InProgress κ}
    (inprogress : s.inprogress = [e]) (started : e.tag ∈ s.startTimes)
    (dequeue : State κ → Outcome (State κ)) (origin : Item κ) (packet : Bytes) :
    (e.timeout = 0 → openbmcProcessPacketWith dequeue origin packet s =
        .raise s "can't read inprogress(after): no such element in array") ∧
      (e.timeout ≠ 0 → ∃ timer, openbmcProcessPacketWith dequeue origin packet s =
        (dequeue (s.freeSlot e timer)).andThen fun s => .ok (s.answer e.toItem origin packet)) := by
  have hafter := h.single.after_eq_none_iff inprogress
  unfold openbmcProcessPacketWith
  rw [h.single.lookup inprogress]
  constructor
  · intro hzero
    simp only [started, not_true_eq_false, if_false, hafter.mpr hzero]
  · intro htimed
    obtain ⟨timer, htimer⟩ := Option.ne_none_iff_exists'.mp (mt hafter.mp htimed)
    exact ⟨timer, by simp only [started, not_true_eq_false, if_false, htimer]⟩

/-- Answering the message in progress, around a dequeue that moves `moving` if `P`. -/
theorem openbmcProcessPacketWith_spec {s : State κ} (h : SlotKept s) {e : InProgress κ}
    (inprogress : s.inprogress = [e]) (started : e.tag ∈ s.startTimes)
    {dequeue : State κ → Outcome (State κ)} {P : Prop} {result : SendResult}
    {moving : List (Item κ)}
    (returns : ∀ timer, (dequeue (s.freeSlot e timer)).error = none ↔ P)
    (moves : ∀ timer, P →
      Moved result moving [] (s.freeSlot e timer) (dequeue (s.freeSlot e timer)).state)
    (origin : Item κ) (packet : Bytes) :
    ((openbmcProcessPacketWith dequeue origin packet s).error = none ↔ e.timeout ≠ 0 ∧ P) ∧
      ((openbmcProcessPacketWith dequeue origin packet s).error = none →
        Moved result moving [e.toItem] s
          (openbmcProcessPacketWith dequeue origin packet s).state) := by
  obtain ⟨hraises, htakes⟩ :=
    openbmcProcessPacketWith_of_single h inprogress started dequeue origin packet
  by_cases hzero : e.timeout = 0
  · rw [hraises hzero]
    simp [Outcome.raise, hzero]
  · obtain ⟨timer, hprocess⟩ := htakes hzero
    rw [hprocess]
    by_cases hP : P
    · have hdequeue := (returns timer).mpr hP
      obtain ⟨new, heffects, hmoves⟩ := moves timer hP
      rw [Outcome.andThen_of_ok hdequeue]
      generalize (dequeue (s.freeSlot e timer)).state = t at heffects hmoves
      obtain ⟨status, databytes, hanswer⟩ := answer_eq e.toItem origin packet t
      rw [hanswer]
      refine ⟨by simp [hzero, hP], fun _ => ⟨new ++ [.answered e.toItem origin status databytes],
        ?_, ?_⟩⟩
      · rw [← List.append_assoc]
        exact congrArg (· ++ _) heffects
      · rw [List.filterMap_append, List.filterMap_append, withCallback_append]
        simp only [List.filterMap_cons, Effect.answered?, Effect.posted?, List.filterMap_nil,
          List.append_nil]
        exact hmoves.answer (q := s.toMessageQueue) rfl e.toItem
    · have hdequeue := mt (returns timer).mp hP
      rw [Outcome.andThen_of_raised hdequeue]
      exact ⟨by simp [hdequeue, hP], fun hreturns => absurd hreturns hdequeue⟩

/-- A session that can send: its slot is free, it is connected, and traffic is on. -/
structure CanSend (s : State κ) : Prop extends SlotKept s where
  free : s.inprogress = []
  status : s.openbmcStatus = .connected
  on : s.network = true

/-- It sends the first message. -/
theorem CanSend.ipmiDequeueFrom_cons {s : State κ} (h : CanSend s) (result : SendResult)
    (item : Item κ) (rest : List (Item κ)) :
    ipmiDequeueFrom result (item :: rest) s =
      openbmcSendWith (ipmiDequeueFrom result rest) result item (s.beginMessage item rest) := by
  have htags := h.single.tags_eq_nil h.free
  unfold ipmiDequeueFrom
  rw [if_neg (by simp [h.on]), if_neg (by simp [htags]), if_neg (by simp [h.status]),
    if_neg (by simp [lookupTag, h.free])]

/-- A message that is answered on the spot has been entered and marked. -/
theorem CanSend.marked {s : State κ} (h : CanSend s) {item : Item κ}
    (fake : fakesDeviceId item = true) (rest : List (Item κ)) :
    SlotKept ((s.beginMessage item rest).markStart item.tag) ∧
      ((s.beginMessage item rest).markStart item.tag).inprogress = [item.entry s.nextAfter] := by
  refine ⟨entered_slotKept h.toSlotKept h.free item rest rfl rfl ?_ h.posts, ?_⟩
  · exact fun hsend => absurd hsend.1 (by simp [fake])
  · exact congrArg MessageQueue.inprogress (MessageQueue.dispatch_of_free h.free _ rest)

/-- When it has gone through the slot the session can send again. -/
theorem CanSend.again {s : State κ} (h : CanSend s) {item : Item κ}
    (fake : fakesDeviceId item = true) (rest : List (Item κ)) (timer : ℕ) :
    CanSend (((s.beginMessage item rest).markStart item.tag).freeSlot
      (item.entry s.nextAfter) timer) ∧
      (((s.beginMessage item rest).markStart item.tag).freeSlot (item.entry s.nextAfter)
        timer).ipmiMsgq = rest := by
  obtain ⟨hmarked, htable⟩ := h.marked fake rest
  obtain ⟨hkept, hfree⟩ := hmarked.freeSlot htable timer
  exact ⟨⟨hkept, hfree, h.status, h.on⟩, rfl⟩

/-- Such a dequeue returns when the messages can move, and then it moves them. The induction
is on those that wait. -/
theorem CanSend.ipmiDequeueFrom_spec (result : SendResult) (msgq : List (Item κ)) :
    ∀ s : State κ, CanSend s → s.ipmiMsgq = msgq →
      ((ipmiDequeueFrom result msgq s).error = none ↔ Movable msgq) ∧
        (Movable msgq → Moved result msgq [] s (ipmiDequeueFrom result msgq s).state) := by
  induction msgq with
  | nil =>
      intro s h hmsgq
      exact ⟨by simp [ipmiDequeueFrom, movable_nil],
        fun _ => ⟨[], by simp [ipmiDequeueFrom], .none h.free⟩⟩
  | cons item rest ih =>
      intro s h hmsgq
      rw [h.ipmiDequeueFrom_cons, openbmcSendWith]
      cases hfake : fakesDeviceId item with
      | true =>
          obtain ⟨hmarked, htable⟩ := h.marked hfake rest
          have hothers := fun timer =>
            ih _ (h.again hfake rest timer).1 (h.again hfake rest timer).2
          obtain ⟨hreturns, hmoves⟩ := openbmcProcessPacketWith_spec hmarked htable
            (List.mem_append_right _ (List.mem_singleton.mpr rfl))
            (fun timer => (hothers timer).1) (fun timer => (hothers timer).2) item fakeDeviceId
          have hall := hreturns.trans (movable_cons_of_fake hfake rest).symm
          rw [if_pos rfl]
          refine ⟨hall, fun hmovable => ?_⟩
          obtain ⟨new, heffects, hnew⟩ := hmoves (hall.mpr hmovable)
          exact ⟨new, heffects, hnew.onSpot hfake hmsgq⟩
      | false =>
          rw [if_neg Bool.false_ne_true, movable_cons_of_not_fake hfake]
          cases hformat : formatD item.lun with
          | none => exact ⟨by simp [Outcome.raise], by simp⟩
          | some occNum =>
              refine ⟨by simp, fun _ => ?_⟩
              cases result with
              | failed =>
                  refine ⟨[], by simp [State.markStart, State.geturl, State.beginMessage], ?_⟩
                  exact .send hfake hmsgq h.free s.nextAfter
              | started token =>
                  refine ⟨[.posted occNum (pssThruData item) item], rfl, ?_⟩
                  exact .send hfake hmsgq h.free s.nextAfter

/-- A dequeue on a free slot moves what there is to move. -/
theorem ipmiDequeue_moves {s : State κ} (h : SlotKept s) (free : s.inprogress = [])
    (result : SendResult) :
    ((ipmiDequeue result s).error = none ↔ Movable s.moving) ∧
      (Movable s.moving → Moved result s.moving [] s (ipmiDequeue result s).state) := by
  unfold ipmiDequeue State.moving
  by_cases hready : s.network = true ∧ s.openbmcStatus = .connected
  · rw [if_pos hready]
    exact CanSend.ipmiDequeueFrom_spec result _ s ⟨h, free, hready.2, hready.1⟩ rfl
  · rw [if_neg hready, ipmiDequeueFrom_of_not_ready fun ready => hready ⟨ready.1, ready.2.2⟩]
    exact ⟨by simp [movable_nil], fun _ => ⟨[], by simp, .none free⟩⟩

/-- The response to a message in progress that was posted frees the slot exactly when it
can. -/
theorem frees_iff {s : State κ} (h : SlotKept s) {e : InProgress κ}
    (inprogress : s.inprogress = [e]) (sent : Sendable e.toItem) (result : SendResult)
    (packet : Bytes) : Frees result packet s e ↔ Freeable s e := by
  have hstarted : e.tag ∈ s.startTimes := h.started e (by simp [inprogress]) sent
  have hdequeue : ∀ timer, ((ipmiDequeue result (s.freeSlot e timer)).error = none ↔
        Movable s.moving) ∧
      (Movable s.moving → Moved result s.moving [] (s.freeSlot e timer)
        (ipmiDequeue result (s.freeSlot e timer)).state) := fun timer =>
    ipmiDequeue_moves (h.freeSlot inprogress timer).1 (h.freeSlot inprogress timer).2 result
  obtain ⟨hreturns, hmoves⟩ := openbmcProcessPacketWith_spec h inprogress hstarted
    (fun timer => (hdequeue timer).1) (fun timer => (hdequeue timer).2) e.toItem packet
  constructor
  · intro hfrees
    obtain ⟨htimed, hmovable⟩ := hreturns.mp hfrees.returns
    exact ⟨hmovable, htimed⟩
  · intro hfreeable
    have herror := hreturns.mpr ⟨hfreeable.timed, hfreeable.toMovable⟩
    obtain ⟨new, heffects, hnew⟩ := hmoves herror
    refine ⟨herror, ?_⟩
    have hsince : (openbmcProcessPacket result e.toItem packet s).state.effects.drop
        s.effects.length = new := by
      rw [openbmcProcessPacket, heffects, List.drop_left]
    rw [callbacksSince, postedSince, hsince]
    exact hnew

end Amester.OpenBmc
