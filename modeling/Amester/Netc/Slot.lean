/-
# Responses and the slot of a netc session

A message without a timeout goes into the slot without a timer, and the response to it asks
for the identifier of its timer before the slot is freed. The same holds of a request for
the device identifier, whose response is made up while the message in front of it is being
answered: if that raises, the callbacks of the messages in front are lost.

So whatever has happened to a session, a response frees the slot, runs the callback and
sends the next message exactly when its message has a timeout, and so has every request for
the device identifier that moves behind it; and when it is long enough to be read.
-/

import Amester.Ipmi.Slot
import Amester.Netc.Callbacks

namespace Amester.Netc

open BinaryFormat PriorityQueue EventMachine

universe u

variable {κ : Type u}

/-! ## The slot in every run -/

/-- The slot holds one message or none, one only while the session is connected, and then
there is a channel. -/
structure SlotKept (s : State κ) : Prop where
  single : s.SingleSlot s.inprogressQ
  up : s.inprogress ≠ [] → s.netcStatus = .connected
  connected : s.netcStatus = .connected → s.netcSock ≠ 0

namespace SlotKept

/-- What a change to other fields leaves alone. -/
theorem congr {s t : State κ} (h : SlotKept s) (inprogress : t.inprogress = s.inprogress)
    (tags : t.inprogressQ = s.inprogressQ) (status : t.netcStatus = s.netcStatus)
    (sock : t.netcSock = s.netcSock) : SlotKept t where
  single := h.single.congr inprogress tags
  up := by
    rw [inprogress, status]
    exact h.up
  connected := by
    rw [status, sock]
    exact h.connected

/-- A free slot is kept whatever becomes of the connection. -/
theorem of_free {s : State κ} (inprogress : s.inprogress = []) (tags : s.inprogressQ = [])
    (connected : s.netcStatus = .connected → s.netcSock ≠ 0) : SlotKept s where
  single := Or.inl ⟨inprogress, tags⟩
  up held := absurd inprogress held
  connected := connected

theorem free {s : State κ} (h : SlotKept s) (down : s.netcStatus ≠ .connected) :
    s.inprogress = [] ∧ s.inprogressQ = [] := by
  have hfree : s.inprogress = [] := by_contra fun held => down (h.up held)
  exact ⟨hfree, h.single.tags_eq_nil hfree⟩

/-- Cancelling the timer and clearing the entries frees the slot. -/
theorem freeSlot {s : State κ} (h : SlotKept s) {e : InProgress κ}
    (inprogress : s.inprogress = [e]) (timer : ℕ) :
    SlotKept (s.freeSlot e timer) ∧ (s.freeSlot e timer).inprogress = [] := by
  obtain ⟨hremove, htags⟩ := h.single.remove inprogress
  have hfree : (s.freeSlot e timer).inprogress = [] := congrArg MessageQueue.inprogress hremove
  exact ⟨of_free hfree htags h.connected, hfree⟩

end SlotKept

/-- A message goes into a free slot. -/
theorem beginMessage_slotKept {s : State κ} (h : SlotKept s) (inprogress : s.inprogress = [])
    (status : s.netcStatus = .connected) (item : Item κ) (rest : List (Item κ)) :
    SlotKept (s.beginMessage item rest) :=
  ⟨h.single.dispatch inprogress item s.nextAfter rest, fun _ => status, h.connected⟩

/-- A close leaves the slot free. Without a channel the session was not connected. -/
theorem netcClose_slotKept {s : State κ} (h : SlotKept s) : SlotKept (netcClose s).state := by
  obtain ⟨effects, hmark⟩ := markClosed_eq s
  have hstatus : Status.closed ≠ .connected := by decide
  by_cases sock : s.netcSock = 0
  · obtain ⟨hfree, htags⟩ := h.free fun hconnected => h.connected hconnected sock
    rw [netcClose, if_pos sock, Outcome.ok_state, hmark]
    exact .of_free hfree htags fun hconnected => absurd hconnected hstatus
  · have hdrop := dropChannel_eq s.markClosed
    obtain ⟨queue, hrepost, hfree⟩ : ∃ queue : MessageQueue κ,
        repostAll s.inprogress s.markClosed.dropChannel =
          .ok { s.markClosed.dropChannel with toMessageQueue := queue } ∧
        queue.inprogress = [] := by
      obtain ⟨hempty, -⟩ | ⟨e, htable, -⟩ := h.single
      · refine ⟨s.markClosed.dropChannel.toMessageQueue, by rw [hempty, repostAll], ?_⟩
        rw [hdrop, hmark]
        exact hempty
      · have hclosed : s.markClosed.dropChannel.netcStatus ≠ .connected := by
          rw [hdrop, hmark]
          exact hstatus
        have hqueue := ipmiQueue_of_not_connected
          (s := { s.markClosed.dropChannel with
            toMessageQueue := s.markClosed.dropChannel.remove e.tag }) hclosed e.repost .front
        refine ⟨_, by rw [htable, repostAll, hqueue, Outcome.ok_andThen, repostAll]; rfl, ?_⟩
        rw [hdrop, hmark]
        show unsetTag e.tag s.inprogress = []
        simp [unsetTag, htable]
    rw [netcClose, if_neg sock, hrepost, Outcome.ok_andThen, Outcome.ok_state, hdrop, hmark]
    exact .of_free hfree rfl fun hconnected => absurd hconnected hstatus

/-- An open finds the slot free: without a channel the session is not connected. -/
theorem netcOpen_slotKept {s : State κ} (h : SlotKept s) {result : OpenResult}
    (valid : result.Valid) : SlotKept (netcOpen result s).state := by
  unfold netcOpen
  split_ifs with hopen
  · exact h
  · simp only [not_or, not_not] at hopen
    obtain ⟨hfree, htags⟩ := h.free fun hconnected => h.connected hconnected hopen.1
    cases result with
    | socketFailed => exact h
    | handshakeFailed sock =>
        refine netcClose_slotKept ?_
        exact .of_free hfree htags fun _ => valid
    | established sock => exact .of_free hfree htags nofun

/-- Every piece of a handler keeps the slot. -/
theorem slotKept_preserved : Preserved (SlotKept (κ := κ)) where
  emit _ kept := kept.congr rfl rfl rfl rfl
  netcSend _ kept := kept.congr rfl rfl rfl rfl
  enqueueMessage _ _ kept := kept.congr rfl rfl rfl rfl
  beginMessage rest kept tags status _ :=
    beginMessage_slotKept kept (kept.single.inprogress_eq_nil tags) status _ rest
  freeSlot kept _ found _ := (kept.freeSlot (kept.single.of_lookup found) _).1
  afterCancel _ kept := kept.congr rfl rfl rfl rfl
  startSurveillance kept := by
    unfold State.startSurveillance
    split
    · exact kept.congr rfl rfl rfl rfl
    · exact kept
  restartHealth kept := kept.congr rfl rfl rfl rfl
  accepted kept sock := ⟨kept.single, fun _ => rfl, fun _ => sock⟩
  netcClose := netcClose_slotKept
  netcOpen kept valid := netcOpen_slotKept kept valid
  network _ kept := kept.congr rfl rfl rfl rfl
  configure _ _ _ kept := kept.congr rfl rfl rfl rfl
  configureHealth _ kept := kept.congr rfl rfl rfl rfl

/-- The slot is kept in every state that is reached. -/
theorem run_slotKept {s : State κ} (fresh : s.Fresh) {events : List (Reconnection.Event κ)}
    (admits : (Reconnection.machine κ).Admits s events) :
    SlotKept ((Reconnection.machine κ).run s events) := by
  have hfree : s.inprogress = [] := congrArg MessageQueue.inprogress fresh.queue
  have hstart : SlotKept s :=
    .of_free hfree fresh.inprogressQ fun hconnected => absurd hconnected fresh.netcStatus
  exact (Reconnection.machine κ).invariant_run slotKept_preserved.step hstart admits

/-! ## What a response does -/

/-- The test with which `netc2.0_send` answers a request for the device identifier. -/
def fakesIpmiResponse (item : Item κ) : Bool := item.netfn.eqDigit 6 && item.cmd.eqDigit 1

/-- The messages that a dequeue can move: none while the network is off. -/
def State.moving (s : State κ) : List (Item κ) := if s.network then s.ipmiMsgq else []

/-- The message written to the channel, if the effect is a write. -/
def wroteIpmi? : Effect κ → Option (Item κ)
  | .wroteIpmi item => some item
  | _ => none

/-- The messages that a command writes to the channel, in order. -/
def writtenSince (s t : State κ) : List (Item κ) :=
  (t.effects.drop s.effects.length).filterMap wroteIpmi?

/-- The response to `e` frees the slot, runs the callback and sends the next message. -/
structure Frees (ncdata : Bytes) (s : State κ) (e : InProgress κ) : Prop where
  returns : (processIpmi ncdata s).error = none
  moves : Moves fakesIpmiResponse true s.moving [e.toItem] s.toMessageQueue
    (processIpmi ncdata s).state.toMessageQueue
    (Callbacks.callbacksSince s (processIpmi ncdata s).state)
    (writtenSince s (processIpmi ncdata s).state)

/-- What has become of the messages, told by the log. -/
def Moved (moving answered : List (Item κ)) (s t : State κ) : Prop :=
  ∃ new, t.effects = s.effects ++ new ∧
    Moves fakesIpmiResponse true moving answered s.toMessageQueue t.toMessageQueue
      (new.filterMap Callbacks.ranCallback?) (new.filterMap wroteIpmi?)

/-- The response has a length, and when it announces data also what stands before them. -/
def WholeResponse (ncdata : Bytes) : Prop :=
  4 ≤ ncdata.length ∧ (8 < signed ((ncdata.drop 2).take 2) → 11 ≤ ncdata.length)

instance : DecidablePred WholeResponse := fun ncdata =>
  inferInstanceAs (Decidable (4 ≤ ncdata.length ∧ (_ → _)))

/-- When it does. -/
structure Freeable (ncdata : Bytes) (s : State κ) (e : InProgress κ) : Prop where
  timed : e.timeout ≠ 0
  whole : WholeResponse ncdata
  spots : ∀ item ∈ s.moving.takeWhile fakesIpmiResponse, item.timeout ≠ 0

/-- The layout is nine integers in front of the data. -/
theorem ipmiLayout_eq : ipmiLayout = [2, 2, 1, 1, 1, 1, 1, 1, 1].map .int ++ [.rest] := rfl

/-- The length of a response is its second field. -/
theorem scan_len {ncdata : Bytes} (enough : 4 ≤ ncdata.length) :
    (scan ipmiLayout ncdata)[1]? = some (.int (signed ((ncdata.drop 2).take 2))) := by
  have hbehind : ¬ (ncdata.drop 2).length < 2 := by
    rw [List.length_drop]
    omega
  rw [ipmiLayout, scan, Field.size, if_neg (by omega), scan, Field.size, if_neg hbehind]
  rfl

theorem scan_len_cut {ncdata : Bytes} (cut : ncdata.length < 4) :
    (scan ipmiLayout ncdata)[1]? = none := by
  have hshort := scan_ints_append_cut [2, 2] (ipmiLayout.drop 2) cut
  exact List.getElem?_eq_none (Nat.lt_succ_iff.mp hshort)

/-- What stands behind the nine integers is scanned when they are all there. -/
theorem scan_behind {ncdata : Bytes} (enough : 11 ≤ ncdata.length) :
    (scan ipmiLayout ncdata)[9]? = some (.bytes (ncdata.drop 11)) := by
  obtain ⟨ns, hlength, hscan⟩ := scan_ints_append [2, 2, 1, 1, 1, 1, 1, 1, 1] [.rest] enough
  have hnine : (ns.map Value.int).length = 9 := by
    rw [List.length_map]
    exact hlength
  rw [ipmiLayout_eq, hscan, List.getElem?_append_right hnine.le, hnine, scan_rest]
  rfl

theorem scan_behind_cut {ncdata : Bytes} (cut : ncdata.length < 11) :
    (scan ipmiLayout ncdata)[9]? = none := by
  have hshort := scan_ints_append_cut [2, 2, 1, 1, 1, 1, 1, 1, 1] [.rest] cut
  exact List.getElem?_eq_none hshort.le

/-- A whole response is decoded, and no other. -/
theorem decodeIpmi_iff (ncdata : Bytes) :
    (∃ response, decodeIpmi ncdata = .ok response) ↔ WholeResponse ncdata := by
  by_cases hlen : 4 ≤ ncdata.length
  · by_cases hdata : 8 < signed ((ncdata.drop 2).take 2)
    · by_cases hbehind : 11 ≤ ncdata.length
      · simp only [decodeIpmi, scan_len hlen, if_pos hdata, scan_behind hbehind, WholeResponse,
          hlen, hbehind, implies_true, and_self, iff_true]
        split
        · exact ⟨_, rfl⟩
        · exact ⟨_, rfl⟩
      · simp [decodeIpmi, scan_len hlen, hdata, scan_behind_cut (not_le.mp hbehind),
          WholeResponse, hbehind]
    · simp [decodeIpmi, scan_len hlen, hdata, WholeResponse, hlen]
  · simp [decodeIpmi, scan_len_cut (not_le.mp hlen), WholeResponse, hlen]

/-- A message without a timeout has no timer to cancel. -/
theorem processIpmiWith_of_single {s : State κ} (h : SlotKept s) {e : InProgress κ}
    (inprogress : s.inprogress = [e]) (dequeue : State κ → Outcome (State κ)) (ncdata : Bytes) :
    (e.timeout = 0 → processIpmiWith dequeue ncdata s =
        .raise s "can't read inprogress(after): no such element in array") ∧
      (e.timeout ≠ 0 → ∃ timer, processIpmiWith dequeue ncdata s =
        (dequeue (s.freeSlot e timer)).andThen (runCallback e.toItem ncdata)) := by
  have hafter := h.single.after_eq_none_iff inprogress
  unfold processIpmiWith
  rw [h.single.lookup inprogress]
  constructor
  · intro hzero
    simp only [hafter.mpr hzero]
  · intro htimed
    obtain ⟨timer, htimer⟩ := Option.ne_none_iff_exists'.mp (mt hafter.mp htimed)
    exact ⟨timer, by simp only [htimer]⟩

/-- A callback runs once if there is one, and not before the response is decoded. -/
theorem runCallback_spec (item : Item κ) (ncdata : Bytes) (s : State κ) :
    ((runCallback item ncdata s).error = none ↔ ∃ response, decodeIpmi ncdata = .ok response) ∧
      ((runCallback item ncdata s).error = none →
        ∃ new, (runCallback item ncdata s).state = { s with effects := s.effects ++ new } ∧
          new.filterMap Callbacks.ranCallback? = withCallback [item] ∧
          new.filterMap wroteIpmi? = []) := by
  unfold runCallback
  cases decodeIpmi ncdata with
  | error message => simp [Outcome.raise]
  | ok response =>
      obtain ⟨status, databytes⟩ := response
      cases hcallback : item.callback with
      | none =>
          refine ⟨by simp, fun _ => ⟨[], by simp, ?_, rfl⟩⟩
          simp [withCallback, hcallback]
      | some callback =>
          refine ⟨by simp, fun _ => ⟨[.ranCallback item status databytes], rfl, ?_, rfl⟩⟩
          simp [withCallback, hcallback, Callbacks.ranCallback?]

/-- Answering the message in progress, around a dequeue that moves `moving` if `P`. -/
theorem processIpmiWith_spec {s : State κ} (h : SlotKept s) {e : InProgress κ}
    (inprogress : s.inprogress = [e]) {dequeue : State κ → Outcome (State κ)} {P : Prop}
    {moving : List (Item κ)}
    (returns : ∀ timer, (dequeue (s.freeSlot e timer)).error = none ↔ P)
    (moves : ∀ timer, P →
      Moved moving [] (s.freeSlot e timer) (dequeue (s.freeSlot e timer)).state)
    (ncdata : Bytes) :
    ((processIpmiWith dequeue ncdata s).error = none ↔
        e.timeout ≠ 0 ∧ P ∧ ∃ response, decodeIpmi ncdata = .ok response) ∧
      ((processIpmiWith dequeue ncdata s).error = none →
        Moved moving [e.toItem] s (processIpmiWith dequeue ncdata s).state) := by
  obtain ⟨hraises, htakes⟩ := processIpmiWith_of_single h inprogress dequeue ncdata
  by_cases hzero : e.timeout = 0
  · rw [hraises hzero]
    simp [Outcome.raise, hzero]
  · obtain ⟨timer, hprocess⟩ := htakes hzero
    rw [hprocess]
    by_cases hP : P
    · have hdequeue := (returns timer).mpr hP
      obtain ⟨new, heffects, hmoves⟩ := moves timer hP
      rw [Outcome.andThen_of_ok hdequeue]
      generalize (dequeue (s.freeSlot e timer)).state = t at heffects hmoves
      obtain ⟨hcalls, hstate⟩ := runCallback_spec e.toItem ncdata t
      refine ⟨by simp [hcalls, hzero, hP], fun hreturns => ?_⟩
      obtain ⟨own, ht, hown, hquiet⟩ := hstate hreturns
      refine ⟨.received e.toItem :: new ++ own, ?_, ?_⟩
      · rw [ht]
        simp [heffects, State.freeSlot, State.emit, State.afterCancel]
      · rw [ht, List.filterMap_append, List.filterMap_append, hown, hquiet, List.append_nil]
        exact hmoves.answer (q := s.toMessageQueue) rfl e.toItem
    · have hdequeue := mt (returns timer).mp hP
      rw [Outcome.andThen_of_raised hdequeue]
      exact ⟨by simp [hdequeue, hP], fun hreturns => absurd hreturns hdequeue⟩

/-- A session that can send: its slot is free, it is connected, and traffic is on. -/
structure CanSend (s : State κ) : Prop extends SlotKept s where
  free : s.inprogress = []
  status : s.netcStatus = .connected
  on : s.network = true

/-- It moves the first message. -/
theorem CanSend.ipmiDequeueFrom_cons {s : State κ} (h : CanSend s) (item : Item κ)
    (rest : List (Item κ)) :
    ipmiDequeueFrom (item :: rest) s =
      if fakesIpmiResponse item then
        processIpmiWith (ipmiDequeueFrom rest) fakeDeviceId (s.beginMessage item rest)
      else .ok ((s.beginMessage item rest).netcSend item) := by
  have htags := h.single.tags_eq_nil h.free
  unfold ipmiDequeueFrom
  rw [if_neg (by simp [h.on]), if_neg (by simp [htags]), if_neg (by simp [h.status]),
    if_neg (by simp [lookupTag, h.free])]
  rfl

/-- When a message has gone through the slot the session can send again. -/
theorem CanSend.again {s : State κ} (h : CanSend s) (item : Item κ) (rest : List (Item κ))
    (timer : ℕ) :
    CanSend ((s.beginMessage item rest).freeSlot (item.entry s.nextAfter) timer) ∧
      ((s.beginMessage item rest).freeSlot (item.entry s.nextAfter) timer).ipmiMsgq = rest := by
  have htable : (s.beginMessage item rest).inprogress = [item.entry s.nextAfter] :=
    congrArg MessageQueue.inprogress (MessageQueue.dispatch_of_free h.free _ rest)
  obtain ⟨hkept, hfree⟩ :=
    (beginMessage_slotKept h.toSlotKept h.free h.status item rest).freeSlot htable timer
  exact ⟨⟨hkept, hfree, h.status, h.on⟩, rfl⟩

/-- Such a dequeue returns when the messages that are answered on the spot have timeouts,
and then it moves the messages. The induction is on those that wait. -/
theorem CanSend.ipmiDequeueFrom_spec (msgq : List (Item κ)) :
    ∀ s : State κ, CanSend s → s.ipmiMsgq = msgq →
      ((ipmiDequeueFrom msgq s).error = none ↔
          ∀ item ∈ msgq.takeWhile fakesIpmiResponse, item.timeout ≠ 0) ∧
        ((∀ item ∈ msgq.takeWhile fakesIpmiResponse, item.timeout ≠ 0) →
          Moved msgq [] s (ipmiDequeueFrom msgq s).state) := by
  induction msgq with
  | nil =>
      intro s h hmsgq
      exact ⟨by simp [ipmiDequeueFrom], fun _ => ⟨[], by simp [ipmiDequeueFrom], .none h.free⟩⟩
  | cons item rest ih =>
      intro s h hmsgq
      rw [h.ipmiDequeueFrom_cons]
      cases hfake : fakesIpmiResponse item with
      | true =>
          have hentered := beginMessage_slotKept h.toSlotKept h.free h.status item rest
          have htable : (s.beginMessage item rest).inprogress = [item.entry s.nextAfter] :=
            congrArg MessageQueue.inprogress (MessageQueue.dispatch_of_free h.free _ rest)
          have hothers := fun timer => ih _ (h.again item rest timer).1 (h.again item rest timer).2
          obtain ⟨hreturns, hmoves⟩ := processIpmiWith_spec hentered htable
            (fun timer => (hothers timer).1) (fun timer => (hothers timer).2) fakeDeviceId
          have hdecode : ∃ response, decodeIpmi fakeDeviceId = .ok response :=
            (decodeIpmi_iff _).mpr (by decide)
          have hall : (processIpmiWith (ipmiDequeueFrom rest) fakeDeviceId
              (s.beginMessage item rest)).error = none ↔
                ∀ other ∈ item :: rest.takeWhile fakesIpmiResponse, other.timeout ≠ 0 := by
            rw [hreturns, List.forall_mem_cons]
            simp only [hdecode, and_true]
            rfl
          rw [if_pos rfl, List.takeWhile_cons_of_pos hfake]
          refine ⟨hall, fun htimed => ?_⟩
          obtain ⟨new, heffects, hnew⟩ := hmoves (hall.mpr htimed)
          exact ⟨new, heffects, hnew.onSpot hfake hmsgq⟩
      | false =>
          rw [if_neg Bool.false_ne_true, List.takeWhile_cons_of_neg (by simp [hfake])]
          exact ⟨by simp, fun _ =>
            ⟨[.wroteIpmi item], rfl, .send hfake hmsgq h.free s.nextAfter⟩⟩

/-- On a free slot and a connected session a dequeue moves what there is to move. -/
theorem ipmiDequeue_spec {s : State κ} (h : SlotKept s) (free : s.inprogress = [])
    (status : s.netcStatus = .connected) :
    ((ipmiDequeue s).error = none ↔
        ∀ item ∈ s.moving.takeWhile fakesIpmiResponse, item.timeout ≠ 0) ∧
      ((∀ item ∈ s.moving.takeWhile fakesIpmiResponse, item.timeout ≠ 0) →
        Moved s.moving [] s (ipmiDequeue s).state) := by
  unfold ipmiDequeue
  cases hon : s.network with
  | true =>
      have hmoving : s.moving = s.ipmiMsgq := by rw [State.moving, if_pos hon]
      rw [hmoving]
      exact CanSend.ipmiDequeueFrom_spec _ s ⟨h, free, status, hon⟩ rfl
  | false =>
      have hmoving : s.moving = [] := by
        rw [State.moving, hon]
        rfl
      have hidle : ipmiDequeueFrom s.ipmiMsgq s = .ok s := by
        cases s.ipmiMsgq with
        | nil => rfl
        | cons item rest => simp [ipmiDequeueFrom, hon]
      rw [hmoving, hidle]
      exact ⟨by simp, fun _ => ⟨[], by simp, .none free⟩⟩

/-- At every state that is reached, the response to the message in progress frees the slot
exactly when it can. -/
theorem frees_iff {s : State κ} (h : SlotKept s) {e : InProgress κ}
    (inprogress : s.inprogress = [e]) (ncdata : Bytes) :
    Frees ncdata s e ↔ Freeable ncdata s e := by
  have hup : s.netcStatus = .connected := h.up (by simp [inprogress])
  have hdequeue : ∀ timer, ((ipmiDequeue (s.freeSlot e timer)).error = none ↔
        ∀ item ∈ s.moving.takeWhile fakesIpmiResponse, item.timeout ≠ 0) ∧
      ((∀ item ∈ s.moving.takeWhile fakesIpmiResponse, item.timeout ≠ 0) →
        Moved s.moving [] (s.freeSlot e timer) (ipmiDequeue (s.freeSlot e timer)).state) :=
    fun timer =>
      ipmiDequeue_spec (h.freeSlot inprogress timer).1 (h.freeSlot inprogress timer).2 hup
  obtain ⟨hreturns, hmoves⟩ := processIpmiWith_spec h inprogress
    (fun timer => (hdequeue timer).1) (fun timer => (hdequeue timer).2) ncdata
  rw [decodeIpmi_iff] at hreturns
  constructor
  · intro hfrees
    obtain ⟨htimed, hspots, hwhole⟩ := hreturns.mp hfrees.returns
    exact ⟨htimed, hwhole, hspots⟩
  · intro hfreeable
    have herror := hreturns.mpr ⟨hfreeable.timed, hfreeable.spots, hfreeable.whole⟩
    obtain ⟨new, heffects, hnew⟩ := hmoves herror
    refine ⟨herror, ?_⟩
    have hsince : (processIpmi ncdata s).state.effects.drop s.effects.length = new := by
      rw [processIpmi, heffects, List.drop_left]
    rw [Callbacks.callbacksSince, writtenSince, hsince]
    exact hnew

end Amester.Netc
