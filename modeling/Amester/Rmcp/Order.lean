/-
# The order of an rmcp object's messages

The slot of `inprogress` stays occupied while a callback runs, although its message is answered. So
nothing is sent meanwhile, and the messages are answered in the order in which they were accepted,
each once, as long as nothing looks into the slot while a callback runs. A response, a refusal or a
timeout that is handled inside a callback takes the answered message for one that is not, and
answers it again or puts it back.

The responses carry no tag that the object reads. A callback gets the response to its own message
as long as no packet comes twice or from nowhere.
-/

import Amester.Rmcp.Moves

namespace Amester.Rmcp

open BinaryFormat PriorityQueue EventMachine

universe u

variable {κ : Type u} {s s' : Connection κ} {c : Care} {r r' : Bool}

/-! ## The socket -/

theorem Base.handOver (h : Base s) (connected : s.rmcpStatus = .connected) (item : Message κ)
    (rest : List (Message κ)) : Base (s.handOver item rest) := by
  obtain ⟨timer, afters, nextAfter, hsend⟩ := handOver_eq s item rest
  rw [hsend]
  exact ⟨fun hsock => absurd hsock (h.connected connected), fun _ => connected, h.connected,
    h.status⟩

theorem Base.rmcpClose (h : Base s) : Base (rmcpClose s) := by
  obtain ⟨afters, hclose⟩ := h.rmcpClose_eq
  rw [hclose]
  exact ⟨fun _ => ⟨rfl, rfl, rfl⟩, fun hslot => absurd rfl hslot, by simp, by simp, by simp⟩

theorem Base.opens (h : Base s) {sock : ℕ} (named : sock ≠ 0) (idle : s.rmcpSock = 0)
    (status : s.rmcpStatus ≠ .connected) (pinged : Bool) :
    Base (rmcpOpen (some sock) pinged s) := by
  have hslot := h.slot_eq_none idle
  unfold rmcpOpen
  rw [if_neg (not_not.mpr idle)]
  cases pinged with
  | true =>
      exact ⟨fun hsock => absurd hsock named, fun hbusy => absurd hslot hbusy, by simp, by simp,
        by simp⟩
  | false =>
      exact ⟨fun hsock => absurd hsock named, fun hbusy => absurd hslot hbusy,
        fun hconnected => absurd hconnected status, h.status⟩

/-- A timer has fired. -/
theorem Base.expired (h : Base s) (timer : ℕ) : Base { s with afters := s.afters.erase timer } :=
  ⟨h.idle, h.slot, h.connected, h.status⟩

/-- A response is picked up. -/
theorem Base.waited (h : Base s) (myuid : ℕ) :
    Base { s with waitSendSync := s.waitSendSync.filter fun w => w.1 ≠ myuid } :=
  ⟨h.idle, h.slot, h.connected, h.status⟩

/-- What each move keeps. -/
theorem Base.move (h : Base s) (move : Move c r s r' s') : Base s' := by
  cases move with
  | exchange _ _ keys fileevent waitSendSync nextUid sent number heard socket =>
      refine ⟨fun hsock => ?_, h.slot, h.connected, h.status⟩
      obtain ⟨howed, hwritten, hevent⟩ := h.idle hsock
      have hsent : sent = [] := by
        by_contra hsome
        exact absurd (socket hsome) (by simp [hevent])
      have hdeaf : fileevent = false := by
        by_contra hheard
        exact absurd (heard (by simpa using hheard)) (by simp [hevent])
      exact ⟨howed, by simp [hwritten, hsent], hdeaf⟩
  | establish _ heard =>
      have hsock : s.rmcpSock ≠ 0 := fun hsock => absurd heard (by simp [(h.idle hsock).2.2])
      exact ⟨fun hidle => absurd hidle hsock, fun _ => rfl, fun _ => hsock, by simp⟩
  | respond _ _ owed fewer =>
      refine ⟨fun hsock => ?_, h.slot, h.connected, h.status⟩
      obtain ⟨howed, hrest⟩ := h.idle hsock
      exact ⟨List.sublist_nil.mp (howed ▸ fewer), hrest⟩
  | post _ _ item => exact ⟨h.idle, h.slot, h.connected, h.status⟩
  | sort _ busy => exact ⟨h.idle, h.slot, h.connected, h.status⟩
  | send _ connected free next => exact h.handOver connected _ _
  | @call _ _ e callback slot foreign status databytes owner first asked =>
      obtain ⟨afters, hcancel⟩ := cancelTimer_eq s e
      rw [hcancel]
      exact ⟨h.idle, h.slot, h.connected, h.status⟩
  | @serve _ _ e slot own status databytes owner waitSendSync first asked =>
      obtain ⟨afters, hcancel⟩ := cancelTimer_eq s e
      rw [hcancel]
      exact ⟨h.idle, fun hbusy => absurd rfl hbusy, h.connected, h.status⟩
  | done _ _ last kept => exact ⟨h.idle, fun hbusy => absurd rfl hbusy, h.connected, h.status⟩
  | close _ first kept => exact h.rmcpClose
  | expire pending first => exact (h.expired _).rmcpClose
  | opens _ named idle status written => exact h.opens named idle status _

/-- What each move keeps of a connection whose socket is in order. -/
theorem Path.keeps_base {I : Bool → Connection κ → Prop}
    (moves : ∀ {r s r' s'}, Base s → I r s → Move c r s r' s' → I r' s') (h : Path c r s r' s')
    (base : Base s) (start : I r s) : Base s' ∧ I r' s' :=
  h.keeps (I := fun r s => Base s ∧ I r s)
    (fun hstart hmove => ⟨hstart.1.move hmove, moves hstart.1 hstart.2 hmove⟩) ⟨base, start⟩

/-! ## Sequence numbers -/

/-- The four bytes of the sequence number in the packet of a message. -/
def Outgoing.sequenceBytes : Outgoing κ → Option Bytes
  | .handshake _ => none
  | .message item session =>
    (rmcp20FormatIpmiPacket session { toHex2 := item.rssa } item.chan item.lun item.netfn item.cmd
      item.data).map fun p => (p.1.outmsg.drop 10).take 4

/-- The messages on the socket are numbered from 1 on, without a gap. -/
def Numbered (s : Connection κ) : Prop :=
  ∃ n : ℕ, s.ipmiSessSeqIn = n ∧
    s.written.filterMap Outgoing.sequenceBytes =
      (List.range n).map fun (i : ℕ) => littleEndian 4 ((i : ℤ) + 1)

private theorem sequenceBytes_message (item : Message κ) (session : Session) :
    (Outgoing.message item session).sequenceBytes =
      some (littleEndian 4 (session.ipmiSessSeqIn + 1)) := by
  have hlittle : ∀ (width : ℕ) (n : ℤ), (littleEndian width n).length = width := by
    intro width n
    rw [littleEndian, List.length_reverse, length_bigEndian]
  have hhead : (rmcphead ++ bigEndian 1 6 ++ bigEndian 1 0 ++
      littleEndian 4 session.managedSystemSessId).length = 10 := by
    simp [rmcphead, hlittle, length_bigEndian]
  have hpayload := rssavalue_eq { toHex2 := item.rssa }
  rw [Outgoing.sequenceBytes, rmcp20FormatIpmiPacket, ipmipayload, hpayload, Option.map_some,
    Option.map_some, Option.map_some, Option.some.injEq, Packet.outmsg]
  simp only [List.append_assoc]
  simp only [← List.append_assoc (bigEndian 1 0), ← List.append_assoc (bigEndian 1 6),
    ← List.append_assoc rmcphead]
  rw [List.drop_left' hhead, List.take_left' (hlittle 4 _)]

theorem Numbered.handOver (h : Numbered s) (item : Message κ) (rest : List (Message κ)) :
    Numbered (s.handOver item rest) := by
  obtain ⟨n, hnumber, hwritten⟩ := h
  obtain ⟨timer, afters, nextAfter, hsend⟩ := handOver_eq s item rest
  refine ⟨n + 1, ?_, ?_⟩
  · rw [hsend]
    simp [hnumber]
  · rw [hsend, List.filterMap_append, hwritten, List.filterMap_cons, sequenceBytes_message,
      List.filterMap_nil, List.range_succ, List.map_append, hnumber]
    rfl

theorem Numbered.rmcpClose (base : Base s) : Numbered (rmcpClose s) := by
  obtain ⟨afters, hclose⟩ := base.rmcpClose_eq
  rw [hclose]
  exact ⟨0, rfl, rfl⟩

theorem Numbered.move (base : Base s) (h : Numbered s) (move : Move c r s r' s') :
    Numbered s' := by
  cases move with
  | exchange _ _ keys fileevent waitSendSync nextUid sent number heard socket =>
      obtain ⟨n, hnumber, hwritten⟩ := h
      refine ⟨n, number.trans hnumber, ?_⟩
      rw [List.filterMap_append, hwritten, List.filterMap_map]
      have hnone : sent.filterMap (Outgoing.sequenceBytes ∘ (Outgoing.handshake (κ := κ))) = [] :=
        List.filterMap_eq_nil_iff.mpr fun _ _ => rfl
      rw [hnone, List.append_nil]
  | establish _ heard => exact h
  | respond _ _ owed fewer => exact h
  | post _ _ item => exact h
  | sort _ busy => exact h
  | send _ connected free next => exact h.handOver _ _
  | @call _ _ e callback slot foreign status databytes owner first asked =>
      obtain ⟨afters, hcancel⟩ := cancelTimer_eq s e
      rw [hcancel]
      exact h
  | @serve _ _ e slot own status databytes owner waitSendSync first asked =>
      obtain ⟨afters, hcancel⟩ := cancelTimer_eq s e
      rw [hcancel]
      exact h
  | done _ _ last kept => exact h
  | close _ first kept => exact Numbered.rmcpClose base
  | expire pending first => exact Numbered.rmcpClose (base.expired _)
  | @opens _ _ sock pinged named idle status written =>
      unfold rmcpOpen
      rw [if_neg (not_not.mpr idle)]
      obtain ⟨n, hnumber, hwritten⟩ := h
      cases pinged with
      | true =>
          refine ⟨n, hnumber, ?_⟩
          have hping : (s.written ++ [Outgoing.handshake pingmsg]).filterMap
              Outgoing.sequenceBytes = s.written.filterMap Outgoing.sequenceBytes := by
            simp [Outgoing.sequenceBytes]
          exact hping.trans hwritten
      | false => exact ⟨n, hnumber, hwritten⟩

/-! ## The messages -/

/-- The message that is under way: that in the slot, unless it is answered already. -/
def carried (r : Bool) (s : Connection κ) : Option (Message κ) := if r then none else s.slotItem

/-- The slot is occupied while a callback runs, and what has happened to the messages is what a
courier does who carries one at a time. -/
structure Accounts (r : Bool) (s : Connection κ) [DecidableEq κ] : Prop where
  occupied : r = true → ∃ e ∈ s.inprogress, ∃ callback, e.callback = some (.foreign callback)
  stands : Courier.Stands Item.priority s.log (carried r s) s.ipmiMsgq

private theorem log_append {effects : List (Effect κ)} (h : s'.effects = s.effects ++ effects) :
    s'.log = s.log ++ effects.map Effect.label := by
  rw [Connection.log, h, List.map_append]
  rfl

private theorem slotItem_of_slot {e : InProgress (Script κ)} (slot : s.inprogress = some e) :
    s.slotItem = some e.toItem := by
  rw [Connection.slotItem, slot]
  rfl

variable [DecidableEq κ]

/-- A message in the slot is under way in a calm run when something looks at it. -/
theorem Accounts.under_way (h : Accounts r s) (idle : r = false) :
    Courier.Stands Item.priority s.log s.slotItem s.ipmiMsgq := by
  have hstands := h.stands
  rwa [carried, idle] at hstands

theorem Accounts.rmcpClose (h : Accounts r s) (base : Base s) (idle : r = false) :
    Accounts r (rmcpClose s) := by
  obtain ⟨afters, hclose⟩ := base.rmcpClose_eq
  have hstands := h.under_way idle
  have hlog := log_append (congrArg Connection.effects hclose)
  subst idle
  refine ⟨fun hruns => absurd hruns Bool.false_ne_true, ?_⟩
  rw [hlog, hclose]
  cases hslot : s.slotItem with
  | none =>
      rw [hslot] at hstands
      simpa [carried, Connection.slotItem] using hstands
  | some item =>
      rw [hslot] at hstands
      exact hstands.returned

theorem Accounts.move (calm : c.calm = true) (base : Base s) (h : Accounts r s)
    (move : Move c r s r' s') : Accounts r' s' := by
  cases move with
  | exchange _ _ keys fileevent waitSendSync nextUid sent number heard socket =>
      exact ⟨h.occupied, h.stands⟩
  | establish _ heard => exact ⟨h.occupied, h.stands⟩
  | respond _ _ owed fewer => exact ⟨h.occupied, h.stands⟩
  | post _ _ item =>
      refine ⟨h.occupied, ?_⟩
      have hlog : (s.post .back item).log = s.log ++ [.accepted item] := List.map_append
      rw [hlog]
      exact h.stands.accepted item
  | sort _ busy => exact ⟨h.occupied, h.stands.sorted⟩
  | @send _ _ item rest connected free next =>
      have hidle : r = false := by
        by_contra hruns
        obtain ⟨e, hslot, -⟩ := h.occupied (by simpa using hruns)
        exact absurd (free.symm.trans hslot) (Option.some_ne_none e).symm
      have hstands := h.under_way hidle
      rw [Connection.slotItem, free, Option.map_none] at hstands
      obtain ⟨timer, afters, nextAfter, hsend⟩ := handOver_eq s item rest
      subst hidle
      refine ⟨fun hruns => absurd hruns Bool.false_ne_true, ?_⟩
      rw [log_append (congrArg Connection.effects hsend), hsend]
      exact hstands.sent next
  | @call _ _ e callback slot foreign status databytes owner first asked =>
      have hstands := h.under_way (first calm)
      rw [slotItem_of_slot slot] at hstands
      obtain ⟨afters, hcancel⟩ := cancelTimer_eq s e
      rw [hcancel]
      refine ⟨fun _ => ⟨e, slot, callback, foreign⟩, ?_⟩
      rw [log_append (s := s) rfl]
      exact hstands.answered
  | @serve _ _ e slot own status databytes owner waitSendSync first asked =>
      have hstands := h.under_way (first calm)
      rw [slotItem_of_slot slot] at hstands
      obtain ⟨afters, hcancel⟩ := cancelTimer_eq s e
      obtain rfl := first calm
      rw [hcancel]
      refine ⟨fun hruns => absurd hruns Bool.false_ne_true, ?_⟩
      rw [log_append (s := s) rfl]
      exact hstands.answered
  | done _ _ last kept =>
      obtain rfl := last calm
      exact ⟨fun hruns => absurd hruns Bool.false_ne_true, h.stands⟩
  | close _ first kept => exact h.rmcpClose base (first calm)
  | expire pending first =>
      exact Accounts.rmcpClose ⟨h.occupied, h.stands⟩ (base.expired _) (first calm)
  | opens _ named idle status written =>
      unfold rmcpOpen
      rw [if_neg (not_not.mpr idle)]
      split_ifs
      · exact ⟨h.occupied, h.stands⟩
      · exact ⟨h.occupied, h.stands⟩

/-- Within a priority the messages are answered in the order in which they were accepted, and what
is accepted and not answered is under way or waits. -/
def InOrder (t : Suspended (Connection κ) Frame) : Prop :=
  ∀ p, (Courier.accepted t.state.log).filter (fun item => item.priority = p) =
    (Courier.answered t.state.log ++ ((carried (running t) t.state).toList ++
      sort Item.priority t.state.ipmiMsgq)).filter fun item => item.priority = p

omit [DecidableEq κ] in
/-- No message is given up. -/
theorem dropped_log (s : Connection κ) : Courier.dropped s.log = [] := by
  rw [Courier.dropped, Connection.log, List.filterMap_map, List.filterMap_eq_nil_iff]
  intro effect _
  cases effect with
  | posted position item => cases position <;> rfl
  | sent item => rfl
  | answered item status databytes owner => rfl

theorem Accounts.inOrder {t : Suspended (Connection κ) Frame}
    (h : Accounts (running t) t.state) : InOrder t :=
  h.stands.answered_iff.mpr (dropped_log t.state)

/-- The messages in order are as many as were accepted. -/
theorem InOrder.length {t : Suspended (Connection κ) Frame} (h : InOrder t) :
    (Courier.accepted t.state.log).length = (Courier.answered t.state.log).length +
      ((carried (running t) t.state).toList.length + t.state.ipmiMsgq.length) := by
  have hlength := (Courier.perm_of_filter_eq h).length_eq
  rwa [List.length_append, List.length_append, (sort_perm _ _).length_eq] at hlength

/-! ## Interruptions -/

/-- There are more messages than were accepted. -/
def Surplus (s : Connection κ) : Prop :=
  (Courier.accepted s.log).length < (Courier.answered s.log).length + s.ipmiMsgq.length

theorem Surplus.not_inOrder {t : Suspended (Connection κ) Frame} (h : Surplus t.state) :
    ¬ InOrder t := by
  intro hin
  have hlength := hin.length
  rw [Surplus] at h
  omega

theorem Accounts.length (h : Accounts true s) :
    (Courier.accepted s.log).length = (Courier.answered s.log).length + s.ipmiMsgq.length := by
  have hin : InOrder ⟨s, [.callback]⟩ := Accounts.inOrder h
  simpa [carried, running] using hin.length

/-- A close while a callback runs puts a message back that is answered. -/
theorem Accounts.surplus_of_close (h : Accounts true s) (base : Base s) :
    Surplus (Rmcp.rmcpClose s) := by
  obtain ⟨afters, hclose⟩ := base.rmcpClose_eq
  obtain ⟨e, hslot, -⟩ := h.occupied rfl
  have hlog := log_append (congrArg Connection.effects hclose)
  have hlength := h.length
  rw [slotItem_of_slot hslot] at hlog hclose
  rw [Surplus, hlog, hclose]
  simp only [Courier.accepted, Courier.answered, Option.toList_some, List.map_cons, List.map_nil,
    Effect.label, List.filterMap_append, List.filterMap_cons, List.filterMap_nil, List.append_nil,
    List.singleton_append, List.length_cons] at hlength ⊢
  omega

/-- A response while a callback runs answers a message that is answered. -/
theorem Accounts.surplus_of_response (h : Accounts true s) (status : Option ℤ)
    (databytes : Bytes) (owner : Option (Message κ)) :
    Surplus (processResponse status databytes owner s).1 := by
  obtain ⟨e, hslot, callback, hforeign⟩ := h.occupied rfl
  obtain ⟨afters, hcancel⟩ := cancelTimer_eq s e
  have hlength := h.length
  have hprocess : (processResponse status databytes owner s).1 =
      (s.cancelTimer e).emit (.answered e.toItem status databytes owner) := by
    rw [Option.mem_def] at hslot
    simp only [processResponse, hslot, hforeign]
  have hlog : (processResponse status databytes owner s).1.log = s.log ++ [.answered e.toItem] := by
    rw [hprocess, hcancel]
    exact List.map_append
  have hqueue : (processResponse status databytes owner s).1.ipmiMsgq = s.ipmiMsgq := by
    rw [hprocess, hcancel]
    rfl
  rw [Surplus, hlog, hqueue]
  simp only [Courier.accepted, Courier.answered, List.filterMap_append, List.filterMap_cons,
    List.filterMap_nil, List.append_nil, List.length_append, List.length_singleton] at hlength ⊢
  omega

omit [DecidableEq κ] in
/-- When the privileges are refused, the connection is closed. -/
theorem resume_of_refused {myuid : ℕ} {w : ℕ × Option ℤ}
    (found : w ∈ s.waitSendSync.find? fun w => w.1 = myuid) (refused : w.2 ≠ some 0)
    (base : Base s) : (resume (.privilege myuid) s).1 =
      Rmcp.rmcpClose { s with waitSendSync := s.waitSendSync.filter fun w => w.1 ≠ myuid } := by
  have hclosed : (Rmcp.rmcpClose { s with
      waitSendSync := s.waitSendSync.filter fun w => w.1 ≠ myuid }).rmcpStatus ≠ .connected := by
    obtain ⟨afters, hclose⟩ := (base.waited myuid).rmcpClose_eq
    rw [hclose]
    simp
  rw [Option.mem_def] at found
  simp only [resume, found, if_neg refused]
  exact ipmiDequeue_of_not_connected hclosed

variable {hmac : Bytes → Option Bytes}

/-- A step that looks into the slot while a callback runs makes a message too many. -/
theorem Accounts.surplus {t : Suspended (Connection κ) Frame} {happening : Happening (Event κ)}
    (h : Accounts (running t) t.state) (base : Base t.state)
    (interrupts : Interrupts t happening) :
    Surplus ((reentrant hmac κ).machine.step t happening).state := by
  obtain ⟨s, stack⟩ := t
  cases happening with
  | occurs event =>
      obtain ⟨hruns, hlooks⟩ := interrupts
      rw [hruns] at h
      cases event with
      | ipmiQueue request => exact absurd hlooks not_false
      | ipmiHealth opened pinged => exact absurd hlooks not_false
      | rmcpTimeout timer =>
          have haccounts : Accounts true { s with afters := s.afters.erase timer } :=
            ⟨h.occupied, h.stands⟩
          exact haccounts.surplus_of_close (base.expired timer)
      | readable packet owner =>
          obtain ⟨reading, hreading, hlook⟩ := hlooks
          obtain ⟨packet, rfl, hread⟩ := Option.map_eq_some_iff.mp hreading
          have haccounts : Accounts true (s.responded owner) := ⟨h.occupied, h.stands⟩
          have hbase : Base (s.responded owner) :=
            base.move (responded_move (c := {}) true s owner)
          have hstep : ((reentrant hmac κ).machine.step ⟨s, stack⟩
              (.occurs (.readable (some packet) owner))).state =
                (process hmac owner (s.responded owner) reading).1 := by
            rw [← hread]
            rfl
          rw [hstep]
          cases reading with
          | response status databytes =>
              exact haccounts.surplus_of_response status databytes owner
          | refused => exact haccounts.surplus_of_close hbase
          | dropped | raises | ignored | pong | capabilities _ | challenge _ | openSession _
          | rakp2 _ | rakp4 => exact absurd hlook not_false
  | returns =>
      obtain ⟨hruns, frame, hframe, hlooks⟩ := interrupts
      obtain ⟨stack, rfl⟩ : ∃ rest, stack = frame :: rest := by
        cases stack with
        | nil => exact absurd hframe (by simp)
        | cons top rest => exact ⟨rest, by rw [Option.some.inj hframe]⟩
      rw [hruns] at h
      cases frame with
      | callback => exact absurd hlooks not_false
      | privilege myuid =>
          obtain ⟨w, hfind, hstatus⟩ := hlooks
          have haccounts : Accounts true { s with
              waitSendSync := s.waitSendSync.filter fun w => w.1 ≠ myuid } :=
            ⟨h.occupied, h.stands⟩
          have hstep : ((reentrant hmac κ).machine.step ⟨s, .privilege myuid :: stack⟩
              .returns).state = (resume (.privilege myuid) s).1 := rfl
          rw [hstep, resume_of_refused hfind hstatus base]
          exact haccounts.surplus_of_close (base.waited myuid)

/-! ## Calm runs -/

/-- A new object. -/
def started (κ : Type u) (keys : Keys) : Suspended (Connection κ) Frame := ⟨{ toKeys := keys }, []⟩

/-- Only one callback runs at a time in a calm run. -/
structure Sound (t : Suspended (Connection κ) Frame) : Prop where
  base : Base t.state
  accounts : Accounts (running t) t.state
  single : t.stack.count .callback ≤ 1

omit [DecidableEq κ] in
theorem base_started (keys : Keys) : Base (started κ keys).state :=
  ⟨fun _ => ⟨rfl, rfl, rfl⟩, fun hslot => absurd rfl hslot, by simp [started], by simp [started]⟩

theorem sound_started (keys : Keys) : Sound (started κ keys) :=
  ⟨base_started keys, ⟨by simp [running, started], Courier.Stands.start⟩, Nat.zero_le 1⟩

omit [DecidableEq κ] in
private theorem count_eq_zero_of_not_running {t : Suspended (Connection κ) Frame}
    (idle : running t = false) : t.stack.count .callback = 0 := by
  rw [List.count_eq_zero]
  simpa [running] using idle

/-- A callback starts when a response is taken, and not otherwise. -/
theorem looks_of_callback {event : Event κ} (h : (handle hmac s event).2 = some .callback) :
    event.Looks := by
  cases event with
  | ipmiQueue request => simp [handle] at h
  | rmcpTimeout timer => trivial
  | ipmiHealth opened pinged => simp [handle] at h
  | readable packet owner =>
      cases packet with
      | none => simp [handle, rmcpProcess] at h
      | some packet =>
          refine ⟨readPacket packet, rfl, ?_⟩
          have hprocess : (process hmac owner (s.responded owner) (readPacket packet)).2 =
              some .callback := h
          cases hreading : readPacket packet with
          | response status databytes => trivial
          | refused => trivial
          | rakp2 random =>
              rw [hreading, process, processRakp2_frame] at hprocess
              exact absurd hprocess.symm (Option.some_ne_none _)
          | dropped | raises | ignored | pong | capabilities _ | challenge _ | openSession _
          | rakp4 =>
              rw [hreading] at hprocess
              simp [process, processRakp4] at hprocess

omit [DecidableEq κ] in
private theorem resume_ne_callback (frame : Frame) (s : Connection κ) :
    (resume frame s).2 ≠ some .callback := by
  cases frame with
  | callback => simp [resume]
  | privilege myuid =>
      rw [resume]
      split
      · simp
      · simp

theorem Sound.meets {t : Suspended (Connection κ) Frame} {happening : Happening (Event κ)}
    (h : Sound t) (calm : ¬ Interrupts t happening) :
    Care.Meets { calm := true } t happening :=
  ⟨fun _ => ⟨calm, h.single⟩, by simp, by simp, by simp⟩

theorem Sound.single_step {t : Suspended (Connection κ) Frame} {happening : Happening (Event κ)}
    (h : Sound t) (calm : ¬ Interrupts t happening) :
    ((reentrant hmac κ).machine.step t happening).stack.count .callback ≤ 1 := by
  obtain ⟨s, stack⟩ := t
  have hsingle : stack.count .callback ≤ 1 := h.single
  cases happening with
  | occurs event =>
      have hstack : ((reentrant hmac κ).machine.step ⟨s, stack⟩ (.occurs event)).stack =
          (handle hmac s event).2.toList ++ stack := rfl
      rw [hstack, List.count_append]
      by_cases hcall : (handle hmac s event).2 = some .callback
      · have hidle : running ⟨s, stack⟩ = false := by
          by_contra hruns
          exact calm ⟨by simpa using hruns, looks_of_callback hcall⟩
        have hzero : stack.count .callback = 0 := count_eq_zero_of_not_running hidle
        rw [hcall, Option.toList_some, List.count_singleton_self]
        omega
      · have hnone : (handle hmac s event).2.toList.count .callback = 0 := by
          rw [List.count_eq_zero, Option.mem_toList]
          exact hcall
        omega
  | returns =>
      cases stack with
      | nil => exact h.single
      | cons frame stack =>
          have hstack : ((reentrant hmac κ).machine.step ⟨s, frame :: stack⟩ .returns).stack =
              (resume frame s).2.toList ++ stack := rfl
          have hnone : (resume frame s).2.toList.count .callback = 0 := by
            rw [List.count_eq_zero, Option.mem_toList]
            exact resume_ne_callback frame s
          have hle : stack.count .callback ≤ (frame :: stack).count .callback :=
            List.count_le_count_cons
          rw [hstack, List.count_append]
          omega

theorem Sound.step {t : Suspended (Connection κ) Frame} {happening : Happening (Event κ)}
    (h : Sound t) (admits : (reentrant hmac κ).machine.admissible t happening)
    (calm : ¬ Interrupts t happening) : Sound ((reentrant hmac κ).machine.step t happening) := by
  have hpath := step_path h.base admits (h.meets calm)
  obtain ⟨hbase, haccounts⟩ := hpath.keeps_base (I := fun r s => Accounts r s)
    (fun base accounts move => accounts.move rfl base move) h.base h.accounts
  exact ⟨hbase, haccounts, h.single_step calm⟩

/-- A step keeps the order exactly if it does not look into the slot while a callback runs. -/
theorem Sound.inOrder_step_iff {t : Suspended (Connection κ) Frame}
    {happening : Happening (Event κ)} (h : Sound t)
    (admits : (reentrant hmac κ).machine.admissible t happening) :
    InOrder ((reentrant hmac κ).machine.step t happening) ↔ ¬ Interrupts t happening := by
  refine ⟨fun hin hinterrupts => ?_, fun hcalm => (h.step admits hcalm).accounts.inOrder⟩
  exact (h.accounts.surplus h.base hinterrupts).not_inOrder hin

/-- The messages are answered in order, each once, in the runs in which nothing looks into the slot
while a callback runs, and in no others. -/
theorem always_ordered_iff {keys : Keys} {happenings : List (Happening (Event κ))}
    (admits : (reentrant hmac κ).machine.Admits (started κ keys) happenings) :
    (reentrant hmac κ).machine.Always InOrder (started κ keys) happenings ↔
      (reentrant hmac κ).machine.EachStep (fun t happening => ¬ Interrupts t happening)
        (started κ keys) happenings := by
  have hstart : Sound (started κ keys) := sound_started keys
  exact (reentrant hmac κ).machine.always_iff_of_invariant
    (fun t happening (sound : Sound t) hadmits calm => sound.step hadmits calm)
    (fun t happening sound hadmits => sound.inOrder_step_iff hadmits) hstart
    hstart.accounts.inOrder admits

/-! ## Whose response it is -/

/-- Each message was answered with the response to itself. -/
def Connection.Matched (s : Connection κ) : Prop :=
  ∀ item status databytes owner, .answered item status databytes owner ∈ s.effects →
    owner = some item

omit [DecidableEq κ] in
theorem Connection.Matched.append (h : s.Matched) {effects : List (Effect κ)}
    (log : s'.effects = s.effects ++ effects)
    (new : ∀ item status databytes owner, .answered item status databytes owner ∈ effects →
      owner = some item) : s'.Matched := by
  intro item status databytes owner hmem
  rw [log] at hmem
  obtain hold | hnew := List.mem_append.mp hmem
  · exact h item status databytes owner hold
  · exact new item status databytes owner hnew

/-- The response to the message that is under way is to come, or none is. -/
structure Mine (r : Bool) (s : Connection κ) : Prop where
  owed : s.owed.Sublist (carried r s).toList
  matched : s.Matched

omit [DecidableEq κ] in
/-- The message in the slot has been answered with its own response. -/
theorem Mine.answered (h : Mine r s) {e : InProgress (Script κ)} {status : Option ℤ}
    {databytes : Bytes} {owner : Option (Message κ)} (own : owner = some e.toItem ∧ s.owed = [])
    (owed : s'.owed = s.owed)
    (log : s'.effects = s.effects ++ [.answered e.toItem status databytes owner]) : Mine r' s' := by
  obtain ⟨rfl, hnone⟩ := own
  refine ⟨by rw [owed, hnone]; exact List.nil_sublist _, h.matched.append log ?_⟩
  intro item status' databytes' owner' hmem
  simp only [List.mem_singleton, Effect.answered.injEq] at hmem
  rw [hmem.1, hmem.2.2.2]

omit [DecidableEq κ] in
theorem Mine.rmcpClose (h : Mine r s) (base : Base s) : Mine r (rmcpClose s) := by
  obtain ⟨afters, hclose⟩ := base.rmcpClose_eq
  have hlog := congrArg Connection.effects hclose
  refine ⟨?_, h.matched.append hlog (by simp)⟩
  rw [congrArg Connection.owed hclose]
  exact List.nil_sublist _

theorem Mine.move (asked : c.asked = true) (base : Base s) (accounts : Accounts r s)
    (h : Mine r s) (move : Move c r s r' s') : Mine r' s' := by
  cases move with
  | exchange _ _ keys fileevent waitSendSync nextUid sent number heard socket =>
      exact ⟨h.owed, h.matched⟩
  | establish _ heard => exact ⟨h.owed, h.matched⟩
  | respond _ _ owed fewer => exact ⟨fewer.trans h.owed, h.matched⟩
  | post _ _ item => exact ⟨h.owed, h.matched.append rfl (by simp)⟩
  | sort _ busy => exact ⟨h.owed, h.matched⟩
  | @send _ _ item rest connected free next =>
      have hidle : r = false := by
        by_contra hruns
        obtain ⟨e, hslot, -⟩ := accounts.occupied (by simpa using hruns)
        exact absurd (free.symm.trans hslot) (Option.some_ne_none e).symm
      subst hidle
      have howed : s.owed = [] := by
        have hcarried : carried false s = none := congrArg (Option.map InProgress.toItem) free
        have hnone := h.owed
        rwa [hcarried, Option.toList_none, List.sublist_nil] at hnone
      obtain ⟨timer, afters, nextAfter, hsend⟩ := handOver_eq s item rest
      refine ⟨?_, h.matched.append (congrArg Connection.effects hsend) (by simp)⟩
      rw [hsend, howed]
      exact List.Sublist.refl _
  | @call _ _ e callback slot foreign status databytes owner first own =>
      obtain ⟨afters, hcancel⟩ := cancelTimer_eq s e
      rw [hcancel]
      exact h.answered (own asked) rfl rfl
  | @serve _ _ e slot foreign status databytes owner waitSendSync first own =>
      obtain ⟨afters, hcancel⟩ := cancelTimer_eq s e
      rw [hcancel]
      exact h.answered (own asked) rfl rfl
  | done _ _ last kept =>
      have howed : s.owed = [] := List.sublist_nil.mp h.owed
      refine ⟨?_, h.matched⟩
      exact howed.symm ▸ List.nil_sublist _
  | close _ first kept => exact h.rmcpClose base
  | expire pending first =>
      exact Mine.rmcpClose ⟨h.owed, h.matched⟩ (base.expired _)
  | opens _ named idle status written =>
      unfold rmcpOpen
      rw [if_neg (not_not.mpr idle)]
      split_ifs
      · exact ⟨h.owed, h.matched⟩
      · exact ⟨h.owed, h.matched⟩

omit [DecidableEq κ] in
theorem isResponse_iff {packet : Option Bytes} : isResponse packet = true ↔
    ∃ bytes status databytes, packet = some bytes ∧
      readPacket bytes = .response status databytes := by
  cases packet with
  | none => simp [isResponse]
  | some bytes =>
      cases hreading : readPacket bytes with
      | response status databytes => simp [isResponse, hreading]
      | _ => simp [isResponse, hreading]

omit [DecidableEq κ] in
private theorem ipmiDequeue_effects (s : Connection κ) :
    ∃ effects, (ipmiDequeue s).effects = s.effects ++ effects := by
  obtain hsame | ⟨hbusy, hsort⟩ | ⟨hconnected, hfree, item, rest, hnext, hsend⟩ :=
    ipmiDequeue_cases s
  · exact ⟨[], by rw [hsame, List.append_nil]⟩
  · exact ⟨[], by rw [hsort, List.append_nil]⟩
  · obtain ⟨timer, afters, nextAfter, hover⟩ := handOver_eq s item rest
    exact ⟨[.sent item], by rw [hsend, hover]⟩

omit [DecidableEq κ] in
/-- The message in the slot is answered with whatever response comes. -/
theorem answered_mem {e : InProgress (Script κ)} (slot : s.inprogress = some e)
    (status : Option ℤ) (databytes : Bytes) (owner : Option (Message κ)) :
    .answered e.toItem status databytes owner ∈
      (processResponse status databytes owner s).1.effects := by
  obtain ⟨afters, hcancel⟩ := cancelTimer_eq s e
  have hfinish : ∀ t : Connection κ, .answered e.toItem status databytes owner ∈ t.effects →
      .answered e.toItem status databytes owner ∈ (finish t).effects := by
    intro t hmem
    obtain ⟨effects, hdequeue⟩ := ipmiDequeue_effects { t with inprogress := none }
    rw [finish, hdequeue]
    exact List.mem_append_left effects hmem
  have hlast : .answered e.toItem status databytes owner ∈
      ((s.cancelTimer e).emit (.answered e.toItem status databytes owner)).effects :=
    List.mem_append_right _ (List.mem_singleton_self _)
  simp only [processResponse, slot]
  split
  · exact hlast
  · exact hfinish _ hlast
  · exact hfinish _ hlast

/-- A response to none of the messages is given to a callback. -/
theorem not_matched_of_strays {t : Suspended (Connection κ) Frame}
    {happening : Happening (Event κ)} (strays : Strays t happening) :
    ¬ ((reentrant hmac κ).machine.step t happening).state.Matched := by
  intro hmatched
  obtain ⟨s, stack⟩ := t
  cases happening with
  | returns => exact strays
  | occurs event =>
      cases event with
      | ipmiQueue request => exact strays
      | rmcpTimeout timer => exact strays
      | ipmiHealth opened pinged => exact strays
      | readable packet owner =>
          obtain ⟨hresponse, rfl, hbusy⟩ := strays
          obtain ⟨bytes, status, databytes, rfl, hreading⟩ := isResponse_iff.mp hresponse
          obtain ⟨e, hslot⟩ := Option.ne_none_iff_exists'.mp hbusy
          have hstep : ((reentrant hmac κ).machine.step ⟨s, stack⟩
              (.occurs (.readable (some bytes) none))).state =
                (process hmac none (s.responded none) (readPacket bytes)).1 := rfl
          have hanswered := answered_mem (s := s.responded none) hslot status databytes none
          rw [hstep, hreading, process] at hmatched
          have howner := hmatched e.toItem status databytes none hanswered
          exact Option.some_ne_none e.toItem howner.symm

/-- What holds of a calm run whose responses are responses to its messages. -/
structure Orderly (t : Suspended (Connection κ) Frame) : Prop extends Sound t where
  mine : Mine (running t) t.state

theorem Orderly.meets {t : Suspended (Connection κ) Frame} {happening : Happening (Event κ)}
    (h : Orderly t) (admits : (reentrant hmac κ).machine.admissible t happening)
    (calm : ¬ Interrupts t happening) (asked : ¬ Strays t happening) :
    Care.Meets { calm := true, asked := true } t happening := by
  refine ⟨fun _ => ⟨calm, h.single⟩, fun _ packet owner hevent hresponse e hslot => ?_, by simp,
    by simp⟩
  subst hevent
  obtain ⟨bytes, status, databytes, rfl, hreading⟩ := isResponse_iff.mp hresponse
  have hidle : running t = false := by
    by_contra hruns
    exact calm ⟨by simpa using hruns, readPacket bytes, rfl, by rw [hreading]; trivial⟩
  have howed := h.mine.owed
  rw [carried, hidle, if_neg Bool.false_ne_true, slotItem_of_slot hslot,
    Option.toList_some] at howed
  cases owner with
  | none =>
      exact absurd ⟨hresponse, rfl, Option.ne_none_iff_exists'.mpr ⟨e, hslot⟩⟩ asked
  | some item =>
      have hmem : item ∈ t.state.owed := (admits.2 item rfl).1
      have hitem : item = e.toItem := List.mem_singleton.mp (howed.subset hmem)
      obtain hnone | hone := List.sublist_singleton.mp howed
      · exact absurd hmem (by simp [hnone])
      · exact ⟨congrArg some hitem, hone⟩

theorem Orderly.step {t : Suspended (Connection κ) Frame} {happening : Happening (Event κ)}
    (h : Orderly t) (admits : (reentrant hmac κ).machine.admissible t happening)
    (calm : ¬ Interrupts t happening) (asked : ¬ Strays t happening) :
    Orderly ((reentrant hmac κ).machine.step t happening) := by
  have hpath := step_path h.base admits (h.meets admits calm asked)
  obtain ⟨-, -, hmine⟩ := hpath.keeps_base (I := fun r s => Accounts r s ∧ Mine r s)
    (fun base inv move => ⟨inv.1.move rfl base move, inv.2.move rfl base inv.1 move⟩) h.base
    ⟨h.accounts, h.mine⟩
  exact ⟨h.toSound.step admits calm, hmine⟩

/-- A step keeps the messages in order and with their own responses exactly if it does not look into
the slot while a callback runs and does not take a stray response. -/
theorem Orderly.step_iff {t : Suspended (Connection κ) Frame} {happening : Happening (Event κ)}
    (h : Orderly t) (admits : (reentrant hmac κ).machine.admissible t happening) :
    (InOrder ((reentrant hmac κ).machine.step t happening) ∧
        ((reentrant hmac κ).machine.step t happening).state.Matched) ↔
      ¬ Interrupts t happening ∧ ¬ Strays t happening := by
  constructor
  · rintro ⟨hin, hmatched⟩
    exact ⟨(h.toSound.inOrder_step_iff admits).mp hin,
      fun hstrays => not_matched_of_strays hstrays hmatched⟩
  · rintro ⟨hcalm, hasked⟩
    have hstep := h.step admits hcalm hasked
    exact ⟨hstep.accounts.inOrder, hstep.mine.matched⟩

/-- The messages are answered in order, each once and with its own response, in the runs in which
nothing looks into the slot while a callback runs and no response comes twice or from nowhere while
a message is in progress, and in no others. -/
theorem always_orderly_iff {keys : Keys} {happenings : List (Happening (Event κ))}
    (admits : (reentrant hmac κ).machine.Admits (started κ keys) happenings) :
    (reentrant hmac κ).machine.Always (fun t => InOrder t ∧ t.state.Matched) (started κ keys)
        happenings ↔
      (reentrant hmac κ).machine.EachStep
        (fun t happening => ¬ Interrupts t happening ∧ ¬ Strays t happening) (started κ keys)
        happenings := by
  have hstart : Orderly (started κ keys) :=
    ⟨sound_started keys, List.nil_sublist _, fun _ _ _ _ hmem => absurd hmem List.not_mem_nil⟩
  exact (reentrant hmac κ).machine.always_iff_of_invariant
    (fun t happening (h : Orderly t) hadmits
      (good : ¬ Interrupts t happening ∧ ¬ Strays t happening) => h.step hadmits good.1 good.2)
    (fun t happening h hadmits => h.step_iff hadmits) hstart
    ⟨hstart.accounts.inOrder, hstart.mine.matched⟩ admits

/-- A packet of RMCP+ with this payload type and these bytes from the eighteenth on. -/
def samplePacket (payloadtype : UInt8) (rest : Bytes) : Bytes :=
  [6, 0, 255, 7, 6, payloadtype] ++ List.replicate 8 0 ++ [8, 0, 0] ++ rest

def sampleRequest (callback : ℕ) : Request ℕ :=
  { callback := some callback, rssa := ⟨2, 0⟩, chan := ⟨0, 0⟩, lun := ⟨0, 0⟩, netfn := ⟨0, 6⟩
    cmd := ⟨0, 1⟩, data := [] }

/-- The response to a message. -/
def sampleResponse (item : Message ℕ) : Happening (Event ℕ) :=
  .occurs (.readable (some (samplePacket 0 (List.replicate 6 0))) (some item))

/-- A connection is opened, and the object gets its privileges. Two messages are sent, the second in
the callback of the first. -/
def sampleRun : List (Happening (Event ℕ)) :=
  [.occurs (.ipmiHealth (some 5) true),
    .occurs (.readable (some (samplePacket 21 [0])) none),
    sampleResponse (privilegeMessage ℕ 0), .returns,
    .occurs (.ipmiQueue (sampleRequest 1)),
    sampleResponse (requestMessage (sampleRequest 1)),
    .occurs (.ipmiQueue (sampleRequest 2)), .returns]

theorem sampleRun_ordered :
    (reentrant (fun _ => none) ℕ).machine.Always InOrder (started ℕ {}) sampleRun :=
  (always_ordered_iff (by decide +kernel)).mpr (by decide +kernel)

theorem sampleRun_orderly :
    (reentrant (fun _ => none) ℕ).machine.Always (fun t => InOrder t ∧ t.state.Matched)
      (started ℕ {}) sampleRun :=
  (always_orderly_iff (by decide +kernel)).mpr (by decide +kernel)

end Amester.Rmcp
