/-
# What an rmcp object can do

Each handler of an `rmcp` object is a sequence of a few moves, and so is what is left of a handler.
The moves carry along whether a callback of a caller is running. An invariant that each move keeps
holds in every state of every run.

Some invariants hold only as long as a run is careful about something, and the moves of a careful
run are restricted accordingly.
-/

import Amester.Rmcp.Connection
import Mathlib.Logic.Relation

namespace Amester.Rmcp

open BinaryFormat PriorityQueue EventMachine

universe u

variable {κ : Type u}

/-! ## What always holds of the socket -/

/-- A message is in progress on an established connection only, and nothing comes without a
socket. -/
structure Base (s : Connection κ) : Prop where
  idle : s.rmcpSock = 0 → s.owed = [] ∧ s.written = [] ∧ s.fileevent = false
  slot : s.inprogress ≠ none → s.rmcpStatus = .connected
  connected : s.rmcpStatus = .connected → s.rmcpSock ≠ 0
  status : s.rmcpStatus ≠ .timeout ∧ s.rmcpStatus ≠ .error

/-- The message in progress. -/
def Connection.slotItem (s : Connection κ) : Option (Message κ) :=
  s.inprogress.map InProgress.toItem

variable {s : Connection κ}

theorem cancelTimer_eq (s : Connection κ) (e : InProgress (Script κ)) :
    ∃ afters, s.cancelTimer e = { s with afters := afters } := by
  unfold Connection.cancelTimer
  cases e.after with
  | none => exact ⟨s.afters, rfl⟩
  | some id => exact ⟨_, rfl⟩

/-- The three ways of a dequeue: it leaves the queue, it sorts it, or it hands a message over. -/
theorem ipmiDequeue_cases (s : Connection κ) :
    ipmiDequeue s = s ∨
      (s.inprogress ≠ none ∧
        ipmiDequeue s = { s with ipmiMsgq := sort Item.priority s.ipmiMsgq }) ∨
      s.rmcpStatus = .connected ∧ s.inprogress = none ∧
        ∃ item rest, sort Item.priority s.ipmiMsgq = item :: rest ∧
          ipmiDequeue s = s.handOver item rest := by
  unfold ipmiDequeue
  split
  · exact .inl rfl
  split
  · exact .inl rfl
  rename_i hconnected
  split
  · exact .inl rfl
  · rename_i item rest hsorted
    split
    · rename_i hbusy
      refine .inr (.inl ⟨?_, by rw [hsorted]⟩)
      exact Option.isSome_iff_ne_none.mp hbusy
    · rename_i hfree
      refine .inr (.inr ⟨not_not.mp hconnected, ?_, item, rest, hsorted, rfl⟩)
      simpa using hfree

theorem ipmiDequeue_of_not_connected (status : s.rmcpStatus ≠ .connected) :
    ipmiDequeue s = s := by
  unfold ipmiDequeue
  rw [if_pos status]
  split_ifs <;> rfl

theorem handOver_eq (s : Connection κ) (item : Message κ) (rest : List (Message κ)) :
    ∃ timer afters nextAfter, s.handOver item rest = { s with
      inprogress := some { item with after := timer }
      ipmiMsgq := rest
      ipmiSessSeqIn := s.ipmiSessSeqIn + 1
      written := s.written ++ [.message item s.toSession]
      owed := s.owed ++ [item]
      effects := s.effects ++ [.sent item]
      afters := afters
      nextAfter := nextAfter } := by
  unfold Connection.handOver
  by_cases htimeout : item.timeout = 0
  · exact ⟨none, s.afters, s.nextAfter, by rw [if_neg (not_not.mpr htimeout)]; rfl⟩
  · exact ⟨some s.nextAfter, s.afters ++ [s.nextAfter], s.nextAfter + 1, by
      rw [if_pos htimeout]; rfl⟩

theorem ipmiQueue_of_not_connected (status : s.rmcpStatus ≠ .connected) (position : Position)
    (item : Message κ) : ipmiQueue position item s = s.post position item := by
  unfold ipmiQueue
  split_ifs
  · exact ipmiDequeue_of_not_connected status
  · rfl

theorem Base.slot_eq_none (h : Base s) (sock : s.rmcpSock = 0) : s.inprogress = none := by
  by_contra hsome
  exact h.connected (h.slot hsome) sock

/-- What a close does. -/
theorem Base.rmcpClose_eq (h : Base s) : ∃ afters, rmcpClose s = { s with
    ipmiSessSeqIn := 0
    ipmiSessId := 0
    rmcpStatus := .closed
    rmcpSock := 0
    fileevent := false
    written := []
    owed := []
    afters := afters
    inprogress := none
    ipmiMsgq := s.slotItem.toList ++ s.ipmiMsgq
    effects := s.effects ++ s.slotItem.toList.map (.posted .front) } := by
  unfold rmcpClose
  by_cases hsock : s.rmcpSock = 0
  · obtain ⟨howed, hwritten, hevent⟩ := h.idle hsock
    have hnone := h.slot_eq_none hsock
    have hitem : s.slotItem = none := by rw [Connection.slotItem, hnone]; rfl
    refine ⟨s.afters, ?_⟩
    rw [if_pos hsock, hitem, ← howed, ← hwritten, ← hevent, ← hnone, ← hsock, Option.toList_none,
      List.map_nil, List.append_nil]
    rfl
  · rw [if_neg hsock]
    cases hslot : s.inprogress with
    | none =>
        have hitem : s.slotItem = none := by rw [Connection.slotItem, hslot]; rfl
        refine ⟨s.afters, ?_⟩
        simp only [hitem, Option.toList_none, List.map_nil, List.append_nil, ← hslot]
        rfl
    | some e =>
        have hitem : s.slotItem = some e.toItem := by rw [Connection.slotItem, hslot]; rfl
        obtain ⟨afters, hcancel⟩ := cancelTimer_eq s.markClosed.shut e
        have hclosed : { s.markClosed.shut with
            afters := afters, inprogress := none }.rmcpStatus ≠ .connected := by
          simp [Connection.markClosed, Connection.shut]
        have hqueue := ipmiQueue_of_not_connected hclosed .front e.toItem
        refine ⟨afters, ?_⟩
        simp only [hcancel, hitem, hqueue]
        rfl

/-! ## The moves -/

/-- What a run is careful about. -/
structure Care where
  /-- Nothing looks into `inprogress` while a callback runs. -/
  calm : Bool := false
  /-- A response that is taken is the one to the message in progress, and the only one to come. -/
  asked : Bool := false
  /-- No timer is left behind. -/
  tidy : Bool := false
  /-- Every ping is written. -/
  pinged : Bool := false

/-- One move, from whether a callback runs and a state to whether one runs and a state. -/
inductive Move (c : Care) : Bool → Connection κ → Bool → Connection κ → Prop
  /-- The exchange that opens a connection goes on, or comes to an end. -/
  | exchange (r : Bool) (s : Connection κ) (keys : Keys) (fileevent : Bool)
      (waitSendSync : List (ℕ × Option ℤ)) (nextUid : ℕ) (sent : List Bytes)
      (number : keys.ipmiSessSeqIn = s.ipmiSessSeqIn)
      (heard : fileevent = true → s.fileevent = true)
      (socket : sent ≠ [] → s.fileevent = true) :
      Move c r s r { s with
        toKeys := keys
        fileevent := fileevent
        waitSendSync := waitSendSync
        nextUid := nextUid
        written := s.written ++ sent.map .handshake }
  | establish (r : Bool) {s : Connection κ} (heard : s.fileevent = true) :
      Move c r s r { s.afterCancel s.rmcpOpenAfter with rmcpStatus := .connected }
  /-- The response to a message has come. -/
  | respond (r : Bool) (s : Connection κ) (owed : List (Message κ)) (fewer : owed.Sublist s.owed) :
      Move c r s r { s with owed := owed }
  | post (r : Bool) (s : Connection κ) (item : Message κ) : Move c r s r (s.post .back item)
  | sort (r : Bool) {s : Connection κ} (busy : s.inprogress ≠ none) :
      Move c r s r { s with ipmiMsgq := sort Item.priority s.ipmiMsgq }
  | send (r : Bool) {s : Connection κ} {item : Message κ} {rest : List (Message κ)}
      (connected : s.rmcpStatus = .connected) (free : s.inprogress = none)
      (next : PriorityQueue.sort Item.priority s.ipmiMsgq = item :: rest) :
      Move c r s r (s.handOver item rest)
  /-- A callback of a caller starts. -/
  | call {r : Bool} {s : Connection κ} {e : InProgress (Script κ)} {callback : κ}
      (slot : s.inprogress = some e) (foreign : e.callback = some (.foreign callback))
      (status : Option ℤ) (databytes : Bytes) (owner : Option (Message κ))
      (first : c.calm = true → r = false)
      (asked : c.asked = true → owner = some e.toItem ∧ s.owed = []) :
      Move c r s true ((s.cancelTimer e).emit (.answered e.toItem status databytes owner))
  /-- A message without such a callback is answered and done with. -/
  | serve {r : Bool} {s : Connection κ} {e : InProgress (Script κ)} (slot : s.inprogress = some e)
      (own : ∀ callback, e.callback ≠ some (.foreign callback))
      (status : Option ℤ) (databytes : Bytes) (owner : Option (Message κ))
      (waitSendSync : List (ℕ × Option ℤ)) (first : c.calm = true → r = false)
      (asked : c.asked = true → owner = some e.toItem ∧ s.owed = []) :
      Move c r s r { (s.cancelTimer e).emit (.answered e.toItem status databytes owner) with
        waitSendSync := waitSendSync
        inprogress := none }
  /-- A callback of a caller has returned. -/
  | done (r : Bool) (s : Connection κ) (last : c.calm = true → r = false)
      (kept : c.tidy = true → ∀ e ∈ s.inprogress, ∀ timer ∈ e.after, timer ∉ s.afters) :
      Move c true s r { s with inprogress := none }
  | close {r : Bool} (s : Connection κ) (first : c.calm = true → r = false)
      (kept : c.tidy = true → s.rmcpStatus ≠ .opening) : Move c r s r (rmcpClose s)
  /-- A timer has fired. -/
  | expire {r : Bool} {s : Connection κ} {timer : ℕ} (pending : timer ∈ s.afters)
      (first : c.calm = true → r = false) :
      Move c r s r (rmcpClose { s with afters := s.afters.erase timer })
  | opens (r : Bool) {s : Connection κ} {sock : ℕ} {pinged : Bool} (named : sock ≠ 0)
      (idle : s.rmcpSock = 0) (status : s.rmcpStatus ≠ .connected)
      (written : c.pinged = true → pinged = true) :
      Move c r s r (rmcpOpen (some sock) pinged s)

/-- Moves after one another. -/
def Path (c : Care) (r : Bool) (s : Connection κ) (r' : Bool) (s' : Connection κ) : Prop :=
  Relation.ReflTransGen (fun p q => Move c p.1 p.2 q.1 q.2) (r, s) (r', s')

variable {c : Care} {r r' r'' : Bool} {s' s'' : Connection κ}

theorem Path.refl (r : Bool) (s : Connection κ) : Path c r s r s :=
  Relation.ReflTransGen.refl

theorem Move.path (h : Move c r s r' s') : Path c r s r' s' :=
  Relation.ReflTransGen.single h

theorem Path.trans (h : Path c r s r' s') (g : Path c r' s' r'' s'') : Path c r s r'' s'' :=
  Relation.ReflTransGen.trans h g

/-- What each move keeps is kept all the way. -/
theorem Path.keeps {I : Bool → Connection κ → Prop}
    (moves : ∀ {r s r' s'}, I r s → Move c r s r' s' → I r' s') (h : Path c r s r' s')
    (start : I r s) : I r' s' := by
  have hall : ∀ p q : Bool × Connection κ,
      Relation.ReflTransGen (fun p q => Move c p.1 p.2 q.1 q.2) p q → I p.1 p.2 → I q.1 q.2 := by
    intro p q hpath hp
    induction hpath with
    | refl => exact hp
    | tail _ hmove ih => exact moves ih hmove
  exact hall _ _ h start

/-! ## The handlers -/

theorem ipmiDequeue_path (r : Bool) (s : Connection κ) : Path c r s r (ipmiDequeue s) := by
  obtain hsame | ⟨hbusy, hsort⟩ | ⟨hconnected, hfree, item, rest, hnext, hsend⟩ :=
    ipmiDequeue_cases s
  · rw [hsame]
    exact .refl r s
  · rw [hsort]
    exact (Move.sort r hbusy).path
  · rw [hsend]
    exact (Move.send r hconnected hfree hnext).path

theorem ipmiQueue_path (r : Bool) (s : Connection κ) (item : Message κ) :
    Path c r s r (ipmiQueue .back item s) := by
  have hpost := (Move.post (c := c) r s item).path
  unfold ipmiQueue
  split
  · exact hpost.trans (ipmiDequeue_path r _)
  · exact hpost

/-- The keys change, and the handler stays or is deleted. -/
theorem keys_path (r : Bool) (s : Connection κ) {keys : Keys} {fileevent : Bool}
    (number : keys.ipmiSessSeqIn = s.ipmiSessSeqIn)
    (heard : fileevent = true → s.fileevent = true) :
    Path c r s r { s with toKeys := keys, fileevent := fileevent } := by
  have hmove := (Move.exchange (c := c) r s keys fileevent s.waitSendSync s.nextUid [] number heard
    (absurd rfl)).path
  rwa [List.map_nil, List.append_nil] at hmove

/-- The statuses of the responses are kept elsewhere. -/
theorem wait_path (r : Bool) (s : Connection κ) (waitSendSync : List (ℕ × Option ℤ))
    (nextUid : ℕ) :
    Path c r s r { s with waitSendSync := waitSendSync, nextUid := nextUid } := by
  have hmove := (Move.exchange (c := c) r s s.toKeys s.fileevent waitSendSync nextUid [] rfl id
    (absurd rfl)).path
  rwa [List.map_nil, List.append_nil] at hmove

/-- What is written in answer to a packet, and then the queue. -/
theorem reply_path (r : Bool) (s : Connection κ) {keys : Keys} (outmsg : Bytes)
    (number : keys.ipmiSessSeqIn = s.ipmiSessSeqIn) (heard : s.fileevent = true) :
    Path c r s r (ipmiDequeue ({ s with toKeys := keys }.rmcpSend outmsg)) := by
  have hmove := (Move.exchange (c := c) r s keys s.fileevent s.waitSendSync s.nextUid [outmsg]
    number id fun _ => heard).path
  exact hmove.trans (ipmiDequeue_path r _)

/-- Whether a callback runs when the handler has come to a frame. -/
def runs (r : Bool) (frame : Option Frame) : Bool := r || frame = some .callback

@[simp]
theorem runs_none (r : Bool) : runs r none = r := Bool.or_false r

@[simp]
theorem runs_privilege (r : Bool) (myuid : ℕ) : runs r (some (.privilege myuid)) = r :=
  Bool.or_false r

@[simp]
theorem runs_callback (r : Bool) : runs r (some .callback) = true := Bool.or_true r

theorem processResponse_path (status : Option ℤ) (databytes : Bytes)
    (owner : Option (Message κ)) (s : Connection κ) (first : c.calm = true → r = false)
    (asked : c.asked = true → ∀ e ∈ s.inprogress, owner = some e.toItem ∧ s.owed = []) :
    Path c r s (runs r (processResponse status databytes owner s).2)
      (processResponse status databytes owner s).1 := by
  unfold processResponse
  cases hslot : s.inprogress with
  | none =>
      simp only [runs_none]
      exact ipmiDequeue_path r s
  | some e =>
      have hasked : c.asked = true → owner = some e.toItem ∧ s.owed = [] :=
        fun hcare => asked hcare e hslot
      have hserve := fun own wait =>
        (Move.serve hslot own status databytes owner wait first hasked).path.trans
          (ipmiDequeue_path r _)
      cases hcallback : e.callback with
      | none =>
          simp only [hcallback, runs_none]
          exact hserve (by simp [hcallback]) (s.cancelTimer e).waitSendSync
      | some script =>
          cases script with
          | foreign callback =>
              simp only [hcallback, runs_callback]
              exact (Move.call hslot hcallback status databytes owner first hasked).path
          | ipmiSendSyncCallback myuid =>
              simp only [hcallback, runs_none]
              exact hserve (by simp [hcallback])
                ((s.cancelTimer e).waitSendSync ++ [(myuid, status)])

theorem processRakp4_path (s : Connection κ) (heard : s.fileevent = true) :
    Path c r s r (processRakp4 s).1 := by
  have hestablish := (Move.establish (c := c) r heard).path
  exact (hestablish.trans (wait_path r _ _ (s.nextUid + 1))).trans (ipmiQueue_path r _ _)

variable {hmac : Bytes → Option Bytes}

theorem processRakp2_path (s : Connection κ) (heard : s.fileevent = true) :
    Path c r s r (processRakp2 hmac s).1 := by
  unfold processRakp2
  cases s.nextTag.authCode hmac with
  | none => exact keys_path r s rfl fun hheard => absurd hheard Bool.false_ne_true
  | some authCode => exact reply_path r s _ rfl heard

theorem processRakp2_frame (s : Connection κ) : (processRakp2 hmac s).2 = none := by
  unfold processRakp2
  cases s.nextTag.authCode hmac with
  | none => rfl
  | some authCode => rfl

/-- The packet looks into `inprogress`. -/
def Reading.Looks : Reading → Prop
  | .response _ _ | .refused => True
  | .dropped | .raises | .ignored | .pong | .capabilities _ | .challenge _ | .openSession _
  | .rakp2 _ | .rakp4 => False

/-- A careful run can have this packet, which is the response to `owner`. -/
structure Reading.Allowed (c : Care) (r : Bool) (s : Connection κ) (owner : Option (Message κ))
    (reading : Reading) : Prop where
  first : c.calm = true → reading.Looks → r = false
  asked : c.asked = true → ∀ status databytes, reading = .response status databytes →
    ∀ e ∈ s.inprogress, owner = some e.toItem ∧ s.owed = []
  kept : c.tidy = true → reading = .refused → s.rmcpStatus ≠ .opening

theorem process_path {owner : Option (Message κ)} {s : Connection κ} (heard : s.fileevent = true)
    {reading : Reading} (allowed : reading.Allowed c r s owner) :
    Path c r s (runs r (process hmac owner s reading).2) (process hmac owner s reading).1 := by
  cases reading with
  | dropped =>
      rw [process, runs_none]
      exact .refl r s
  | raises =>
      rw [process, runs_none]
      exact keys_path r s rfl fun hheard => absurd hheard Bool.false_ne_true
  | ignored =>
      rw [process, runs_none]
      exact ipmiDequeue_path r s
  | pong =>
      simp only [process, runs_none]
      split_ifs
      · exact reply_path r s _ rfl heard
      · exact ipmiDequeue_path r s
  | refused =>
      rw [process, runs_none]
      exact (Move.close s (fun hcare => allowed.first hcare trivial)
        fun hcare => allowed.kept hcare rfl).path
  | capabilities auth1 =>
      let keys := { s.toKeys with
        authenabledmd5 := s.authenabledmd5 || decide ((auth1 >>> 2) % 2 = 1) }
      have hkeys : Path c r s r { s with toKeys := keys } := keys_path r s rfl id
      simp only [process, runs_none]
      split_ifs
      · exact reply_path r s _ rfl heard
      · exact hkeys.trans (ipmiDequeue_path r _)
  | challenge tempsessid =>
      simp only [process, runs_none]
      exact reply_path r s _ rfl heard
  | openSession id =>
      simp only [process, runs_none]
      exact reply_path r s _ rfl heard
  | rakp2 random =>
      let keys := { s.toKeys with managedSystemRandom := random <|> s.managedSystemRandom }
      have hkeys : Path c r s r { s with toKeys := keys } := keys_path r s rfl id
      simp only [process, processRakp2_frame, runs_none]
      exact hkeys.trans (processRakp2_path _ heard)
  | rakp4 =>
      simp only [process, processRakp4, runs_privilege]
      exact processRakp4_path s heard
  | response status databytes =>
      exact processResponse_path status databytes owner s
        (fun hcare => allowed.first hcare trivial)
        fun hcare => allowed.asked hcare status databytes rfl

/-! ## Steps -/

/-- The event looks into `inprogress`. -/
def Event.Looks : Event κ → Prop
  | .readable packet _ => ∃ reading ∈ packet.map readPacket, reading.Looks
  | .rmcpTimeout _ => True
  | .ipmiQueue _ | .ipmiHealth _ _ => False

/-- The rest of the handler closes the connection. -/
def Frame.Looks (s : Connection κ) : Frame → Prop
  | .callback => False
  | .privilege myuid => ∃ w ∈ s.waitSendSync.find? fun w => w.1 = myuid, w.2 ≠ some 0

/-- A callback of a caller has not returned. -/
def running (t : Suspended (Connection κ) Frame) : Bool := Frame.callback ∈ t.stack

/-- The step looks into `inprogress` while a callback is running. -/
def Interrupts (t : Suspended (Connection κ) Frame) : Happening (Event κ) → Prop
  | .occurs event => running t = true ∧ event.Looks
  | .returns => running t = true ∧ ∃ frame ∈ t.stack.head?, frame.Looks t.state

/-- A response to none of the messages comes while one is in progress. -/
def Strays (t : Suspended (Connection κ) Frame) : Happening (Event κ) → Prop
  | .occurs (.readable packet owner) =>
    isResponse packet = true ∧ owner = none ∧ t.state.inprogress ≠ none
  | _ => False

/-- The rest of the handler leaves a timer behind. -/
def Frame.Orphans (s : Connection κ) : Frame → Prop
  | .callback => ∃ e ∈ s.inprogress, ∃ timer ∈ e.after, timer ∈ s.afters
  | .privilege myuid => (Frame.privilege myuid).Looks s ∧ s.rmcpStatus = .opening

/-- The step leaves a timer behind: it closes a connection that is being opened, or it forgets the
message in progress. -/
def Orphans (t : Suspended (Connection κ) Frame) : Happening (Event κ) → Prop
  | .occurs (.readable packet _) =>
    packet.map readPacket = some .refused ∧ t.state.rmcpStatus = .opening
  | .occurs _ => False
  | .returns => ∃ frame ∈ t.stack.head?, frame.Orphans t.state

/-- The step opens a socket, and the ping cannot be written. -/
def FailsPing (t : Suspended (Connection κ) Frame) : Happening (Event κ) → Prop
  | .occurs (.ipmiHealth opened pinged) =>
    opened ≠ none ∧ pinged = false ∧ t.state.rmcpSock = 0
  | _ => False

instance decidableReadingLooks : DecidablePred Reading.Looks
  | .response _ _ | .refused => isTrue trivial
  | .dropped | .raises | .ignored | .pong | .capabilities _ | .challenge _ | .openSession _
  | .rakp2 _ | .rakp4 => isFalse not_false

instance decidableEventLooks : DecidablePred (Event.Looks (κ := κ))
  | .readable packet _ =>
    inferInstanceAs (Decidable (∃ reading ∈ packet.map readPacket, reading.Looks))
  | .rmcpTimeout _ => isTrue trivial
  | .ipmiQueue _ | .ipmiHealth _ _ => isFalse not_false

instance decidableFrameLooks (s : Connection κ) : DecidablePred (Frame.Looks s)
  | .callback => isFalse not_false
  | .privilege myuid =>
    inferInstanceAs (Decidable (∃ w ∈ s.waitSendSync.find? fun w => w.1 = myuid, w.2 ≠ some 0))

instance decidableInterrupts (t : Suspended (Connection κ) Frame) : DecidablePred (Interrupts t)
  | .occurs event => inferInstanceAs (Decidable (running t = true ∧ event.Looks))
  | .returns =>
    inferInstanceAs (Decidable
      (running t = true ∧ ∃ frame ∈ t.stack.head?, frame.Looks t.state))

instance decidableStrays (t : Suspended (Connection κ) Frame) : DecidablePred (Strays t)
  | .occurs (.readable packet owner) =>
    inferInstanceAs (Decidable
      (isResponse packet = true ∧ owner = none ∧ t.state.inprogress ≠ none))
  | .occurs (.ipmiQueue _) | .occurs (.rmcpTimeout _) | .occurs (.ipmiHealth _ _) | .returns =>
    isFalse not_false

instance decidableFrameOrphans (s : Connection κ) : DecidablePred (Frame.Orphans s)
  | .callback =>
    inferInstanceAs (Decidable (∃ e ∈ s.inprogress, ∃ timer ∈ e.after, timer ∈ s.afters))
  | .privilege myuid =>
    inferInstanceAs (Decidable ((Frame.privilege myuid).Looks s ∧ s.rmcpStatus = .opening))

instance decidableOrphans (t : Suspended (Connection κ) Frame) : DecidablePred (Orphans t)
  | .occurs (.readable packet _) =>
    inferInstanceAs (Decidable
      (packet.map readPacket = some .refused ∧ t.state.rmcpStatus = .opening))
  | .occurs (.ipmiQueue _) | .occurs (.rmcpTimeout _) | .occurs (.ipmiHealth _ _) =>
    isFalse not_false
  | .returns =>
    inferInstanceAs (Decidable (∃ frame ∈ t.stack.head?, frame.Orphans t.state))

instance decidableFailsPing (t : Suspended (Connection κ) Frame) : DecidablePred (FailsPing t)
  | .occurs (.ipmiHealth opened pinged) =>
    inferInstanceAs (Decidable (opened ≠ none ∧ pinged = false ∧ t.state.rmcpSock = 0))
  | .occurs (.ipmiQueue _) | .occurs (.rmcpTimeout _) | .occurs (.readable _ _) | .returns =>
    isFalse not_false

/-- What is known of a step in a careful run. -/
structure Care.Meets (c : Care) (t : Suspended (Connection κ) Frame)
    (happening : Happening (Event κ)) : Prop where
  calm : c.calm = true → ¬ Interrupts t happening ∧ t.stack.count .callback ≤ 1
  asked : c.asked = true → ∀ packet owner, happening = .occurs (.readable packet owner) →
    isResponse packet = true → ∀ e ∈ t.state.inprogress,
      owner = some e.toItem ∧ t.state.owed = [e.toItem]
  tidy : c.tidy = true → ¬ Orphans t happening
  pinged : c.pinged = true → ¬ FailsPing t happening

theorem running_push (result : Connection κ × Option Frame) (stack : List Frame)
    (s : Connection κ) :
    running (Reentrant.push result stack) = runs (running ⟨s, stack⟩) result.2 := by
  obtain ⟨t, frame⟩ := result
  cases frame with
  | none => exact (Bool.or_false _).symm
  | some frame =>
      cases frame with
      | callback => simp [running, Reentrant.push]
      | privilege myuid => simp [running, Reentrant.push]

theorem ipmiHealth_path {s : Connection κ} (base : Base s) {opened : Option ℕ}
    (named : ∀ sock ∈ opened, sock ≠ 0) {pinged : Bool}
    (written : c.pinged = true → opened ≠ none → s.rmcpSock = 0 → pinged = true) :
    Path c r s r (ipmiHealth opened pinged s) := by
  have hopen : s.rmcpStatus ≠ .connected → Path c r s r (rmcpOpen opened pinged s) := by
    intro hstatus
    by_cases hsock : s.rmcpSock = 0
    · cases opened with
      | none =>
          have hsame : rmcpOpen none pinged s = s := by simp [rmcpOpen]
          exact hsame.symm ▸ .refl r s
      | some sock =>
          exact (Move.opens r (named sock rfl) hsock hstatus fun hcare =>
            written hcare (Option.some_ne_none sock) hsock).path
    · have hsame : rmcpOpen opened pinged s = s := if_pos hsock
      exact hsame.symm ▸ .refl r s
  unfold ipmiHealth
  cases hstatus : s.rmcpStatus with
  | disconnected | closed => exact hopen (by rw [hstatus]; decide)
  | opening => exact .refl r s
  | connected => exact ipmiDequeue_path r s
  | timeout => exact absurd hstatus base.status.1
  | error => exact absurd hstatus base.status.2

/-- The rest of the object's own handler. -/
theorem resume_privilege_path {s : Connection κ} (myuid : ℕ)
    (first : c.calm = true → (Frame.privilege myuid).Looks s → r = false)
    (kept : c.tidy = true → (Frame.privilege myuid).Looks s → s.rmcpStatus ≠ .opening) :
    Path c r s (runs r (resume (.privilege myuid) s).2) (resume (.privilege myuid) s).1 := by
  cases hfind : s.waitSendSync.find? fun w => w.1 = myuid with
  | none =>
      have hresume : resume (.privilege myuid) s = (s, some (.privilege myuid)) := by
        simp only [resume, hfind]
      rw [hresume, runs_privilege]
      exact .refl r s
  | some w =>
      let waited := { s with waitSendSync := s.waitSendSync.filter fun w => w.1 ≠ myuid }
      have hresume : resume (.privilege myuid) s =
          (ipmiDequeue (if w.2 = some 0 then waited else rmcpClose waited), none) := by
        simp only [resume, hfind, waited]
      have hwait : Path c r s r waited := wait_path r s _ s.nextUid
      rw [hresume, runs_none]
      refine hwait.trans (Path.trans ?_ (ipmiDequeue_path r _))
      split_ifs with hstatus
      · exact .refl r _
      · exact (Move.close waited (fun hcare => first hcare ⟨w, hfind, hstatus⟩)
          fun hcare => kept hcare ⟨w, hfind, hstatus⟩).path

variable [DecidableEq κ]

theorem responded_move (r : Bool) (s : Connection κ) (owner : Option (Message κ)) :
    Move c r s r (s.responded owner) := by
  refine Move.respond r s _ ?_
  cases owner with
  | none => exact List.Sublist.refl _
  | some item => exact List.erase_sublist

theorem handle_path {t : Suspended (Connection κ) Frame} (base : Base t.state) {event : Event κ}
    (admits : admissible t.state event) (meets : c.Meets t (.occurs event)) :
    Path c (running t) t.state (runs (running t) (handle hmac t.state event).2)
      (handle hmac t.state event).1 := by
  have hfirst : c.calm = true → event.Looks → running t = false := by
    intro hcare hlooks
    by_contra hruns
    exact (meets.calm hcare).1 ⟨by simpa using hruns, hlooks⟩
  cases event with
  | ipmiQueue request =>
      simp only [handle, runs_none]
      exact ipmiQueue_path _ _ _
  | readable packet owner =>
      cases packet with
      | none =>
          simp only [handle, rmcpProcess, runs_none]
          exact .refl _ _
      | some packet =>
          have hallowed :
              (readPacket packet).Allowed c (running t) (t.state.responded owner) owner := by
            refine ⟨?_, ?_, ?_⟩
            · exact fun hcare hlooks => hfirst hcare ⟨readPacket packet, rfl, hlooks⟩
            · intro hcare status databytes hreading e hslot
              have hresponse : isResponse (some packet) = true := by simp [isResponse, hreading]
              obtain ⟨rfl, howed⟩ := meets.asked hcare _ owner rfl hresponse e hslot
              refine ⟨rfl, ?_⟩
              simp [Connection.responded, howed]
            · intro hcare hreading hstatus
              exact meets.tidy hcare ⟨by rw [Option.map_some, hreading], hstatus⟩
          have hheard : (t.state.responded owner).fileevent = true := admits.1
          exact (responded_move (running t) t.state owner).path.trans
            (process_path hheard hallowed)
  | rmcpTimeout timer =>
      simp only [handle, runs_none]
      exact (Move.expire admits fun hcare => hfirst hcare trivial).path
  | ipmiHealth opened pinged =>
      simp only [handle, runs_none]
      refine ipmiHealth_path base admits fun hcare hopened hsock => ?_
      by_contra hpinged
      exact meets.pinged hcare ⟨hopened, by simpa using hpinged, hsock⟩

/-- Each step of a run is a sequence of moves. -/
theorem step_path {t : Suspended (Connection κ) Frame} {happening : Happening (Event κ)}
    (base : Base t.state) (admits : (reentrant hmac κ).machine.admissible t happening)
    (meets : c.Meets t happening) :
    Path c (running t) t.state (running ((reentrant hmac κ).machine.step t happening))
      ((reentrant hmac κ).machine.step t happening).state := by
  obtain ⟨s, stack⟩ := t
  cases happening with
  | occurs event =>
      have hhandle : Path c (running ⟨s, stack⟩) s _ (handle hmac s event).1 :=
        handle_path base admits meets
      rwa [← running_push (handle hmac s event) stack s] at hhandle
  | returns =>
      cases stack with
      | nil => exact absurd rfl admits
      | cons frame stack =>
          have hpush := running_push (resume frame s) stack s
          cases frame with
          | callback =>
              have hrun : running ⟨s, Frame.callback :: stack⟩ = true := by simp [running]
              have hlast : c.calm = true → running ⟨s, stack⟩ = false := by
                intro hcare
                have hcount := (meets.calm hcare).2
                rw [List.count_cons_self] at hcount
                have hnone : List.count Frame.callback stack = 0 := by omega
                simpa [running] using List.count_eq_zero.mp hnone
              have hkept : c.tidy = true →
                  ∀ e ∈ s.inprogress, ∀ timer ∈ e.after, timer ∉ s.afters :=
                fun hcare e hslot timer htimer hpending =>
                  meets.tidy hcare ⟨.callback, rfl, e, hslot, timer, htimer, hpending⟩
              have hfinish := (Move.done _ s hlast hkept).path.trans (ipmiDequeue_path _ _)
              rw [← runs_none (running ⟨s, stack⟩)] at hfinish
              rw [hrun]
              exact hpush ▸ hfinish
          | privilege myuid =>
              have hsame : running ⟨s, Frame.privilege myuid :: stack⟩ = running ⟨s, stack⟩ := by
                simp [running]
              rw [hsame]
              refine hpush ▸ resume_privilege_path myuid (fun hcare hlooks => ?_)
                fun hcare hlooks hstatus => ?_
              · by_contra hruns
                refine (meets.calm hcare).1 ⟨?_, .privilege myuid, rfl, hlooks⟩
                simpa [hsame] using hruns
              · exact meets.tidy hcare ⟨.privilege myuid, rfl, hlooks, hstatus⟩

end Amester.Rmcp
