/-
# Callbacks that wait on a netc session

A callback may queue a request and wait for its answer, and while it waits the
event loop goes on: the handler that ran it is suspended. Here each handler is
cut where it runs callbacks. A dequeue that answers requests on the spot runs
their callbacks, the last one first, inside the handler that called it, so a
suspended handler may have more callbacks to run before it goes on, and
`netc_process` looks at the queue once more at its end.

A message leaves the slot before its callback runs, so in every state, however
many callbacks have not returned, the slot holds a request that the FSP owes an
answer to, or nothing.
-/

import Amester.Lib.Reentrant
import Amester.Netc.Reconnection

namespace Amester.Netc

open BinaryFormat PriorityQueue EventMachine

universe u

variable {κ : Type u}

namespace Callbacks

/-- What is left of a handler while a callback runs. -/
structure Frame (κ : Type u) where
  /-- The message whose callback runs. -/
  running : Item κ
  /-- The messages whose callbacks run next. -/
  due : List (Item κ)
  /-- `netc_process` looks at the queue at its end. -/
  tail : Bool

/-- The message whose callback runs, if the effect is a callback. -/
def ranCallback? : Effect κ → Option (Item κ)
  | .ranCallback item _ _ => some item
  | _ => none

/-- The messages whose callbacks a command runs, in order. -/
def callbacksSince (s t : State κ) : List (Item κ) :=
  (t.effects.drop s.effects.length).filterMap ranCallback?

/-- `netc_process` up to its last look at the queue; the flag says whether that
look follows. -/
def netcDispatchHead (p : NetcPacket) (s : State κ) : Outcome (State κ) × Bool :=
  match p.funcop with
  | .version =>
    if p.success then (versionReceived p.ncdata s, true) else (netcClose s, false)
  | .password =>
    let s := s.afterCancel s.netcOpenAfter
    if p.success then (passwordAccepted p.ncdata s, true)
    else (netcClose (s.afterCancel s.ipmiHealthAfter), false)
  | .ipmi => (processIpmi p.ncdata s, true)
  | .nodeConfig => (nodeConfigReceived p.ncdata s, true)
  | .pollingFrequency => (.ok s, true)
  | .unknown => (.ok (s.emit .unknownMessage), true)

/-- The two parts make up the dispatch. -/
theorem netcDispatch_eq (p : NetcPacket) (s : State κ) :
    netcDispatch p s =
      if (netcDispatchHead p s).2 then (netcDispatchHead p s).1.andThen ipmiDequeue
      else (netcDispatchHead p s).1 := by
  unfold netcDispatch netcDispatchHead
  cases p.funcop with
  | version => cases p.success <;> rfl
  | password => cases p.success <;> rfl
  | ipmi => rfl
  | nodeConfig => rfl
  | pollingFrequency => rfl
  | unknown => rfl

/-- Suspend a handler at the first callback that its last command runs. -/
def suspend (s : State κ) (command : Outcome (State κ)) (tail : Bool) :
    State κ × Option (Frame κ) :=
  match callbacksSince s command.state with
  | [] => (command.state, none)
  | running :: due => (command.state, some ⟨running, due, tail && command.error.isNone⟩)

/-- The look at the queue at the end of `netc_process`. -/
def lookAtQueue (s : State κ) : State κ × Option (Frame κ) := suspend s (ipmiDequeue s) false

/-- Run a command, and the look at the queue unless a callback is in the way. -/
def runHandler (s : State κ) (command : Outcome (State κ)) (tail : Bool) :
    State κ × Option (Frame κ) :=
  match suspend s command tail with
  | (t, some frame) => (t, some frame)
  | (t, none) => if tail && command.error.isNone then lookAtQueue t else (t, none)

/-- Handle a message up to its first callback. -/
def netcProcess (p : NetcPacket) (result : OpenResult) (s : State κ) :
    State κ × Option (Frame κ) :=
  let reopened : Outcome (State κ) :=
    if p.clientConnected then (netcClose s).andThen (netcOpen result) else .ok s
  match reopened.error with
  | some _ => (reopened.state, none)
  | none =>
    runHandler reopened.state (netcDispatchHead p reopened.state).1
      (netcDispatchHead p reopened.state).2

def handle (w : World κ) : Event κ → World κ × Option (Frame κ)
  | .netcProcess p result =>
    let handled := netcProcess p result (w.session.delivered p)
    ({ w with session := handled.1 }, handled.2)
  | event =>
    let t := w.step event
    let handled := suspend w.session (.ok t.session) false
    ({ t with session := handled.1 }, handled.2)

/-- The rest of a handler: the callbacks that are due, and then the look at the
queue. -/
def resume (f : Frame κ) (w : World κ) : World κ × Option (Frame κ) :=
  match f.due with
  | running :: due => (w, some { f with running := running, due := due })
  | [] =>
    if f.tail then
      ({ w with session := (lookAtQueue w.session).1 }, (lookAtQueue w.session).2)
    else (w, none)

/-- As for a session without suspended callbacks, but with timeouts that may be
absent: a timeout of 0 starts no timer. -/
def admissible (w : World κ) : Event κ → Prop
  | .ipmiQueue r => 0 ≤ r.timeout.getD w.session.timeout
  | event => w.admissible event

instance (w : World κ) : DecidablePred (admissible w)
  | .ipmiQueue r => inferInstanceAs (Decidable (0 ≤ r.timeout.getD w.session.timeout))
  | .netcProcess p result => inferInstanceAs (Decidable (w.admissible (.netcProcess p result)))
  | .netcTimeout result => inferInstanceAs (Decidable (w.admissible (.netcTimeout result)))
  | .netcOpen result => inferInstanceAs (Decidable (w.admissible (.netcOpen result)))
  | .ipmiHealth result => inferInstanceAs (Decidable (w.admissible (.ipmiHealth result)))
  | .ipmiDequeue | .netcClose | .netcSurveillance | .network _ | .configure _ => isTrue trivial

/-- The session as an event loop whose callbacks may wait. -/
def reentrant (κ : Type u) : Reentrant (World κ) (Event κ) (Frame κ) :=
  ⟨admissible, handle, resume⟩

instance (w : World κ) : DecidablePred ((reentrant κ).admissible w) :=
  inferInstanceAs (DecidablePred (admissible w))

/-- The condition: a request has a timeout. -/
def HasTimeout (w : World κ) : Event κ → Prop
  | .ipmiQueue r => r.timeout.getD w.session.timeout ≠ 0
  | _ => True

instance (w : World κ) : DecidablePred (HasTimeout w)
  | .ipmiQueue r => inferInstanceAs (Decidable (r.timeout.getD w.session.timeout ≠ 0))
  | .ipmiDequeue | .netcProcess _ _ | .netcTimeout _ | .netcClose | .netcOpen _
  | .ipmiHealth _ | .netcSurveillance | .network _ | .configure _ => isTrue trivial

/-! ## The slot and what the FSP owes -/

/-- The FSP owes the answer to the message in the slot, and no other. -/
def Owed (s : State κ) : Prop := s.fsp = s.inprogress.map InProgress.toItem

theorem Owed.congr {s t : State κ} (h : Owed s) (inprogress : t.inprogress = s.inprogress)
    (fsp : t.fsp = s.fsp) : Owed t := by
  rw [Owed, inprogress, fsp]
  exact h

theorem runCallback_owed {s : State κ} (h : Owed s) (item : Item κ) (ncdata : Bytes) :
    Owed (runCallback item ncdata s).state := by
  unfold runCallback
  split
  · exact h
  · split
    · exact h
    · exact h

/-- A message that is answered leaves the slot before anything else happens. -/
theorem processIpmiWith_owed {accepted : List (Item κ)}
    {dequeue : State κ → Outcome (State κ)} {s : State κ} (h : Inv accepted s)
    (fsp : s.fsp = []) (ncdata : Bytes)
    (keeps : ∀ t, Inv accepted t → t.ipmiMsgq = s.ipmiMsgq → Owed t → Owed (dequeue t).state) :
    Owed (processIpmiWith dequeue ncdata s).state := by
  unfold processIpmiWith
  obtain hempty | ⟨e, htable⟩ := h.books.single
  · have hlookup : lookupTag (s.inprogressQ.headD "") s.inprogress = none := by
      simp [lookupTag, hempty]
    rw [hlookup]
    show s.fsp = s.inprogress.map InProgress.toItem
    rw [fsp, hempty]
    rfl
  · obtain ⟨timer, hafter⟩ := Option.isSome_iff_exists.mp (h.timers e (by simp [htable]))
    simp only [h.lookup htable, hafter]
    have hfree := h.freeSlot htable fsp timer
    have htable' : (s.freeSlot e timer).inprogress = [] := by
      show unsetTag e.tag s.inprogress = []
      simp [unsetTag, htable]
    have howed : Owed (s.freeSlot e timer) := by
      show s.fsp = (s.freeSlot e timer).inprogress.map InProgress.toItem
      rw [fsp, htable']
      rfl
    exact Outcome.andThen_state (P := Owed) (keeps _ hfree rfl howed) fun hnext =>
      runCallback_owed hnext _ ncdata

/-- Dequeueing hands over what it puts into the slot. -/
theorem ipmiDequeueFrom_owed {accepted : List (Item κ)} (msgq : List (Item κ)) :
    ∀ s : State κ, Inv accepted s → s.ipmiMsgq = msgq → Owed s →
      Owed (ipmiDequeueFrom msgq s).state := by
  induction msgq with
  | nil => exact fun s _ _ howed => howed
  | cons item rest ih =>
      intro s h hmsgq howed
      unfold ipmiDequeueFrom
      split_ifs with hnetwork htags hstatus hlookup hfake
      · exact howed
      · exact howed
      · exact howed
      · exact howed
      all_goals
        simp only [ne_eq, not_not] at htags hstatus
        obtain ⟨hbegin, htable, hrest, hfsp⟩ :=
          h.beginMessage hmsgq htags (h.connected hstatus)
      · exact processIpmiWith_owed hbegin hfsp fakeDeviceId fun t ht hsame howed =>
          ih t ht (hsame.trans hrest) howed
      · show (s.beginMessage item rest).fsp ++ [item] =
          (s.beginMessage item rest).inprogress.map InProgress.toItem
        rw [hfsp, htable]
        rfl

theorem ipmiDequeue_owed {accepted : List (Item κ)} {s : State κ} (h : Inv accepted s)
    (howed : Owed s) : Owed (ipmiDequeue s).state :=
  ipmiDequeueFrom_owed s.ipmiMsgq s h rfl howed

theorem ipmiQueue_owed {accepted : List (Item κ)} {s : State κ} (h : Inv accepted s)
    (howed : Owed s) {r : Request κ} (timeout : 0 < r.timeout.getD s.timeout)
    (position : Position) : Owed (ipmiQueue r position s).state := by
  have hqueued : Inv (r.item "0" s.timeout :: accepted)
      (s.enqueueMessage position (r.item "0" s.timeout)) :=
    h.enqueueMessage ⟨rfl, timeout⟩ position
  unfold ipmiQueue
  split
  · exact ipmiDequeue_owed hqueued howed
  · exact howed

/-- A close forgets the message in the slot together with its answer. -/
theorem netcClose_owed {accepted : List (Item κ)} {s : State κ} (h : Inv accepted s)
    (howed : Owed s) : Owed (netcClose s).state := by
  by_cases sock : s.netcSock = 0
  · obtain ⟨effects, hmark⟩ := markClosed_eq s
    rw [netcClose, if_pos sock, Outcome.ok_state, hmark]
    exact howed
  · obtain ⟨t, hclose, hqueue, -, hfsp, -⟩ := netcClose_of_open h sock
    rw [hclose, Outcome.ok_state, Owed, hfsp, hqueue]
    rfl

theorem netcOpen_owed {accepted : List (Item κ)} {s : State κ} (h : Inv accepted s)
    (howed : Owed s) {result : OpenResult} (valid : result.Valid) :
    Owed (netcOpen result s).state := by
  unfold netcOpen
  split_ifs with hopen
  · exact howed
  · simp only [not_or, not_not] at hopen
    cases result with
    | socketFailed => exact howed
    | handshakeFailed sock => exact netcClose_owed (h.opened valid) howed
    | established sock => exact howed

theorem netcTimeout_owed {accepted : List (Item κ)} {s : State κ} (h : Inv accepted s)
    (howed : Owed s) {result : OpenResult} (valid : result.Valid) :
    Owed (netcTimeout result s).state := by
  have hboth : Inv accepted (netcTimeout result s).state ∧ Owed (netcTimeout result s).state :=
    Outcome.andThen_state (P := fun t => Inv accepted t ∧ Owed t)
      ⟨netcClose_inv h, netcClose_owed h howed⟩ fun hclosed =>
        ⟨netcOpen_inv hclosed.1 valid, netcOpen_owed hclosed.1 hclosed.2 valid⟩
  exact hboth.2

theorem netcSurveillance_owed {s : State κ} (howed : Owed s) : Owed (netcSurveillance s) := by
  have hpolling : ∀ t : State κ,
      Owed t → Owed (sendSetHMCPollingFrequency 1 t).startSurveillance := by
    intro t ht
    unfold State.startSurveillance sendSetHMCPollingFrequency
    split_ifs <;> exact ht
  unfold netcSurveillance
  simp only
  split
  · exact howed
  · split
    · exact hpolling _ howed
    · exact hpolling _ howed
    · exact howed

theorem ipmiHealth_owed {accepted : List (Item κ)} {s : State κ} (h : Inv accepted s)
    (howed : Owed s) {result : OpenResult} (valid : result.Valid) :
    Owed (ipmiHealth result s).state := by
  have hrestart : Inv accepted { (s.afterCancel s.ipmiHealthAfter).after .ipmiHealth with
      ipmiHealthAfter := s.nextAfter } :=
    ((h.afterCancel s.ipmiHealthAfter).after .ipmiHealth).congr rfl rfl rfl id rfl rfl
  unfold ipmiHealth
  simp only
  split
  · exact howed
  · split
    · exact netcOpen_owed hrestart howed valid
    · exact netcOpen_owed hrestart howed valid
    · exact howed
    · exact ipmiDequeue_owed hrestart howed
    · exact netcClose_owed hrestart howed
    · exact netcClose_owed hrestart howed

/-- The invariant of the runs whose requests have timeouts. -/
structure Kept (accepted : List (Item κ)) (s : State κ) : Prop where
  inv : Inv accepted s
  owed : Owed s

theorem lookAtQueue_kept {accepted : List (Item κ)} {s : State κ} (h : Kept accepted s) :
    Kept accepted (lookAtQueue s).1 := by
  have hdequeued : Kept accepted (ipmiDequeue s).state :=
    ⟨ipmiDequeue_inv h.inv, ipmiDequeue_owed h.inv h.owed⟩
  unfold lookAtQueue suspend
  split
  · exact hdequeued
  · exact hdequeued

theorem suspend_state (s : State κ) (command : Outcome (State κ)) (tail : Bool) :
    (suspend s command tail).1 = command.state := by
  unfold suspend
  split
  · rfl
  · rfl

theorem runHandler_kept {accepted : List (Item κ)} {s : State κ} {command : Outcome (State κ)}
    (h : Kept accepted command.state) (tail : Bool) :
    Kept accepted (runHandler s command tail).1 := by
  have hstate := suspend_state s command tail
  unfold runHandler
  split
  · rename_i t frame hsuspend
    rw [hsuspend] at hstate
    rw [show t = command.state from hstate]
    exact h
  · rename_i t hsuspend
    rw [hsuspend] at hstate
    rw [show t = command.state from hstate]
    split
    · exact lookAtQueue_kept h
    · exact h

/-- The commands of a dispatch. An IPMI response comes when the FSP owes nothing
more. -/
theorem netcDispatchHead_kept {accepted : List (Item κ)} {s : State κ} (h : Inv accepted s)
    {p : NetcPacket} (fsp : p.funcop = .ipmi → s.fsp = [])
    (owed : p.funcop ≠ .ipmi → Owed s) (sock : p.success → s.netcSock ≠ 0) :
    Kept accepted (netcDispatchHead p s).1.state := by
  have hcancel := h.afterCancel s.netcOpenAfter
  unfold netcDispatchHead
  cases hfuncop : p.funcop with
  | version =>
      have howed : Owed s := owed (by rw [hfuncop]; nofun)
      simp only
      split
      · refine ⟨versionReceived_inv h p.ncdata, ?_⟩
        unfold versionReceived
        split
        · exact howed
        · rw [Outcome.ok_state]
          split
          · exact howed
          · exact howed
      · exact ⟨netcClose_inv h, netcClose_owed h howed⟩
  | password =>
      have howed : Owed s := owed (by rw [hfuncop]; nofun)
      simp only
      split
      · rename_i hsuccess
        refine ⟨passwordAccepted_inv hcancel (sock hsuccess) p.ncdata, ?_⟩
        unfold passwordAccepted
        split
        · exact howed
        · have hconnected : Inv accepted
              { s.afterCancel s.netcOpenAfter with netcStatus := .connected } :=
            { hcancel with connected := fun _ => sock hsuccess }
          exact ipmiDequeue_owed (netcSurveillance_inv hconnected)
            (netcSurveillance_owed howed)
      · exact ⟨netcClose_inv (hcancel.afterCancel _),
          netcClose_owed (hcancel.afterCancel _) howed⟩
  | ipmi =>
      exact ⟨processIpmi_inv h (fsp hfuncop) p.ncdata,
        processIpmiWith_owed h (fsp hfuncop) p.ncdata fun _ ht _ howed =>
          ipmiDequeue_owed ht howed⟩
  | nodeConfig =>
      have howed : Owed s := owed (by rw [hfuncop]; nofun)
      refine ⟨nodeConfigReceived_inv h p.ncdata, ?_⟩
      simp only
      unfold nodeConfigReceived
      split
      · exact howed
      · exact howed
  | pollingFrequency => exact ⟨h, owed (by rw [hfuncop]; nofun)⟩
  | unknown => exact ⟨h.emit rfl, owed (by rw [hfuncop]; nofun)⟩

theorem netcProcess_kept {accepted : List (Item κ)} {s : State κ} (h : Inv accepted s)
    {p : NetcPacket} (fsp : p.funcop = .ipmi → s.fsp = [])
    (owed : p.funcop ≠ .ipmi → Owed s) (sock : s.netcSock ≠ 0) {result : OpenResult}
    (valid : result.Valid) : Kept accepted (netcProcess p result s).1 := by
  unfold netcProcess
  by_cases hconnected : p.clientConnected = true
  · obtain ⟨t, hclose, hqueue, -, htfsp, -⟩ := netcClose_of_open h sock
    have hclosed := netcClose_inv h
    rw [hclose, Outcome.ok_state] at hclosed
    have hclosedOwed : Owed t := by
      rw [Owed, htfsp, hqueue]
      rfl
    have hopened : Kept accepted (netcOpen result t).state :=
      ⟨netcOpen_inv hclosed valid, netcOpen_owed hclosed hclosedOwed valid⟩
    simp only [hconnected, if_true, hclose, Outcome.ok_andThen]
    split
    · exact hopened
    · refine runHandler_kept ?_ _
      exact netcDispatchHead_kept hopened.inv (fun _ => netcOpen_fsp hclosed htfsp valid)
        (fun _ => hopened.owed) fun hsuccess =>
          absurd hsuccess (NetcPacket.not_success hconnected)
  · simp only [hconnected, Bool.false_eq_true, if_false, Outcome.ok_error, Outcome.ok_state]
    exact runHandler_kept (netcDispatchHead_kept h fsp owed fun _ => sock) _

/-- Every handler keeps the invariant up to its first callback. -/
theorem handle_kept (w : World κ) (event : Event κ) (h : Kept w.accepted w.session)
    (admits : admissible w event) (timeout : HasTimeout w event) :
    Kept (handle w event).1.accepted (handle w event).1.session := by
  have hflat : ∀ event : Event κ, w.admissible event →
      Owed (w.step event).session → Kept (w.step event).accepted (w.step event).session :=
    fun event hadmits howed => ⟨step_inv w event h.inv hadmits, howed⟩
  cases event with
  | netcProcess p result =>
      obtain ⟨hsock, -, hvalid⟩ := admits
      obtain ⟨hdelivered, hfsp⟩ := delivered_inv h.inv p
      refine netcProcess_kept hdelivered hfsp ?_ hsock hvalid
      intro hother
      rw [State.delivered, if_neg hother]
      exact h.owed
  | ipmiQueue r =>
      have hpositive : 0 < r.timeout.getD w.session.timeout := lt_of_le_of_ne admits timeout.symm
      simp only [handle, suspend_state]
      exact hflat (.ipmiQueue r) hpositive (ipmiQueue_owed h.inv h.owed hpositive .back)
  | ipmiDequeue =>
      simp only [handle, suspend_state]
      exact hflat .ipmiDequeue trivial (ipmiDequeue_owed h.inv h.owed)
  | netcTimeout result =>
      simp only [handle, suspend_state]
      exact hflat (.netcTimeout result) admits (netcTimeout_owed h.inv h.owed admits)
  | netcClose =>
      simp only [handle, suspend_state]
      exact hflat .netcClose trivial (netcClose_owed h.inv h.owed)
  | netcOpen result =>
      simp only [handle, suspend_state]
      exact hflat (.netcOpen result) admits (netcOpen_owed h.inv h.owed admits)
  | ipmiHealth result =>
      simp only [handle, suspend_state]
      exact hflat (.ipmiHealth result) admits (ipmiHealth_owed h.inv h.owed admits)
  | netcSurveillance =>
      simp only [handle, suspend_state]
      exact hflat .netcSurveillance trivial (netcSurveillance_owed h.owed)
  | network on =>
      simp only [handle, suspend_state]
      exact hflat (.network on) trivial h.owed
  | configure milliseconds =>
      simp only [handle, suspend_state]
      exact hflat (.configure milliseconds) trivial h.owed

/-- So does the rest of a handler. -/
theorem resume_kept (f : Frame κ) (w : World κ) (h : Kept w.accepted w.session) :
    Kept (resume f w).1.accepted (resume f w).1.session := by
  unfold resume
  split
  · exact h
  · split
    · exact lookAtQueue_kept h
    · exact h

/-! ## What blocks a waiting request -/

theorem runCallback_queue (item : Item κ) (ncdata : Bytes) (s : State κ) :
    (runCallback item ncdata s).state.toMessageQueue = s.toMessageQueue := by
  unfold runCallback
  split
  · rfl
  · split
    · rfl
    · rfl

theorem processIpmiWith_suffix {dequeue : State κ → Outcome (State κ)} {queue : List (Item κ)}
    (keeps : ∀ t : State κ, t.ipmiMsgq <:+ queue → (dequeue t).state.ipmiMsgq <:+ queue)
    (ncdata : Bytes) {s : State κ} (h : s.ipmiMsgq <:+ queue) :
    (processIpmiWith dequeue ncdata s).state.ipmiMsgq <:+ queue := by
  unfold processIpmiWith
  split
  · exact h
  · split
    · exact h
    · refine Outcome.andThen_state (P := fun t : State κ => t.ipmiMsgq <:+ queue) (keeps _ h)
        fun hnext => ?_
      rw [runCallback_queue]
      exact hnext

/-- A dequeue takes the first messages, if any, and puts nothing on the queue. -/
theorem ipmiDequeueFrom_suffix (msgq : List (Item κ)) :
    ∀ s : State κ, s.ipmiMsgq <:+ msgq → (ipmiDequeueFrom msgq s).state.ipmiMsgq <:+ msgq := by
  induction msgq with
  | nil => exact fun s h => h
  | cons item rest ih =>
      intro s h
      have hbegin : (s.beginMessage item rest).ipmiMsgq <:+ rest := List.suffix_refl rest
      have hrest : rest <:+ item :: rest := List.suffix_cons item rest
      unfold ipmiDequeueFrom
      split_ifs with hnetwork htags hstatus hlookup hfake
      · exact h
      · exact h
      · exact h
      · exact h
      · exact (processIpmiWith_suffix ih fakeDeviceId hbegin).trans hrest
      · exact hbegin.trans hrest

/-- A connected session with an empty slot sends a waiting request. -/
theorem ipmiDequeue_moves {accepted : List (Item κ)} {s : State κ} (h : Inv accepted s)
    (up : s.netcStatus = .connected) (network : s.network = true) (waiting : s.ipmiMsgq ≠ [])
    (empty : s.inprogress = []) :
    (ipmiDequeue s).state.ipmiMsgq.length < s.ipmiMsgq.length := by
  have htags : s.inprogressQ = [] := by simp [h.tags, empty]
  unfold ipmiDequeue
  cases hmsgq : s.ipmiMsgq with
  | nil => exact absurd hmsgq waiting
  | cons item rest =>
      have hbegin : (s.beginMessage item rest).ipmiMsgq <:+ rest := List.suffix_refl rest
      have hlt : rest.length < (item :: rest).length := Nat.lt_succ_self _
      have hlookup : ¬(lookupTag item.tag s.inprogress).isSome := by simp [lookupTag, empty]
      unfold ipmiDequeueFrom
      rw [if_neg (by simp [network]), if_neg (by simp [htags]), if_neg (by simp [up]),
        if_neg hlookup]
      split
      · exact (processIpmiWith_suffix (ipmiDequeueFrom_suffix rest) fakeDeviceId
          hbegin).length_le.trans_lt hlt
      · exact hbegin.length_le.trans_lt hlt

/-- Requests are served: the message in the slot has been handed to
the FSP and is not answered, and on an open connection nothing else keeps a
waiting request from being sent. -/
structure Served (s : State κ) : Prop where
  slot : ∀ e ∈ s.inprogress, e.toItem ∈ s.fsp
  blocked : s.netcStatus = .connected → s.network = true → s.ipmiMsgq ≠ [] →
    (ipmiDequeue s).state.ipmiMsgq.length < s.ipmiMsgq.length ∨
      ∃ e ∈ s.inprogress, e.toItem ∈ s.fsp

theorem Kept.served {accepted : List (Item κ)} {s : State κ} (h : Kept accepted s) :
    Served s := by
  have hslot : ∀ e ∈ s.inprogress, e.toItem ∈ s.fsp := by
    intro e he
    rw [h.owed]
    exact List.mem_map_of_mem he
  refine ⟨hslot, ?_⟩
  intro up network waiting
  cases htable : s.inprogress with
  | nil => exact Or.inl (ipmiDequeue_moves h.inv up network waiting htable)
  | cons e table =>
      have hmem : e ∈ s.inprogress := by simp [htable]
      exact Or.inr ⟨e, List.mem_cons_self, hslot e hmem⟩

/-- In every state of a run whose requests have timeouts, whatever callbacks have
not returned, a waiting request is held up only by one that the FSP has. -/
theorem netc_served {s : State κ} (fresh : s.Fresh) {happenings : List (Happening (Event κ))}
    (admits : (reentrant κ).machine.Admits ⟨⟨s, []⟩, []⟩ happenings)
    (each : (reentrant κ).machine.EachStep (Reentrant.Meets HasTimeout) ⟨⟨s, []⟩, []⟩
      happenings) :
    (reentrant κ).machine.Always (fun w => Served w.state.session) ⟨⟨s, []⟩, []⟩ happenings := by
  have hstart : Kept [] s := by
    refine ⟨fresh_inv fresh, ?_⟩
    rw [Owed, fresh.fsp, fresh.queue]
    rfl
  have hkept := (reentrant κ).always_of_invariant (I := fun w => Kept w.accepted w.session)
    (fun w event h hadmits timeout => handle_kept w event h hadmits timeout) resume_kept
    hstart admits each
  exact hkept.mono fun _ h => h.served

end Callbacks

end Amester.Netc
