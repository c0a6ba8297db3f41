/-
# No reconnection after a refused password

The FSP locks an account after too many wrong passwords, so a session whose
password was refused must not try again by itself. Three things open a
connection: the timeout handler, which every started message and every open
leaves a timer for, the health check, which starts its own next timer, and a
message that was cut short. In the runs here a timer fires only while it is
pending, and the results follow every timer that may be: a timeout belongs to
the open or to a message in progress, there is at most one identifier for the
health check, and without a channel no timeout is pending.
-/

import Amester.Netc.Conservation

namespace Amester.Netc

open BinaryFormat PriorityQueue EventMachine

universe u

variable {κ : Type u}

/-! ## Events -/

/-- The effect is an attempt to get a session with the FSP. -/
def Effect.opens : Effect κ → Bool
  | .opened _ | .wroteVersion | .wrotePassword => true
  | _ => false

/-- The openings and authentication requests so far, in order. -/
def State.openings (s : State κ) : List (Effect κ) := s.effects.filter Effect.opens

namespace Reconnection

/-- What can happen to a session: requests and messages come, timers fire, the
network switch and the configuration change, and the user opens, closes or
restarts the health check. -/
inductive Event (κ : Type u)
  | ipmiQueue (r : Request κ)
  | ipmiDequeue
  | netcProcess (p : NetcPacket) (result : OpenResult)
  /-- A message was cut short. -/
  | readMsgFailed (result : OpenResult)
  /-- A pending timer fires. -/
  | fire (id : ℕ) (result : OpenResult)
  | network (on : Bool)
  | configure (timeout surveillancePeriod : ℤ) (tool : String)
  | netcClose
  | netcOpen (result : OpenResult)
  | configureHealth (period : ℤ) (result : OpenResult)

/-- The explicit user actions that open a connection: the open itself, and a
change of the health period, which runs the health check. -/
def Event.isUserOpen : Event κ → Bool
  | .netcOpen _ | .configureHealth _ _ => true
  | _ => false

/-- Run the script of a timer. -/
def runTimer (result : OpenResult) (s : State κ) : Timer → State κ
  | .netcTimeout => (netcTimeout result s).state
  | .ipmiHealth => (ipmiHealth result s).state
  | .netcSurveillance => netcSurveillance s

/-- Take a timer off the pending ones and run its script. -/
def fire (id : ℕ) (result : OpenResult) (s : State κ) : State κ :=
  match s.afters.find? fun t => t.1 = id with
  | none => s
  | some t => runTimer result (s.afterCancel id) t.2

/-- What `readMsg` does about a message that is cut short: it closes and opens. -/
def readMsgFailed (result : OpenResult) (s : State κ) : Outcome (State κ) :=
  (netcClose s).andThen (netcOpen result)

def step (s : State κ) : Event κ → State κ
  | .ipmiQueue r => (ipmiQueue r .back s).state
  | .ipmiDequeue => (ipmiDequeue s).state
  | .netcProcess p result => (netcProcess p result s).state
  | .readMsgFailed result => (readMsgFailed result s).state
  | .fire id result => fire id result s
  | .network on => { s with network := on }
  | .configure timeout surveillancePeriod tool =>
    { s with
      timeout := timeout
      netcSurveillancePeriod := surveillancePeriod
      tool := tool }
  | .netcClose => (netcClose s).state
  | .netcOpen result => (netcOpen result s).state
  | .configureHealth period result =>
    (ipmiHealth result { s with ipmiHealthPeriod := period }).state

/-- Channels have names, messages come on an open channel, and a timer fires
while it is pending. -/
def admissible (s : State κ) : Event κ → Prop
  | .netcProcess _ result | .readMsgFailed result => s.netcSock ≠ 0 ∧ result.Valid
  | .fire id result => (∃ t ∈ s.afters, t.1 = id) ∧ result.Valid
  | .netcOpen result | .configureHealth _ result => result.Valid
  | .ipmiQueue _ | .ipmiDequeue | .network _ | .configure _ _ _ | .netcClose => True

instance (s : State κ) : DecidablePred (admissible s)
  | .netcProcess _ result => inferInstanceAs (Decidable (s.netcSock ≠ 0 ∧ result.Valid))
  | .readMsgFailed result => inferInstanceAs (Decidable (s.netcSock ≠ 0 ∧ result.Valid))
  | .fire id result =>
    inferInstanceAs (Decidable ((∃ t ∈ s.afters, t.1 = id) ∧ result.Valid))
  | .netcOpen result | .configureHealth _ result => inferInstanceAs (Decidable result.Valid)
  | .ipmiQueue _ | .ipmiDequeue | .network _ | .configure _ _ _ | .netcClose => isTrue trivial

def machine (κ : Type u) : Machine (State κ) (Event κ) := ⟨admissible, step⟩

instance (s : State κ) : DecidablePred ((machine κ).admissible s) :=
  inferInstanceAs (DecidablePred (admissible s))

/-- A session as its constructor leaves it, before the first health check. -/
structure Created (s : State κ) : Prop where
  inprogress : s.inprogress = []
  netcSock : s.netcSock = 0
  netcStatus : s.netcStatus ≠ .connected
  afters : s.afters = []

end Reconnection

/-! ## What every handler keeps -/

/-- The pieces that the handlers are put together from keep a property of the session. The
slot is freed by the message that is found in it, and a message enters it when it is free. -/
structure Preserved (P : State κ → Prop) : Prop where
  emit : ∀ {s : State κ} (e : Effect κ), P s → P (s.emit e)
  netcSend : ∀ {s : State κ} (item : Item κ), P s → P (s.netcSend item)
  enqueueMessage : ∀ {s : State κ} (position : Position) (item : Item κ), P s →
    P (s.enqueueMessage position item)
  beginMessage : ∀ {s : State κ} {item : Item κ} (rest : List (Item κ)), P s →
    s.inprogressQ = [] → s.netcStatus = .connected → lookupTag item.tag s.inprogress = none →
    P (s.beginMessage item rest)
  freeSlot : ∀ {s : State κ} {e : InProgress κ} {timer : ℕ}, P s → ∀ tag : String,
    lookupTag tag s.inprogress = some e → e.after = some timer → P (s.freeSlot e timer)
  afterCancel : ∀ {s : State κ} (id : ℕ), P s → P (s.afterCancel id)
  startSurveillance : ∀ {s : State κ}, P s → P s.startSurveillance
  restartHealth : ∀ {s : State κ}, P s →
    P { (s.afterCancel s.ipmiHealthAfter).after .ipmiHealth with ipmiHealthAfter := s.nextAfter }
  accepted : ∀ {s : State κ}, P s → s.netcSock ≠ 0 → P { s with netcStatus := .connected }
  netcClose : ∀ {s : State κ}, P s → P (netcClose s).state
  netcOpen : ∀ {s : State κ} {result : OpenResult}, P s → result.Valid →
    P (netcOpen result s).state
  network : ∀ {s : State κ} (on : Bool), P s → P { s with network := on }
  configure : ∀ {s : State κ} (timeout surveillancePeriod : ℤ) (tool : String), P s →
    P { s with timeout := timeout, netcSurveillancePeriod := surveillancePeriod, tool := tool }
  configureHealth : ∀ {s : State κ} (period : ℤ), P s → P { s with ipmiHealthPeriod := period }

namespace Preserved

variable {P : State κ → Prop} (h : Preserved P)

include h

theorem runCallback {s : State κ} (kept : P s) (item : Item κ) (ncdata : Bytes) :
    P (runCallback item ncdata s).state := by
  unfold Netc.runCallback
  split
  · exact kept
  · split
    · exact kept
    · exact h.emit _ kept

theorem processIpmiWith {dequeue : State κ → Outcome (State κ)} {s : State κ} (kept : P s)
    (ncdata : Bytes) (keeps : ∀ t, P t → P (dequeue t).state) :
    P (processIpmiWith dequeue ncdata s).state := by
  unfold Netc.processIpmiWith
  split
  · exact kept
  · rename_i e hlookup
    split
    · exact kept
    · rename_i timer hafter
      exact Outcome.andThen_state (keeps _ (h.freeSlot kept _ hlookup hafter)) fun hnext =>
        h.runCallback hnext _ ncdata

/-- Dequeueing, by induction on the messages that are still waiting. -/
theorem ipmiDequeueFrom (msgq : List (Item κ)) :
    ∀ s : State κ, P s → P (ipmiDequeueFrom msgq s).state := by
  induction msgq with
  | nil => exact fun s kept => kept
  | cons item rest ih =>
      intro s kept
      unfold Netc.ipmiDequeueFrom
      split_ifs with hnetwork htags hstatus hlookup hfake
      · exact kept
      · exact kept
      · exact kept
      · exact kept
      all_goals
        simp only [ne_eq, not_not] at htags hstatus
        simp only [Option.not_isSome_iff_eq_none] at hlookup
        have hbegin := h.beginMessage rest kept htags hstatus hlookup
      · exact h.processIpmiWith hbegin fakeDeviceId ih
      · exact h.netcSend item hbegin

theorem ipmiDequeue {s : State κ} (kept : P s) : P (ipmiDequeue s).state :=
  h.ipmiDequeueFrom s.ipmiMsgq s kept

theorem ipmiQueue {s : State κ} (kept : P s) (r : Request κ) (position : Position) :
    P (ipmiQueue r position s).state := by
  have hqueued := h.enqueueMessage position (r.item "0" s.timeout) kept
  unfold Netc.ipmiQueue
  split
  · exact h.ipmiDequeue hqueued
  · exact hqueued

/-- Closing and opening again, as the timeout handler does. -/
theorem netcTimeout {s : State κ} (kept : P s) {result : OpenResult} (valid : result.Valid) :
    P (netcTimeout result s).state :=
  Outcome.andThen_state (h.netcClose kept) fun hclosed => h.netcOpen hclosed valid

theorem netcSurveillance {s : State κ} (kept : P s) : P (netcSurveillance s) := by
  have hcancel := h.afterCancel s.netcSurveillanceAfter kept
  rcases netcSurveillance_cases s with hstop | hstart
  · rw [hstop]
    exact hcancel
  · rw [hstart]
    apply h.startSurveillance
    unfold sendSetHMCPollingFrequency
    split
    · exact hcancel
    · exact h.emit _ hcancel

theorem ipmiHealth {s : State κ} (kept : P s) {result : OpenResult} (valid : result.Valid) :
    P (ipmiHealth result s).state := by
  have hrestart := h.restartHealth kept
  unfold Netc.ipmiHealth
  simp only
  split
  · exact h.afterCancel _ kept
  · split
    · exact h.netcOpen hrestart valid
    · exact h.netcOpen hrestart valid
    · exact hrestart
    · exact h.ipmiDequeue hrestart
    · exact h.netcClose hrestart
    · exact h.netcClose hrestart

/-- The password is accepted on a session with a channel. -/
theorem netcDispatch {s : State κ} (kept : P s) {p : NetcPacket}
    (sock : p.success → s.netcSock ≠ 0) : P (netcDispatch p s).state := by
  have hcancel := h.afterCancel s.netcOpenAfter kept
  have hdequeue : ∀ t : State κ, P t → P (Netc.ipmiDequeue t).state :=
    fun t ht => h.ipmiDequeue ht
  unfold Netc.netcDispatch
  split
  · split
    · refine Outcome.andThen_state ?_ (hdequeue _)
      unfold versionReceived
      split
      · exact kept
      · rw [Outcome.ok_state]
        split
        · exact h.emit _ kept
        · exact kept
    · exact h.netcClose kept
  · simp only
    split
    · rename_i hsuccess
      refine Outcome.andThen_state ?_ (hdequeue _)
      unfold passwordAccepted
      split
      · exact hcancel
      · exact hdequeue _ (h.netcSurveillance (h.accepted hcancel (sock hsuccess)))
    · exact h.netcClose (h.afterCancel _ hcancel)
  · exact Outcome.andThen_state (h.processIpmiWith kept p.ncdata hdequeue) (hdequeue _)
  · refine Outcome.andThen_state ?_ (hdequeue _)
    unfold nodeConfigReceived
    split
    · exact kept
    · exact kept
  · exact hdequeue _ kept
  · exact hdequeue _ (h.emit _ kept)

theorem netcProcess {s : State κ} (kept : P s) (sock : s.netcSock ≠ 0) (p : NetcPacket)
    {result : OpenResult} (valid : result.Valid) : P (netcProcess p result s).state := by
  unfold Netc.netcProcess
  split
  · rename_i hconnected
    exact Outcome.andThen_state (h.netcTimeout kept valid) fun hopened =>
      h.netcDispatch hopened fun hsuccess =>
        absurd hsuccess (NetcPacket.not_success hconnected)
  · exact h.netcDispatch kept fun _ => sock

theorem runTimer {s : State κ} (kept : P s) {result : OpenResult} (valid : result.Valid)
    (timer : Timer) : P (Reconnection.runTimer result s timer) := by
  cases timer with
  | netcTimeout => exact h.netcTimeout kept valid
  | ipmiHealth => exact h.ipmiHealth kept valid
  | netcSurveillance => exact h.netcSurveillance kept

/-- Every admissible event keeps it. -/
theorem step (s : State κ) (event : Reconnection.Event κ) (kept : P s)
    (admits : Reconnection.admissible s event) : P (Reconnection.step s event) := by
  cases event with
  | ipmiQueue r => exact h.ipmiQueue kept r .back
  | ipmiDequeue => exact h.ipmiDequeue kept
  | netcProcess p result => exact h.netcProcess kept admits.1 p admits.2
  | readMsgFailed result => exact h.netcTimeout kept admits.2
  | fire id result =>
      show P (Reconnection.fire id result s)
      unfold Reconnection.fire
      split
      · exact kept
      · exact h.runTimer (h.afterCancel id kept) admits.2 _
  | network on => exact h.network on kept
  | configure timeout surveillancePeriod tool =>
      exact h.configure timeout surveillancePeriod tool kept
  | netcClose => exact h.netcClose kept
  | netcOpen result => exact h.netcOpen kept admits
  | configureHealth period result => exact h.ipmiHealth (h.configureHealth period kept) admits

end Preserved

/-! ## Which timers are pending -/

/-- Every pending timeout belongs to the open or to a message in progress, and
there is a channel; only the last health check is pending; messages in progress
have different tags; and a connected session has a channel. -/
structure TimersKept (s : State κ) : Prop where
  timeouts : ∀ id, (id, Timer.netcTimeout) ∈ s.afters →
    id = s.netcOpenAfter ∨ ∃ e ∈ s.inprogress, e.after = some id
  channel : ∀ id, (id, Timer.netcTimeout) ∈ s.afters → s.netcSock ≠ 0
  health : ∀ id, (id, Timer.ipmiHealth) ∈ s.afters → id = s.ipmiHealthAfter
  tags : (s.inprogress.map fun e => e.tag).Nodup
  connected : s.netcStatus = .connected → s.netcSock ≠ 0

namespace TimersKept

/-- What a change to other fields, and the loss of pending timers, leave alone. -/
theorem congr {s t : State κ} (h : TimersKept s) (afters : t.afters ⊆ s.afters)
    (inprogress : t.inprogress = s.inprogress) (sock : t.netcSock = s.netcSock)
    (openAfter : t.netcOpenAfter = s.netcOpenAfter)
    (healthAfter : t.ipmiHealthAfter = s.ipmiHealthAfter)
    (status : t.netcStatus = .connected → s.netcStatus = .connected) : TimersKept t where
  timeouts id hid := by
    rw [inprogress, openAfter]
    exact h.timeouts id (afters hid)
  channel id hid := by
    rw [sock]
    exact h.channel id (afters hid)
  health id hid := by
    rw [healthAfter]
    exact h.health id (afters hid)
  tags := by
    rw [inprogress]
    exact h.tags
  connected hconnected := by
    rw [sock]
    exact h.connected (status hconnected)

theorem emit {s : State κ} (h : TimersKept s) (e : Effect κ) : TimersKept (s.emit e) :=
  h.congr (List.Subset.refl _) rfl rfl rfl rfl id

theorem afterCancel {s : State κ} (h : TimersKept s) (id : ℕ) :
    TimersKept (s.afterCancel id) :=
  h.congr List.filter_sublist.subset rfl rfl rfl rfl fun c => c

/-- The messages whose timers are pending survive when the others are removed. -/
theorem freeSlot {s : State κ} (h : TimersKept s) {e : InProgress κ} (mem : e ∈ s.inprogress)
    {timer : ℕ} (after : e.after = some timer) : TimersKept (s.freeSlot e timer) where
  timeouts id hid := by
    obtain ⟨hmem, hne⟩ := List.mem_filter.mp hid
    obtain hopen | ⟨e', he', hafter'⟩ := h.timeouts id hmem
    · exact Or.inl hopen
    · refine Or.inr ⟨e', List.mem_filter.mpr ⟨he', ?_⟩, hafter'⟩
      simp only [decide_eq_true_eq]
      intro htag
      -- the same tag would make it the message whose timer was cancelled
      have hsame : e' = e := List.inj_on_of_nodup_map h.tags he' mem htag
      rw [hsame, after, Option.some.injEq] at hafter'
      simp [hafter'] at hne
  channel id hid := h.channel id (List.mem_filter.mp hid).1
  health id hid := h.health id (List.mem_filter.mp hid).1
  tags := h.tags.sublist (List.filter_sublist.map _)
  connected := h.connected

/-- A message enters the table with its own timer. -/
theorem beginMessage {s : State κ} (h : TimersKept s) {item : Item κ}
    (fresh : lookupTag item.tag s.inprogress = none) (connected : s.netcStatus = .connected)
    (rest : List (Item κ)) : TimersKept (s.beginMessage item rest) := by
  have hnew : ∀ e ∈ s.inprogress, e.tag ≠ item.tag := by
    intro e he htag
    have hnone := List.find?_eq_none.mp fresh e he
    simp [htag] at hnone
  have htags : ((s.inprogress ++ [item.entry s.nextAfter]).map fun e => e.tag).Nodup := by
    rw [List.map_append, List.map_singleton, ← List.concat_eq_append]
    refine h.tags.concat ?_
    intro hmem
    obtain ⟨e, he, htag⟩ := List.mem_map.mp hmem
    exact hnew e he htag
  have hafters : ∀ t ∈ (s.beginMessage item rest).afters, t ∈ s.afters ∨
      t = (s.nextAfter, .netcTimeout) ∧ (item.entry s.nextAfter).after = some s.nextAfter := by
    intro t ht
    unfold State.beginMessage at ht
    by_cases htimeout : item.timeout ≠ 0
    · simp only [if_pos htimeout] at ht
      obtain hold | hstarted := List.mem_append.mp ht
      · exact Or.inl hold
      · exact Or.inr ⟨List.mem_singleton.mp hstarted, if_pos htimeout⟩
    · simp only [if_neg htimeout] at ht
      exact Or.inl ht
  refine ⟨?_, fun _ _ => h.connected connected, ?_, htags, h.connected⟩
  · intro id hid
    obtain hold | ⟨hstarted, hafter⟩ := hafters _ hid
    · obtain hopen | ⟨e, he, hafter⟩ := h.timeouts id hold
      · exact Or.inl hopen
      · exact Or.inr ⟨e, List.mem_append_left _ he, hafter⟩
    · obtain rfl : id = s.nextAfter := congrArg Prod.fst hstarted
      exact Or.inr ⟨_, List.mem_append_right _ (List.mem_singleton.mpr rfl), hafter⟩
  · intro id hid
    obtain hold | ⟨hstarted, -⟩ := hafters _ hid
    · exact h.health id hold
    · exact absurd (congrArg Prod.snd hstarted) nofun

theorem enqueueMessage {s : State κ} (h : TimersKept s) (position : Position)
    (item : Item κ) : TimersKept (s.enqueueMessage position item) :=
  h.congr (List.Subset.refl _) rfl rfl rfl rfl id

end TimersKept

/-! ## Closing -/

@[simp]
theorem openings_emit_of_not_opens (s : State κ) {e : Effect κ} (quiet : e.opens = false) :
    (s.emit e).openings = s.openings := by
  simp [State.openings, State.emit, quiet]

/-- Reposting without a connection changes the queue and the table only, and
enters nothing into the table. -/
theorem repostAll_of_not_connected (table : List (InProgress κ)) :
    ∀ s : State κ, s.netcStatus ≠ .connected → ∃ queue : MessageQueue κ,
      repostAll table s = .ok { s with toMessageQueue := queue } ∧
        queue.inprogress.Sublist s.inprogress := by
  induction table with
  | nil => exact fun s _ => ⟨s.toMessageQueue, rfl, List.Sublist.refl _⟩
  | cons e table ih =>
      intro s hstatus
      have hqueue := ipmiQueue_of_not_connected (s := { s with toMessageQueue := s.remove e.tag })
        hstatus e.repost .front
      obtain ⟨queue, hrepost, hsub⟩ :=
        ih (({ s with toMessageQueue := s.remove e.tag } : State κ).enqueueMessage .front
          (e.repost.item "0" s.timeout)) hstatus
      refine ⟨queue, ?_, hsub.trans List.filter_sublist⟩
      rw [repostAll, hqueue, Outcome.ok_andThen]
      exact hrepost

/-- A session without a channel, with a status that allows no dequeue, and
with no pending timeout. -/
structure Closed (s : State κ) : Prop where
  netcSock : s.netcSock = 0
  netcStatus : s.netcStatus = .closed
  timeouts : ∀ id, (id, Timer.netcTimeout) ∉ s.afters

private theorem markClosed_openings (s : State κ) : s.markClosed.openings = s.openings := by
  unfold State.markClosed sendSetHMCPollingFrequency
  split_ifs
  · rfl
  · exact openings_emit_of_not_opens s rfl
  · rfl

private theorem markClosed_afters (s : State κ) : s.markClosed.afters = s.afters := by
  unfold State.markClosed sendSetHMCPollingFrequency
  split_ifs <;> rfl

/-- Marking a session closed changes its status and its log. -/
theorem markClosed_eq (s : State κ) :
    ∃ effects, s.markClosed = { s with netcStatus := .closed, effects := effects } := by
  unfold State.markClosed sendSetHMCPollingFrequency
  split_ifs
  · exact ⟨_, rfl⟩
  · exact ⟨_, rfl⟩
  · exact ⟨_, rfl⟩

/-- Closing leaves neither a channel nor a pending timeout, and opens nothing. -/
theorem netcClose_closed {s : State κ} (h : TimersKept s) :
    ∃ t, netcClose s = .ok t ∧ Closed t ∧ TimersKept t ∧ t.openings = s.openings ∧
      t.afters ⊆ s.afters := by
  obtain ⟨effects, hmark⟩ := markClosed_eq s
  have hclosed : Status.closed ≠ .connected := by decide
  by_cases sock : s.netcSock = 0
  · have hnone : ∀ id, (id, Timer.netcTimeout) ∉ s.afters := fun id hid =>
      h.channel id hid sock
    refine ⟨s.markClosed, by rw [netcClose, if_pos sock], ?_, ?_, markClosed_openings s, ?_⟩
    · rw [hmark]
      exact ⟨sock, rfl, hnone⟩
    · rw [hmark]
      exact h.congr (List.Subset.refl _) rfl rfl rfl rfl fun hconnected => absurd hconnected hclosed
    · rw [markClosed_afters]
      exact List.Subset.refl _
  · have hdrop := dropChannel_eq s.markClosed
    have hleft : ∀ t ∈ s.markClosed.dropChannel.afters, t ∈ s.afters ∧ t.1 ≠ s.netcOpenAfter ∧
        ∀ e ∈ s.inprogress, e.after ≠ some t.1 := by
      intro t ht
      obtain ⟨hkept, htable⟩ := mem_cancelAll.mp ht
      obtain ⟨hold, hne⟩ := List.mem_filter.mp hkept
      rw [hmark] at hold hne htable
      exact ⟨hold, by simpa using hne, htable⟩
    generalize s.markClosed.dropChannel.afters = afters at hdrop hleft
    have htimeouts : ∀ id, (id, Timer.netcTimeout) ∉ afters := by
      intro id hid
      obtain ⟨hold, hopen, htable⟩ := hleft _ hid
      obtain hsame | ⟨e, he, hafter⟩ := h.timeouts id hold
      · exact hopen hsame
      · exact htable e he hafter
    obtain ⟨queue, hrepost, hsub⟩ := repostAll_of_not_connected s.inprogress
      s.markClosed.dropChannel (by rw [hdrop, hmark]; exact hclosed)
    rw [hdrop, hmark] at hsub
    refine ⟨_, by rw [netcClose, if_neg sock, hrepost, Outcome.ok_andThen], ?_, ?_, ?_, ?_⟩
    · rw [hdrop, hmark]
      exact ⟨rfl, rfl, htimeouts⟩
    · rw [hdrop, hmark]
      refine ⟨fun id hid => absurd hid (htimeouts id),
        fun id hid => absurd hid (htimeouts id), ?_, h.tags.sublist (hsub.map _),
        fun hconnected => absurd hconnected hclosed⟩
      exact fun id hid => h.health id (hleft _ hid).1
    · rw [hdrop]
      exact (openings_emit_of_not_opens _ rfl).trans (markClosed_openings s)
    · rw [hdrop]
      exact fun t ht => (hleft t ht).1

theorem netcClose_timersKept {s : State κ} (h : TimersKept s) :
    TimersKept (netcClose s).state := by
  obtain ⟨t, hclose, -, hkept, -⟩ := netcClose_closed h
  rw [hclose]
  exact hkept

/-! ## Opening, timers and messages -/

/-- Without a channel no timeout is pending, so a new channel starts clean. -/
theorem TimersKept.opened {s : State κ} (h : TimersKept s) (noChannel : s.netcSock = 0)
    {sock : ℕ} (valid : sock ≠ 0) :
    TimersKept ({ s with netcSock := sock }.emit (.opened sock)) where
  timeouts id hid := absurd noChannel (h.channel id hid)
  channel _ _ := valid
  health := h.health
  tags := h.tags
  connected _ := valid

theorem netcOpen_timersKept {s : State κ} (h : TimersKept s) {result : OpenResult}
    (valid : result.Valid) : TimersKept (netcOpen result s).state := by
  unfold netcOpen
  split_ifs with hopen
  · exact h
  · simp only [not_or, not_not] at hopen
    cases result with
    | socketFailed => exact h
    | handshakeFailed sock => exact netcClose_timersKept (h.opened hopen.1 valid)
    | established sock =>
        refine ⟨?_, fun _ _ => valid, ?_, h.tags, nofun⟩
        · intro id hid
          obtain hold | hstarted := List.mem_append.mp hid
          · exact absurd hopen.1 (h.channel id hold)
          · simp only [List.mem_singleton, Prod.mk.injEq, and_true] at hstarted
            exact Or.inl hstarted
        · intro id hid
          obtain hold | hstarted := List.mem_append.mp hid
          · exact h.health id hold
          · simp at hstarted

private theorem netcOpen_error {s : State κ} (h : TimersKept s) {result : OpenResult}
    (valid : result.Valid) : (netcOpen result s).error = none := by
  unfold netcOpen
  split_ifs with hopen
  · rfl
  · simp only [not_or, not_not] at hopen
    cases result with
    | socketFailed => rfl
    | handshakeFailed sock =>
        obtain ⟨t, hclose, -⟩ := netcClose_closed (h.opened hopen.1 valid)
        simp only [hclose, Outcome.ok_error]
    | established sock => rfl

private theorem netcTimeout_error {s : State κ} (h : TimersKept s) {result : OpenResult}
    (valid : result.Valid) : (netcTimeout result s).error = none := by
  obtain ⟨t, hclose, -, hkept, -⟩ := netcClose_closed h
  rw [netcTimeout, hclose, Outcome.ok_andThen]
  exact netcOpen_error hkept valid

theorem startSurveillance_timersKept {s : State κ} (h : TimersKept s) :
    TimersKept s.startSurveillance := by
  unfold State.startSurveillance
  split
  · refine ⟨?_, ?_, ?_, h.tags, h.connected⟩
    all_goals
      intro id hid
      obtain hold | hstarted := List.mem_append.mp hid
    · exact h.timeouts id hold
    · simp at hstarted
    · exact h.channel id hold
    · simp at hstarted
    · exact h.health id hold
    · simp at hstarted
  · exact h

/-- The health check replaces its timer. -/
theorem TimersKept.restartHealth {s : State κ} (h : TimersKept s) :
    TimersKept { (s.afterCancel s.ipmiHealthAfter).after .ipmiHealth with
      ipmiHealthAfter := s.nextAfter } := by
  refine ⟨?_, ?_, ?_, h.tags, h.connected⟩
  all_goals
    intro id hid
    obtain hold | hstarted := List.mem_append.mp hid
  · exact h.timeouts id (List.mem_filter.mp hold).1
  · simp at hstarted
  · exact h.channel id (List.mem_filter.mp hold).1
  · simp at hstarted
  · obtain ⟨hmem, hne⟩ := List.mem_filter.mp hold
    have hsame := h.health id hmem
    simp [hsame] at hne
  · simp only [List.mem_singleton, Prod.mk.injEq, and_true] at hstarted
    exact hstarted

theorem timersKept_preserved : Preserved (TimersKept (κ := κ)) where
  emit e kept := kept.emit e
  netcSend item kept := (kept.emit (.wroteIpmi item)).congr (List.Subset.refl _) rfl rfl rfl rfl id
  enqueueMessage position item kept := kept.enqueueMessage position item
  beginMessage rest kept _ status fresh := kept.beginMessage fresh status rest
  freeSlot kept _ found after := kept.freeSlot (List.mem_of_find?_eq_some found) after
  afterCancel id kept := kept.afterCancel id
  startSurveillance := startSurveillance_timersKept
  restartHealth := TimersKept.restartHealth
  accepted kept sock := { kept with connected := fun _ => sock }
  netcClose := netcClose_timersKept
  netcOpen kept valid := netcOpen_timersKept kept valid
  network _ kept := kept.congr (List.Subset.refl _) rfl rfl rfl rfl id
  configure _ _ _ kept := kept.congr (List.Subset.refl _) rfl rfl rfl rfl id
  configureHealth _ kept := kept.congr (List.Subset.refl _) rfl rfl rfl rfl id

namespace Reconnection

theorem Created.timersKept {s : State κ} (created : Created s) : TimersKept s where
  timeouts := by simp [created.afters]
  channel := by simp [created.afters]
  health := by simp [created.afters]
  tags := by simp [created.inprogress]
  connected h := absurd h created.netcStatus

/-! ## After the refusal -/

/-- The message refuses the password. -/
def refusesPassword (p : NetcPacket) : Prop := p.funcop = .password ∧ p.success = false

/-- A closed session whose only pending timers are polls. -/
structure Quiet (s : State κ) : Prop extends Closed s where
  health : ∀ id, (id, Timer.ipmiHealth) ∉ s.afters

/-- The event that delivers the refusal leaves the session quiet, even when its
status makes it open another connection first. -/
theorem netcProcess_quiet {s : State κ} (h : TimersKept s) {p : NetcPacket}
    (refused : refusesPassword p) {result : OpenResult} (valid : result.Valid) :
    Quiet (netcProcess p result s).state := by
  have hdispatch : ∀ t : State κ, TimersKept t → Quiet (netcDispatch p t).state := by
    intro t ht
    have hcancel := (ht.afterCancel t.netcOpenAfter).afterCancel
      (t.afterCancel t.netcOpenAfter).ipmiHealthAfter
    obtain ⟨u, hclose, hclosed, -, -, hafters⟩ := netcClose_closed hcancel
    have hdispatch : netcDispatch p t = .ok u := by
      simp only [netcDispatch, refused.1, refused.2, Bool.false_eq_true, if_false, hclose]
    rw [hdispatch]
    refine ⟨hclosed, ?_⟩
    intro id hid
    obtain ⟨hmem, hne⟩ := List.mem_filter.mp (hafters hid)
    have hsame : id = t.ipmiHealthAfter := ht.health id (List.mem_filter.mp hmem).1
    simp [State.afterCancel, hsame] at hne
  unfold netcProcess
  split
  · show Quiet ((netcTimeout result s).andThen (netcDispatch p)).state
    rw [Outcome.andThen_of_ok (netcTimeout_error h valid)]
    exact hdispatch _ (timersKept_preserved.netcTimeout h valid)
  · exact hdispatch s h

/-- Losing timers keeps a session quiet. -/
theorem Quiet.of_afters {s t : State κ} (h : Quiet s) (sock : t.netcSock = s.netcSock)
    (status : t.netcStatus = s.netcStatus) (afters : t.afters ⊆ s.afters) : Quiet t where
  netcSock := sock.trans h.netcSock
  netcStatus := status.trans h.netcStatus
  timeouts id hid := h.timeouts id (afters hid)
  health id hid := h.health id (afters hid)

theorem Quiet.not_connected {s : State κ} (h : Quiet s) : s.netcStatus ≠ .connected := by
  rw [h.netcStatus]
  exact nofun

/-- The poll of a closed session only cancels its timer. -/
theorem Quiet.netcSurveillance_eq {s : State κ} (h : Quiet s) :
    netcSurveillance s = s.afterCancel s.netcSurveillanceAfter := by
  have hstatus : (s.afterCancel s.netcSurveillanceAfter).netcStatus = .closed := h.netcStatus
  unfold netcSurveillance
  simp only [hstatus, ite_self]

/-- The timer that fires is a poll, and the poll of a closed session does
nothing. -/
theorem Quiet.fire {s : State κ} (h : Quiet s) (id : ℕ) (result : OpenResult) :
    Quiet (fire id result s) ∧ (Reconnection.fire id result s).openings = s.openings := by
  have hcancelled : Quiet (s.afterCancel id) :=
    h.of_afters rfl rfl List.filter_sublist.subset
  unfold Reconnection.fire
  split
  · exact ⟨h, rfl⟩
  · rename_i t hfound
    have hmem : t ∈ s.afters := List.mem_of_find?_eq_some hfound
    obtain ⟨id', timer⟩ := t
    cases timer with
    | netcTimeout => exact absurd hmem (h.timeouts id')
    | ipmiHealth => exact absurd hmem (h.health id')
    | netcSurveillance =>
        rw [runTimer, hcancelled.netcSurveillance_eq]
        exact ⟨hcancelled.of_afters rfl rfl List.filter_sublist.subset, rfl⟩

/-- One event after the refusal: the session stays quiet and opens nothing. -/
theorem Quiet.step {s : State κ} (h : Quiet s) {event : Event κ} (admits : admissible s event)
    (notUser : event.isUserOpen = false) :
    Quiet (step s event) ∧ (Reconnection.step s event).openings = s.openings := by
  cases event with
  | ipmiQueue r =>
      have hqueue := ipmiQueue_of_not_connected h.not_connected r .back
      rw [Reconnection.step, hqueue]
      exact ⟨h.of_afters rfl rfl (List.Subset.refl _), rfl⟩
  | ipmiDequeue =>
      rw [Reconnection.step, ipmiDequeue_of_not_connected h.not_connected]
      exact ⟨h, rfl⟩
  | netcProcess p result => exact absurd h.netcSock admits.1
  | readMsgFailed result => exact absurd h.netcSock admits.1
  | fire id result => exact h.fire id result
  | network on => exact ⟨h.of_afters rfl rfl (List.Subset.refl _), rfl⟩
  | configure timeout surveillancePeriod tool =>
      exact ⟨h.of_afters rfl rfl (List.Subset.refl _), rfl⟩
  | netcClose =>
      obtain ⟨effects, hmark⟩ := markClosed_eq s
      have hclose : netcClose s = .ok s.markClosed := by rw [netcClose, if_pos h.netcSock]
      rw [Reconnection.step, hclose]
      refine ⟨?_, markClosed_openings s⟩
      rw [Outcome.ok_state, hmark]
      exact ⟨⟨h.netcSock, rfl, h.timeouts⟩, h.health⟩
  | netcOpen result => cases notUser
  | configureHealth period result => cases notUser

/-- All the events after the refusal. -/
theorem Quiet.run {s : State κ} (h : Quiet s) {events : List (Event κ)}
    (admits : (machine κ).Admits s events) (notUser : ∀ e ∈ events, e.isUserOpen = false) :
    Quiet ((machine κ).run s events) ∧ ((machine κ).run s events).openings = s.openings := by
  induction events generalizing s with
  | nil => exact ⟨h, rfl⟩
  | cons event events ih =>
      obtain ⟨hquiet, hopenings⟩ := h.step admits.1 (notUser event List.mem_cons_self)
      obtain ⟨hlast, hsame⟩ := ih hquiet admits.2 fun e he =>
        notUser e (List.mem_cons_of_mem _ he)
      exact ⟨hlast, hsame.trans hopenings⟩

/-- Once a refusal has been processed, whatever happened before, no later event
but an explicit open opens a connection or sends the version or the password;
nor is a timer left that could. -/
theorem no_reconnection {s : State κ} (created : Created s) {p : NetcPacket}
    (refused : refusesPassword p) (result : OpenResult) (before later : List (Event κ))
    (admits : (machine κ).Admits s (before ++ .netcProcess p result :: later))
    (notUser : ∀ e ∈ later, e.isUserOpen = false) :
    ((machine κ).run s (before ++ .netcProcess p result :: later)).openings =
        ((machine κ).run s (before ++ [.netcProcess p result])).openings ∧
      Quiet ((machine κ).run s (before ++ .netcProcess p result :: later)) := by
  obtain ⟨hbefore, hrefusal, hlater⟩ := (machine κ).eachStep_append.mp admits
  have hkept : TimersKept ((machine κ).run s before) :=
    (machine κ).invariant_run timersKept_preserved.step created.timersKept hbefore
  have hquiet : Quiet ((machine κ).step ((machine κ).run s before) (.netcProcess p result)) :=
    netcProcess_quiet hkept refused hrefusal.2
  obtain ⟨hlast, hsame⟩ := hquiet.run hlater notUser
  rw [(machine κ).run_append, (machine κ).run_append]
  exact ⟨hsame, hlast⟩

/-- A message with this operation and this status. -/
def sampleMessage (ncop ncstatus : List Digit) : NetcPacket :=
  ⟨[], [], 0, [], [0, 0, 0, 7], [], 0, [], ncop, ncstatus, .replicate 28 0⟩

def sampleRequest : Request ℕ :=
  ⟨⟨2, 0⟩, ⟨0, 0⟩, ⟨0, 0⟩, ⟨3, 10⟩, ⟨3, 12⟩, [], some 5, 1, none⟩

/-- A session that polls is connected, with a request in progress. -/
def connectedRun : List (Event ℕ) :=
  [.configureHealth 10000 (.established 7),
    .netcProcess (sampleMessage [0, 0, 0, 2] [0, 0, 0, 0]) .socketFailed,
    .netcProcess (sampleMessage [7, 4, 1, 2] [0, 0, 0, 0]) .socketFailed,
    .ipmiQueue sampleRequest]

/-- A refusal whose status makes the session open another channel, and what can
happen afterwards: the poll is still pending. -/
theorem no_reconnection_sample :
    ((machine ℕ).run { tool := "MSGP" } (connectedRun ++
        .netcProcess (sampleMessage [7, 4, 1, 2] [0, 0, 2, 5]) (.established 8) ::
          [.ipmiQueue sampleRequest, .fire 3 .socketFailed, .ipmiDequeue])).openings =
      ((machine ℕ).run { tool := "MSGP" } (connectedRun ++
        [.netcProcess (sampleMessage [7, 4, 1, 2] [0, 0, 2, 5]) (.established 8)])).openings := by
  have refused : refusesPassword (sampleMessage [7, 4, 1, 2] [0, 0, 2, 5]) := by
    constructor
    · decide +kernel
    · decide +kernel
  refine (no_reconnection (s := { tool := "MSGP" }) ⟨rfl, rfl, nofun, rfl⟩ refused
    (.established 8) connectedRun _ ?_ ?_).1
  · decide +kernel
  · decide +kernel

end Reconnection

end Amester.Netc
