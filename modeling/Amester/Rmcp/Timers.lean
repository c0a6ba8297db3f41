/-
# The timers of an rmcp object

While a connection is being opened its timer is pending, and so is that of a message in progress
unless a callback runs, so neither is waited for without end. A connection that is closed is opened
by the next health check, with one exception: when the ping cannot be written, the socket stays, and
an object that has a socket opens no other. Nothing but a packet or an old timer helps it then.

Old timers there are, too. The timer of a connection that is being opened stays when the connection
is refused, and that of a message stays when a callback returns that was interrupted. Such a timer
closes whatever connection it finds.
-/

import Amester.Rmcp.Order

namespace Amester.Rmcp

open BinaryFormat PriorityQueue EventMachine

universe u

variable {κ : Type u} {s s' : Connection κ} {c : Care} {r r' : Bool}

/-! ## Timers that are pending -/

/-- The timers that do not belong to the message in progress. -/
def Connection.unclaimed (s : Connection κ) : List ℕ :=
  s.afters.filter fun timer => ∀ e ∈ s.inprogress, e.after ≠ some timer

private theorem mem_unclaimed {timer : ℕ} : timer ∈ s.unclaimed ↔
    timer ∈ s.afters ∧ ∀ e ∈ s.inprogress, e.after ≠ some timer := by
  rw [Connection.unclaimed, List.mem_filter, decide_eq_true_eq]

private theorem unclaimed_of_idle (idle : s.inprogress = none) : s.unclaimed = s.afters := by
  rw [Connection.unclaimed, List.filter_eq_self]
  simp [idle]

private theorem unclaimed_sublist (s : Connection κ) :
    s.unclaimed.Sublist s.afters := List.filter_sublist

private theorem cancelTimer_afters {e : InProgress (Script κ)} (slot : s.inprogress = some e) :
    s.cancelTimer e = { s with afters := s.unclaimed } := by
  unfold Connection.cancelTimer
  cases hafter : e.after with
  | none =>
      have hall : s.unclaimed = s.afters := by
        rw [Connection.unclaimed, List.filter_eq_self]
        simp [slot, hafter]
      rw [hall]
  | some id =>
      have hall : s.unclaimed = s.afters.filter (· ≠ id) := by
        refine List.filter_congr fun timer _ => ?_
        simp [slot, hafter, eq_comm]
      rw [hall]
      rfl

/-- A close cancels the timer of the message in progress and no other. -/
theorem Base.rmcpClose_afters (h : Base s) : (Rmcp.rmcpClose s).afters = s.unclaimed := by
  unfold Rmcp.rmcpClose
  by_cases hsock : s.rmcpSock = 0
  · rw [if_pos hsock, unclaimed_of_idle (h.slot_eq_none hsock)]
    rfl
  · rw [if_neg hsock]
    cases hslot : s.inprogress with
    | none =>
        rw [unclaimed_of_idle hslot]
        rfl
    | some e =>
        have hcancel : s.markClosed.shut.cancelTimer e =
            { s.markClosed.shut with afters := s.markClosed.shut.unclaimed } :=
          cancelTimer_afters hslot
        have hclosed : { s.markClosed.shut with
            afters := s.markClosed.shut.unclaimed, inprogress := none }.rmcpStatus ≠
              .connected := by
          simp [Connection.markClosed, Connection.shut]
        have hqueue := ipmiQueue_of_not_connected hclosed .front e.toItem
        simp only [hcancel, hqueue]
        rfl

/-- The timers that something waits for are pending, and timers are not mistaken for others. -/
structure Watched (r : Bool) (s : Connection κ) : Prop where
  fresh : ∀ timer ∈ s.afters, timer < s.nextAfter
  nodup : s.afters.Nodup
  opening : s.rmcpStatus = .opening → s.rmcpSock ≠ 0 ∧ s.rmcpOpenAfter ∈ s.afters
  below : s.rmcpOpenAfter < s.nextAfter
  apart : ∀ e ∈ s.inprogress, ∀ timer ∈ e.after, timer ≠ s.rmcpOpenAfter
  waits : r = false → ∀ e ∈ s.inprogress, e.timeout ≠ 0 → ∃ timer ∈ e.after, timer ∈ s.afters

theorem Base.rmcpClose_watched (h : Base s) (fresh : ∀ timer ∈ s.afters, timer < s.nextAfter)
    (nodup : s.afters.Nodup) (below : s.rmcpOpenAfter < s.nextAfter) :
    Watched r (Rmcp.rmcpClose s) := by
  have hafters := h.rmcpClose_afters
  obtain ⟨afters, hclose⟩ := h.rmcpClose_eq
  have hslot : (Rmcp.rmcpClose s).inprogress = none := by rw [hclose]
  have hstatus : (Rmcp.rmcpClose s).rmcpStatus = .closed := by rw [hclose]
  have hnext : (Rmcp.rmcpClose s).nextAfter = s.nextAfter := by rw [hclose]
  have hopen : (Rmcp.rmcpClose s).rmcpOpenAfter = s.rmcpOpenAfter := by rw [hclose]
  refine ⟨?_, ?_, by simp [hstatus], by rw [hopen, hnext]; exact below, by simp [hslot],
    by simp [hslot]⟩
  · rw [hafters, hnext]
    exact fun timer hmem => fresh timer (mem_unclaimed.mp hmem).1
  · rw [hafters]
    exact nodup.sublist (unclaimed_sublist s)

/-- A new timer. -/
theorem Watched.after_afters (h : Watched r s) :
    (∀ timer ∈ s.afters ++ [s.nextAfter], timer < s.nextAfter + 1) ∧
      (s.afters ++ [s.nextAfter]).Nodup := by
  constructor
  · intro timer hmem
    obtain hold | hnew := List.mem_append.mp hmem
    · exact (h.fresh timer hold).trans (Nat.lt_succ_self _)
    · rw [List.mem_singleton.mp hnew]
      exact Nat.lt_succ_self _
  · refine h.nodup.append (List.nodup_singleton _) ?_
    rw [List.disjoint_singleton]
    exact fun hmem => Nat.lt_irrefl _ (h.fresh _ hmem)

/-- A message that is handed over starts its timer, if it has one. -/
theorem handOver_afters (s : Connection κ) (item : Message κ) (rest : List (Message κ)) :
    (item.timeout = 0 ∧ (s.handOver item rest).inprogress = some { item with after := none } ∧
        (s.handOver item rest).afters = s.afters ∧
        (s.handOver item rest).nextAfter = s.nextAfter) ∨
      (item.timeout ≠ 0 ∧
        (s.handOver item rest).inprogress = some { item with after := some s.nextAfter } ∧
        (s.handOver item rest).afters = s.afters ++ [s.nextAfter] ∧
        (s.handOver item rest).nextAfter = s.nextAfter + 1) := by
  unfold Connection.handOver
  by_cases htimeout : item.timeout = 0
  · rw [if_neg (not_not.mpr htimeout)]
    exact .inl ⟨htimeout, rfl, rfl, rfl⟩
  · rw [if_pos htimeout]
    exact .inr ⟨htimeout, rfl, rfl, rfl⟩

/-- The pending timers stay, and that of the message is new. -/
theorem handOver_timers (s : Connection κ) (item : Message κ) (rest : List (Message κ)) :
    (∀ timer ∈ s.afters, timer ∈ (s.handOver item rest).afters) ∧
      ∀ e ∈ (s.handOver item rest).inprogress, ∀ timer ∈ e.after, timer = s.nextAfter := by
  obtain ⟨-, hslot, hafters, -⟩ | ⟨-, hslot, hafters, -⟩ := handOver_afters s item rest
  · rw [hslot, hafters]
    exact ⟨fun _ hmem => hmem, by simp⟩
  · rw [hslot, hafters]
    exact ⟨fun _ hmem => List.mem_append_left _ hmem, by simp⟩

theorem Watched.handOver (h : Watched r s) (connected : s.rmcpStatus = .connected)
    (item : Message κ) (rest : List (Message κ)) : Watched r (s.handOver item rest) := by
  obtain ⟨timer, afters, nextAfter, hsend⟩ := handOver_eq s item rest
  have hstatus : (s.handOver item rest).rmcpStatus = .connected := by rw [hsend, ← connected]
  have hopen : (s.handOver item rest).rmcpOpenAfter = s.rmcpOpenAfter := by rw [hsend]
  obtain ⟨htimeout, hslot, hafters, hnext⟩ | ⟨htimeout, hslot, hafters, hnext⟩ :=
    handOver_afters s item rest
  · refine ⟨by rw [hafters, hnext]; exact h.fresh, by rw [hafters]; exact h.nodup,
      by simp [hstatus], by rw [hopen, hnext]; exact h.below, by simp [hslot], ?_⟩
    simp [hslot, htimeout]
  · obtain ⟨hfresh, hnodup⟩ := h.after_afters
    refine ⟨by rw [hafters, hnext]; exact hfresh, by rw [hafters]; exact hnodup,
      by simp [hstatus], ?_, ?_, ?_⟩
    · rw [hopen, hnext]
      exact h.below.trans (Nat.lt_succ_self _)
    · simpa [hslot, hopen] using h.below.ne'
    · simp [hslot, hafters]

/-- What each move keeps. -/
theorem Watched.move (base : Base s) (h : Watched r s) (move : Move c r s r' s') :
    Watched r' s' := by
  cases move with
  | exchange _ _ keys fileevent waitSendSync nextUid sent number heard socket =>
      exact ⟨h.fresh, h.nodup, h.opening, h.below, h.apart, h.waits⟩
  | establish _ heard =>
      refine ⟨fun timer hmem => h.fresh timer (List.mem_filter.mp hmem).1,
        h.nodup.sublist List.filter_sublist, by simp, h.below, h.apart, ?_⟩
      intro hidle e hslot htimeout
      obtain ⟨timer, hafter, hpending⟩ := h.waits hidle e hslot htimeout
      refine ⟨timer, hafter, List.mem_filter.mpr ⟨hpending, ?_⟩⟩
      simpa using h.apart e hslot timer hafter
  | respond _ _ owed fewer =>
      exact ⟨h.fresh, h.nodup, h.opening, h.below, h.apart, h.waits⟩
  | post _ _ item => exact ⟨h.fresh, h.nodup, h.opening, h.below, h.apart, h.waits⟩
  | sort _ busy => exact ⟨h.fresh, h.nodup, h.opening, h.below, h.apart, h.waits⟩
  | send _ connected free next => exact h.handOver connected _ _
  | @call _ _ e callback slot foreign status databytes owner first asked =>
      have hstatus := base.slot (by simp [slot])
      rw [cancelTimer_afters slot]
      exact ⟨fun timer hmem => h.fresh timer (mem_unclaimed.mp hmem).1,
        h.nodup.sublist (unclaimed_sublist s), by simp [Connection.emit, hstatus], h.below,
        h.apart, by simp⟩
  | @serve _ _ e slot own status databytes owner waitSendSync first asked =>
      have hstatus := base.slot (by simp [slot])
      rw [cancelTimer_afters slot]
      exact ⟨fun timer hmem => h.fresh timer (mem_unclaimed.mp hmem).1,
        h.nodup.sublist (unclaimed_sublist s), by simp [Connection.emit, hstatus], h.below,
        by simp, by simp⟩
  | done _ _ last kept => exact ⟨h.fresh, h.nodup, h.opening, h.below, by simp, by simp⟩
  | close _ first kept => exact base.rmcpClose_watched h.fresh h.nodup h.below
  | expire pending first =>
      exact (base.expired _).rmcpClose_watched
        (fun timer hmem => h.fresh timer (List.mem_of_mem_erase hmem)) (h.nodup.erase _) h.below
  | @opens _ _ sock pinged named idle status written =>
      have hslot := base.slot_eq_none idle
      obtain ⟨hfresh, hnodup⟩ := h.after_afters
      unfold rmcpOpen
      rw [if_neg (not_not.mpr idle)]
      cases pinged with
      | true =>
          exact ⟨hfresh, hnodup, fun _ => ⟨named, List.mem_append_right _ List.mem_cons_self⟩,
            Nat.lt_succ_self _, by simp [Connection.rmcpSend, Connection.after, hslot],
            by simp [Connection.rmcpSend, Connection.after, hslot]⟩
      | false =>
          exact ⟨h.fresh, h.nodup, fun hopening => absurd idle (h.opening hopening).1, h.below,
            by simp [hslot], by simp [hslot]⟩

/-! ## Waiting -/

/-- A connection that is closed has no socket, so that the next health check opens one. -/
def Reopens (s : Connection κ) : Prop :=
  s.rmcpStatus = .disconnected ∨ s.rmcpStatus = .closed → s.rmcpSock = 0

/-- Whatever the object waits for, it does not wait for without end: a connection that is closed is
opened again, one that is being opened has its timer, and so has a message in progress with a
timeout, unless a callback runs. -/
structure Live (t : Suspended (Connection κ) Frame) : Prop where
  reopens : Reopens t.state
  opening : t.state.rmcpStatus = .opening → t.state.rmcpOpenAfter ∈ t.state.afters
  waits : running t = false → ∀ e ∈ t.state.inprogress, e.timeout ≠ 0 →
    ∃ timer ∈ e.after, timer ∈ t.state.afters

theorem Reopens.move (pinged : c.pinged = true) (base : Base s) (h : Reopens s)
    (move : Move c r s r' s') : Reopens s' := by
  cases move with
  | exchange _ _ keys fileevent waitSendSync nextUid sent number heard socket => exact h
  | establish _ heard => exact fun hstatus => absurd hstatus (by simp)
  | respond _ _ owed fewer => exact h
  | post _ _ item => exact h
  | sort _ busy => exact h
  | @send _ _ item rest connected free next =>
      obtain ⟨timer, afters, nextAfter, hsend⟩ := handOver_eq s item rest
      rw [hsend]
      exact h
  | @call _ _ e callback slot foreign status databytes owner first asked =>
      rw [cancelTimer_afters slot]
      exact h
  | @serve _ _ e slot own status databytes owner waitSendSync first asked =>
      rw [cancelTimer_afters slot]
      exact h
  | done _ _ last kept => exact h
  | close _ first kept =>
      obtain ⟨afters, hclose⟩ := base.rmcpClose_eq
      rw [hclose]
      exact fun _ => rfl
  | @expire _ _ timer pending first =>
      obtain ⟨afters, hclose⟩ := (base.expired timer).rmcpClose_eq
      rw [hclose]
      exact fun _ => rfl
  | opens _ named idle status written =>
      unfold rmcpOpen
      rw [if_neg (not_not.mpr idle)]
      simp only [written pinged, if_true]
      exact fun hstatus => absurd hstatus (by simp)

/-- What holds of a run whose pings are written. -/
structure Awake (t : Suspended (Connection κ) Frame) : Prop where
  base : Base t.state
  watched : Watched (running t) t.state
  reopens : Reopens t.state

theorem Awake.live {t : Suspended (Connection κ) Frame} (h : Awake t) : Live t :=
  ⟨h.reopens, fun hopening => (h.watched.opening hopening).2, h.watched.waits⟩

private theorem watched_started (keys : Keys) : Watched false (started κ keys).state :=
  ⟨by simp [started], by simp [started], by simp [started], by simp [started], by simp [started],
    by simp [started]⟩

private theorem awake_started (keys : Keys) : Awake (started κ keys) :=
  ⟨base_started keys, watched_started keys, fun _ => rfl⟩

/-- Without a socket the connection is closed. -/
theorem Awake.closed {t : Suspended (Connection κ) Frame} (h : Awake t)
    (idle : t.state.rmcpSock = 0) :
    t.state.rmcpStatus = .disconnected ∨ t.state.rmcpStatus = .closed := by
  have hconnected := fun hstatus => h.base.connected hstatus idle
  have hopening := fun hstatus => (h.watched.opening hstatus).1 idle
  obtain ⟨htimeout, herror⟩ := h.base.status
  cases hstatus : t.state.rmcpStatus with
  | disconnected => exact .inl rfl
  | closed => exact .inr rfl
  | opening => exact absurd hstatus hopening
  | connected => exact absurd hstatus hconnected
  | timeout => exact absurd hstatus htimeout
  | error => exact absurd hstatus herror

section Runs

variable [DecidableEq κ] {hmac : Bytes → Option Bytes}

theorem Awake.step {t : Suspended (Connection κ) Frame} {happening : Happening (Event κ)}
    (h : Awake t) (admits : (reentrant hmac κ).machine.admissible t happening)
    (pinged : ¬ FailsPing t happening) :
    Awake ((reentrant hmac κ).machine.step t happening) := by
  have hmeets : Care.Meets { pinged := true } t happening :=
    ⟨by simp, by simp, by simp, fun _ => pinged⟩
  obtain ⟨hbase, hwatched, hreopens⟩ := (step_path h.base admits hmeets).keeps_base
    (I := fun r s => Watched r s ∧ Reopens s)
    (fun base inv move => ⟨inv.1.move base move, inv.2.move rfl base move⟩) h.base
    ⟨h.watched, h.reopens⟩
  exact ⟨hbase, hwatched, hreopens⟩

omit [DecidableEq κ] in
/-- A health check opens a connection that is closed. -/
theorem ipmiHealth_of_closed (closed : s.rmcpStatus = .disconnected ∨ s.rmcpStatus = .closed)
    (opened : Option ℕ) (pinged : Bool) :
    ipmiHealth opened pinged s = rmcpOpen opened pinged s := by
  unfold ipmiHealth
  obtain hstatus | hstatus := closed
  · simp only [hstatus]
  · simp only [hstatus]

/-- A step leaves nothing to wait for without end exactly if its ping is written. -/
theorem Awake.live_step_iff {t : Suspended (Connection κ) Frame} {happening : Happening (Event κ)}
    (h : Awake t) (admits : (reentrant hmac κ).machine.admissible t happening) :
    Live ((reentrant hmac κ).machine.step t happening) ↔ ¬ FailsPing t happening := by
  refine ⟨fun hlive hfails => ?_, fun hpinged => (h.step admits hpinged).live⟩
  obtain ⟨s, stack⟩ := t
  cases happening with
  | returns => exact hfails
  | occurs event =>
      cases event with
      | ipmiQueue request => exact hfails
      | readable packet owner => exact hfails
      | rmcpTimeout timer => exact hfails
      | ipmiHealth opened pinged =>
          obtain ⟨hopened, rfl, hidle⟩ := hfails
          obtain ⟨sock, rfl⟩ := Option.ne_none_iff_exists'.mp hopened
          have hclosed := h.closed hidle
          have hstep : ((reentrant hmac κ).machine.step ⟨s, stack⟩
              (.occurs (.ipmiHealth (some sock) false))).state =
                ipmiHealth (some sock) false s := rfl
          have hopen : rmcpOpen (some sock) false s =
              { s with rmcpSock := sock, fileevent := true } := if_neg (not_not.mpr hidle)
          have hreopens := hlive.reopens
          rw [hstep, ipmiHealth_of_closed hclosed, hopen] at hreopens
          exact admits sock rfl (hreopens hclosed)

/-- The object never waits without end in the runs in which every ping is written, and in no
others. -/
theorem always_live_iff {keys : Keys} {happenings : List (Happening (Event κ))}
    (admits : (reentrant hmac κ).machine.Admits (started κ keys) happenings) :
    (reentrant hmac κ).machine.Always Live (started κ keys) happenings ↔
      (reentrant hmac κ).machine.EachStep (fun t happening => ¬ FailsPing t happening)
        (started κ keys) happenings := by
  have hstart : Awake (started κ keys) := awake_started keys
  exact (reentrant hmac κ).machine.always_iff_of_invariant
    (fun t happening (h : Awake t) hadmits pinged => h.step hadmits pinged)
    (fun t happening h hadmits => h.live_step_iff hadmits) hstart hstart.live admits

/-! ## After a ping that was not written -/

/-- The object has a socket but no connection, and nothing is to come. -/
structure Stuck (t : Suspended (Connection κ) Frame) : Prop where
  socket : t.state.rmcpSock ≠ 0
  closed : t.state.rmcpStatus = .disconnected ∨ t.state.rmcpStatus = .closed
  afters : t.state.afters = []
  stack : t.stack = []

/-- No packet comes. -/
def Silent : Happening (Event κ) → Prop
  | .occurs (.readable packet _) => packet = none
  | _ => True

/-- Nothing is written, no other socket is opened, and the messages pile up. -/
structure PilesUp (t t' : Suspended (Connection κ) Frame) : Prop where
  stuck : Stuck t'
  socket : t'.state.rmcpSock = t.state.rmcpSock
  written : t'.state.written = t.state.written
  queue : t.state.ipmiMsgq <+: t'.state.ipmiMsgq

omit [DecidableEq κ] in
theorem Stuck.not_connected {t : Suspended (Connection κ) Frame} (h : Stuck t) :
    t.state.rmcpStatus ≠ .connected := by
  obtain hstatus | hstatus := h.closed
  · simp [hstatus]
  · simp [hstatus]

theorem Stuck.step {t : Suspended (Connection κ) Frame} {happening : Happening (Event κ)}
    (h : Stuck t) (admits : (reentrant hmac κ).machine.admissible t happening)
    (silent : Silent happening) :
    PilesUp t ((reentrant hmac κ).machine.step t happening) := by
  have hstays : PilesUp t t := ⟨h, rfl, rfl, List.prefix_rfl⟩
  obtain ⟨s, stack⟩ := t
  obtain rfl := h.stack
  cases happening with
  | returns => exact absurd rfl admits
  | occurs event =>
      cases event with
      | ipmiQueue request =>
          have hstep : (reentrant hmac κ).machine.step ⟨s, []⟩ (.occurs (.ipmiQueue request)) =
              ⟨s.post .back (requestMessage request), []⟩ := by
            have hqueue := ipmiQueue_of_not_connected h.not_connected .back
              (requestMessage request)
            exact congrArg (fun t => Suspended.mk t []) hqueue
          rw [hstep]
          exact ⟨⟨h.socket, h.closed, h.afters, rfl⟩, rfl, rfl, List.prefix_append _ _⟩
      | readable packet owner =>
          obtain rfl : packet = none := silent
          exact hstays
      | rmcpTimeout timer =>
          have hpending : timer ∈ s.afters := admits
          rw [h.afters] at hpending
          exact absurd hpending List.not_mem_nil
      | ipmiHealth opened pinged =>
          have hhealth : ipmiHealth opened pinged s = s :=
            (ipmiHealth_of_closed h.closed opened pinged).trans (if_pos h.socket)
          have hstep : (reentrant hmac κ).machine.step ⟨s, []⟩
              (.occurs (.ipmiHealth opened pinged)) = ⟨s, []⟩ :=
            congrArg (fun t => Suspended.mk t []) hhealth
          rw [hstep]
          exact hstays

/-- As long as no packet comes, an object whose ping was not written stays as it is, whatever is
asked of it and however often its health is checked. -/
theorem always_pilesUp {t : Suspended (Connection κ) Frame}
    {happenings : List (Happening (Event κ))} (stuck : Stuck t)
    (admits : (reentrant hmac κ).machine.Admits t happenings)
    (silent : (reentrant hmac κ).machine.EachStep (fun _ happening => Silent happening) t
      happenings) :
    (reentrant hmac κ).machine.Always (PilesUp t) t happenings := by
  refine (reentrant hmac κ).machine.always_of_invariant ?_
    ⟨stuck, rfl, rfl, List.prefix_rfl⟩ admits silent
  intro t' happening h hadmits hsilent
  have hstep := h.stuck.step hadmits hsilent
  exact ⟨hstep.stuck, hstep.socket.trans h.socket, hstep.written.trans h.written,
    h.queue.trans hstep.queue⟩

end Runs

/-! ## Timers of earlier connections -/

/-- Each pending timer is that of the connection that is being opened, or of the message in
progress. -/
def Connection.Timely (s : Connection κ) : Prop :=
  ∀ timer ∈ s.afters, (s.rmcpStatus = .opening ∧ timer = s.rmcpOpenAfter) ∨
    ∃ e ∈ s.inprogress, e.after = some timer

theorem Connection.Timely.nil (none : s.afters = []) : s.Timely := by
  intro timer hmem
  rw [none] at hmem
  exact absurd hmem List.not_mem_nil

/-- On a connection no timers are pending but that of the message in progress. -/
theorem Connection.Timely.unclaimed (h : s.Timely) (settled : s.rmcpStatus ≠ .opening) :
    s.unclaimed = [] := by
  rw [List.eq_nil_iff_forall_not_mem]
  intro timer hmem
  obtain ⟨hpending, hfree⟩ := mem_unclaimed.mp hmem
  obtain ⟨hopening, -⟩ | ⟨e, hslot, hafter⟩ := h timer hpending
  · exact settled hopening
  · exact hfree e hslot hafter

theorem Connection.Timely.afters (h : s.Timely) (settled : s.rmcpStatus ≠ .opening)
    (idle : s.inprogress = none) : s.afters = [] :=
  (unclaimed_of_idle idle).symm.trans (h.unclaimed settled)

theorem Connection.Timely.move (tidy : c.tidy = true) (base : Base s) (watched : Watched r s)
    (h : s.Timely) (move : Move c r s r' s') : s'.Timely := by
  cases move with
  | exchange _ _ keys fileevent waitSendSync nextUid sent number heard socket => exact h
  | establish _ heard =>
      intro timer hmem
      obtain ⟨hpending, hother⟩ := List.mem_filter.mp hmem
      obtain ⟨-, hopen⟩ | hslot := h timer hpending
      · exact absurd hopen (by simpa using hother)
      · exact .inr hslot
  | respond _ _ owed fewer => exact h
  | post _ _ item => exact h
  | sort _ busy => exact h
  | @send _ _ item rest connected free next =>
      have hnone := h.afters (by simp [connected]) free
      obtain ⟨-, -, hafters, -⟩ | ⟨-, hslot, hafters, -⟩ := handOver_afters s item rest
      · exact .nil (hafters.trans hnone)
      · intro timer hmem
        rw [hafters, hnone, List.nil_append, List.mem_singleton] at hmem
        exact .inr ⟨_, hslot, congrArg some hmem.symm⟩
  | @call _ _ e callback slot foreign status databytes owner first asked =>
      have hstatus := base.slot (by simp [slot])
      rw [cancelTimer_afters slot]
      exact .nil (h.unclaimed (by simp [hstatus]))
  | @serve _ _ e slot own status databytes owner waitSendSync first asked =>
      have hstatus := base.slot (by simp [slot])
      rw [cancelTimer_afters slot]
      exact .nil (h.unclaimed (by simp [hstatus]))
  | done _ _ last kept =>
      intro timer hmem
      obtain hopening | ⟨e, hslot, hafter⟩ := h timer hmem
      · exact .inl hopening
      · exact absurd hmem (kept tidy e hslot timer hafter)
  | close _ first kept =>
      exact .nil (base.rmcpClose_afters.trans (h.unclaimed (kept tidy)))
  | @expire _ _ timer pending first =>
      refine .nil ((base.expired timer).rmcpClose_afters.trans
        (List.eq_nil_iff_forall_not_mem.mpr ?_))
      intro other hmem
      obtain ⟨hpending, hfree⟩ := mem_unclaimed.mp hmem
      obtain ⟨hne, hother⟩ := (watched.nodup.mem_erase_iff).mp hpending
      obtain ⟨hopening, hopen⟩ | ⟨e, hslot, hafter⟩ := h other hother
      · -- both timers are that of the connection which is being opened
        obtain ⟨-, hfired⟩ | ⟨e, hslot, -⟩ := h timer pending
        · exact hne (hopen.trans hfired.symm)
        · have hconnected := base.slot (by simp [Option.mem_def.mp hslot])
          rw [hconnected] at hopening
          exact absurd hopening (by simp)
      · exact hfree e hslot hafter
  | @opens _ _ sock pinged named idle status written =>
      have hsettled : s.rmcpStatus ≠ .opening := fun hopening => (watched.opening hopening).1 idle
      have hnone := h.afters hsettled (base.slot_eq_none idle)
      unfold rmcpOpen
      rw [if_neg (not_not.mpr idle)]
      cases pinged with
      | true =>
          intro timer hmem
          have hnew : timer ∈ s.afters ++ [s.nextAfter] := hmem
          rw [hnone, List.nil_append, List.mem_singleton] at hnew
          exact .inl ⟨rfl, hnew⟩
      | false => exact .nil hnone

/-- What holds of a run that leaves no timers behind. -/
structure Tidied (t : Suspended (Connection κ) Frame) : Prop where
  base : Base t.state
  watched : Watched (running t) t.state
  timely : t.state.Timely

private theorem tidied_started (keys : Keys) : Tidied (started κ keys) :=
  ⟨base_started keys, watched_started keys, .nil rfl⟩

/-- A connection that is closed while it is being opened leaves its timer behind. -/
theorem Watched.not_timely_of_close (h : Watched r s) (base : Base s)
    (opening : s.rmcpStatus = .opening) : ¬ (Rmcp.rmcpClose s).Timely := by
  intro htimely
  have hidle : s.inprogress = none := by
    by_contra hbusy
    rw [base.slot hbusy] at opening
    exact absurd opening (by simp)
  have hafters := base.rmcpClose_afters.trans (unclaimed_of_idle hidle)
  obtain ⟨afters, hclose⟩ := base.rmcpClose_eq
  have hpending : s.rmcpOpenAfter ∈ (Rmcp.rmcpClose s).afters := hafters ▸ (h.opening opening).2
  have howner := htimely _ hpending
  rw [hclose] at howner
  simp at howner

/-- A message that is forgotten leaves its timer behind. -/
theorem Watched.not_timely_of_finish (h : Watched r s) (base : Base s)
    {e : InProgress (Script κ)} (slot : s.inprogress = some e) {timer : ℕ}
    (pending : timer ∈ s.afters) : ¬ (finish s).Timely := by
  intro htimely
  have hconnected : s.rmcpStatus = .connected := base.slot (by simp [slot])
  have hlt := h.fresh timer pending
  obtain hsame | ⟨hbusy, -⟩ | ⟨-, -, item, rest, -, hsend⟩ :=
    ipmiDequeue_cases { s with inprogress := none }
  · rw [finish, hsame] at htimely
    obtain ⟨hopening, -⟩ | ⟨e, hslot, -⟩ := htimely timer pending
    · exact absurd (hconnected.symm.trans hopening) (by simp)
    · exact absurd hslot (by simp)
  · exact absurd rfl hbusy
  · have hstatus : (Connection.handOver { s with inprogress := none } item rest).rmcpStatus =
        .connected := by
      obtain ⟨_, afters, nextAfter, hover⟩ := handOver_eq { s with inprogress := none } item rest
      rw [hover]
      exact hconnected
    obtain ⟨hstays, hnew⟩ := handOver_timers { s with inprogress := none } item rest
    rw [finish, hsend] at htimely
    obtain ⟨hopening, -⟩ | ⟨e, hslot, hafter⟩ := htimely timer (hstays timer pending)
    · exact absurd (hstatus.symm.trans hopening) (by simp)
    · exact hlt.ne (hnew e hslot timer hafter)

variable [DecidableEq κ] {hmac : Bytes → Option Bytes}

theorem Tidied.step {t : Suspended (Connection κ) Frame} {happening : Happening (Event κ)}
    (h : Tidied t) (admits : (reentrant hmac κ).machine.admissible t happening)
    (tidy : ¬ Orphans t happening) : Tidied ((reentrant hmac κ).machine.step t happening) := by
  have hmeets : Care.Meets { tidy := true } t happening :=
    ⟨by simp, by simp, fun _ => tidy, by simp⟩
  obtain ⟨hbase, hwatched, htimely⟩ := (step_path h.base admits hmeets).keeps_base
    (I := fun r s => Watched r s ∧ s.Timely)
    (fun base inv move => ⟨inv.1.move base move, inv.2.move rfl base inv.1 move⟩) h.base
    ⟨h.watched, h.timely⟩
  exact ⟨hbase, hwatched, htimely⟩

theorem Tidied.not_timely {t : Suspended (Connection κ) Frame} {happening : Happening (Event κ)}
    (h : Tidied t) (orphans : Orphans t happening) :
    ¬ ((reentrant hmac κ).machine.step t happening).state.Timely := by
  obtain ⟨s, stack⟩ := t
  cases happening with
  | occurs event =>
      cases event with
      | ipmiQueue request => exact absurd orphans not_false
      | rmcpTimeout timer => exact absurd orphans not_false
      | ipmiHealth opened pinged => exact absurd orphans not_false
      | readable packet owner =>
          obtain ⟨hrefused, hopening⟩ := orphans
          obtain ⟨packet, rfl, hreading⟩ := Option.map_eq_some_iff.mp hrefused
          have hrespond := responded_move (c := {}) (running ⟨s, stack⟩) s owner
          have hstep : ((reentrant hmac κ).machine.step ⟨s, stack⟩
              (.occurs (.readable (some packet) owner))).state =
                (process hmac owner (s.responded owner) (readPacket packet)).1 := rfl
          rw [hstep, hreading, process]
          exact (h.watched.move h.base hrespond).not_timely_of_close (h.base.move hrespond)
            hopening
  | returns =>
      obtain ⟨frame, hframe, horphans⟩ := orphans
      cases stack with
      | nil => exact absurd hframe (by simp)
      | cons top stack =>
          obtain rfl : top = frame := Option.some.inj hframe
          have hstep : ((reentrant hmac κ).machine.step ⟨s, top :: stack⟩ .returns).state =
              (resume top s).1 := rfl
          rw [hstep]
          cases top with
          | callback =>
              obtain ⟨e, hslot, timer, -, hpending⟩ := horphans
              exact h.watched.not_timely_of_finish h.base hslot hpending
          | privilege myuid =>
              obtain ⟨⟨w, hfind, hstatus⟩, hopening⟩ := horphans
              rw [resume_of_refused hfind hstatus h.base]
              have hwatched : Watched (running ⟨s, .privilege myuid :: stack⟩) { s with
                  waitSendSync := s.waitSendSync.filter fun w => w.1 ≠ myuid } :=
                ⟨h.watched.fresh, h.watched.nodup, h.watched.opening, h.watched.below,
                  h.watched.apart, h.watched.waits⟩
              exact hwatched.not_timely_of_close (h.base.waited myuid) hopening

/-- No timer of an earlier connection or message is ever pending in the runs in which no connection
is refused while it is being opened and no callback returns to a message that waits for its
response, and in no others. -/
theorem always_timely_iff {keys : Keys} {happenings : List (Happening (Event κ))}
    (admits : (reentrant hmac κ).machine.Admits (started κ keys) happenings) :
    (reentrant hmac κ).machine.Always (fun t => t.state.Timely) (started κ keys) happenings ↔
      (reentrant hmac κ).machine.EachStep (fun t happening => ¬ Orphans t happening)
        (started κ keys) happenings := by
  have hstart : Tidied (started κ keys) := tidied_started keys
  exact (reentrant hmac κ).machine.always_iff_of_invariant
    (fun t happening (h : Tidied t) hadmits tidy => h.step hadmits tidy)
    (fun t happening h hadmits => ⟨fun htimely horphans => h.not_timely horphans htimely,
      fun tidy => (h.step hadmits tidy).timely⟩) hstart hstart.timely admits

/-! ## A run -/

theorem sampleRun_live :
    (reentrant (fun _ => none) ℕ).machine.Always Live (started ℕ {}) sampleRun :=
  (always_live_iff (by decide +kernel)).mpr (by decide +kernel)

theorem sampleRun_timely :
    (reentrant (fun _ => none) ℕ).machine.Always (fun t => t.state.Timely) (started ℕ {})
      sampleRun :=
  (always_timely_iff (by decide +kernel)).mpr (by decide +kernel)

/-- An object whose first ping could not be written. -/
def unpinged : Suspended (Connection ℕ) Frame :=
  (reentrant (fun _ => none) ℕ).machine.step (started ℕ {}) (.occurs (.ipmiHealth (some 5) false))

theorem unpinged_pilesUp :
    (reentrant (fun _ => none) ℕ).machine.Always (PilesUp unpinged) unpinged
      [.occurs (.ipmiQueue (sampleRequest 1)), .occurs (.ipmiHealth (some 6) true)] :=
  always_pilesUp ⟨by decide +kernel, .inl (by decide +kernel), by decide +kernel,
    by decide +kernel⟩ (by decide +kernel) ⟨trivial, trivial, trivial⟩

end Amester.Rmcp
