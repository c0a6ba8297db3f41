/-
# A blade center does not get stuck

Each message in progress has a timer pending, and no other message has one: a timer that fires
belongs to the message in progress, never to one of an earlier connection. And while a session is
connected, messages wait only behind a message in progress, unless a callback has not returned or
the network was switched. So either the reply or the timer brings the next message on its way.
-/

import Amester.BladeCenter.Order

namespace Amester.BladeCenter

open BinaryFormat PriorityQueue EventMachine

variable {s : Session}

/-! ## Timers -/

/-- What holds between two commands of a handler, too. -/
structure Timers (s : Session) : Prop where
  fresh : ∀ t ∈ s.afters, t.1 < s.nextAfter
  health : s.netHealthAfter < s.nextAfter
  apart : ∀ t ∈ s.afters, t.2 = .netMsgTimeout → t.1 ≠ s.netHealthAfter
  /-- A timer of a message is that of the message in progress. -/
  covered : ∀ t ∈ s.afters, t.2 = .netMsgTimeout →
    ∃ e ∈ s.bcnetsockcallback, e.after = some t.1
  queued : ∀ item ∈ s.msgq, item.timeout ≠ 0
  sent : ∀ e ∈ s.bcnetsockcallback, e.timeout ≠ 0

/-- The message in progress has a timer, and no other message does. -/
structure Timed (s : Session) : Prop extends Timers s where
  pending : ∀ e ∈ s.bcnetsockcallback, ∃ timer, e.after = some timer ∧
    (timer, .netMsgTimeout) ∈ s.afters

theorem Timed.congr {t : Session} (h : Timed s) (afters : t.afters = s.afters)
    (nextAfter : t.nextAfter = s.nextAfter) (health : t.netHealthAfter = s.netHealthAfter)
    (table : t.bcnetsockcallback = s.bcnetsockcallback) (msgq : t.msgq = s.msgq) : Timed t := by
  refine ⟨⟨?_, ?_, ?_, ?_, ?_, ?_⟩, ?_⟩
  · rw [afters, nextAfter]
    exact h.fresh
  · rw [health, nextAfter]
    exact h.health
  · rw [afters, health]
    exact h.apart
  · rw [afters, table]
    exact h.covered
  · rw [msgq]
    exact h.queued
  · rw [table]
    exact h.sent
  · rw [afters, table]
    exact h.pending

/-- Without a message in progress, all that is pending is the health check. -/
theorem Timers.timed_of_idle (h : Timers s) (table : s.bcnetsockcallback = []) : Timed s where
  toTimers := h
  pending := by simp [table]

theorem Timers.afterCancel (h : Timers s) (id : ℕ) : Timers (s.afterCancel id) where
  fresh t ht := h.fresh t (List.mem_of_mem_filter ht)
  health := h.health
  apart t ht := h.apart t (List.mem_of_mem_filter ht)
  covered t ht := h.covered t (List.mem_of_mem_filter ht)
  queued := h.queued
  sent := h.sent

theorem Timers.netClose (h : Timers s) (inv : Inv s) : Timed (netClose s) := by
  obtain ⟨fileevent, hclose⟩ := netClose_eq inv
  rw [hclose]
  refine Timers.timed_of_idle ⟨?_, h.health, ?_, ?_, ?_, by simp⟩ rfl
  · exact fun t ht => h.fresh t (List.mem_of_mem_filter ht)
  · exact fun t ht => h.apart t (List.mem_of_mem_filter ht)
  · intro t ht hmessage
    obtain ⟨hmem, hleft⟩ := List.mem_filter.mp ht
    obtain ⟨e, he, hafter⟩ := h.covered t hmem hmessage
    exact absurd hafter (of_decide_eq_true hleft e he)
  · intro item hitem
    simp only at hitem
    split_ifs at hitem
    · exact h.queued item hitem
    · obtain hback | hold := List.mem_append.mp hitem
      · obtain ⟨e, he, rfl⟩ := Option.map_eq_some_iff.mp (Option.mem_toList.mp hback)
        exact h.sent e (List.mem_of_mem_head? he)
      · exact h.queued item hold

theorem Timed.post (h : Timed s) (position : Position) {item : Item} (timeout : item.timeout ≠ 0) :
    Timed (s.post position item) where
  fresh := h.fresh
  health := h.health
  apart := h.apart
  covered := h.covered
  queued other hother := by
    obtain rfl | hold := List.mem_cons.mp ((insertAt_perm position item s.msgq).mem_iff.mp hother)
    · exact timeout
    · exact h.queued other hold
  sent := h.sent
  pending := h.pending

theorem Timed.sortMsgq (h : Timed s) : Timed { s with msgq := sort Item.priority s.msgq } :=
  { h with queued := fun item hitem => h.queued item ((sort_perm _ _).mem_iff.mp hitem) }

/-- The first message is sent: it gets its timer, or the connection is closed. -/
theorem Timed.sendFirst (h : Timed s) (inv : Inv s) (ready : s.Ready)
    (table : s.bcnetsockcallback = []) {item : Item} {rest : List Item}
    (next : sort Item.priority s.msgq = item :: rest) (writes : Bool) :
    Timed (s.sendFirst writes item rest) := by
  have hnone : ∀ t ∈ s.afters, t.2 ≠ .netMsgTimeout := by
    intro t ht hmessage
    obtain ⟨e, he, -⟩ := h.covered t ht hmessage
    simp [table] at he
  have htimeout : ∀ other ∈ item :: rest, other.timeout ≠ 0 := fun other hother =>
    h.queued other ((sort_perm _ _).mem_iff.mp (next ▸ hother))
  have hentered : ({ s with msgq := sort Item.priority s.msgq }.enter item rest
      ).bcnetsockcallback = [{ item with sock := s.sock, after := none }] := by
    simp [Session.enter, table]
  have henter : Timers ({ s with msgq := sort Item.priority s.msgq }.enter item rest) := by
    refine ⟨h.fresh, h.health, h.apart, ?_, ?_, ?_⟩
    · exact fun t ht hmessage => absurd hmessage (hnone t ht)
    · exact fun other hother => htimeout other (List.mem_cons_of_mem _ hother)
    · rw [hentered]
      simpa using htimeout item List.mem_cons_self
  cases writes with
  | false =>
      have hinv : Inv ({ s with msgq := sort Item.priority s.msgq }.enter item rest) := by
        refine inv.sortMsgq.enter table (inv.sock (.inr ready.2.2)) ?_
        rw [sort_eq_self _ (sort_sorted _ _), next]
      exact (henter.netClose hinv).congr rfl rfl rfl rfl rfl
  | true =>
      have hitem := htimeout item List.mem_cons_self
      have hwritten : (s.sendFirst true item rest).bcnetsockcallback =
          [{ item with sock := s.sock, after := some s.nextAfter }] := by
        simp [Session.sendFirst, Session.written, Session.after, Session.enter, Session.emit, table,
          hitem]
      have hafters : (s.sendFirst true item rest).afters =
          s.afters ++ [(s.nextAfter, .netMsgTimeout)] := by
        simp [Session.sendFirst, Session.written, Session.after, Session.enter, Session.emit, hitem]
      have hnext : (s.sendFirst true item rest).nextAfter = s.nextAfter + 1 := by
        simp [Session.sendFirst, Session.written, Session.after, Session.enter, Session.emit, hitem]
      have hhealth : (s.sendFirst true item rest).netHealthAfter = s.netHealthAfter := by
        simp [Session.sendFirst, Session.written, Session.after, Session.enter, Session.emit, hitem]
      have hmsgq : (s.sendFirst true item rest).msgq = rest := by
        simp [Session.sendFirst, Session.written, Session.after, Session.enter, Session.emit, hitem]
      refine ⟨⟨?_, ?_, ?_, ?_, ?_, ?_⟩, ?_⟩
      · rw [hafters, hnext]
        intro t ht
        obtain hold | hnew := List.mem_append.mp ht
        · exact (h.fresh t hold).trans (Nat.lt_succ_self _)
        · rw [List.mem_singleton.mp hnew]
          exact Nat.lt_succ_self _
      · rw [hhealth, hnext]
        exact h.health.trans (Nat.lt_succ_self _)
      · rw [hafters, hhealth]
        intro t ht hmessage
        obtain hold | hnew := List.mem_append.mp ht
        · exact h.apart t hold hmessage
        · rw [List.mem_singleton.mp hnew]
          exact h.health.ne'
      · rw [hafters, hwritten]
        intro t ht hmessage
        obtain hold | hnew := List.mem_append.mp ht
        · exact absurd hmessage (hnone t hold)
        · exact ⟨_, List.mem_singleton_self _, by rw [List.mem_singleton.mp hnew]⟩
      · rw [hmsgq]
        exact fun other hother => htimeout other (List.mem_cons_of_mem _ hother)
      · rw [hwritten]
        simpa using hitem
      · rw [hafters, hwritten]
        simp

theorem Timed.netWriteMsg (h : Timed s) (inv : Inv s) (writes : Bool) :
    Timed (netWriteMsg writes s) := by
  obtain ⟨-, hwrite⟩ | ⟨-, hwrite⟩ | ⟨hready, htable, item, rest, hnext, hwrite⟩ :=
    netWriteMsg_cases inv writes
  · rw [hwrite]
    exact h
  · rw [hwrite]
    exact h.sortMsgq
  · rw [hwrite]
    exact h.sendFirst inv hready htable hnext writes

theorem Timed.sendMsg (h : Timed s) (inv : Inv s) (type : ℤ) (cmd : DotCmd) (databytes : Bytes)
    (callback : String) (priority : ℤ) (writes : Bool) :
    Timed (sendMsg type cmd databytes callback priority writes s) := by
  unfold BladeCenter.sendMsg
  split
  · exact h
  · unfold netSendMsg netSendItemWith
    have htimeout : (10000 : ℤ) ≠ 0 := by decide
    split_ifs
    · exact h.congr rfl rfl rfl rfl rfl
    · exact (h.post .back htimeout).netWriteMsg (inv.post rfl) writes
    · exact h.post .back htimeout

theorem Timed.processReply (h : Timed s) (inv : Inv s) (header : Header) (databytes : Bytes)
    (owner : Option Item) (writes : Bool) :
    Timed (processReply header databytes owner writes s).1 := by
  unfold BladeCenter.processReply
  split_ifs
  · exact h.congr rfl rfl rfl rfl rfl
  · exact h.toTimers.netClose inv
  · exact h
  · cases hpending : s.pending s.name with
    | none => exact h.netWriteMsg inv writes
    | some e =>
        rw [inv.pending] at hpending
        obtain hnone | ⟨e', htable, hsock, htag⟩ := inv.table
        · simp [hnone] at hpending
        obtain rfl : e' = e := by simpa [htable] using hpending
        obtain ⟨timer, hafter, -⟩ := h.pending e' (by simp [htable])
        have hcancel := h.toTimers.afterCancel timer
        have hempty : (s.unsetTag s.name).bcnetsockcallback = [] := by
          simp [Session.unsetTag, htable, hsock, htag]
        simp only [hafter]
        refine Timers.timed_of_idle ⟨hcancel.fresh, hcancel.health, hcancel.apart, ?_,
          hcancel.queued, ?_⟩ hempty
        · intro t ht hmessage
          obtain ⟨hmem, hleft⟩ := List.mem_filter.mp ht
          obtain ⟨e, he, hsame⟩ := h.covered t hmem hmessage
          obtain rfl : e = e' := by simpa [htable] using he
          rw [hafter] at hsame
          simp [Option.some_inj.mp hsame] at hleft
        · intro e he
          have hmem : e ∈ (s.unsetTag s.name).bcnetsockcallback := he
          simp [hempty] at hmem

theorem Timed.netProcessMsg (h : Timed s) (inv : Inv s) (input : Input) (writes : Bool) :
    Timed (netProcessMsg input writes s).1 := by
  have hreceived : ∀ header, Timed (s.received header) := fun header => by
    unfold Session.received
    split
    · exact h.congr rfl rfl rfl rfl rfl
    · exact h
  have hclosed : ∀ {t : Session}, Timed t → Inv t →
      Timed (closeUnread input t) ∧ Inv (closeUnread input t) := by
    intro t ht hinv
    unfold closeUnread
    split
    · exact ⟨ht.toTimers.netClose hinv, hinv.netClose⟩
    · exact ⟨ht, hinv⟩
  unfold BladeCenter.netProcessMsg
  split
  · exact h
  split
  · exact h
  split
  · exact h.toTimers.netClose inv
  split
  · exact h.congr rfl rfl rfl rfl rfl
  split
  · obtain ⟨ht, hinv⟩ := hclosed h inv
    exact ht.toTimers.netClose hinv
  · rename_i header _
    obtain ⟨ht, hinv⟩ := hclosed (hreceived header) (inv.received header).1
    exact ht.processReply hinv header _ _ writes

theorem Timed.netOpen (h : Timed s) (inv : Inv s) (connect : Option Handshake) (writes : Bool)
    (named : ∀ c ∈ connect, c.sock ≠ 0) : Timed (netOpen connect writes s) := by
  unfold BladeCenter.netOpen
  split
  · exact h
  split
  · exact h
  rename_i hsock
  have hclosed : s.sock = 0 := by simpa using hsock
  have hnamed := openResult_named named
  cases hresult : openResult connect with
  | socketFailed => exact h
  | refused sock =>
      have hopened : Timed { s with sock := sock, netStatus := .opening } :=
        h.congr rfl rfl rfl rfl rfl
      exact hopened.toTimers.netClose
        (inv.opened hclosed (hnamed sock (by rw [hresult]; rfl)) (.inl rfl) _ _)
  | raised sock => exact h.congr rfl rfl rfl rfl rfl
  | loggedIn sock =>
      have hopened : Timed { s with
          sock := sock, netStatus := .connected, link := true, fileevent := true } :=
        h.congr rfl rfl rfl rfl rfl
      simp only
      split
      · exact hopened.netWriteMsg
          (inv.opened hclosed (hnamed sock (by rw [hresult]; rfl)) (.inr rfl) true true) writes
      · exact hopened

/-- The health check replaces its own timer and no other. -/
theorem Timed.restartHealth (h : Timed s) : Timed s.restartHealth := by
  have hold : ∀ t ∈ s.restartHealth.afters, t ∈ s.afters ∨ t = (s.nextAfter, .netHealth) := by
    intro t ht
    obtain hold | hnew := List.mem_append.mp ht
    · exact .inl (List.mem_of_mem_filter hold)
    · exact .inr (List.mem_singleton.mp hnew)
  refine ⟨⟨?_, Nat.lt_succ_self _, ?_, ?_, h.queued, h.sent⟩, ?_⟩
  · intro t ht
    obtain hmem | rfl := hold t ht
    · exact (h.fresh t hmem).trans (Nat.lt_succ_self _)
    · exact Nat.lt_succ_self _
  · intro t ht hmessage
    obtain hmem | rfl := hold t ht
    · exact (h.fresh t hmem).ne
    · exact absurd hmessage (by simp)
  · intro t ht hmessage
    obtain hmem | rfl := hold t ht
    · exact h.covered t hmem hmessage
    · exact absurd hmessage (by simp)
  · intro e he
    obtain ⟨timer, hafter, hmem⟩ := h.pending e he
    refine ⟨timer, hafter, List.mem_append_left _ (List.mem_filter.mpr ⟨hmem, ?_⟩)⟩
    simpa using h.apart _ hmem rfl

theorem Timed.netHealth (h : Timed s) (inv : Inv s) (connect : Option Handshake) (writes : Bool)
    (named : ∀ c ∈ connect, c.sock ≠ 0) : Timed (netHealth connect writes s) := by
  have hidle : ∀ count, Timed { s.restartHealth with netIdleCount := count } := fun count =>
    h.restartHealth.congr rfl rfl rfl rfl rfl
  have hinv : ∀ count, Inv { s.restartHealth with netIdleCount := count } := fun count =>
    inv.restartHealth.congr rfl rfl rfl rfl rfl rfl rfl
  unfold BladeCenter.netHealth
  split
  · refine ⟨h.toTimers.afterCancel _, fun e he => ?_⟩
    obtain ⟨timer, hafter, hmem⟩ := h.pending e he
    exact ⟨timer, hafter, List.mem_filter.mpr ⟨hmem, by simpa using h.apart _ hmem rfl⟩⟩
  · simp only
    split
    · exact h.restartHealth.netOpen inv.restartHealth connect writes named
    · exact h.restartHealth.netOpen inv.restartHealth connect writes named
    · exact h.restartHealth
    · split
      · exact h.restartHealth.netWriteMsg inv.restartHealth writes
      · split
        · exact (hidle _).sendMsg (hinv _) 2 [15, 5, 11] [] "" 3 writes
        · exact hidle _
    · exact h.restartHealth.toTimers.netClose inv.restartHealth
    · exact h.restartHealth.toTimers.netClose inv.restartHealth

theorem Timed.handle (h : Timed s) (inv : Inv s) {event : Event} (admits : admissible s event) :
    Timed (handle s event).1 := by
  cases event with
  | send type cmd databytes callback priority writes =>
      exact h.sendMsg inv type cmd databytes callback priority writes
  | readable input writes => exact h.netProcessMsg inv input writes
  | netMsgTimeout timer =>
      exact (h.toTimers.afterCancel timer).netClose (inv.afterCancel timer)
  | netHealth connect writes =>
      refine h.netHealth inv connect writes fun c hc => ?_
      obtain rfl := hc
      exact admits
  | network on => exact h.congr rfl rfl rfl rfl rfl
  | pause on => exact h.congr rfl rfl rfl rfl rfl

/-! ## Waiting -/

/-- Messages wait on a connected session with nothing in progress. -/
def Session.Stalled (s : Session) : Prop :=
  s.network = true ∧ s.netStatus = .connected ∧ s.msgq ≠ [] ∧ s.bcnetsockcallback = []

instance (s : Session) : Decidable s.Stalled :=
  inferInstanceAs (Decidable (s.network = true ∧ s.netStatus = .connected ∧ s.msgq ≠ [] ∧
    s.bcnetsockcallback = []))

theorem netClose_not_stalled (inv : Inv s) : ¬ (netClose s).Stalled := by
  intro hstalled
  rw [Session.Stalled, (netClose_carried inv).2.2] at hstalled
  simp at hstalled

theorem netWriteMsg_not_stalled (inv : Inv s) (writes : Bool) :
    ¬ (netWriteMsg writes s).Stalled := by
  obtain ⟨hready, hwrite⟩ | ⟨htable, hwrite⟩ | ⟨hready, htable, item, rest, hnext, hwrite⟩ :=
    netWriteMsg_cases inv writes
  · rw [hwrite]
    exact fun hstalled => hready ⟨hstalled.1, hstalled.2.2.1, hstalled.2.1⟩
  · rw [hwrite]
    exact fun hstalled => htable hstalled.2.2.2
  · rw [hwrite]
    have hinv := inv.sendFirst (inv.sock (.inr hready.2.2)) htable hnext writes
    cases writes with
    | true =>
        intro hstalled
        have hnone := hstalled.2.2.2
        simp only [Session.sendFirst, Session.written, if_true, Session.enter, Session.after]
          at hnone
        split at hnone
        · simp at hnone
        · simp at hnone
    | false =>
        have henter : Inv ({ s with msgq := sort Item.priority s.msgq }.enter item rest) := by
          refine inv.sortMsgq.enter htable (inv.sock (.inr hready.2.2)) ?_
          rw [sort_eq_self _ (sort_sorted _ _), hnext]
        exact netClose_not_stalled henter

/-- A message that is put on the queue is sent, unless others wait already. -/
theorem sendMsg_not_stalled (inv : Inv s) (moves : ¬ s.Stalled) (type : ℤ) (cmd : DotCmd)
    (databytes : Bytes) (callback : String) (priority : ℤ) (writes : Bool) :
    ¬ (sendMsg type cmd databytes callback priority writes s).Stalled := by
  unfold sendMsg
  split
  · exact moves
  · unfold netSendMsg netSendItemWith
    split_ifs with hnetwork hfirst
    · rintro ⟨hon, -⟩
      exact absurd hon (by simp [Session.emit, hnetwork])
    · exact netWriteMsg_not_stalled (inv.post rfl) writes
    · rintro ⟨hon, hconnected, -, htable⟩
      refine moves ⟨hon, hconnected, ?_, htable⟩
      rintro hempty
      exact hfirst (by simp [Session.post, insertAt, hempty])

theorem processReply_not_stalled (inv : Inv s) (moves : ¬ s.Stalled) (header : Header)
    (databytes : Bytes) (owner : Option Item) (writes : Bool)
    (ends : (processReply header databytes owner writes s).2 = none) :
    ¬ (processReply header databytes owner writes s).1.Stalled := by
  unfold processReply at ends ⊢
  split_ifs at ends ⊢
  · exact moves
  · exact netClose_not_stalled inv
  · exact moves
  · split
    · exact netWriteMsg_not_stalled inv writes
    · rename_i e hpending
      rw [hpending] at ends
      exact absurd ends (by simp)

theorem netProcessMsg_not_stalled (inv : Inv s) (moves : ¬ s.Stalled) (input : Input)
    (writes : Bool) (ends : (netProcessMsg input writes s).2 = none) :
    ¬ (netProcessMsg input writes s).1.Stalled := by
  have hreceived : ∀ header, ¬ (s.received header).Stalled := fun header => by
    unfold Session.received
    split
    · exact moves
    · exact moves
  have hclosed : ∀ {t : Session}, Inv t → ¬ t.Stalled →
      ¬ (closeUnread input t).Stalled ∧ Inv (closeUnread input t) := by
    intro t hinv ht
    unfold closeUnread
    split
    · exact ⟨netClose_not_stalled hinv, hinv.netClose⟩
    · exact ⟨ht, hinv⟩
  unfold netProcessMsg at ends ⊢
  split
  · exact moves
  split
  · exact moves
  split
  · exact netClose_not_stalled inv
  split
  · exact moves
  split
  · exact netClose_not_stalled (hclosed inv moves).2
  · rename_i hpause hnetwork herror _ line hline _ header hheader
    obtain ⟨ht, hinv⟩ := hclosed (inv.received header).1 (hreceived header)
    rw [if_neg hpause, if_neg hnetwork, if_neg herror, hline] at ends
    simp only [hheader] at ends
    exact processReply_not_stalled hinv ht header _ _ writes ends

theorem netOpen_not_stalled (inv : Inv s) (moves : ¬ s.Stalled) (connect : Option Handshake)
    (writes : Bool) (named : ∀ c ∈ connect, c.sock ≠ 0) :
    ¬ (netOpen connect writes s).Stalled := by
  unfold netOpen
  split
  · exact moves
  split
  · exact moves
  rename_i hsock
  have hclosed : s.sock = 0 := by simpa using hsock
  have hnamed := openResult_named named
  cases hresult : openResult connect with
  | socketFailed => exact moves
  | refused sock =>
      exact netClose_not_stalled
        (inv.opened hclosed (hnamed sock (by rw [hresult]; rfl)) (.inl rfl) _ _)
  | raised sock =>
      intro hstalled
      exact absurd hstalled.2.1 (by simp)
  | loggedIn sock =>
      simp only
      split
      · exact netWriteMsg_not_stalled
          (inv.opened hclosed (hnamed sock (by rw [hresult]; rfl)) (.inr rfl) true true) writes
      · rename_i hempty
        exact fun hstalled => hempty hstalled.2.2.1

theorem netHealth_not_stalled (inv : Inv s) (moves : ¬ s.Stalled) (connect : Option Handshake)
    (writes : Bool) (named : ∀ c ∈ connect, c.sock ≠ 0) :
    ¬ (netHealth connect writes s).Stalled := by
  have hinv : ∀ count, Inv { s.restartHealth with netIdleCount := count } := fun count =>
    inv.restartHealth.congr rfl rfl rfl rfl rfl rfl rfl
  unfold netHealth
  split
  · exact moves
  · simp only
    split
    · exact netOpen_not_stalled inv.restartHealth moves connect writes named
    · exact netOpen_not_stalled inv.restartHealth moves connect writes named
    · exact moves
    · split
      · exact netWriteMsg_not_stalled inv.restartHealth writes
      · split
        · exact sendMsg_not_stalled (hinv _) moves 2 [15, 5, 11] [] "" 3 writes
        · exact moves
    · exact netClose_not_stalled inv.restartHealth
    · exact netClose_not_stalled inv.restartHealth

/-- The event is not a switch of the network. -/
def NoSwitch (_ : Session) : Event → Prop
  | .network _ => False
  | _ => True

instance (s : Session) : DecidablePred (NoSwitch s)
  | .network _ => isFalse not_false
  | .send _ _ _ _ _ _ | .readable _ _ | .netMsgTimeout _ | .netHealth _ _ | .pause _ =>
    isTrue trivial

/-- A handler that has run to its end leaves no message waiting without need. -/
theorem handle_not_stalled (inv : Inv s) (moves : ¬ s.Stalled) {event : Event}
    (admits : admissible s event) (keeps : NoSwitch s event)
    (ends : (handle s event).2 = none) : ¬ (handle s event).1.Stalled := by
  cases event with
  | send type cmd databytes callback priority writes =>
      exact sendMsg_not_stalled inv moves type cmd databytes callback priority writes
  | readable input writes => exact netProcessMsg_not_stalled inv moves input writes ends
  | netMsgTimeout timer => exact netClose_not_stalled (inv.afterCancel timer)
  | netHealth connect writes =>
      refine netHealth_not_stalled inv moves connect writes fun c hc => ?_
      obtain rfl := hc
      exact admits
  | network on => exact absurd keeps id
  | pause on => exact moves

/-! ## Runs -/

variable {happenings : List (Happening Event)}

theorem Session.Fresh.timed (h : s.Fresh) (health : s.netHealthAfter < s.nextAfter) : Timed s :=
  Timers.timed_of_idle ⟨by simp [h.afters], health, by simp [h.afters], by simp [h.afters],
    by simp [h.msgq], by simp [h.table]⟩ h.table

theorem step_timed {t : Suspended Session Frame} {happening : Happening Event}
    (h : Timed t.state) (inv : Inv t.state)
    (admits : reentrant.machine.admissible t happening) :
    Timed (reentrant.machine.step t happening).state := by
  cases happening with
  | occurs event => exact h.handle inv admits
  | returns =>
      obtain ⟨state, stack⟩ := t
      cases stack with
      | nil => exact h
      | cons frame stack => exact h.netWriteMsg inv frame.writes

end Amester.BladeCenter
