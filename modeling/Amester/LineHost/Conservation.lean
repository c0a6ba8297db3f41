/-
# What the line protocol hosts lose and repeat

A request is entered into `sockcallback` when it is sent, but replies and closes
work on `netsockcallback`, which nothing ever fills. So a handled reply leaves
its entry behind and a close puts nothing back. The result here says that these
are the only ways to break the books: they balance in exactly the runs in which
no reply finds an entry, no write fails, and no connection closes with a
message in flight.
-/

import Amester.Lib.EventMachine
import Amester.LineHost.Session

namespace Amester.LineHost

open PriorityQueue EventMachine

universe u

variable {κ : Type u}

/-! ## The tables -/

/-- The messages sent on the current socket whose entry is in the table. -/
def State.inflight (s : State κ) : List (LineItem κ) :=
  (s.sockcallback.filter fun e => e.sock = s.sock).map LineEntry.toLineItem

/-- Where the accepted requests are: waiting, in flight, replied to. -/
def State.places (s : State κ) : List (LineItem κ) := s.msgq ++ s.inflight ++ s.replied

/-- What holds of the two arrays and the socket as long as no connection closes
with a message in flight. -/
structure Tables (s : State κ) : Prop where
  network : s.network = true
  netsockcallback : s.netsockcallback = []
  sockcallback : ∀ e ∈ s.sockcallback, e.sock = s.sock
  closed : s.sock = 0 → s.sockcallback = []
  connected : s.status = .connected → s.sock ≠ 0
  idle : s.status = .disconnected ∨ s.status = .closed → s.sock = 0

theorem Tables.inflight_eq {s : State κ} (h : Tables s) :
    s.inflight = s.sockcallback.map LineEntry.toLineItem := by
  have hall : s.sockcallback.filter (fun e => e.sock = s.sock) = s.sockcallback :=
    List.filter_eq_self.mpr fun e he => by simp [h.sockcallback e he]
  rw [State.inflight, hall]

/-- Changes to timers and to the log do not concern the tables. -/
theorem Tables.congr {s t : State κ} (h : Tables s) (network : t.network = s.network)
    (net : t.netsockcallback = s.netsockcallback) (table : t.sockcallback = s.sockcallback)
    (sock : t.sock = s.sock) (connected : t.status = .connected → s.status = .connected)
    (idle : t.status = .disconnected ∨ t.status = .closed →
      s.status = .disconnected ∨ s.status = .closed) : Tables t where
  network := network.trans h.network
  netsockcallback := net.trans h.netsockcallback
  sockcallback := by
    rw [table, sock]
    exact h.sockcallback
  closed := by
    rw [table, sock]
    exact h.closed
  connected hconnected := by
    rw [sock]
    exact h.connected (connected hconnected)
  idle hidle := by
    rw [sock]
    exact h.idle (idle hidle)

theorem places_congr {s t : State κ} (msgq : t.msgq = s.msgq)
    (table : t.sockcallback = s.sockcallback) (sock : t.sock = s.sock)
    (effects : t.effects = s.effects) : t.places = s.places := by
  simp only [State.places, State.inflight, State.replied, msgq, table, sock, effects]

/-! ## Closing -/

/-- A close on an open socket reposts nothing, since nothing is in the array it
reposts from. -/
theorem closeSock_eq {s : State κ} (h : Tables s) (sock : s.sock ≠ 0) :
    ∃ afters, closeSock s = { s with status := .closed, sock := 0, afters := afters } := by
  have hnone : s.netsockcallback.filter (fun e => e.sock = s.sock) = [] := by
    simp [h.netsockcallback]
  exact ⟨_, by rw [closeSock, if_neg sock, hnone, repostAll]; rfl⟩

/-- A close with nothing in flight keeps the tables and the places. -/
theorem closeSock_keeps {s : State κ} (h : Tables s)
    (empty : s.sock ≠ 0 → s.inflight = []) :
    Tables (closeSock s) ∧ (closeSock s).places = s.places := by
  by_cases sock : s.sock = 0
  · rw [closeSock, if_pos sock]
    exact ⟨{ h with connected := nofun, idle := fun _ => sock },
      places_congr rfl rfl rfl rfl⟩
  · obtain ⟨afters, hclose⟩ := closeSock_eq h sock
    have htable : s.sockcallback = [] := by
      have hempty := empty sock
      rw [h.inflight_eq] at hempty
      exact List.map_eq_nil_iff.mp hempty
    rw [hclose]
    refine ⟨⟨h.network, h.netsockcallback, ?_, fun _ => htable, nofun, fun _ => rfl⟩, ?_⟩
    · simp [htable]
    · simp [State.places, State.inflight, State.replied, htable]

/-- A close on an open socket leaves the queue as it was and nothing in flight. -/
theorem closeSock_loses {s : State κ} (h : Tables s) (sock : s.sock ≠ 0) :
    (closeSock s).msgq = s.msgq ∧ (closeSock s).inflight = [] ∧
      (closeSock s).replied = s.replied := by
  obtain ⟨afters, hclose⟩ := closeSock_eq h sock
  rw [hclose]
  refine ⟨rfl, ?_, rfl⟩
  have hnone : s.sockcallback.filter (fun e => e.sock = 0) = [] :=
    List.filter_eq_nil_iff.mpr fun e he => by simp [h.sockcallback e he, sock]
  simp [State.inflight, hnone]

/-! ## Writing -/

/-- `writeMsg` will take a message off the queue. -/
def State.Writes (s : State κ) : Prop :=
  s.network = true ∧ s.status = .connected ∧
    ∃ item rest, sort LineItem.priority s.msgq = item :: rest ∧
      (s.pending item.tag).isSome = false

/-- Starting a timer changes no entry but its timer. -/
theorem startTimer_inflight (s : State κ) (tag : String) :
    (s.startTimer tag).inflight = s.inflight := by
  simp only [State.inflight, State.startTimer]
  induction s.sockcallback with
  | nil => rfl
  | cons e table ih =>
      by_cases htag : e.sock = s.sock ∧ e.tag = tag
      · by_cases hsock : e.sock = s.sock <;> simp_all
      · by_cases hsock : e.sock = s.sock <;> simp_all

theorem Tables.startTimer {s : State κ} (h : Tables s) (tag : String) :
    Tables (s.startTimer tag) where
  network := h.network
  netsockcallback := h.netsockcallback
  sockcallback e he := by
    obtain ⟨e', he', rfl⟩ := List.mem_map.mp he
    have hsock := h.sockcallback e' he'
    split
    · exact hsock
    · exact hsock
  closed hsock := by
    simp [State.startTimer, h.closed hsock]
  connected := h.connected
  idle := h.idle

/-- Entering the first message of a queue into the table. -/
theorem Tables.enterMessage {s : State κ} (h : Tables s) (sock : s.sock ≠ 0)
    {item : LineItem κ} {rest : List (LineItem κ)} (msgq : s.msgq = item :: rest) :
    Tables (s.enterMessage item rest) ∧
      (s.enterMessage item rest).inflight = s.inflight ++ [item] ∧
      (s.enterMessage item rest).places.Perm s.places := by
  have hinflight : (s.enterMessage item rest).inflight = s.inflight ++ [item] := by
    simp [State.inflight, State.enterMessage]
    rfl
  refine ⟨?_, hinflight, ?_⟩
  · refine { h with sockcallback := ?_, closed := fun hzero => absurd hzero sock }
    intro e he
    obtain hold | hnew := List.mem_append.mp he
    · exact h.sockcallback e hold
    · obtain rfl := List.mem_singleton.mp hnew
      rfl
  · have hreplied : (s.enterMessage item rest).replied = s.replied := rfl
    have hmsgq : (s.enterMessage item rest).msgq = rest := rfl
    rw [State.places, State.places, hinflight, hreplied, hmsgq, msgq]
    refine List.Perm.append_right _ ?_
    rw [← List.append_assoc]
    exact List.perm_append_singleton item (rest ++ s.inflight)

/-- Writing when nothing can be written only sorts the queue. -/
theorem writeMsg_of_not_writes {s : State κ} (idle : ¬ s.Writes) (written : Bool) :
    ∃ msgq, msgq.Perm s.msgq ∧ writeMsg written s = { s with msgq := msgq } := by
  unfold writeMsg writeMsgWith
  split_ifs with hnetwork hmsgq hstatus
  · exact ⟨s.msgq, List.Perm.refl _, rfl⟩
  · exact ⟨s.msgq, List.Perm.refl _, rfl⟩
  · exact ⟨s.msgq, List.Perm.refl _, rfl⟩
  · refine ⟨sort LineItem.priority s.msgq, sort_perm _ _, ?_⟩
    cases hsort : sort LineItem.priority s.msgq with
    | nil => rfl
    | cons item rest =>
        have hpending : (s.pending item.tag).isSome = true := by
          by_contra hnone
          exact idle ⟨by simpa using hnetwork, by simpa using hstatus, item, rest, hsort,
            by simpa using hnone⟩
        have hsame : ({ s with msgq := item :: rest } : State κ).pending item.tag =
            s.pending item.tag := rfl
        rw [writeFirst, if_pos (by rw [hsame]; exact hpending)]

/-- What a write that can be made comes to: the first message of the sorted queue
is entered, and then sent or lost. -/
theorem writeMsg_of_writes {s : State κ} (writes : s.Writes) (written : Bool) :
    ∃ item rest, (item :: rest).Perm s.msgq ∧
      writeMsg written s =
        if written then
          if item.timeout ≠ 0 then
            (({ s with msgq := item :: rest }.enterMessage item rest).emit
              (.sent item)).startTimer item.tag
          else ({ s with msgq := item :: rest }.enterMessage item rest).emit (.sent item)
        else closeSock ({ s with msgq := item :: rest }.enterMessage item rest) := by
  obtain ⟨hnetwork, hstatus, item, rest, hsort, hpending⟩ := writes
  have hperm : (item :: rest).Perm s.msgq := hsort ▸ sort_perm LineItem.priority s.msgq
  have hmsgq : s.msgq ≠ [] := by
    rintro hempty
    simp [hempty] at hperm
  refine ⟨item, rest, hperm, ?_⟩
  have hsame : ({ s with msgq := item :: rest } : State κ).pending item.tag =
      s.pending item.tag := rfl
  rw [writeMsg, writeMsgWith, if_neg (by simp [hnetwork]), if_neg hmsgq,
    if_neg (by simp [hstatus]), hsort, writeFirst, if_neg (by rw [hsame, hpending]; decide)]

/-- A write that succeeds, or that has nothing to write, keeps the tables and
only moves messages between the places. -/
theorem writeMsg_keeps {s : State κ} (h : Tables s) {written : Bool}
    (succeeds : s.Writes → written = true) :
    Tables (writeMsg written s) ∧ (writeMsg written s).places.Perm s.places := by
  by_cases hwrites : s.Writes
  · obtain ⟨item, rest, hperm, hwrite⟩ := writeMsg_of_writes hwrites written
    have hsorted : Tables { s with msgq := item :: rest } :=
      h.congr rfl rfl rfl rfl id id
    have hplaces : ({ s with msgq := item :: rest } : State κ).places.Perm s.places := by
      simp only [State.places]
      exact (hperm.append_right _).append_right _
    obtain ⟨htables, hinflight, hmoved⟩ :=
      hsorted.enterMessage (h.connected hwrites.2.1) rfl
    have hsent : Tables (({ s with msgq := item :: rest }.enterMessage item rest).emit
        (.sent item)) := htables.congr rfl rfl rfl rfl id id
    have hreplied : (({ s with msgq := item :: rest }.enterMessage item rest).emit
        (.sent item)).replied = ({ s with msgq := item :: rest } : State κ).replied := by
      simp [State.replied, State.emit, Effect.replied?, State.enterMessage]
    have hsentPlaces : (({ s with msgq := item :: rest }.enterMessage item rest).emit
        (.sent item)).places.Perm s.places := by
      refine List.Perm.trans ?_ (hmoved.trans hplaces)
      simp only [State.places, hreplied]
      exact List.Perm.refl _
    rw [hwrite, succeeds hwrites, if_pos rfl]
    split
    · refine ⟨hsent.startTimer item.tag, ?_⟩
      simp only [State.places, startTimer_inflight]
      exact hsentPlaces
    · exact ⟨hsent, hsentPlaces⟩
  · obtain ⟨msgq, hperm, hwrite⟩ := writeMsg_of_not_writes hwrites written
    rw [hwrite]
    refine ⟨h.congr rfl rfl rfl rfl id id, ?_⟩
    simp only [State.places]
    exact (hperm.append_right _).append_right _

/-- A write that fails loses the message and everything in flight. -/
theorem writeMsg_fails {s : State κ} (h : Tables s) (writes : s.Writes) :
    (writeMsg false s).places.length + s.inflight.length + 1 = s.places.length := by
  obtain ⟨item, rest, hperm, hwrite⟩ := writeMsg_of_writes writes false
  have hsorted : Tables { s with msgq := item :: rest } := h.congr rfl rfl rfl rfl id id
  have hsock := h.connected writes.2.1
  obtain ⟨htables, -, -⟩ := hsorted.enterMessage hsock rfl
  obtain ⟨hmsgq, hinflight, hreplied⟩ := closeSock_loses htables hsock
  have hlength := hperm.length_eq
  have hrest : ({ s with msgq := item :: rest }.enterMessage item rest).msgq = rest := rfl
  have hsame : ({ s with msgq := item :: rest }.enterMessage item rest).replied =
      s.replied := rfl
  rw [hwrite, if_neg (by simp), State.places, hmsgq, hinflight, hreplied, hrest, hsame]
  simp only [State.places, List.append_nil, List.length_append, List.length_cons] at hlength ⊢
  omega

/-- The places balance after a write exactly when it does not fail. -/
theorem writeMsg_perm_iff {s : State κ} (h : Tables s) {accepted : List (LineItem κ)}
    (balanced : accepted.Perm s.places) (written : Bool) :
    accepted.Perm (writeMsg written s).places ↔ (s.Writes → written = true) := by
  constructor
  · intro hperm hwrites
    cases written with
    | true => rfl
    | false =>
        have hfails := writeMsg_fails h hwrites
        have hbefore := balanced.length_eq
        have hafter := hperm.length_eq
        omega
  · intro hsucceeds
    exact balanced.trans (writeMsg_keeps h hsucceeds).2.symm

/-! ## Replies -/

/-- Running a callback is one more place. -/
theorem reply_places {s : State κ} (c : LineClass) (e : LineEntry κ) (reply tag : String) :
    ((s.reply c e reply).unsetNet tag).places = s.places ++ [e.toLineItem] ∧
      ((s.reply c e reply).unsetNet tag).inflight = s.inflight := by
  unfold State.reply
  cases e.after <;>
    simp [State.places, State.inflight, State.replied, State.unsetNet, State.emit,
      State.afterCancel, Effect.replied?]

theorem Tables.reply {s : State κ} (h : Tables s) (c : LineClass) (e : LineEntry κ)
    (reply tag : String) : Tables ((s.reply c e reply).unsetNet tag) := by
  have hnet : ((s.reply c e reply).unsetNet tag).netsockcallback = [] := by
    unfold State.reply
    cases e.after <;> simp [State.unsetNet, State.emit, State.afterCancel, h.netsockcallback]
  unfold State.reply at hnet ⊢
  cases hafter : e.after <;> simp only [hafter] at hnet ⊢
  · exact ⟨h.network, hnet, h.sockcallback, h.closed, h.connected, h.idle⟩
  · exact ⟨h.network, hnet, h.sockcallback, h.closed, h.connected, h.idle⟩

/-- A handled reply never balances: its entry stays in the table, or is lost with
the connection. -/
theorem reply_breaks {s : State κ} (h : Tables s) {accepted : List (LineItem κ)}
    (balanced : accepted.Perm s.places) {tag : String} {e : LineEntry κ}
    (pending : s.pending tag = some e) (c : LineClass) (reply : String) (written : Bool) :
    ¬ accepted.Perm (writeMsg written ((s.reply c e reply).unsetNet tag)).places := by
  intro hperm
  obtain ⟨hplaces, hinflight⟩ := reply_places (s := s) c e reply tag
  have htables := h.reply c e reply tag
  have hmem : e.toLineItem ∈ s.inflight := by
    rw [h.inflight_eq]
    exact List.mem_map_of_mem (List.mem_of_find?_eq_some pending)
  have hpositive : 0 < s.inflight.length := List.length_pos_of_mem hmem
  have hbefore := balanced.length_eq
  have hafter := hperm.length_eq
  by_cases hsucceeds : ((s.reply c e reply).unsetNet tag).Writes → written = true
  · have hkept := (writeMsg_keeps htables hsucceeds).2.length_eq
    rw [hplaces, List.length_append, List.length_singleton] at hkept
    omega
  · obtain ⟨hwrites, hfailed⟩ := Classical.not_imp.mp hsucceeds
    obtain rfl : written = false := by simpa using hfailed
    have hfails := writeMsg_fails htables hwrites
    rw [hplaces, hinflight, List.length_append, List.length_singleton] at hfails
    omega

/-! ## Runs

The environment sends messages, delivers lines, lets timers fire and breaks the
connection at any point, while traffic is on. -/

/-- A session together with the requests it has accepted. -/
structure World (κ : Type u) where
  session : State κ := {}
  accepted : List (LineItem κ) := []

/-- What the event loop can call next. `written` says whether a write that is
made succeeds. -/
inductive Event (κ : Type u)
  | sendMsg (r : LineRequest κ) (written : Bool)
  | processMsg (input : Input) (written : Bool)
  | msgTimeout (tag : String)
  | closeSock
  | openTimeout
  | openCallback (connects written : Bool)
  | checkSocketStatus
  | health (sock : Option ℕ) (written : Bool)
  | pause (on : Bool)
  /-- Another object of the class takes a tag number. -/
  | tagTaken

def World.step (c : LineClass) (w : World κ) : Event κ → World κ
  | .sendMsg r written =>
    ⟨sendMsg written r w.session, w.session.lineItem r :: w.accepted⟩
  | .processMsg input written => { w with session := processMsg c input written w.session }
  | .msgTimeout tag => { w with session := msgTimeout tag w.session }
  | .closeSock => { w with session := closeSock w.session }
  | .openTimeout => { w with session := openTimeout w.session }
  | .openCallback connects written =>
    { w with session := openCallback connects written w.session }
  | .checkSocketStatus => { w with session := checkSocketStatus w.session }
  | .health sock written => { w with session := health sock written w.session }
  | .pause on => { w with session := { w.session with pause := on } }
  | .tagTaken => { w with session := { w.session with tagid := w.session.tagid + 1 } }

/-- Sockets have names, and only an open one becomes readable. -/
def World.admissible (c : LineClass) (w : World κ) : Event κ → Prop
  | .processMsg _ _ | .openCallback _ _ => w.session.sock ≠ 0
  | .health sock _ => sock ≠ some 0
  | .tagTaken => c.sharesTags
  | .sendMsg _ _ | .msgTimeout _ | .closeSock | .openTimeout | .checkSocketStatus
  | .pause _ => True

instance (c : LineClass) (w : World κ) : DecidablePred (w.admissible c)
  | .processMsg _ _ | .openCallback _ _ => inferInstanceAs (Decidable (w.session.sock ≠ 0))
  | .health sock _ => inferInstanceAs (Decidable (sock ≠ some 0))
  | .tagTaken => inferInstanceAs (Decidable (c.sharesTags = true))
  | .sendMsg _ _ | .msgTimeout _ | .closeSock | .openTimeout | .checkSocketStatus
  | .pause _ => isTrue trivial

def machine (c : LineClass) (κ : Type u) : Machine (World κ) (Event κ) :=
  ⟨World.admissible c, World.step c⟩

instance (c : LineClass) (w : World κ) : DecidablePred ((machine c κ).admissible w) :=
  inferInstanceAs (DecidablePred (w.admissible c))

/-- The event closes an open connection. -/
def Event.Closes (s : State κ) : Event κ → Prop
  | .processMsg .failed _ => s.pause = false ∧ s.sock ≠ 0
  | .msgTimeout tag => s.sock ≠ 0 ∧ ∃ e, s.pending tag = some e ∧ e.after.isSome
  | .closeSock => s.sock ≠ 0
  | .openCallback false _ => s.sock ≠ 0
  | .health _ _ =>
    s.healthPeriod ≠ 0 ∧ (s.status = .timeout ∨ s.status = .error) ∧ s.sock ≠ 0
  | _ => False

/-- The event handles a reply to a message in flight. -/
def Event.Handles (s : State κ) (e : LineEntry κ) : Event κ → Prop
  | .processMsg (.line tag _) _ => s.pause = false ∧ tag ≠ "#" ∧ s.pending tag = some e
  | _ => False

/-- The state in which the event calls `writeMsg`, if it does and no reply is
handled, and whether a write succeeds there. -/
def Event.writing (s : State κ) : Event κ → Option (State κ × Bool)
  | .sendMsg r written =>
    if (s.enqueueMessage .back r).msgq.length = 1 then some (s.enqueueMessage .back r, written)
    else none
  | .processMsg (.line tag _) written =>
    if s.pause = false ∧ tag = "#" then some (s, written) else none
  | .openCallback true written =>
    if s.msgq ≠ [] then some ({ s.afterCancel s.afterTimeout with status := .connected }, written)
    else none
  | .health _ written =>
    if s.healthPeriod ≠ 0 ∧ s.status = .connected ∧ s.msgq ≠ [] then
      some (s.restartHealth, written)
    else none
  | _ => none

/-- What a step should do. -/
structure Kept (c : LineClass) (w : World κ) (event : Event κ) : Prop where
  /-- The accepted requests are waiting, in flight or replied to, each once. -/
  conserved : (w.step c event).accepted.Perm (w.step c event).session.places
  /-- A close puts every message in flight back on the queue, once and as it was. -/
  reposted : event.Closes w.session →
    (w.step c event).session.msgq.Perm (w.session.inflight ++ w.session.msgq)
  /-- After a reply the entry of its tag is free, or taken by a message that was
  waiting. -/
  handled : ∀ e, event.Handles w.session e →
    ∀ e', (w.step c event).session.pending e.tag = some e' → e'.toLineItem ∈ w.session.msgq
  /-- The callback of a request runs once at most. -/
  once : (w.step c event).accepted.Nodup → (w.step c event).session.replied.Nodup

/-- When a step does it. -/
structure Condition (w : World κ) (event : Event κ) : Prop where
  /-- No connection closes with a message in flight. -/
  closes : event.Closes w.session → w.session.inflight = []
  /-- No reply finds the entry of a message. -/
  handles : ∀ e, ¬ event.Handles w.session e
  /-- No write fails. -/
  writes : ∀ t written, event.writing w.session = some (t, written) → t.Writes → written = true

/-- The invariant of the runs that satisfy the condition. -/
structure Inv (w : World κ) : Prop where
  tables : Tables w.session
  balanced : w.accepted.Perm w.session.places

/-! ## The steps -/

/-- The four shapes of a step: a reply is handled, a write is tried, an open
connection is closed, or nothing happens that could break the books. -/
inductive StepShape (c : LineClass) (w : World κ) (event : Event κ) : Prop
  | handles (e : LineEntry κ) (reply : String) (written : Bool)
    (handles : event.Handles w.session e) (pending : w.session.pending e.tag = some e)
    (quiet : ¬ event.Closes w.session)
    (session : (w.step c event).session =
      writeMsg written ((w.session.reply c e reply).unsetNet e.tag))
    (accepted : (w.step c event).accepted = w.accepted)
  | writes (t : State κ) (written : Bool) (handles : ∀ e, ¬ event.Handles w.session e)
    (quiet : ¬ event.Closes w.session)
    (writing : event.writing w.session = some (t, written)) (tables : Tables t)
    (balanced : (w.step c event).accepted.Perm t.places)
    (session : (w.step c event).session = writeMsg written t)
  | closes (t : State κ) (handles : ∀ e, ¬ event.Handles w.session e)
    (closes : event.Closes w.session) (writing : event.writing w.session = none)
    (tables : Tables t) (places : t.places = w.session.places)
    (inflight : t.inflight = w.session.inflight) (msgq : t.msgq = w.session.msgq)
    (sock : t.sock ≠ 0) (session : (w.step c event).session = closeSock t)
    (accepted : (w.step c event).accepted = w.accepted)
  | quiet (handles : ∀ e, ¬ event.Handles w.session e) (closes : ¬ event.Closes w.session)
    (writing : event.writing w.session = none) (keeps : Inv (w.step c event))

theorem Tables.restartHealth {s : State κ} (h : Tables s) : Tables s.restartHealth :=
  h.congr rfl rfl rfl rfl id id

theorem sendMsg_shape (c : LineClass) {w : World κ} (h : Inv w) (r : LineRequest κ)
    (written : Bool) : StepShape c w (.sendMsg r written) := by
  have htables : Tables (w.session.enqueueMessage .back r) :=
    h.tables.congr rfl rfl rfl rfl id id
  have hbalanced : (w.session.lineItem r :: w.accepted).Perm
      (w.session.enqueueMessage .back r).places := by
    refine (h.balanced.cons _).trans ?_
    exact ((insertAt_perm .back (w.session.lineItem r) w.session.msgq).symm.append_right
      _).append_right _
  have hsend : sendMsg written r w.session =
      if (w.session.enqueueMessage .back r).msgq.length = 1 then
        writeMsg written (w.session.enqueueMessage .back r)
      else w.session.enqueueMessage .back r := by
    simp [sendMsg, sendMsgWith, h.tables.network, writeMsg]
  by_cases hsingle : (w.session.enqueueMessage .back r).msgq.length = 1
  · refine .writes _ written (fun _ => id) id (by simp [Event.writing, hsingle]) htables
      hbalanced ?_
    change sendMsg written r w.session = _
    rw [hsend, if_pos hsingle]
  · refine .quiet (fun _ => id) id (by simp [Event.writing, hsingle]) ⟨?_, ?_⟩
    · change Tables (sendMsg written r w.session)
      rw [hsend, if_neg hsingle]
      exact htables
    · change (w.session.lineItem r :: w.accepted).Perm (sendMsg written r w.session).places
      rw [hsend, if_neg hsingle]
      exact hbalanced

theorem processMsg_shape (c : LineClass) {w : World κ} (h : Inv w) (sock : w.session.sock ≠ 0)
    (input : Input) (written : Bool) : StepShape c w (.processMsg input written) := by
  by_cases hpause : w.session.pause = true
  · have hsame : w.step c (.processMsg input written) = w := by
      simp [World.step, processMsg, hpause]
    refine .quiet ?_ ?_ ?_ (by rw [hsame]; exact h)
    · cases input <;> simp [Event.Handles, hpause]
    · cases input <;> simp [Event.Closes, hpause]
    · cases input <;> simp [Event.writing, hpause]
  · simp only [Bool.not_eq_true] at hpause
    cases input with
    | failed =>
        refine .closes w.session (fun _ => id) ⟨hpause, sock⟩ rfl h.tables rfl rfl rfl sock ?_ rfl
        simp [World.step, processMsg, hpause]
    | malformed =>
        refine .quiet (fun _ => id) id rfl ?_
        simpa [World.step, processMsg, hpause] using h
    | line tag reply =>
        by_cases hcomment : tag = "#"
        · refine .writes w.session written (by simp [Event.Handles, hcomment]) id
            (by simp [Event.writing, hpause, hcomment]) h.tables h.balanced ?_
          simp [World.step, processMsg, hpause, h.tables.network, hcomment]
        · cases hpending : w.session.pending tag with
          | none =>
              refine .quiet (by simp [Event.Handles, hpending]) id
                (by simp [Event.writing, hcomment]) ?_
              simpa [World.step, processMsg, hpause, h.tables.network, hcomment, hpending]
                using h
          | some e =>
              have htag : e.tag = tag := by
                have hfound := List.find?_some hpending
                simp only [decide_eq_true_eq] at hfound
                exact hfound.2
              subst htag
              refine .handles e reply written ⟨hpause, hcomment, hpending⟩ hpending id ?_ rfl
              simp [World.step, processMsg, hpause, h.tables.network, hcomment, hpending]

/-- Closing a session, after a change that concerns neither tables nor places. -/
theorem closeSock_shape (c : LineClass) {w : World κ} (h : Inv w) {event : Event κ}
    (handles : ∀ e, ¬ event.Handles w.session e) (writing : event.writing w.session = none)
    {t : State κ} (tables : Tables t) (places : t.places = w.session.places)
    (inflight : t.inflight = w.session.inflight) (msgq : t.msgq = w.session.msgq)
    (sock : t.sock = w.session.sock) (closes : event.Closes w.session ↔ w.session.sock ≠ 0)
    (session : (w.step c event).session = closeSock t)
    (accepted : (w.step c event).accepted = w.accepted) : StepShape c w event := by
  by_cases hsock : w.session.sock = 0
  · have hclosed : t.sock = 0 := sock.trans hsock
    obtain ⟨hkept, hplaces⟩ := closeSock_keeps tables fun hopen => absurd hclosed hopen
    refine .quiet handles (by simp [closes, hsock]) writing ⟨?_, ?_⟩
    · rw [session]
      exact hkept
    · rw [session, accepted, hplaces, places]
      exact h.balanced
  · exact .closes t handles (closes.mpr hsock) writing tables places inflight msgq
      (by rw [sock]; exact hsock) session accepted

theorem msgTimeout_shape (c : LineClass) {w : World κ} (h : Inv w) (tag : String) :
    StepShape c w (.msgTimeout tag) := by
  by_cases hfires : ∃ e, w.session.pending tag = some e ∧ e.after.isSome
  · obtain ⟨e, hpending, hafter⟩ := hfires
    refine closeSock_shape c h (fun _ => id) rfl h.tables rfl rfl rfl rfl
      ⟨fun hcloses => hcloses.1, fun hsock => ⟨hsock, e, hpending, hafter⟩⟩ ?_ rfl
    by_cases hsock : w.session.sock = 0 <;>
      simp [World.step, msgTimeout, hsock, hpending, hafter]
  · have hquiet : ¬ (Event.msgTimeout tag).Closes w.session := fun hcloses => hfires hcloses.2
    by_cases hsock : w.session.sock = 0
    · refine closeSock_shape c h (fun _ => id) rfl h.tables rfl rfl rfl rfl
        (by simp [hquiet, hsock]) ?_ rfl
      simp [World.step, msgTimeout, hsock]
    · have hsame : msgTimeout tag w.session = w.session := by
        cases hpending : w.session.pending tag with
        | none => simp [msgTimeout, hpending, hsock]
        | some e =>
            have hafter : ¬ e.after.isSome := fun hafter => hfires ⟨e, hpending, hafter⟩
            simp [msgTimeout, hpending, hafter, hsock]
      refine .quiet (fun _ => id) hquiet rfl ⟨?_, ?_⟩
      · simpa [World.step, hsame] using h.tables
      · simpa [World.step, hsame] using h.balanced

theorem openCallback_shape (c : LineClass) {w : World κ} (h : Inv w)
    (sock : w.session.sock ≠ 0) (connects written : Bool) :
    StepShape c w (.openCallback connects written) := by
  cases connects with
  | false =>
      refine closeSock_shape (t := w.session.afterCancel w.session.afterTimeout) c h
        (fun _ => id) rfl (h.tables.congr rfl rfl rfl rfl id id) rfl rfl rfl rfl Iff.rfl ?_ rfl
      rfl
  | true =>
      have htables : Tables
          { w.session.afterCancel w.session.afterTimeout with status := .connected } :=
        { h.tables with connected := fun _ => sock, idle := nofun }
      by_cases hmsgq : w.session.msgq = []
      · refine .quiet (fun _ => id) id (by simp [Event.writing, hmsgq]) ⟨?_, ?_⟩
        · simpa [World.step, openCallback, hmsgq] using htables
        · simp only [World.step, openCallback, hmsgq, if_true, ne_eq, not_true_eq_false,
            if_false]
          exact h.balanced
      · refine .writes _ written (fun _ => id) id (by simp [Event.writing, hmsgq]) htables
          h.balanced ?_
        simp [World.step, openCallback, hmsgq]

/-- Opening a socket where there is none. -/
theorem openSock_inv {s : State κ} (h : Tables s) (closed : s.sock = 0) {sock : Option ℕ}
    (valid : sock ≠ some 0) :
    Tables (openSock sock s) ∧ (openSock sock s).places = s.places := by
  cases sock with
  | none => exact ⟨h, rfl⟩
  | some sock =>
      have htable := h.closed closed
      have hsock : sock ≠ 0 := fun hzero => valid (by rw [hzero])
      refine ⟨⟨h.network, h.netsockcallback, ?_, fun hzero => absurd hzero hsock, nofun,
        nofun⟩, ?_⟩
      · simp [openSock, htable]
      · simp [openSock, State.places, State.inflight, State.replied, htable]

theorem health_shape (c : LineClass) {w : World κ} (h : Inv w) {sock : Option ℕ}
    (valid : sock ≠ some 0) (written : Bool) : StepShape c w (.health sock written) := by
  have hrestart := h.tables.restartHealth
  by_cases hperiod : w.session.healthPeriod = 0
  · refine .quiet (fun _ => id) (by simp [Event.Closes, hperiod])
      (by simp [Event.writing, hperiod]) ⟨?_, ?_⟩
    · simp only [World.step, health, hperiod, if_true]
      exact h.tables.congr rfl rfl rfl rfl id id
    · simp only [World.step, health, hperiod, if_true]
      exact h.balanced
  · by_cases hfailed : w.session.status = .timeout ∨ w.session.status = .error
    · refine closeSock_shape (t := w.session.restartHealth) c h (fun _ => id) ?_ hrestart rfl
        rfl rfl rfl (by simp [Event.Closes, hperiod, hfailed]) ?_ rfl
      · obtain hstatus | hstatus := hfailed <;> simp [Event.writing, hstatus]
      · obtain hstatus | hstatus := hfailed <;>
          simp [World.step, health, hperiod, hstatus]
    · by_cases hconnected : w.session.status = .connected ∧ w.session.msgq ≠ []
      · obtain ⟨hstatus, hmsgq⟩ := hconnected
        refine .writes _ written (fun _ => id) (by simp [Event.Closes, hstatus])
          (by simp [Event.writing, hperiod, hstatus, hmsgq]) hrestart h.balanced ?_
        simp [World.step, health, hperiod, hstatus, hmsgq]
      · refine .quiet (fun _ => id) (by simp [Event.Closes, hfailed]) ?_ ?_
        · simp only [Event.writing]
          rw [if_neg fun hwrites => hconnected hwrites.2]
        · have hkept : Tables (health sock written w.session) ∧
              (health sock written w.session).places = w.session.places := by
            unfold health
            rw [if_neg hperiod]
            split
            · rename_i hstatus
              exact openSock_inv hrestart (h.tables.idle (Or.inl hstatus)) valid
            · rename_i hstatus
              exact openSock_inv hrestart (h.tables.idle (Or.inr hstatus)) valid
            · exact ⟨hrestart, rfl⟩
            · rename_i hstatus
              rw [if_neg fun hmsgq => hconnected ⟨hstatus, hmsgq⟩]
              exact ⟨hrestart, rfl⟩
            · rename_i hstatus
              exact absurd (Or.inl hstatus) hfailed
            · rename_i hstatus
              exact absurd (Or.inr hstatus) hfailed
          refine ⟨hkept.1, ?_⟩
          change w.accepted.Perm (health sock written w.session).places
          rw [hkept.2]
          exact h.balanced

/-- Every admissible step has one of the four shapes. -/
theorem step_shape (c : LineClass) (w : World κ) (event : Event κ) (h : Inv w)
    (admissible : w.admissible c event) : StepShape c w event := by
  cases event with
  | sendMsg r written => exact sendMsg_shape c h r written
  | processMsg input written => exact processMsg_shape c h admissible input written
  | msgTimeout tag => exact msgTimeout_shape c h tag
  | closeSock =>
      exact closeSock_shape c h (fun _ => id) rfl h.tables rfl rfl rfl rfl Iff.rfl rfl rfl
  | openTimeout =>
      exact .quiet (fun _ => id) id rfl
        ⟨{ h.tables with connected := nofun, idle := nofun }, h.balanced⟩
  | openCallback connects written =>
      exact openCallback_shape c h admissible connects written
  | checkSocketStatus =>
      exact .quiet (fun _ => id) id rfl
        ⟨{ h.tables with connected := nofun, idle := nofun }, h.balanced⟩
  | health sock written => exact health_shape c h admissible written
  | pause on =>
      exact .quiet (fun _ => id) id rfl
        ⟨h.tables.congr rfl rfl rfl rfl id id, h.balanced⟩
  | tagTaken =>
      exact .quiet (fun _ => id) id rfl
        ⟨h.tables.congr rfl rfl rfl rfl id id, h.balanced⟩

/-- A step that satisfies the condition keeps the invariant. -/
theorem step_inv (c : LineClass) (w : World κ) (event : Event κ) (h : Inv w)
    (admissible : w.admissible c event) (condition : Condition w event) :
    Inv (w.step c event) := by
  cases step_shape c w event h admissible with
  | handles e _ _ hhandles => exact absurd hhandles (condition.handles e)
  | writes t written _ _ hwriting htables hbalanced hsession =>
      obtain ⟨hkept, hperm⟩ := writeMsg_keeps htables (condition.writes t written hwriting)
      refine ⟨by rw [hsession]; exact hkept, ?_⟩
      rw [hsession]
      exact hbalanced.trans hperm.symm
  | closes t _ hcloses _ htables hplaces hinflight _ _ hsession haccepted =>
      obtain ⟨hkept, hsame⟩ := closeSock_keeps htables fun _ =>
        hinflight.trans (condition.closes hcloses)
      refine ⟨by rw [hsession]; exact hkept, ?_⟩
      rw [hsession, haccepted, hsame, hplaces]
      exact h.balanced
  | quiet _ _ _ hkeeps => exact hkeeps

/-- Under the invariant a step keeps the requests exactly when it satisfies the
condition. -/
theorem kept_iff (c : LineClass) (w : World κ) (event : Event κ) (h : Inv w)
    (admissible : w.admissible c event) : Kept c w event ↔ Condition w event := by
  constructor
  · intro hkept
    cases step_shape c w event h admissible with
    | handles e reply written _ hpending _ hsession haccepted =>
        have hconserved := hkept.conserved
        rw [hsession, haccepted] at hconserved
        exact absurd hconserved (reply_breaks h.tables h.balanced hpending c reply written)
    | writes t written hhandles hquiet hwriting htables hbalanced hsession =>
        refine ⟨fun hcloses => absurd hcloses hquiet, hhandles, ?_⟩
        rintro t' written' hwriting'
        obtain ⟨rfl, rfl⟩ : t = t' ∧ written = written' := by
          simpa [hwriting] using hwriting'
        have hconserved := hkept.conserved
        rw [hsession] at hconserved
        exact (writeMsg_perm_iff htables hbalanced written).mp hconserved
    | closes t hhandles hcloses hwriting htables _ _ hmsgq hsock hsession _ =>
        refine ⟨fun _ => ?_, hhandles, by simp [hwriting]⟩
        have hlength := (hkept.reposted hcloses).length_eq
        rw [hsession, (closeSock_loses htables hsock).1, hmsgq, List.length_append] at hlength
        exact List.eq_nil_of_length_eq_zero (by omega)
    | quiet hhandles hcloses hwriting _ =>
        exact ⟨fun hevent => absurd hevent hcloses, hhandles, by simp [hwriting]⟩
  · intro hcondition
    have hinv := step_inv c w event h admissible hcondition
    refine ⟨hinv.balanced, fun hcloses => ?_,
      fun e hhandles => absurd hhandles (hcondition.handles e), fun hdistinct => ?_⟩
    · rw [hcondition.closes hcloses, List.nil_append]
      cases step_shape c w event h admissible with
      | handles _ _ _ _ _ hquiet => exact absurd hcloses hquiet
      | writes _ _ _ hquiet => exact absurd hcloses hquiet
      | closes t _ _ _ htables _ _ hmsgq hsock hsession _ =>
          rw [hsession, (closeSock_loses htables hsock).1, hmsgq]
      | quiet _ hquiet => exact absurd hcloses hquiet
    · have hplaces := hinv.balanced.nodup_iff.mp hdistinct
      exact (List.nodup_append.mp hplaces).2.1

/-- A session as it is created, with any configuration and traffic on. -/
structure State.Fresh (s : State κ) : Prop where
  msgq : s.msgq = []
  sockcallback : s.sockcallback = []
  netsockcallback : s.netsockcallback = []
  sock : s.sock = 0
  status : s.status ≠ .connected
  network : s.network = true
  effects : s.effects = []

theorem fresh_inv {s : State κ} (fresh : s.Fresh) : Inv (⟨s, []⟩ : World κ) := by
  refine ⟨⟨fresh.network, fresh.netsockcallback, ?_, fun _ => fresh.sockcallback,
    fun hconnected => absurd hconnected fresh.status, fun _ => fresh.sock⟩, ?_⟩
  · simp [fresh.sockcallback]
  · simp [State.places, State.inflight, State.replied, fresh.msgq, fresh.sockcallback,
      fresh.effects]

/-- The runs of a fresh session in which every step keeps the requests are exactly
the runs in which no reply finds an entry, no write fails, and no connection
closes with a message in flight. -/
theorem line_run_kept_iff (c : LineClass) {s : State κ} (fresh : s.Fresh)
    (events : List (Event κ)) (admits : (machine c κ).Admits ⟨s, []⟩ events) :
    (machine c κ).EachStep (Kept c) ⟨s, []⟩ events ↔
      (machine c κ).EachStep Condition ⟨s, []⟩ events :=
  (machine c κ).eachStep_iff_of_invariant (step_inv c) (kept_iff c) (fresh_inv fresh) admits

/-- A request under a tag of its own. -/
def sampleRequest : LineRequest ℕ := ⟨"get power", "power", some 5, 1, 10000⟩

/-- A request is sent on a new connection. -/
def sentRun : List (Event ℕ) :=
  [.health (some 3) true, .openCallback true true, .sendMsg sampleRequest true]

/-- Sending a request is fine if the write succeeds. -/
theorem Condition.sendMsg (w : World κ) (r : LineRequest κ) :
    Condition w (.sendMsg r true) := by
  refine ⟨fun hcloses => absurd hcloses id, fun _ => id, fun t written hwriting _ => ?_⟩
  simp only [Event.writing, Option.ite_none_right_eq_some, Option.some.injEq,
    Prod.mk.injEq] at hwriting
  exact hwriting.2.2.symm

/-- So is a connection that comes up. -/
theorem Condition.openCallback (w : World κ) : Condition w (.openCallback true true) := by
  refine ⟨fun hcloses => absurd hcloses id, fun _ => id, fun t written hwriting _ => ?_⟩
  simp only [Event.writing, Option.ite_none_right_eq_some, Option.some.injEq,
    Prod.mk.injEq] at hwriting
  exact hwriting.2.2.symm

/-- And opening a socket. -/
theorem Condition.health {w : World κ} (status : w.session.status = .disconnected)
    (sock : Option ℕ) : Condition w (.health sock true) := by
  refine ⟨?_, fun _ => id, ?_⟩
  · simp [Event.Closes, status]
  · simp [Event.writing, status]

theorem line_run_kept_iff_sent :
    (machine emtagent ℕ).EachStep (Kept emtagent) ⟨{}, []⟩ sentRun := by
  have admits : (machine emtagent ℕ).Admits ⟨{}, []⟩ sentRun := by decide +kernel
  refine (line_run_kept_iff emtagent
    ⟨rfl, rfl, rfl, rfl, by decide, rfl, rfl⟩ sentRun admits).mpr ?_
  exact ⟨.health rfl _, .openCallback _, .sendMsg _ _, trivial⟩

/-- The reply to the request comes twice. -/
def repeatedRun : List (Event ℕ) :=
  sentRun ++ [.processMsg (.line "power" "7") true, .processMsg (.line "power" "7") true]

/-- The callback then runs twice, in either class. -/
theorem repeated_reply_runs_callback_twice :
    ((machine emtagent ℕ).Admits ⟨{}, []⟩ repeatedRun ∧
        ¬ (machine emtagent ℕ).EachStep (Kept emtagent) ⟨{}, []⟩ repeatedRun) ∧
      (machine host ℕ).Admits ⟨{}, []⟩ repeatedRun ∧
        ¬ (machine host ℕ).EachStep (Kept host) ⟨{}, []⟩ repeatedRun := by
  refine ⟨⟨by decide +kernel, fun hkept => ?_⟩, by decide +kernel, fun hkept => ?_⟩
  all_goals
    obtain ⟨-, -, -, -, hlast, -⟩ := hkept
    have honce := hlast.once (by decide +kernel)
    revert honce
    decide +kernel

end Amester.LineHost
