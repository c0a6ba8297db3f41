/-
# Clients of the agent do not see each other's answers

As long as no connection is accepted under the name of a socket whose messages are still being run,
each answer goes to the connection that its message came from, however the runs of the messages are
nested and whenever threads are done. Whatever the names, the messages of a connection are run in
the order in which their lines were read, and each of them is answered at most once.
-/

import Mathlib.Data.List.Nodup
import Mathlib.Data.List.Perm.Subperm
import Amester.Agent.Server

namespace Amester.Agent

open ListFormat EventMachine

variable {tcl : Tcl} {s : Server}

/-! ## Names -/

/-- What the server has of its connections agrees with the open sockets. -/
structure Inv (s : Server) : Prop where
  names : (s.channels.map Channel.sock).Nodup
  known : ∀ c ∈ s.channels, c.conn ∈ s.accepted
  list : s.list = s.channels.map Channel.sock
  addr : s.addr = s.channels.map Channel.sock

theorem Inv.emit (h : Inv s) (e : Effect) : Inv (s.emit e) := ⟨h.names, h.known, h.list, h.addr⟩

theorem channel?_eq_some {sock : ℕ} {c : Channel} (found : s.channel? sock = some c) :
    c ∈ s.channels ∧ c.sock = sock := by
  refine ⟨List.mem_of_find?_eq_some found, ?_⟩
  simpa using List.find?_some found

theorem channel?_eq_none {sock : ℕ} : s.channel? sock = none ↔ ∀ c ∈ s.channels, c.sock ≠ sock := by
  simp [Server.channel?, List.find?_eq_none]

/-- The same state up to closed connections and errors. -/
structure Closes (s t : Server) : Prop where
  channels : t.channels.Sublist s.channels
  accepted : t.accepted = s.accepted
  jobs : t.jobs = s.jobs
  effects : ∃ more, t.effects = s.effects ++ more ∧
    ∀ e ∈ more, e = .raised ∨ ∃ conn, e = .closed conn

theorem Closes.emit_raised : Closes s (s.emit .raised) :=
  ⟨List.Sublist.refl _, rfl, rfl, _, rfl, by simp⟩

theorem erase_map_sock {channels : List Channel} (names : (channels.map Channel.sock).Nodup)
    (sock : ℕ) : (channels.map Channel.sock).erase sock =
      (channels.filter (·.sock ≠ sock)).map Channel.sock := by
  rw [names.erase_eq_filter, List.filter_map]
  congr 1
  refine List.filter_congr fun c _ => ?_
  rw [Bool.eq_iff_iff]
  simp

/-- Closing an open socket never raises: the server has its address. -/
theorem serverCloseSock_eq (h : Inv s) {sock : ℕ} {c : Channel}
    (found : s.channel? sock = some c) :
    serverCloseSock sock s =
      { s with
        channels := s.channels.filter (·.sock ≠ sock)
        addr := s.addr.erase sock
        list := s.list.erase sock
        effects := s.effects ++ [.closed c.conn] } := by
  obtain ⟨hmem, rfl⟩ := channel?_eq_some found
  have haddr : c.sock ∈ s.addr := by
    rw [h.addr]
    exact List.mem_map_of_mem hmem
  simp only [serverCloseSock, found, if_pos haddr]
  rfl

theorem serverCloseSock_closes (h : Inv s) (sock : ℕ) :
    Closes s (serverCloseSock sock s) ∧ Inv (serverCloseSock sock s) := by
  cases found : s.channel? sock with
  | none =>
      simp only [serverCloseSock, found]
      exact ⟨.emit_raised, h.emit _⟩
  | some c =>
      have hsub : (s.channels.filter (·.sock ≠ sock)).Sublist s.channels := List.filter_sublist
      rw [serverCloseSock_eq h found]
      refine ⟨⟨hsub, rfl, rfl, _, rfl, by simp⟩, ?_, ?_, ?_, ?_⟩
      · exact h.names.sublist (hsub.map _)
      · exact fun c hc => h.known c (hsub.subset hc)
      · exact (congrArg (·.erase sock) h.list).trans (erase_map_sock h.names sock)
      · exact (congrArg (·.erase sock) h.addr).trans (erase_map_sock h.names sock)

/-- What a write does: it fails, or puts the line on the connection that has the name. -/
theorem serverWriteMsg_cases (h : Inv s) (sock : ℕ) (line : ℕ → Effect) (written : Bool) :
    Inv (serverWriteMsg sock line written s) ∧
      (Closes s (serverWriteMsg sock line written s) ∨
        ∃ c ∈ s.channels, c.sock = sock ∧
          serverWriteMsg sock line written s = s.emit (line c.conn)) := by
  cases found : s.channel? sock with
  | none =>
      simp only [serverWriteMsg, found]
      exact ⟨h.emit _, .inl .emit_raised⟩
  | some c =>
      obtain ⟨hmem, hsock⟩ := channel?_eq_some found
      cases written with
      | true =>
          simp only [serverWriteMsg, found, if_pos]
          exact ⟨h.emit _, .inr ⟨c, hmem, hsock, rfl⟩⟩
      | false =>
          obtain ⟨hcloses, hinv⟩ := serverCloseSock_closes h sock
          simp only [serverWriteMsg, found, Bool.false_eq_true, if_false]
          exact ⟨hinv, .inl hcloses⟩

/-! ## Books -/

/-- What has been read, run and answered, when these messages are being run. -/
structure Books (tcl : Tcl) (s : Server) (calls : List Call) : Prop where
  /-- The messages of a connection are run in the order of its lines. -/
  started : ∀ conn,
    (s.started.filter (·.conn = conn)).map (fun call => (call.tag, call.msg, call.script)) =
      (s.linesFrom conn).filterMap fun line => (tcl.request line).runs?
  /-- A message is answered once or is being run, not both. -/
  answered : (s.answered ++ calls).Subperm s.started

theorem Books.messages {calls : List Call} (h : Books tcl s calls) (conn : ℕ) :
    (s.started.filter (·.conn = conn)).map (fun call => (call.tag, call.msg)) =
      (s.linesFrom conn).filterMap fun line => (tcl.request line).message? := by
  have hstarted := congrArg (List.map fun asked => (asked.1, asked.2.1)) (h.started conn)
  rw [List.map_map, List.map_filterMap] at hstarted
  simp only [Request.message?_eq]
  exact hstarted

theorem Closes.linesFrom {t : Server} (h : Closes s t) (conn : ℕ) :
    t.linesFrom conn = s.linesFrom conn := by
  obtain ⟨more, heffects, hmore⟩ := h.effects
  have hnone : more.filterMap (Effect.read? conn) = [] := by
    refine List.filterMap_eq_nil_iff.mpr fun e he => ?_
    obtain rfl | ⟨c, rfl⟩ := hmore e he <;> rfl
  rw [Server.linesFrom, heffects, List.filterMap_append, hnone, List.append_nil]
  rfl

theorem Closes.linesTo {t : Server} (h : Closes s t) (conn : ℕ) :
    t.linesTo tcl conn = s.linesTo tcl conn := by
  obtain ⟨more, heffects, hmore⟩ := h.effects
  have hnone : more.filterMap (Effect.line? tcl conn) = [] := by
    refine List.filterMap_eq_nil_iff.mpr fun e he => ?_
    obtain rfl | ⟨c, rfl⟩ := hmore e he <;> rfl
  rw [Server.linesTo, heffects, List.filterMap_append, hnone, List.append_nil]
  rfl

theorem Closes.started {t : Server} (h : Closes s t) : t.started = s.started := by
  obtain ⟨more, heffects, hmore⟩ := h.effects
  have hnone : more.filterMap Effect.started? = [] := by
    refine List.filterMap_eq_nil_iff.mpr fun e he => ?_
    obtain rfl | ⟨c, rfl⟩ := hmore e he <;> rfl
  rw [Server.started, heffects, List.filterMap_append, hnone, List.append_nil]
  rfl

theorem Closes.answered {t : Server} (h : Closes s t) : t.answered = s.answered := by
  obtain ⟨more, heffects, hmore⟩ := h.effects
  have hnone : more.filterMap Effect.answered? = [] := by
    refine List.filterMap_eq_nil_iff.mpr fun e he => ?_
    obtain rfl | ⟨c, rfl⟩ := hmore e he <;> rfl
  rw [Server.answered, heffects, List.filterMap_append, hnone, List.append_nil]
  rfl

theorem Books.closes {calls : List Call} (h : Books tcl s calls) {t : Server}
    (closes : Closes s t) : Books tcl t calls where
  started conn := by
    rw [closes.started, closes.linesFrom]
    exact h.started conn
  answered := by
    rw [closes.started, closes.answered]
    exact h.answered

theorem Books.fewer {calls fewer : List Call} (h : Books tcl s calls)
    (sub : fewer.Subperm calls) : Books tcl s fewer where
  started := h.started
  answered := ((List.subperm_append_left s.answered).mpr sub).trans h.answered

theorem Books.perm {calls calls' : List Call} (h : Books tcl s calls) (perm : calls'.Perm calls) :
    Books tcl s calls' := h.fewer perm.subperm

/-- Changes to the tables do not concern the books. -/
theorem Books.congr {calls : List Call} (h : Books tcl s calls) {t : Server}
    (effects : t.effects = s.effects) : Books tcl t calls where
  started conn := by
    rw [Server.started, Server.linesFrom, effects]
    exact h.started conn
  answered := by
    rw [Server.answered, Server.started, effects]
    exact h.answered

theorem Books.emit_greeted {calls : List Call} (h : Books tcl s calls) (conn : ℕ) :
    Books tcl (s.emit (.greeted conn)) calls where
  started c := by
    have hstarted := h.started c
    simpa [Effect.started?, Effect.read?] using hstarted
  answered := by
    have hanswered := h.answered
    simpa [Effect.started?, Effect.answered?] using hanswered

theorem Books.emit_answered {call : Call} {calls : List Call} (h : Books tcl s (call :: calls))
    (result : Text) (conn : ℕ) : Books tcl (s.emit (.answered call result conn)) calls where
  started c := by
    have hstarted := h.started c
    simpa [Effect.started?, Effect.read?] using hstarted
  answered := by
    have hanswered := h.answered
    simpa [Effect.started?, Effect.answered?] using hanswered

/-- A line that has nothing run is read. -/
theorem Books.emit_read {calls : List Call} (h : Books tcl s calls) (conn : ℕ) {line : Text}
    (nothing : (tcl.request line).runs? = none) : Books tcl (s.emit (.read conn line)) calls where
  started c := by
    have hstarted := h.started c
    by_cases hconn : conn = c
    · simpa [Effect.started?, Effect.read?, hconn, nothing] using hstarted
    · simpa [Effect.started?, Effect.read?, hconn] using hstarted
  answered := by
    have hanswered := h.answered
    simpa [Effect.started?, Effect.answered?] using hanswered

/-- A line that has its message run is read, and the message is run. -/
theorem Books.emit_started {calls : List Call} (h : Books tcl s calls) (call : Call) {line : Text}
    (runs : (tcl.request line).runs? = some (call.tag, call.msg, call.script)) :
    Books tcl ((s.emit (.read call.conn line)).emit (.started call)) (call :: calls) where
  started c := by
    have hstarted := h.started c
    by_cases hconn : call.conn = c
    · simpa [Effect.started?, Effect.read?, hconn, runs] using hstarted
    · simpa [Effect.started?, Effect.read?, hconn] using hstarted
  answered := by
    have hperm : (s.answered ++ call :: calls).Perm (call :: (s.answered ++ calls)) :=
      List.perm_middle
    have hsub : (call :: (s.answered ++ calls)).Subperm (call :: s.started) :=
      (List.subperm_cons call).mpr h.answered
    have hstarted : (s.started ++ [call]).Perm (call :: s.started) :=
      List.perm_append_singleton call s.started
    simpa [Effect.started?, Effect.answered?]
      using (hperm.subperm.trans hsub).trans hstarted.symm.subperm

theorem Books.serverWriteMsg {call : Call} {calls : List Call} (h : Books tcl s (call :: calls))
    (inv : Inv s) (sock : ℕ) (result : Text) (written : Bool) :
    Books tcl (serverWriteMsg sock (.answered call result) written s) calls := by
  have hfewer : Books tcl s calls := h.fewer (List.sublist_cons_self call calls).subperm
  obtain ⟨-, hcloses | ⟨c, -, -, hwrite⟩⟩ :=
    serverWriteMsg_cases inv sock (.answered call result) written
  · exact hfewer.closes hcloses
  · rw [hwrite]
    exact h.emit_answered result c.conn

theorem serverWriteMsg_jobs (h : Inv s) (sock : ℕ) (line : ℕ → Effect) (written : Bool) :
    (serverWriteMsg sock line written s).jobs = s.jobs := by
  obtain ⟨-, hcloses | ⟨c, -, -, hwrite⟩⟩ := serverWriteMsg_cases h sock line written
  · exact hcloses.jobs
  · rw [hwrite]
    rfl

/-! ## Steps -/

/-- The messages that are being run. -/
def calls (t : Suspended Server Frame) : List Call := t.state.jobs ++ t.stack.map Frame.call

/-- What holds in every state of every run. -/
structure Kept (tcl : Tcl) (t : Suspended Server Frame) : Prop where
  inv : Inv t.state
  books : Books tcl t.state (calls t)

theorem Inv.accept (h : Inv s) {sock : ℕ} (free : s.channel? sock = none) (conn : ℕ) :
    Inv
      { s with
        channels := s.channels ++ [⟨sock, conn⟩]
        addr := if sock ∈ s.addr then s.addr else s.addr ++ [sock]
        list := s.list ++ [sock]
        accepted := s.accepted ++ [conn] } := by
  have hfree : sock ∉ s.channels.map Channel.sock := by
    intro hmem
    obtain ⟨c, hc, hsock⟩ := List.mem_map.mp hmem
    exact channel?_eq_none.mp free c hc hsock
  have haddr : sock ∉ s.addr := by
    rw [h.addr]
    exact hfree
  refine ⟨?_, ?_, ?_, ?_⟩
  · rw [List.map_append, List.nodup_append]
    refine ⟨h.names, by simp, ?_⟩
    rintro name hname other hother rfl
    obtain rfl := List.mem_singleton.mp hother
    exact hfree hname
  · intro c hc
    obtain hold | hnew := List.mem_append.mp hc
    · exact List.mem_append_left _ (h.known c hold)
    · obtain rfl := List.mem_singleton.mp hnew
      exact List.mem_append_right _ (List.mem_singleton_self conn)
  · rw [List.map_append, ← h.list]
    rfl
  · rw [if_neg haddr, List.map_append, ← h.addr]
    rfl

theorem Kept.accept {t : Suspended Server Frame} (h : Kept tcl t) {sock : ℕ}
    (free : t.state.channel? sock = none) (conn : ℕ) (written : Bool) :
    Kept tcl { t with state := serverAccept sock conn written t.state } := by
  have hinv := h.inv.accept free conn
  obtain ⟨hkept, hcases⟩ := serverWriteMsg_cases hinv sock .greeted written
  have hbooks := h.books.congr (t := { t.state with
    channels := t.state.channels ++ [⟨sock, conn⟩]
    addr := if sock ∈ t.state.addr then t.state.addr else t.state.addr ++ [sock]
    list := t.state.list ++ [sock]
    accepted := t.state.accepted ++ [conn] }) rfl
  refine ⟨hkept, ?_⟩
  have hcalls : calls { t with state := serverAccept sock conn written t.state } = calls t := by
    rw [calls, serverAccept, serverWriteMsg_jobs hinv]
    rfl
  rw [hcalls]
  obtain hcloses | ⟨c, -, -, hwrite⟩ := hcases
  · exact hbooks.closes hcloses
  · simp only [serverAccept, hwrite]
    exact hbooks.emit_greeted c.conn

theorem Kept.closeSock {t : Suspended Server Frame} (h : Kept tcl t) (sock : ℕ) :
    Kept tcl { t with state := serverCloseSock sock t.state } := by
  obtain ⟨hcloses, hinv⟩ := serverCloseSock_closes h.inv sock
  refine ⟨hinv, ?_⟩
  rw [calls, hcloses.jobs]
  exact h.books.closes hcloses

/-- A line of a connection is handled. -/
theorem Kept.readLine {t : Suspended Server Frame} (h : Kept tcl t) (c : Channel) (line : Text)
    (result : Text) (written : Bool) :
    Kept tcl (Reentrant.push
      (serverRequest c result written (t.state.emit (.read c.conn line)) (tcl.request line))
      t.stack) := by
  cases hrequest : tcl.request line with
  | malformed | sendData =>
      have hnothing : (tcl.request line).runs? = none := by rw [hrequest]; rfl
      have hread := h.books.emit_read c.conn hnothing
      exact ⟨(h.inv.emit _).emit _, hread.closes .emit_raised⟩
  | incomplete =>
      exact ⟨h.inv.emit _, h.books.emit_read c.conn (by rw [hrequest]; rfl)⟩
  | quit =>
      have hread : Kept tcl { t with state := t.state.emit (.read c.conn line) } :=
        ⟨h.inv.emit _, h.books.emit_read c.conn (by rw [hrequest]; rfl)⟩
      exact hread.closeSock c.sock
  | run background tag msg script =>
      have hruns : (tcl.request line).runs? = some (tag, msg, script) := by rw [hrequest]; rfl
      have hstarted := h.books.emit_started ⟨c.conn, c.sock, tag, msg, script⟩ hruns
      cases background with
      | true =>
          refine ⟨⟨h.inv.names, h.inv.known, h.inv.list, h.inv.addr⟩, ?_⟩
          refine Books.perm (hstarted.congr ?_) ?_
          · rfl
          · rw [calls, calls]
            simp only [Reentrant.push, serverRequest, serverBg, if_true, Option.toList_none,
              List.nil_append, List.append_assoc, List.singleton_append]
            exact List.perm_middle
      | false =>
          refine ⟨⟨h.inv.names, h.inv.known, h.inv.list, h.inv.addr⟩, ?_⟩
          refine (hstarted.congr ?_).perm ?_
          · rfl
          · exact List.perm_middle

theorem Kept.process {t : Suspended Server Frame} (h : Kept tcl t) (sock : ℕ) (input : Input)
    (result : Text) (written : Bool) :
    Kept tcl (Reentrant.push (serverProcess tcl sock input result written t.state) t.stack) := by
  cases found : t.state.channel? sock with
  | none =>
      simp only [serverProcess, found]
      exact h
  | some c =>
      cases input with
      | failed =>
          simp only [serverProcess, found]
          exact h.closeSock sock
      | line line => simpa only [serverProcess, found] using h.readLine c line result written

theorem Kept.done {t : Suspended Server Frame} (h : Kept tcl t) {call : Call}
    (mem : call ∈ t.state.jobs) (result : Text) (written : Bool) :
    Kept tcl { t with state := backgroundDone call result written t.state } := by
  have hinv : Inv { t.state with jobs := t.state.jobs.erase call } :=
    ⟨h.inv.names, h.inv.known, h.inv.list, h.inv.addr⟩
  refine ⟨(serverWriteMsg_cases hinv _ _ _).1, ?_⟩
  rw [calls, backgroundDone, serverWriteMsg_jobs hinv]
  refine Books.serverWriteMsg ?_ hinv _ result written
  refine (h.books.congr ?_).perm ?_
  · rfl
  · rw [← List.cons_append]
    exact (List.perm_cons_erase mem).symm.append_right _

theorem Kept.resume {state : Server} {frame : Frame} {stack : List Frame}
    (h : Kept tcl ⟨state, frame :: stack⟩) :
    Kept tcl (Reentrant.push (resume frame state) stack) := by
  refine ⟨(serverWriteMsg_cases h.inv _ _ _).1, ?_⟩
  have hcalls : calls (Reentrant.push (Agent.resume frame state) stack) =
      state.jobs ++ stack.map Frame.call := by
    simp only [calls, Reentrant.push, Agent.resume, Option.toList_none, List.nil_append,
      serverWriteMsg_jobs h.inv]
  rw [hcalls]
  exact Books.serverWriteMsg (h.books.perm List.perm_middle.symm) h.inv _ _ _

theorem step_kept {t : Suspended Server Frame} {happening : Happening Event} (h : Kept tcl t)
    (admits : (reentrant tcl).machine.admissible t happening) :
    Kept tcl ((reentrant tcl).machine.step t happening) := by
  cases happening with
  | occurs event =>
      cases event with
      | accept sock conn written => exact h.accept admits.1 conn written
      | readable sock input result written => exact h.process sock input result written
      | done call result written => exact h.done admits result written
  | returns =>
      obtain ⟨state, stack⟩ := t
      cases stack with
      | nil => exact absurd rfl admits
      | cons frame stack => exact h.resume

/-! ## Isolation -/

/-- No connection is accepted under the name of a socket whose messages are still being run. -/
def NoReuse (t : Suspended Server Frame) : Happening Event → Prop
  | .occurs (.accept sock _ _) => ∀ call ∈ calls t, call.sock ≠ sock
  | .occurs (.readable _ _ _ _) | .occurs (.done _ _ _) | .returns => True

instance decidableNoReuse (t : Suspended Server Frame) : DecidablePred (NoReuse t)
  | .occurs (.accept sock _ _) => inferInstanceAs (Decidable (∀ call ∈ calls t, call.sock ≠ sock))
  | .occurs (.readable _ _ _ _) | .occurs (.done _ _ _) | .returns => isTrue trivial

/-- Each answer went to the connection of its message. -/
def Server.Isolated (s : Server) : Prop :=
  ∀ call result conn, .answered call result conn ∈ s.effects → conn = call.conn

/-- The names of sockets tell whose messages are being run. -/
structure Owned (s : Server) (calls : List Call) : Prop where
  own : ∀ call ∈ calls, ∀ c ∈ s.channels, c.sock = call.sock → c.conn = call.conn
  isolated : s.Isolated

theorem Owned.fewer {calls fewer : List Call} (h : Owned s calls) (sub : fewer ⊆ calls) :
    Owned s fewer := ⟨fun call hcall => h.own call (sub hcall), h.isolated⟩

theorem Owned.closes {calls : List Call} (h : Owned s calls) {t : Server} (closes : Closes s t) :
    Owned t calls := by
  refine ⟨fun call hcall c hc => h.own call hcall c (closes.channels.subset hc), ?_⟩
  obtain ⟨more, heffects, hmore⟩ := closes.effects
  intro call result conn hmem
  rw [heffects] at hmem
  obtain hold | hnew := List.mem_append.mp hmem
  · exact h.isolated call result conn hold
  · obtain hraised | ⟨closed, hclosed⟩ := hmore _ hnew
    · exact absurd hraised nofun
    · exact absurd hclosed nofun

theorem Owned.emit {calls : List Call} (h : Owned s calls) {e : Effect}
    (fits : ∀ call result conn, e = .answered call result conn → conn = call.conn) :
    Owned (s.emit e) calls := by
  refine ⟨h.own, fun call result conn hmem => ?_⟩
  obtain hold | hnew := List.mem_append.mp hmem
  · exact h.isolated call result conn hold
  · exact fits call result conn (List.mem_singleton.mp hnew).symm

theorem Owned.serverWriteMsg {call : Call} {calls : List Call} (h : Owned s (call :: calls))
    (inv : Inv s) (result : Text) (written : Bool) :
    Owned (serverWriteMsg call.sock (.answered call result) written s) calls := by
  have hfewer : Owned s calls := h.fewer (List.subset_cons_self call calls)
  obtain ⟨-, hcloses | ⟨c, hc, hsock, hwrite⟩⟩ :=
    serverWriteMsg_cases inv call.sock (.answered call result) written
  · exact hfewer.closes hcloses
  · rw [hwrite]
    refine hfewer.emit ?_
    rintro other text conn hsame
    obtain ⟨rfl, -, rfl⟩ := Effect.answered.inj hsame
    exact h.own call List.mem_cons_self c hc hsock

theorem Owned.accept {calls : List Call} (h : Owned s calls) (inv : Inv s) {sock : ℕ}
    (free : s.channel? sock = none) (unused : ∀ call ∈ calls, call.sock ≠ sock) (conn : ℕ)
    (written : Bool) : Owned (serverAccept sock conn written s) calls := by
  have hnew : Owned
      { s with
        channels := s.channels ++ [⟨sock, conn⟩]
        addr := if sock ∈ s.addr then s.addr else s.addr ++ [sock]
        list := s.list ++ [sock]
        accepted := s.accepted ++ [conn] } calls := by
    refine ⟨fun call hcall c hc hsock => ?_, h.isolated⟩
    obtain hold | hc := List.mem_append.mp hc
    · exact h.own call hcall c hold hsock
    · obtain rfl := List.mem_singleton.mp hc
      exact absurd hsock.symm (unused call hcall)
  obtain ⟨-, hcloses | ⟨c, -, -, hwrite⟩⟩ :=
    serverWriteMsg_cases (inv.accept free conn) sock .greeted written
  · exact hnew.closes hcloses
  · simp only [serverAccept, hwrite]
    exact hnew.emit nofun

/-- A message that is started belongs to the connection whose line was read. -/
theorem Owned.start {calls : List Call} (h : Owned s calls) (inv : Inv s) {c : Channel}
    (here : c ∈ s.channels) (tag msg script line : Text) :
    Owned ((s.emit (.read c.conn line)).emit (.started ⟨c.conn, c.sock, tag, msg, script⟩))
      (⟨c.conn, c.sock, tag, msg, script⟩ :: calls) := by
  have hread := (h.emit (e := .read c.conn line) nofun).emit
    (e := .started ⟨c.conn, c.sock, tag, msg, script⟩) nofun
  refine ⟨fun call hcall other hother hsock => ?_, hread.isolated⟩
  obtain rfl | hcall := List.mem_cons.mp hcall
  · have hsame : other = c := List.inj_on_of_nodup_map inv.names hother here hsock
    rw [hsame]
  · exact h.own call hcall other hother hsock

/-- The names of sockets tell whose messages the state and its stack are running. -/
abbrev Owns (t : Suspended Server Frame) : Prop := Owned t.state (calls t)

theorem Owned.readLine {t : Suspended Server Frame} (h : Owns t) (inv : Inv t.state) {c : Channel}
    (here : c ∈ t.state.channels) (line result : Text) (written : Bool) :
    Owns (Reentrant.push
      (serverRequest c result written (t.state.emit (.read c.conn line)) (tcl.request line))
      t.stack) := by
  have hread : Owned (t.state.emit (.read c.conn line)) (calls t) := h.emit nofun
  cases tcl.request line with
  | malformed | sendData => exact hread.emit nofun
  | incomplete => exact hread
  | quit =>
      obtain ⟨hcloses, -⟩ := serverCloseSock_closes (inv.emit (.read c.conn line)) c.sock
      have hjobs : (serverCloseSock c.sock (t.state.emit (.read c.conn line))).jobs =
          t.state.jobs := hcloses.jobs
      have hclosed := hread.closes hcloses
      rw [calls, ← hjobs] at hclosed
      exact hclosed
  | run background tag msg script =>
      have hstart := h.start inv here tag msg script line
      cases background with
      | true =>
          refine ⟨fun call hcall => hstart.own call ?_, hstart.isolated⟩
          simp only [calls, Reentrant.push, serverRequest, serverBg, if_true, List.mem_append,
            List.mem_singleton, Option.toList_none, List.nil_append] at hcall
          rw [List.mem_cons, calls, List.mem_append]
          tauto
      | false =>
          refine ⟨fun call hcall => hstart.own call ?_, hstart.isolated⟩
          exact (@List.perm_middle _ _ t.state.jobs _).subset hcall

theorem Owned.process {t : Suspended Server Frame} (h : Owns t) (inv : Inv t.state) (sock : ℕ)
    (input : Input) (result : Text) (written : Bool) :
    Owns (Reentrant.push (serverProcess tcl sock input result written t.state) t.stack) := by
  cases found : t.state.channel? sock with
  | none =>
      simp only [serverProcess, found]
      exact h
  | some c =>
      cases input with
      | failed =>
          obtain ⟨hcloses, -⟩ := serverCloseSock_closes inv sock
          have hclosed := h.closes hcloses
          rw [calls, ← hcloses.jobs] at hclosed
          simp only [serverProcess, found]
          exact hclosed
      | line line =>
          simp only [serverProcess, found]
          exact h.readLine inv (channel?_eq_some found).1 line result written

theorem Owned.done {t : Suspended Server Frame} (h : Owns t) (inv : Inv t.state) {call : Call}
    (mem : call ∈ t.state.jobs) (result : Text) (written : Bool) :
    Owns { t with state := backgroundDone call result written t.state } := by
  have hinv : Inv { t.state with jobs := t.state.jobs.erase call } :=
    ⟨inv.names, inv.known, inv.list, inv.addr⟩
  rw [Owns, calls, backgroundDone, serverWriteMsg_jobs hinv]
  refine Owned.serverWriteMsg ?_ hinv result written
  refine ⟨fun other hother => h.own other ?_, h.isolated⟩
  rw [← List.cons_append] at hother
  exact ((List.perm_cons_erase mem).symm.append_right _).subset hother

theorem Owned.resume {state : Server} {frame : Frame} {stack : List Frame}
    (h : Owns ⟨state, frame :: stack⟩) (inv : Inv state) :
    Owns (Reentrant.push (resume frame state) stack) := by
  have hcalls : calls (Reentrant.push (Agent.resume frame state) stack) =
      state.jobs ++ stack.map Frame.call := by
    simp only [calls, Reentrant.push, Agent.resume, Option.toList_none, List.nil_append,
      serverWriteMsg_jobs inv]
  rw [Owns, hcalls]
  exact Owned.serverWriteMsg (h.fewer List.perm_middle.symm.subset) inv _ _

theorem step_owned {t : Suspended Server Frame} {happening : Happening Event} (h : Owns t)
    (inv : Inv t.state) (admits : (reentrant tcl).machine.admissible t happening)
    (noReuse : NoReuse t happening) : Owns ((reentrant tcl).machine.step t happening) := by
  cases happening with
  | occurs event =>
      cases event with
      | accept sock conn written =>
          have haccept := h.accept inv admits.1 noReuse conn written
          have hjobs : (serverAccept sock conn written t.state).jobs = t.state.jobs :=
            serverWriteMsg_jobs (inv.accept admits.1 conn) _ _ _
          rw [calls, ← hjobs] at haccept
          exact haccept
      | readable sock input result written => exact h.process inv sock input result written
      | done call result written => exact h.done inv admits result written
  | returns =>
      obtain ⟨state, stack⟩ := t
      cases stack with
      | nil => exact absurd rfl admits
      | cons frame stack => exact h.resume inv

/-! ## Runs of a server that was just started -/

variable {happenings : List (Happening Event)}

theorem kept_start : Kept tcl ⟨{}, []⟩ where
  inv := ⟨List.nodup_nil, by simp, rfl, rfl⟩
  books := ⟨fun _ => rfl, List.Subperm.refl _⟩

theorem run_kept (admits : (reentrant tcl).machine.Admits ⟨{}, []⟩ happenings) :
    Kept tcl ((reentrant tcl).machine.run ⟨{}, []⟩ happenings) := by
  have hkept : ∀ t happening, Kept tcl t → (reentrant tcl).machine.admissible t happening →
      Kept tcl ((reentrant tcl).machine.step t happening) :=
    fun _ _ kept adm => step_kept kept adm
  exact (reentrant tcl).machine.invariant_run hkept kept_start admits

/-- In every run, the messages of each connection are run in the order of the lines that were read
from it, and each is answered at most once. -/
theorem run_answers_once (admits : (reentrant tcl).machine.Admits ⟨{}, []⟩ happenings) :
    let s := ((reentrant tcl).machine.run ⟨{}, []⟩ happenings).state
    (∀ conn, (s.started.filter (·.conn = conn)).map
        (fun call => (call.tag, call.msg, call.script)) =
      (s.linesFrom conn).filterMap fun line => (tcl.request line).runs?) ∧
      s.answered.Subperm s.started := by
  have hbooks := (run_kept admits).books
  exact ⟨hbooks.started, (List.sublist_append_left _ _).subperm.trans hbooks.answered⟩

/-- In every state of a run in which no connection is accepted under the name of a socket whose
messages are still being run, each answer went to the connection of its message. -/
theorem always_isolated (admits : (reentrant tcl).machine.Admits ⟨{}, []⟩ happenings)
    (noReuse : (reentrant tcl).machine.EachStep NoReuse ⟨{}, []⟩ happenings) :
    (reentrant tcl).machine.Always (fun t => t.state.Isolated) ⟨{}, []⟩ happenings := by
  have hkept : ∀ t happening, (Kept tcl t ∧ Owns t) →
      (reentrant tcl).machine.admissible t happening → NoReuse t happening →
      Kept tcl ((reentrant tcl).machine.step t happening) ∧
        Owns ((reentrant tcl).machine.step t happening) :=
    fun _ _ ht adm unused => ⟨step_kept ht.1 adm, step_owned ht.2 ht.1.inv adm unused⟩
  have hstart : Owns ⟨{}, []⟩ := ⟨by simp, by simp [Server.Isolated]⟩
  exact Machine.Always.mono (fun t ht => ht.2.isolated)
    ((reentrant tcl).machine.always_of_invariant hkept ⟨kept_start, hstart⟩ admits noReuse)

/-! ## A run -/

/-- All scripts that are sent are complete. -/
def sampleTcl : Tcl := { quoting with complete := fun _ => true, complete_plain := fun _ _ => rfl }

/-- Two clients ask under the same tag, the second while the first one's command waits. Then the
second one leaves, and a third takes the name of its socket. -/
def sampleRun : List (Happening Event) :=
  [.occurs (.accept 5 0 true), .occurs (.accept 6 1 true),
    .occurs (.readable 5 (.line "tag0 {me ipmicmd 20 06 00 01}".toList) "0 51".toList true),
    .occurs (.readable 6 (.line "tag0 {me get addr}".toList) "me".toList true),
    .returns, .returns, .occurs (.readable 6 .failed [] true), .occurs (.accept 6 2 true)]

theorem sampleRun_answers_once :
    let s := ((reentrant sampleTcl).machine.run ⟨{}, []⟩ sampleRun).state
    (∀ conn, (s.started.filter (·.conn = conn)).map
        (fun call => (call.tag, call.msg, call.script)) =
      (s.linesFrom conn).filterMap fun line => (sampleTcl.request line).runs?) ∧
      s.answered.Subperm s.started :=
  run_answers_once (by decide)

theorem sampleRun_isolated :
    (reentrant sampleTcl).machine.Always (fun t => t.state.Isolated) ⟨{}, []⟩ sampleRun :=
  always_isolated (by decide) (by decide)

/-- A client leaves behind a command in the background, and its answer goes to the next one. -/
example :
    let job : Call := ⟨0, 5, "tag0".toList, "bg wait".toList, "wait".toList⟩
    let run : List (Happening Event) :=
      [.occurs (.accept 5 0 true), .occurs (.readable 5 (.line "tag0 {bg wait}".toList) [] true),
        .occurs (.readable 5 .failed [] true), .occurs (.accept 5 1 true),
        .occurs (.done job [] true)]
    (reentrant sampleTcl).machine.Admits ⟨{}, []⟩ run ∧
      .answered job [] 1 ∈ ((reentrant sampleTcl).machine.run ⟨{}, []⟩ run).state.effects := by
  decide

end Amester.Agent
