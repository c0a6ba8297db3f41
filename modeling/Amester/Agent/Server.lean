/-
# The server of the agent

A client sends lines with a tag and a message. The agent runs the message as a command and answers
with the tag and the result, on one line. A command may wait in the event loop, so that further
lines are read and run before it returns, of the same connection or of another; `server_process` is
cut there, and what is left to do is a `Frame`. A command in the background runs in a thread of its
own and is answered whenever it is done.

What the server knows of a connection is the name of its socket, which can be taken again once the
socket is closed. An answer goes to the socket of that name, whatever connection it is by then. The
numbers of connections are those of the model.
-/

import Amester.Lib.ListFormat
import Amester.Lib.Reentrant

namespace Amester.Agent

open ListFormat EventMachine

/-- Lists as they are written and read, and `info complete`. -/
structure Tcl extends ListFormat where
  complete : Text → Bool
  complete_plain : ∀ words, (∀ word ∈ words, Plain word) → complete (joined words) = true

/-! ## Requests -/

/-- A message that is run. -/
structure Call where
  conn : ℕ
  sock : ℕ
  tag : Text
  /-- The message as it was sent. -/
  msg : Text
  /-- The part of it that is run. -/
  script : Text
  deriving DecidableEq

/-- What a line asks for. -/
inductive Request
  /-- The line or the message is no list. -/
  | malformed
  | quit
  /-- There is no command `send_data`. -/
  | sendData
  | incomplete
  | run (background : Bool) (tag msg script : Text)
  deriving DecidableEq

/-- The command for a message. -/
def Tcl.command (tcl : Tcl) (tag msg : Text) : Request :=
  if msg = "quit".toList then .quit
  else if msg = "send_data".toList then .sendData
  else
    match tcl.elements msg with
    | none => .malformed
    | some words =>
      if words.headD [] = "bg".toList then
        if tcl.complete (tcl.list words.tail) then .run true tag msg (tcl.list words.tail)
        else .incomplete
      else if tcl.complete msg then .run false tag msg msg
      else .incomplete

def Tcl.request (tcl : Tcl) (line : Text) : Request :=
  match tcl.elements line with
  | none => .malformed
  | some words => tcl.command (words.getD 0 []) (words.getD 1 [])

/-- The tag, the message and what is run of it. -/
def Request.runs? : Request → Option (Text × Text × Text)
  | .run _ tag msg script => some (tag, msg, script)
  | .malformed | .quit | .sendData | .incomplete => none

/-- The tag and the message of a line that has something run. -/
def Request.message? : Request → Option (Text × Text)
  | .run _ tag msg _ => some (tag, msg)
  | .malformed | .quit | .sendData | .incomplete => none

theorem Request.message?_eq (request : Request) :
    request.message? = request.runs?.map fun asked => (asked.1, asked.2.1) := by
  cases request <;> rfl

/-- Line ends become blanks. -/
def oneLine (result : Text) : Text := result.map fun c => if c = '\n' ∨ c = '\r' then ' ' else c

/-- The line of an answer. -/
def Tcl.answer (tcl : Tcl) (tag result : Text) : Text := tcl.list [tag, oneLine result]

def welcome : Text := "# Welcome to AMEC".toList

theorem oneLine_oneLine (result : Text) : OneLine (oneLine result) := by
  intro c ends hmem
  obtain ⟨d, -, hd⟩ := List.mem_map.mp hmem
  have hc : c = '\n' ∨ c = '\r' := by simpa [lineEnds] using ends
  split_ifs at hd with hend
  · obtain rfl | rfl := hc <;> exact absurd hd (by decide)
  · exact hend (hd ▸ hc)

/-- An answer is one line, and its tag and result are read back from it. -/
theorem Tcl.oneLine_answer (tcl : Tcl) {tag : Text} (line : OneLine tag) (result : Text) :
    OneLine (tcl.answer tag result) := by
  refine tcl.oneLine_list fun word hword => ?_
  simp only [List.mem_cons, List.not_mem_nil, or_false] at hword
  obtain rfl | rfl := hword
  · exact line
  · exact oneLine_oneLine result

/-! ## The state -/

/-- An open socket. -/
structure Channel where
  sock : ℕ
  conn : ℕ
  deriving DecidableEq

/-- What happens on the connections. -/
inductive Effect
  | read (conn : ℕ) (line : Text)
  | started (call : Call)
  | greeted (conn : ℕ)
  /-- The result of a message is written to this connection. -/
  | answered (call : Call) (result : Text) (conn : ℕ)
  | closed (conn : ℕ)
  | raised
  deriving DecidableEq

structure Server where
  /-- `server(list)`. -/
  list : List ℕ := []
  /-- The sockets with an entry `server(sock,addr)`. -/
  addr : List ℕ := []
  channels : List Channel := []
  /-- The connections so far. -/
  accepted : List ℕ := []
  /-- What runs in the background. -/
  jobs : List Call := []
  effects : List Effect := []

/-- What is left to do when a message has been run, with its result and whether it can be
written. -/
structure Frame where
  call : Call
  result : Text
  written : Bool
  deriving DecidableEq

namespace Server

variable (s : Server)

def emit (e : Effect) : Server := { s with effects := s.effects ++ [e] }

def channel? (sock : ℕ) : Option Channel := s.channels.find? fun c => c.sock = sock

end Server

/-! ## The commands of the server -/

/-- `close` raises for a socket that is not open, and so does a missing address behind it. -/
def serverCloseSock (sock : ℕ) (s : Server) : Server :=
  match s.channel? sock with
  | none => s.emit .raised
  | some c =>
    let closed := { s with channels := s.channels.filter (·.sock ≠ sock) }.emit (.closed c.conn)
    if sock ∈ s.addr then { closed with addr := s.addr.erase sock, list := s.list.erase sock }
    else closed.emit .raised

/-- Write what stands for the line to whatever has the name of the socket. `eof` raises when
nothing has. -/
def serverWriteMsg (sock : ℕ) (line : ℕ → Effect) (written : Bool) (s : Server) : Server :=
  match s.channel? sock with
  | none => s.emit .raised
  | some c => if written then s.emit (line c.conn) else serverCloseSock sock s

def serverAccept (sock conn : ℕ) (written : Bool) (s : Server) : Server :=
  serverWriteMsg sock .greeted written
    { s with
      channels := s.channels ++ [⟨sock, conn⟩]
      addr := if sock ∈ s.addr then s.addr else s.addr ++ [sock]
      list := s.list ++ [sock]
      accepted := s.accepted ++ [conn] }

def serverBg (call : Call) (s : Server) : Server := { s with jobs := s.jobs ++ [call] }

/-- What a readable socket holds: nothing that can be read, or a line, which is empty as long as no
whole one has come. -/
inductive Input
  | failed
  | line (text : Text)
  deriving DecidableEq

variable (tcl : Tcl)

/-- Handle a line of a connection, up to the command if one is run here. -/
def serverRequest (c : Channel) (result : Text) (written : Bool) (s : Server) :
    Request → Server × Option Frame
  | .malformed | .sendData => (s.emit .raised, none)
  | .quit => (serverCloseSock c.sock s, none)
  | .incomplete => (s, none)
  | .run background tag msg script =>
    let call : Call := ⟨c.conn, c.sock, tag, msg, script⟩
    let s := s.emit (.started call)
    if background then (serverBg call s, none) else (s, some ⟨call, result, written⟩)

def serverProcess (sock : ℕ) (input : Input) (result : Text) (written : Bool) (s : Server) :
    Server × Option Frame :=
  match s.channel? sock with
  | none => (s, none)
  | some c =>
    match input with
    | .failed => (serverCloseSock sock s, none)
    | .line line =>
      serverRequest c result written (s.emit (.read c.conn line)) (tcl.request line)

/-- The rest of `server_process`. -/
def resume (f : Frame) (s : Server) : Server × Option Frame :=
  (serverWriteMsg f.call.sock (.answered f.call f.result) f.written s, none)

/-- A background thread is done. -/
def backgroundDone (call : Call) (result : Text) (written : Bool) (s : Server) : Server :=
  serverWriteMsg call.sock (.answered call result) written { s with jobs := s.jobs.erase call }

/-! ## Events -/

inductive Event
  | accept (sock conn : ℕ) (written : Bool)
  | readable (sock : ℕ) (input : Input) (result : Text) (written : Bool)
  | done (call : Call) (result : Text) (written : Bool)
  deriving DecidableEq

/-- A new socket has a name that no open one has. -/
def admissible (s : Server) : Event → Prop
  | .accept sock conn _ => s.channel? sock = none ∧ conn ∉ s.accepted
  | .readable sock _ _ _ => s.channel? sock ≠ none
  | .done call _ _ => call ∈ s.jobs

instance decidableAdmissible (s : Server) : DecidablePred (admissible s)
  | .accept sock conn _ =>
    inferInstanceAs (Decidable (s.channel? sock = none ∧ conn ∉ s.accepted))
  | .readable sock _ _ _ => inferInstanceAs (Decidable (s.channel? sock ≠ none))
  | .done call _ _ => inferInstanceAs (Decidable (call ∈ s.jobs))

def handle (s : Server) : Event → Server × Option Frame
  | .accept sock conn written => (serverAccept sock conn written s, none)
  | .readable sock input result written => serverProcess tcl sock input result written s
  | .done call result written => (backgroundDone call result written s, none)

/-- The server as an event loop whose commands may wait. -/
def reentrant : Reentrant Server Event Frame := ⟨admissible, handle tcl, resume⟩

instance decidableReentrant (s : Server) : DecidablePred ((reentrant tcl).admissible s) :=
  inferInstanceAs (DecidablePred (admissible s))

/-! ## What has happened on a connection -/

/-- The line that an effect puts on a connection. -/
def Effect.line? (conn : ℕ) : Effect → Option Text
  | .greeted c => if c = conn then some welcome else none
  | .answered call result c => if c = conn then some (tcl.answer call.tag result) else none
  | .read _ _ | .started _ | .closed _ | .raised => none

/-- The line that an effect takes off a connection. -/
def Effect.read? (conn : ℕ) : Effect → Option Text
  | .read c line => if c = conn then some line else none
  | .greeted _ | .answered _ _ _ | .started _ | .closed _ | .raised => none

def Effect.started? : Effect → Option Call
  | .started call => some call
  | .read _ _ | .greeted _ | .answered _ _ _ | .closed _ | .raised => none

def Effect.answered? : Effect → Option Call
  | .answered call _ _ => some call
  | .read _ _ | .greeted _ | .started _ | .closed _ | .raised => none

namespace Server

variable (s : Server)

/-- The lines written to a connection. -/
def linesTo (conn : ℕ) : List Text := s.effects.filterMap (Effect.line? tcl conn)

/-- The lines read from a connection. -/
def linesFrom (conn : ℕ) : List Text := s.effects.filterMap (Effect.read? conn)

def started : List Call := s.effects.filterMap Effect.started?

def answered : List Call := s.effects.filterMap Effect.answered?

@[simp]
theorem linesTo_emit (e : Effect) (conn : ℕ) :
    (s.emit e).linesTo tcl conn = s.linesTo tcl conn ++ (e.line? tcl conn).toList := by
  rw [linesTo, emit, List.filterMap_append, linesTo]
  cases h : e.line? tcl conn <;> simp [h]

@[simp]
theorem linesFrom_emit (e : Effect) (conn : ℕ) :
    (s.emit e).linesFrom conn = s.linesFrom conn ++ (e.read? conn).toList := by
  rw [linesFrom, emit, List.filterMap_append, linesFrom]
  cases h : e.read? conn <;> simp [h]

@[simp]
theorem started_emit (e : Effect) : (s.emit e).started = s.started ++ e.started?.toList := by
  rw [started, emit, List.filterMap_append, started]
  cases h : e.started? <;> simp [h]

@[simp]
theorem answered_emit (e : Effect) : (s.emit e).answered = s.answered ++ e.answered?.toList := by
  rw [answered, emit, List.filterMap_append, answered]
  cases h : e.answered? <;> simp [h]

end Server

end Amester.Agent
