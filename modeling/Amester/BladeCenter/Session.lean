/-
# The session of a blade center

A blade center object has a queue of messages, a global array with the message in progress on its
socket, and a connection that `net_health` opens again when it was closed. The reply to a message
runs its callback, which may send further messages and may wait for their replies, so
`net_process_msg` is cut where it runs one: what is left to do is a `Frame`.

A handler that raises is deleted by the event loop, so the object is deaf until the connection is
opened again. The messages are those of `send`: their tag is the name of the object and their
timeout the default. `net_send_msg` also takes a tag and a timeout of its caller, which only the
repost of a message gives.

`owed` stands for the management module: the messages written to the open connection
that it has not replied to.
-/

import Amester.BladeCenter.Login
import Amester.BladeCenter.Reply
import Amester.Ipmi.Queue
import Amester.Lib.Courier
import Amester.Lib.Reentrant

namespace Amester.BladeCenter

open BinaryFormat PriorityQueue EventMachine

/-- The list that `net_send_msg` puts on the queue. -/
structure Item where
  priority : ℤ
  tag : String
  callback : String
  timeout : ℤ
  msg : Bytes
  deriving DecidableEq

/-- The entries `bcnetsockcallback(sock,tag,*)`. -/
structure Pending extends Item where
  sock : ℕ
  /-- The entry `after`, set only when a timer was started. -/
  after : Option ℕ
  deriving DecidableEq

/-- The scripts that `after` schedules. -/
inductive Timer
  | netMsgTimeout
  | netHealth
  deriving DecidableEq, Repr

/-- What happens to the messages. -/
inductive Effect
  | posted (position : Position) (item : Item)
  /-- `net_send_msg` returns at once, since the network is off. -/
  | refused (position : Position) (item : Item)
  | sent (item : Item)
  /-- The callback of a message runs with this status and these bytes, which are the reply to
  `owner`. -/
  | ranCallback (item : Item) (status : ℤ) (databytes : Bytes) (owner : Option Item)
  deriving DecidableEq

/-- A message that is put in front, or was to be, comes back from a connection. -/
def Effect.label? : Effect → Option (Courier.Label Item)
  | .posted .back item => some (.accepted item)
  | .posted .front item => some (.returned item)
  | .refused .back _ => none
  | .refused .front item => some (.dropped item)
  | .sent item => some (.sent item)
  | .ranCallback item _ _ _ => some (.answered item)

structure Session extends State where
  msgq : List Item := []
  bcnetsockcallback : List Pending := []
  /-- The socket, 0 when there is none. -/
  sock : ℕ := 0
  netStatus : Status := .disconnected
  /-- `link` is "up". -/
  link : Bool := false
  /-- The socket has a handler for readable events. -/
  fileevent : Bool := false
  netHealthPeriod : ℤ := 3000
  netHealthAfter : ℕ := 0
  netIdleCount : ℤ := 0
  netIdleThreshold : ℤ := 30000
  /-- The pending timers of the object. -/
  afters : List (ℕ × Timer) := []
  /-- The next timer identifier. -/
  nextAfter : ℕ := 1
  /-- The global switches `::network` and `::pause`. -/
  network : Bool := true
  pause : Bool := false
  owed : List Item := []
  effects : List Effect := []

namespace Session

variable (s : Session)

/-- Append to the log. -/
def emit (e : Effect) : Session := { s with effects := s.effects ++ [e] }

/-- The identifier that the next `after` returns is `s.nextAfter`. -/
def after (timer : Timer) : Session :=
  { s with afters := s.afters ++ [(s.nextAfter, timer)], nextAfter := s.nextAfter + 1 }

def afterCancel (id : ℕ) : Session :=
  { s with afters := s.afters.filter fun t => t.1 ≠ id }

/-- Cancel the timers of all messages of a table. -/
def cancelAll (table : List Pending) : Session :=
  { s with afters := Amester.cancelAll Pending.after Prod.fst table s.afters }

/-- The entries of the current socket under a tag. -/
def pending (tag : String) : Option Pending :=
  s.bcnetsockcallback.find? fun e => e.sock = s.sock ∧ e.tag = tag

/-- `array unset ::bcnetsockcallback "$sock,$tag,*"`. -/
def unsetTag (tag : String) : Session :=
  { s with
    bcnetsockcallback := s.bcnetsockcallback.filter fun e => ¬ (e.sock = s.sock ∧ e.tag = tag) }

/-- Put a message on the queue. -/
def post (position : Position) (item : Item) : Session :=
  { s.emit (.posted position item) with msgq := insertAt position item s.msgq }

/-- Enter a message into the array and take it off the queue. -/
def enter (item : Item) (rest : List Item) : Session :=
  { s.emit (.sent item) with
    bcnetsockcallback := s.bcnetsockcallback ++ [{ item with sock := s.sock, after := none }]
    msgq := rest }

/-- The message was written: start its timer. -/
def written (item : Item) : Session :=
  let s := { s with owed := s.owed ++ [item] }
  if item.timeout ≠ 0 then
    { s.after .netMsgTimeout with
      bcnetsockcallback := s.bcnetsockcallback.map fun e =>
        if e.sock = s.sock ∧ e.tag = item.tag then { e with after := some s.nextAfter } else e }
  else s

end Session

/-! ## Sending -/

/-- Send the first message of a sorted queue, with the close that a failed write calls. -/
def writeFirst (close : Session → Session) (writes : Bool) : List Item → Session → Session
  | [], s => s
  | item :: rest, s =>
    if (s.pending item.tag).isSome then s
    else
      { (if writes then (s.enter item rest).written item else close (s.enter item rest)) with
        netIdleCount := 0 }

/-- `net_write_msg`; the flag says whether a write succeeds. -/
def netWriteMsgWith (close : Session → Session) (writes : Bool) (s : Session) : Session :=
  if s.network = false then s
  else if s.msgq = [] then s
  else if s.netStatus ≠ .connected then s
  else
    writeFirst close writes (sort Item.priority s.msgq)
      { s with msgq := sort Item.priority s.msgq }

/-- `net_send_msg` behind the choice of a tag. -/
def netSendItemWith (close : Session → Session) (writes : Bool) (position : Position)
    (item : Item) (s : Session) : Session :=
  if s.network = false then s.emit (.refused position item)
  else if (s.post position item).msgq.length = 1 then
    netWriteMsgWith close writes (s.post position item)
  else s.post position item

/-- Repost the messages of the list. The status is closed by now, so the write inside a send
returns before it could close again. -/
def repostAll : List Pending → Session → Session
  | [], s => s
  | e :: table, s =>
    repostAll table (netSendItemWith id false .front e.toItem (s.unsetTag e.tag))

def netClose (s : Session) : Session :=
  let closed := { s with netStatus := .closed, link := false }
  if s.sock = 0 then closed
  else
    let table := s.bcnetsockcallback.filter fun e => e.sock = s.sock
    { repostAll table ({ closed with fileevent := false, owed := [] }.cancelAll table) with
      sock := 0 }

def netWriteMsg (writes : Bool) (s : Session) : Session := netWriteMsgWith netClose writes s

/-- `net_send_msg` with the defaults that `send` leaves. -/
def netSendMsg (writes : Bool) (m : Message) (s : Session) : Session :=
  netSendItemWith netClose writes .back ⟨m.priority, s.name, m.callback, 10000, m.msg⟩ s

/-- `send`; a command that is not supported raises. -/
def sendMsg (type : ℤ) (cmd : DotCmd) (databytes : Bytes) (callback : String) (priority : ℤ)
    (writes : Bool) (s : Session) : Session :=
  match send type cmd databytes callback priority s.toState with
  | .error _ => s
  | .ok m => netSendMsg writes m s

/-! ## Receiving -/

/-- What is left of `net_process_msg` while it runs a callback. -/
structure Frame where
  /-- Whether the write at its end succeeds. -/
  writes : Bool
  deriving DecidableEq

/-- The texts of `if_err`. -/
def ifErr (status : ℤ) : Option String :=
  if status = 0 then some "command passed"
  else if status = 1 then some "command failed"
  else if status = 2 then some "command unsupported"
  else if status = 3 then some "command parameter invalid"
  else if status = 4 then some "command failed access i2c device"
  else if status = 5 then some "wrong amount of data passed"
  else if status = 6 then some "device busy"
  else if status = 7 then some
    "device not present, currently unavailable, or system does not support requested command"
  else none

/-- The message is the reply to a message, not an event and not of an unknown type. -/
def Header.isReply (h : Header) : Bool := h.type < 5 || h.type = 6

/-- The message has been read off the connection. -/
def Session.received (s : Session) (h : Header) : Session :=
  if h.isReply then { s with owed := s.owed.drop 1 } else s

/-- `net_process_msg` behind the header and the data; `owner` is the message that the management
module replies to. -/
def processReply (h : Header) (databytes : Bytes) (owner : Option Item) (writes : Bool)
    (s : Session) : Session × Option Frame :=
  if h.status ≠ 0 ∧ ifErr h.status = none then ({ s with fileevent := false }, none)
  else if 6 < h.type then (netClose s, none)
  else if h.type = 5 then (s, none)
  else
    match s.pending s.name with
    | none => (netWriteMsg writes s, none)
    | some e =>
      let s := match e.after with
        | some timer => s.afterCancel timer
        | none => s
      ((s.unsetTag s.name).emit (.ranCallback e.toItem h.status databytes owner),
        some ⟨writes⟩)

/-- The data cannot be read: the connection is closed, and processing goes on. -/
def closeUnread (input : Input) (s : Session) : Session :=
  if input.databytes = none then netClose s else s

/-- `net_process_msg` up to the callback. -/
def netProcessMsg (input : Input) (writes : Bool) (s : Session) : Session × Option Frame :=
  if s.pause then (s, none)
  else if s.network = false then (s, none)
  else if input.error then (netClose s, none)
  else
    match input.line with
    | none => ({ s with fileevent := false }, none) -- `net_close $name` raises
    | some line =>
      match scanHeader line with
      | none => (netClose (closeUnread input s), none)
      | some h =>
        processReply h (input.databytes.getD []) s.owed.head? writes
          (closeUnread input (s.received h))

/-- The rest of `net_process_msg`. -/
def resume (f : Frame) (s : Session) : Session × Option Frame := (netWriteMsg f.writes s, none)

/-! ## The connection -/

def netOpen (connect : Option Handshake) (writes : Bool) (s : Session) : Session :=
  if s.network = false then s
  else if s.sock ≠ 0 then s
  else
    match openResult connect with
    | .socketFailed => s
    | .refused sock => netClose { s with sock := sock, netStatus := .opening }
    | .raised sock => { s with sock := sock, netStatus := .opening }
    | .loggedIn sock =>
      let s := { s with sock := sock, netStatus := .connected, link := true, fileevent := true }
      if s.msgq ≠ [] then netWriteMsg writes s else s

/-- Ask for the power domains. -/
def netKeepAlive (writes : Bool) (s : Session) : Session := sendMsg 2 [15, 5, 11] [] "" 3 writes s

/-- Replace the timer of the health check. -/
def Session.restartHealth (s : Session) : Session :=
  { (s.afterCancel s.netHealthAfter).after .netHealth with netHealthAfter := s.nextAfter }

def netHealth (connect : Option Handshake) (writes : Bool) (s : Session) : Session :=
  if s.netHealthPeriod = 0 then s.afterCancel s.netHealthAfter
  else
    let s := s.restartHealth
    match s.netStatus with
    | .disconnected | .closed => netOpen connect writes s
    | .opening => s
    | .connected =>
      if s.msgq ≠ [] then netWriteMsg writes s
      else
        let s := { s with netIdleCount := s.netIdleCount + s.netHealthPeriod }
        if s.netIdleThreshold < s.netIdleCount then netKeepAlive writes s else s
    | .timeout | .error => netClose s

def netMsgTimeout (s : Session) : Session := netClose s

/-! ## Events -/

inductive Event
  | send (type : ℤ) (cmd : DotCmd) (databytes : Bytes) (callback : String) (priority : ℤ)
    (writes : Bool)
  | readable (input : Input) (writes : Bool)
  /-- The timer fires. -/
  | netMsgTimeout (timer : ℕ)
  | netHealth (connect : Option Handshake) (writes : Bool)
  | network (on : Bool)
  | pause (on : Bool)
  deriving DecidableEq

/-- The header of a reply, if the input has one. -/
def Input.reply? (input : Input) : Option Header :=
  (input.line.bind scanHeader).filter Header.isReply

/-- The handler runs on readable sockets, the management module replies to what it was sent, and a
timer fires when it is pending. A socket has a name other than 0. -/
def admissible (s : Session) : Event → Prop
  | .readable input _ => s.fileevent = true ∧ (input.reply?.isSome → s.owed ≠ [])
  | .netMsgTimeout timer => (timer, .netMsgTimeout) ∈ s.afters
  | .netHealth (some h) _ => h.sock ≠ 0
  | .netHealth none _ | .send _ _ _ _ _ _ | .network _ | .pause _ => True

instance decidableAdmissible (s : Session) : DecidablePred (admissible s)
  | .readable input _ =>
    inferInstanceAs (Decidable (s.fileevent = true ∧ (input.reply?.isSome → s.owed ≠ [])))
  | .netMsgTimeout timer => inferInstanceAs (Decidable ((timer, .netMsgTimeout) ∈ s.afters))
  | .netHealth (some h) _ => inferInstanceAs (Decidable (h.sock ≠ 0))
  | .netHealth none _ | .send _ _ _ _ _ _ | .network _ | .pause _ => isTrue trivial

def handle (s : Session) : Event → Session × Option Frame
  | .send type cmd databytes callback priority writes =>
    (sendMsg type cmd databytes callback priority writes s, none)
  | .readable input writes => netProcessMsg input writes s
  | .netMsgTimeout timer => (netMsgTimeout (s.afterCancel timer), none)
  | .netHealth connect writes => (netHealth connect writes s, none)
  | .network on => ({ s with network := on }, none)
  | .pause on => ({ s with pause := on }, none)

/-- The session as an event loop whose callbacks may wait. -/
def reentrant : Reentrant Session Event Frame := ⟨admissible, handle, resume⟩

instance decidableReentrant (s : Session) : DecidablePred (reentrant.admissible s) :=
  inferInstanceAs (DecidablePred (admissible s))

/-- What has happened to the messages. -/
def Session.log (s : Session) : List (Courier.Label Item) := s.effects.filterMap Effect.label?

end Amester.BladeCenter
