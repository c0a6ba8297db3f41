/-
# Hosts with a line protocol

An `emtagent` and a `host` talk to a program on the host in lines: a request is
a tag and a message, and a reply repeats the tag. Several requests may be in
flight at once, one for each tag. The objects keep them in a global array under
the name of the socket and the tag.

The two classes have the same methods under different names and the same two
global arrays: a request is entered into `sockcallback`, while the reply and
close paths clear and repost from `netsockcallback`. Both arrays are fields
here. The classes differ in what they hand to a callback and in who shares
their tag numbers.

A callback runs with its entry still in the table; what it does to the session
is described by the events that follow.
-/

import Amester.Ipmi.Queue

namespace Amester.LineHost

open PriorityQueue

universe u

/-- The item that a send puts on the queue. -/
structure LineItem (κ : Type u) where
  priority : ℤ
  tag : String
  callback : Option κ
  timeout : ℤ
  msg : String
  deriving DecidableEq

/-- The entries of one socket and tag in one of the global arrays. -/
structure LineEntry (κ : Type u) extends LineItem κ where
  sock : ℕ
  /-- The `after` entry, set only when a timer was started. -/
  after : Option ℕ
  deriving DecidableEq

/-- The arguments with which a message is sent. -/
structure LineRequest (κ : Type u) where
  msg : String
  /-- An empty tag asks for a new one. -/
  tag : String := ""
  callback : Option κ := none
  priority : ℤ := 1
  timeout : ℤ := 10000

/-- What differs between the two classes. -/
structure LineClass where
  /-- The reply is appended to the callback. -/
  appendsReply : Bool
  /-- The tag numbers are shared by all objects of the class. -/
  sharesTags : Bool

def emtagent : LineClass := ⟨true, false⟩

def host : LineClass := ⟨false, true⟩

/-- What the session does to the outside. -/
inductive Effect (κ : Type u)
  | sent (item : LineItem κ)
  /-- The message was replied to, and its callback ran with these arguments
  appended. -/
  | replied (item : LineItem κ) (arguments : List String)

/-- The message replied to, if the effect is a reply. -/
def Effect.replied? {κ : Type u} : Effect κ → Option (LineItem κ)
  | .replied item _ => some item
  | .sent _ => none

structure State (κ : Type u) where
  msgq : List (LineItem κ) := []
  sockcallback : List (LineEntry κ) := []
  netsockcallback : List (LineEntry κ) := []
  /-- The socket, 0 when there is none. -/
  sock : ℕ := 0
  status : Status := .disconnected
  /-- `sockinfo(sock,after_timeout)`. -/
  afterTimeout : ℕ := 0
  healthAfter : ℕ := 0
  healthPeriod : ℤ := 10000
  tagid : ℕ := 0
  /-- The pending timers of the object. -/
  afters : List ℕ := []
  /-- The next timer identifier. -/
  nextAfter : ℕ := 1
  /-- The global switches `::network` and `::pause`. -/
  network : Bool := true
  pause : Bool := false
  effects : List (Effect κ) := []

namespace State

variable {κ : Type u} (s : State κ)

/-- Append to the log. -/
def emit (e : Effect κ) : State κ := { s with effects := s.effects ++ [e] }

def afterCancel (id : ℕ) : State κ := { s with afters := s.afters.filter (· ≠ id) }

/-- Cancel the timers of all messages of a table. -/
def cancelAll (table : List (LineEntry κ)) : State κ :=
  { s with afters := Amester.cancelAll LineEntry.after id table s.afters }

/-- The messages replied to so far, in order. -/
def replied : List (LineItem κ) := s.effects.filterMap Effect.replied?

/-- The entry of a tag on the current socket. -/
def pending (tag : String) : Option (LineEntry κ) :=
  s.sockcallback.find? fun e => e.sock = s.sock ∧ e.tag = tag

/-- `array unset ::netsockcallback "$sock,$tag,*"`. -/
def unsetNet (tag : String) : State κ :=
  { s with
    netsockcallback := s.netsockcallback.filter fun e => ¬ (e.sock = s.sock ∧ e.tag = tag) }

/-- The item of a request, under a new tag if it has none. -/
def lineItem (r : LineRequest κ) : LineItem κ :=
  ⟨r.priority, if r.tag = "" then "tag" ++ toString s.tagid else r.tag, r.callback,
    r.timeout, r.msg⟩

/-- Put a message on the queue. -/
def enqueueMessage (position : Position) (r : LineRequest κ) : State κ :=
  { s with
    msgq := insertAt position (s.lineItem r) s.msgq
    tagid := if r.tag = "" then s.tagid + 1 else s.tagid }

/-- Enter a message into the table and take it off the queue. -/
def enterMessage (item : LineItem κ) (rest : List (LineItem κ)) : State κ :=
  { s with
    sockcallback := s.sockcallback ++ [{ item with sock := s.sock, after := none }]
    msgq := rest }

/-- Start the timer of the message that was entered under a tag. -/
def startTimer (tag : String) : State κ :=
  { s with
    sockcallback := s.sockcallback.map fun e =>
      if e.sock = s.sock ∧ e.tag = tag then { e with after := some s.nextAfter } else e
    afters := s.afters ++ [s.nextAfter]
    nextAfter := s.nextAfter + 1 }

end State

variable {κ : Type u}

/-- Send the first message of the list, with the close that a failed write
calls. -/
def writeFirst (close : State κ → State κ) (written : Bool) :
    List (LineItem κ) → State κ → State κ
  | [], s => s
  | item :: rest, s =>
    if (s.pending item.tag).isSome then s
    else if written then
      if item.timeout ≠ 0 then
        ((s.enterMessage item rest).emit (.sent item)).startTimer item.tag
      else (s.enterMessage item rest).emit (.sent item)
    else close (s.enterMessage item rest)

/-- Send the next message. The queue is sorted here, not when a message is put
on it. -/
def writeMsgWith (close : State κ → State κ) (written : Bool) (s : State κ) : State κ :=
  if s.network = false then s
  else if s.msgq = [] then s
  else if s.status ≠ .connected then s
  else
    writeFirst close written (sort LineItem.priority s.msgq)
      { s with msgq := sort LineItem.priority s.msgq }

/-- Put a message on the queue, and write it if it is the only one. -/
def sendMsgWith (close : State κ → State κ) (written : Bool) (r : LineRequest κ)
    (position : Position) (s : State κ) : State κ :=
  if s.network = false then s
  else if (s.enqueueMessage position r).msgq.length = 1 then
    writeMsgWith close written (s.enqueueMessage position r)
  else s.enqueueMessage position r

/-- Repost the messages of the list. The status is closed by now, so the write
inside a send returns before it could close again. -/
def repostAll : List (LineEntry κ) → State κ → State κ
  | [], s => s
  | e :: table, s =>
    repostAll table
      (sendMsgWith id false ⟨e.msg, e.tag, e.callback, e.priority, e.timeout⟩ .front
        (s.unsetNet e.tag))

/-- What every close does first. -/
def State.markClosed (s : State κ) : State κ := { s with status := .closed }

/-- Close the connection: cancel the timers of `sockcallback`, repost from
`netsockcallback`. -/
def closeSock (s : State κ) : State κ :=
  if s.sock = 0 then s.markClosed
  else
    { repostAll (s.netsockcallback.filter fun e => e.sock = s.sock)
        ((s.markClosed.afterCancel s.afterTimeout).cancelAll
          (s.sockcallback.filter fun e => e.sock = s.sock)) with
      sock := 0 }

def writeMsg (written : Bool) (s : State κ) : State κ := writeMsgWith closeSock written s

def sendMsg (written : Bool) (r : LineRequest κ) (s : State κ) : State κ :=
  sendMsgWith closeSock written r .back s

/-- The timer of a message fires. With a socket, its entries are read first, and
a missing one raises. -/
def msgTimeout (tag : String) (s : State κ) : State κ :=
  if s.sock ≠ 0 then
    match s.pending tag with
    | some e => if e.after.isSome then closeSock s else s
    | none => s
  else closeSock s

/-- What a readable socket turns out to hold. -/
inductive Input
  /-- The socket has an error, is at its end, or cannot be read. -/
  | failed
  /-- A line that is not a list, which raises. -/
  | malformed
  | line (tag reply : String)
  deriving DecidableEq, Repr

/-- Run the callback of a message and cancel its timer. -/
def State.reply (s : State κ) (c : LineClass) (e : LineEntry κ) (reply : String) : State κ :=
  (match e.after with
    | some timer => s.afterCancel timer
    | none => s).emit (.replied e.toLineItem (if c.appendsReply then [reply] else []))

/-- Handle a readable socket. The entry of a reply is looked up in `sockcallback`
and cleared in `netsockcallback`. -/
def processMsg (c : LineClass) (input : Input) (written : Bool) (s : State κ) : State κ :=
  if s.pause then s
  else
    match input with
    | .failed => closeSock s
    | .malformed => s
    | .line tag reply =>
      if s.network = false then s
      else if tag = "#" then writeMsg written s
      else
        match s.pending tag with
        | none => s
        | some e => writeMsg written ((s.reply c e reply).unsetNet tag)

/-! ## Opening and health -/

/-- Open a socket; `none` when that raises. -/
def openSock (sock : Option ℕ) (s : State κ) : State κ :=
  match sock with
  | none => s
  | some sock =>
    { s with
      sock := sock
      status := .opening
      afterTimeout := s.nextAfter
      afters := s.afters ++ [s.nextAfter]
      nextAfter := s.nextAfter + 1 }

def openTimeout (s : State κ) : State κ := { s with status := .timeout }

/-- The socket has become readable or writable, or has failed. -/
def openCallback (connects : Bool) (written : Bool) (s : State κ) : State κ :=
  if connects then
    if s.msgq ≠ [] then
      writeMsg written { s.afterCancel s.afterTimeout with status := .connected }
    else { s.afterCancel s.afterTimeout with status := .connected }
  else closeSock (s.afterCancel s.afterTimeout)

/-- The check of the socket status finds an error. -/
def checkSocketStatus (s : State κ) : State κ := { s with status := .error }

/-- Replace the timer of the health check. -/
def State.restartHealth (s : State κ) : State κ :=
  { s.afterCancel s.healthAfter with
    afters := (s.afterCancel s.healthAfter).afters ++ [s.nextAfter]
    healthAfter := s.nextAfter
    nextAfter := s.nextAfter + 1 }

def health (sock : Option ℕ) (written : Bool) (s : State κ) : State κ :=
  if s.healthPeriod = 0 then s.afterCancel s.healthAfter
  else
    match s.status with
    | .disconnected | .closed => openSock sock s.restartHealth
    | .opening => s.restartHealth
    | .connected =>
      if s.msgq ≠ [] then writeMsg written s.restartHealth else s.restartHealth
    | .timeout | .error => closeSock s.restartHealth

/-! ## The methods of the two classes -/

def agentClose : State κ → State κ := closeSock
def agentMsgTimeout : String → State κ → State κ := msgTimeout
def agentWriteMsg : Bool → State κ → State κ := writeMsg
def agentSendMsg : Bool → LineRequest κ → State κ → State κ := sendMsg
def agentProcessMsg : Input → Bool → State κ → State κ := processMsg emtagent

def netClose : State κ → State κ := closeSock
def netMsgTimeout : String → State κ → State κ := msgTimeout
def netWriteMsg : Bool → State κ → State κ := writeMsg
def netSendMsg : Bool → LineRequest κ → State κ → State κ := sendMsg
def netProcessMsg : Input → Bool → State κ → State κ := processMsg host

end Amester.LineHost
