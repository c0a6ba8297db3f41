/-
# The connection of an rmcp object

An `rmcp` object sends its messages over UDP, all under the tag 0, and takes whatever response comes
for the response to the message in progress. A message leaves `inprogress` when its callback has
returned, and a callback may wait in the event loop, so `rmcp_process` is cut where it runs one.
It is also cut where it sends a message of its own and waits for the response: when the connection
is established, the object asks for its privileges.

`owed` stands for the system at the other end: the messages written to the open socket to which it
has not responded. A packet may also come a second time, or from nowhere.
-/

import Amester.Ipmi.Queue
import Amester.Lib.Courier
import Amester.Lib.Reentrant
import Amester.Rmcp.Handshake

namespace Amester.Rmcp

open BinaryFormat PriorityQueue EventMachine

universe u

/-- The callback of a message. -/
inductive Script (κ : Type u)
  /-- A callback of the caller, which may do anything. -/
  | foreign (callback : κ)
  | ipmiSendSyncCallback (myuid : ℕ)
  deriving DecidableEq

abbrev Message (κ : Type u) := Item (Script κ)

section Definitions

variable {κ : Type u}

/-- What happens to the messages. -/
inductive Effect (κ : Type u)
  | posted (position : Position) (item : Message κ)
  | sent (item : Message κ)
  /-- The callback of a message, if it has one, runs with this status and these bytes, which are the
  response to `owner`. -/
  | answered (item : Message κ) (status : Option ℤ) (databytes : Bytes)
    (owner : Option (Message κ))
  deriving DecidableEq

/-- A message that is put in front comes back from a connection. -/
def Effect.label : Effect κ → Courier.Label (Message κ)
  | .posted .back item => .accepted item
  | .posted .front item => .returned item
  | .sent item => .sent item
  | .answered item _ _ _ => .answered item

/-- What is written to a socket. -/
inductive Outgoing (κ : Type u)
  | handshake (outmsg : Bytes)
  /-- A message, formatted with these fields of the object. -/
  | message (item : Message κ) (session : Session)

structure Connection (κ : Type u) extends Keys where
  ipmiMsgq : List (Message κ) := []
  /-- The entries `inprogress(0,*)`. -/
  inprogress : Option (InProgress (Script κ)) := none
  rmcpStatus : Status := .disconnected
  /-- The socket, 0 when there is none. -/
  rmcpSock : ℕ := 0
  /-- The socket has a handler for readable events. -/
  fileevent : Bool := false
  rmcpOpenAfter : ℕ := 0
  /-- The pending timers of `rmcp_timeout`. -/
  afters : List ℕ := []
  /-- The next timer identifier. -/
  nextAfter : ℕ := 1
  /-- The responses that an `ipmi_send_sync` has not picked up, with their statuses. -/
  waitSendSync : List (ℕ × Option ℤ) := []
  nextUid : ℕ := 0
  /-- What was written to the socket, in order. -/
  written : List (Outgoing κ) := []
  owed : List (Message κ) := []
  effects : List (Effect κ) := []

namespace Connection

variable (s : Connection κ)

/-- Append to the log. -/
def emit (e : Effect κ) : Connection κ := { s with effects := s.effects ++ [e] }

/-- The identifier that the next `after` returns is `s.nextAfter`. -/
def after : Connection κ :=
  { s with afters := s.afters ++ [s.nextAfter], nextAfter := s.nextAfter + 1 }

def afterCancel (id : ℕ) : Connection κ := { s with afters := s.afters.filter (· ≠ id) }

/-- Cancel the timer of a message, if it has one. -/
def cancelTimer (e : InProgress (Script κ)) : Connection κ :=
  match e.after with
  | some id => s.afterCancel id
  | none => s

/-- `rmcp_send`, which does not raise when the packet cannot be written. -/
def rmcpSend (outmsg : Bytes) : Connection κ :=
  { s with written := s.written ++ [.handshake outmsg] }

/-- `rmcp2.0_send`, which takes the next sequence number. -/
def rmcp20Send (item : Message κ) : Connection κ :=
  { s with
    ipmiSessSeqIn := s.ipmiSessSeqIn + 1
    written := s.written ++ [.message item s.toSession]
    owed := s.owed ++ [item] }

def markClosed : Connection κ :=
  { s with ipmiSessSeqIn := 0, ipmiSessId := 0, rmcpStatus := .closed }

/-- What came and went on the socket does not matter any more. -/
def shut : Connection κ := { s with fileevent := false, written := [], owed := [] }

/-- Put a message on the queue. -/
def post (position : Position) (item : Message κ) : Connection κ :=
  { s.emit (.posted position item) with ipmiMsgq := insertAt position item s.ipmiMsgq }

/-- The response to this message has come. -/
def responded [DecidableEq κ] (owner : Option (Message κ)) : Connection κ :=
  { s with owed := owner.elim s.owed s.owed.erase }

/-- Enter a message into `inprogress`, take it off the queue and write it. -/
def handOver (item : Message κ) (rest : List (Message κ)) : Connection κ :=
  let sent := { s.emit (.sent item) with
    inprogress := some { item with after := none }, ipmiMsgq := rest }.rmcp20Send item
  if item.timeout ≠ 0 then
    { sent.after with inprogress := some { item with after := some sent.nextAfter } }
  else sent

end Connection

/-! ## Sending -/

def ipmiDequeue (s : Connection κ) : Connection κ :=
  if s.ipmiMsgq = [] then s
  else if s.rmcpStatus ≠ .connected then s
  else
    match sort Item.priority s.ipmiMsgq with
    | [] => s
    | item :: rest =>
      if s.inprogress.isSome then { s with ipmiMsgq := item :: rest } else s.handOver item rest

def ipmiQueue (position : Position) (item : Message κ) (s : Connection κ) : Connection κ :=
  if (s.post position item).ipmiMsgq.length = 1 then ipmiDequeue (s.post position item)
  else s.post position item

/-- The object asks for the privileges of an administrator. -/
def privilegeMessage (κ : Type u) (myuid : ℕ) : Message κ where
  priority := 1
  tag := "0"
  callback := some (.ipmiSendSyncCallback myuid)
  timeout := 3000
  rssa := ⟨2, 0⟩
  chan := ⟨0, 0⟩
  lun := ⟨0, 0⟩
  netfn := ⟨0, 6⟩
  cmd := ⟨3, 11⟩
  data := [4]

/-! ## The socket -/

/-- Close the socket and put the message in progress back. -/
def rmcpClose (s : Connection κ) : Connection κ :=
  if s.rmcpSock = 0 then s.markClosed
  else
    match s.inprogress with
    | none => { s.markClosed.shut with rmcpSock := 0 }
    | some e =>
      { ipmiQueue .front e.toItem { s.markClosed.shut.cancelTimer e with inprogress := none } with
        rmcpSock := 0 }

/-- Open a socket and write a ping, which raises when it cannot be written. -/
def rmcpOpen (opened : Option ℕ) (pinged : Bool) (s : Connection κ) : Connection κ :=
  if s.rmcpSock ≠ 0 then s
  else
    match opened with
    | none => s
    | some sock =>
      let s := { s with rmcpSock := sock, fileevent := true }
      if pinged then
        { (s.rmcpSend pingmsg).after with rmcpStatus := .opening, rmcpOpenAfter := s.nextAfter }
      else s

def ipmiHealth (opened : Option ℕ) (pinged : Bool) (s : Connection κ) : Connection κ :=
  match s.rmcpStatus with
  | .disconnected | .closed => rmcpOpen opened pinged s
  | .opening => s
  | .connected => ipmiDequeue s
  | .timeout | .error => rmcpClose s

/-! ## Receiving -/

/-- What is left of `rmcp_process`. -/
inductive Frame
  /-- A callback of a caller runs. -/
  | callback
  /-- The object waits for its privileges. -/
  | privilege (myuid : ℕ)
  deriving DecidableEq

/-- The callback has returned. -/
def finish (s : Connection κ) : Connection κ := ipmiDequeue { s with inprogress := none }

/-- A response is taken for that of the message in progress. -/
def processResponse (status : Option ℤ) (databytes : Bytes) (owner : Option (Message κ))
    (s : Connection κ) : Connection κ × Option Frame :=
  match s.inprogress with
  | none => (ipmiDequeue s, none)
  | some e =>
    let s := (s.cancelTimer e).emit (.answered e.toItem status databytes owner)
    match e.callback with
    | some (.foreign _) => (s, some .callback)
    | some (.ipmiSendSyncCallback myuid) =>
      (finish { s with waitSendSync := s.waitSendSync ++ [(myuid, status)] }, none)
    | none => (finish s, none)

/-- The connection is established. -/
def processRakp4 (s : Connection κ) : Connection κ × Option Frame :=
  (ipmiQueue .back (privilegeMessage κ s.nextUid)
    { s.afterCancel s.rmcpOpenAfter with rmcpStatus := .connected, nextUid := s.nextUid + 1 },
    some (.privilege s.nextUid))

/-- The code that RAKP 3 would carry raises: the event loop deletes the handler. -/
def processRakp2 (hmac : Bytes → Option Bytes) (s : Connection κ) : Connection κ × Option Frame :=
  match s.nextTag.authCode hmac with
  | none => ({ s with toKeys := s.nextTag, fileevent := false }, none)
  | some authCode =>
    (ipmiDequeue ({ s with toKeys := s.nextTag }.rmcpSend (rakp3Packet s.nextTag authCode)), none)

/-- What the object does about a packet, up to where it waits. -/
def process (hmac : Bytes → Option Bytes) (owner : Option (Message κ)) (s : Connection κ) :
    Reading → Connection κ × Option Frame
  | .dropped => (s, none)
  | .raises => ({ s with fileevent := false }, none)
  | .ignored => (ipmiDequeue s, none)
  | .pong =>
    (ipmiDequeue (if s.rmcpStatus = .opening then s.rmcpSend (capabilitiesRequest s.toKeys) else s),
      none)
  | .refused => (rmcpClose s, none)
  | .capabilities auth1 =>
    let s := { s with authenabledmd5 := s.authenabledmd5 || (auth1 >>> 2) % 2 = 1 }
    (ipmiDequeue (if s.rmcpStatus = .opening then
      { s with toKeys := s.opening }.rmcpSend (rmcpplusOpenSessionPacket s.opening) else s), none)
  | .challenge tempsessid =>
    let s := { s with toKeys := s.challenged tempsessid }
    (ipmiDequeue (s.rmcpSend (activateRequest s.toKeys)), none)
  | .openSession id =>
    let s := { s with managedSystemSessId := id.getD s.managedSystemSessId }
    (ipmiDequeue ({ s with toKeys := s.nextTag }.rmcpSend (rakp1Packet s.nextTag)), none)
  | .rakp2 random =>
    processRakp2 hmac { s with managedSystemRandom := random <|> s.managedSystemRandom }
  | .rakp4 => processRakp4 s
  | .response status databytes => processResponse status databytes owner s

/-- `rmcp_process`; a packet that cannot be read is no packet. -/
def rmcpProcess [DecidableEq κ] (hmac : Bytes → Option Bytes) (packet : Option Bytes)
    (owner : Option (Message κ)) (s : Connection κ) : Connection κ × Option Frame :=
  match packet with
  | none => (s, none)
  | some packet =>
    process hmac owner (s.responded owner) (readPacket packet)

/-- The rest of `rmcp_process`. A wait goes on until its response is there. -/
def resume (f : Frame) (s : Connection κ) : Connection κ × Option Frame :=
  match f with
  | .callback => (finish s, none)
  | .privilege myuid =>
    match s.waitSendSync.find? fun w => w.1 = myuid with
    | none => (s, some (.privilege myuid))
    | some w =>
      let s := { s with waitSendSync := s.waitSendSync.filter fun w => w.1 ≠ myuid }
      (ipmiDequeue (if w.2 = some 0 then s else rmcpClose s), none)

/-! ## Events -/

inductive Event (κ : Type u)
  | ipmiQueue (r : Request κ)
  | readable (packet : Option Bytes) (owner : Option (Message κ))
  /-- The timer fires. -/
  | rmcpTimeout (timer : ℕ)
  | ipmiHealth (opened : Option ℕ) (pinged : Bool)

/-- The message of a request, with the default timeout. -/
def requestMessage (r : Request κ) : Message κ :=
  { r.item "0" 3000 with callback := r.callback.map .foreign }

/-- The packet is the response to a message. -/
def isResponse (packet : Option Bytes) : Bool :=
  match packet.map readPacket with
  | some (.response _ _) => true
  | _ => false

/-- The handler runs on readable sockets, the system at the other end responds to what was written,
and a timer fires when it is pending. A socket has a name other than 0. -/
def admissible (s : Connection κ) : Event κ → Prop
  | .readable packet owner =>
    s.fileevent = true ∧ ∀ item ∈ owner, item ∈ s.owed ∧ isResponse packet = true
  | .rmcpTimeout timer => timer ∈ s.afters
  | .ipmiHealth opened _ => ∀ sock ∈ opened, sock ≠ 0
  | .ipmiQueue _ => True

instance decidableAdmissible [DecidableEq κ] (s : Connection κ) : DecidablePred (admissible s)
  | .readable packet owner =>
    inferInstanceAs (Decidable
      (s.fileevent = true ∧ ∀ item ∈ owner, item ∈ s.owed ∧ isResponse packet = true))
  | .rmcpTimeout timer => inferInstanceAs (Decidable (timer ∈ s.afters))
  | .ipmiHealth opened _ => inferInstanceAs (Decidable (∀ sock ∈ opened, sock ≠ 0))
  | .ipmiQueue _ => isTrue trivial

variable [DecidableEq κ] (hmac : Bytes → Option Bytes)

def handle (s : Connection κ) : Event κ → Connection κ × Option Frame
  | .ipmiQueue r => (Rmcp.ipmiQueue .back (requestMessage r) s, none)
  | .readable packet owner => rmcpProcess hmac packet owner s
  | .rmcpTimeout timer => (rmcpClose { s with afters := s.afters.erase timer }, none)
  | .ipmiHealth opened pinged => (Rmcp.ipmiHealth opened pinged s, none)

/-- The object as an event loop whose handlers wait. -/
def reentrant (κ : Type u) [DecidableEq κ] : Reentrant (Connection κ) (Event κ) Frame :=
  ⟨admissible, handle hmac, resume⟩

instance decidableReentrant (s : Connection κ) :
    DecidablePred ((reentrant hmac κ).admissible s) :=
  inferInstanceAs (DecidablePred (admissible s))

/-- What has happened to the messages. -/
def Connection.log (s : Connection κ) : List (Courier.Label (Message κ)) :=
  s.effects.map Effect.label

end Definitions

end Amester.Rmcp
