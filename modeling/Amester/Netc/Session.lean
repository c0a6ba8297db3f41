/-
# The netc session: request queue, message in progress, connection and timers

One value holds everything the methods of a `netc` object share: the queue, the
in-progress table with its queue of tags, the connection and its status, and
the timers the object has pending. Two fields stand for the outside: `fsp` is
the list of IPMI requests written to the open connection that the FSP has not
answered yet, and `effects` is the log of what the object has done to the
outside, in order.

A callback is arbitrary code. It runs last in every method that runs it, up to
latency statistics and one more `ipmi_dequeue`, so what it does to the session
is described by the events that follow, not inside the step that runs it.
-/

import Amester.Ipmi.Queue
import Amester.Netc.Message

namespace Amester.Netc

open BinaryFormat PriorityQueue

universe u

/-- The scripts that `after` schedules. -/
inductive Timer
  | netcTimeout
  | ipmiHealth
  | netcSurveillance
  deriving DecidableEq, Repr

/-- What the session does to the outside. -/
inductive Effect (κ : Type u)
  | opened (sock : ℕ)
  | closed (sock : ℕ)
  | wroteVersion
  | wrotePassword
  | wrotePolling (status : ℤ)
  | wroteIpmi (item : Item κ)
  /-- A response was taken as the answer to this message. -/
  | received (item : Item κ)
  /-- The message's callback ran with this status and these data bytes. -/
  | ranCallback (item : Item κ) (status : Option ℤ) (databytes : Bytes)
  | unknownMessage

/-- The answered message, if the effect is an answer. -/
def Effect.received? {κ : Type u} : Effect κ → Option (Item κ)
  | .received item => some item
  | _ => none

structure State (κ : Type u) extends MessageQueue κ where
  inprogressQ : List String := []
  /-- The channel, 0 when there is none. -/
  netcSock : ℕ := 0
  netcStatus : Status := .disconnected
  netcOpenAfter : ℕ := 0
  ipmiHealthAfter : ℕ := 0
  netcSurveillanceAfter : ℕ := 0
  /-- The pending timers of the object. -/
  afters : List (ℕ × Timer) := []
  /-- The next timer identifier. -/
  nextAfter : ℕ := 1
  /-- The global switch `::network`. -/
  network : Bool := true
  timeout : ℤ := 120000
  tool : String := "dev"
  ipmiHealthPeriod : ℤ := 10000
  netcSurveillancePeriod : ℤ := 1500000
  fsp : List (Item κ) := []
  effects : List (Effect κ) := []

namespace State

variable {κ : Type u} (s : State κ)

/-- Append to the log. -/
def emit (e : Effect κ) : State κ := { s with effects := s.effects ++ [e] }

/-- The identifier that the next `after` returns is `s.nextAfter`. -/
def after (timer : Timer) : State κ :=
  { s with afters := s.afters ++ [(s.nextAfter, timer)], nextAfter := s.nextAfter + 1 }

def afterCancel (id : ℕ) : State κ :=
  { s with afters := s.afters.filter fun t => t.1 ≠ id }

/-- The messages answered so far, in order. -/
def answered : List (Item κ) := s.effects.filterMap Effect.received?

/-- Cancel the timers of all messages of a table. -/
def cancelAll (table : List (InProgress κ)) : State κ :=
  { s with afters := Amester.cancelAll InProgress.after Prod.fst table s.afters }

/-- Enter a message into the in-progress table, take it off the queue and
start its timer. -/
def beginMessage (item : Item κ) (rest : List (Item κ)) : State κ :=
  let timed := if item.timeout ≠ 0 then s.after .netcTimeout else s
  { s with
    toMessageQueue := s.dispatch (item.entry s.nextAfter) rest
    inprogressQ := s.inprogressQ ++ [item.tag]
    afters := timed.afters
    nextAfter := timed.nextAfter }

/-- Cancel the timer of the message in progress and clear its entries. -/
def freeSlot (e : InProgress κ) (timer : ℕ) : State κ :=
  ({ s.afterCancel timer with
      toMessageQueue := s.remove e.tag
      inprogressQ := s.inprogressQ.drop 1 }).emit (.received e.toItem)

/-- Put a message on the queue. -/
def enqueueMessage (position : Position) (item : Item κ) : State κ :=
  { s with toMessageQueue := s.insertMessage position item }

/-- Write an IPMI message to the channel. -/
def netcSend (item : Item κ) : State κ :=
  { s.emit (.wroteIpmi item) with fsp := s.fsp ++ [item] }

end State

variable {κ : Type u}

/-- Scan status and data out of a response and run the callback. -/
def runCallback (item : Item κ) (ncdata : Bytes) (s : State κ) : Outcome (State κ) :=
  match decodeIpmi ncdata with
  | .error message => .raise s message
  | .ok (status, databytes) =>
    match item.callback with
    | none => .ok s
    | some _ => .ok (s.emit (.ranCallback item status databytes))

/-- `processIpmi`, with the dequeue it calls as a parameter: clear the slot,
launch the next message, then scan the response and run the callback. -/
def processIpmiWith (dequeue : State κ → Outcome (State κ)) (ncdata : Bytes)
    (s : State κ) : Outcome (State κ) :=
  match lookupTag (s.inprogressQ.headD "") s.inprogress with
  | none => .ok s
  | some e =>
    match e.after with
    | none => .raise s "can't read inprogress(after): no such element in array"
    | some timer =>
      (dequeue (s.freeSlot e timer)).andThen (runCallback e.toItem ncdata)

/-- `ipmi_dequeue` on a session whose queue is the given list. A
get-device-identifier request is answered on the spot, which frees the slot and
dequeues again from what is left of the list. -/
def ipmiDequeueFrom : List (Item κ) → State κ → Outcome (State κ)
  | [], s => .ok s
  | item :: rest, s =>
    if s.network = false then .ok s
    else if s.inprogressQ ≠ [] then .ok s
    else if s.netcStatus ≠ .connected then .ok s
    else if (lookupTag item.tag s.inprogress).isSome then .ok s
    else if item.netfn.eqDigit 6 && item.cmd.eqDigit 1 then
      processIpmiWith (ipmiDequeueFrom rest) fakeDeviceId (s.beginMessage item rest)
    else .ok ((s.beginMessage item rest).netcSend item)

/-- Send the next message if one is waiting and none is in progress. -/
def ipmiDequeue (s : State κ) : Outcome (State κ) := ipmiDequeueFrom s.ipmiMsgq s

/-- Take a response as the answer to the message in progress. -/
def processIpmi (ncdata : Bytes) (s : State κ) : Outcome (State κ) :=
  processIpmiWith ipmiDequeue ncdata s

/-- Put a request on the queue, and send it if it is the only one. -/
def ipmiQueue (r : Request κ) (position : Position) (s : State κ) : Outcome (State κ) :=
  if (s.enqueueMessage position (r.item "0" s.timeout)).ipmiMsgq.length = 1 then
    ipmiDequeue (s.enqueueMessage position (r.item "0" s.timeout))
  else .ok (s.enqueueMessage position (r.item "0" s.timeout))

/-! ## The connection -/

/-- Put every message of the list back at the front of the queue. -/
def repostAll : List (InProgress κ) → State κ → Outcome (State κ)
  | [], s => .ok s
  | e :: table, s =>
    (ipmiQueue e.repost .front { s with toMessageQueue := s.remove e.tag }).andThen
      (repostAll table)

/-- `sendSetHMCPollingFrequency`; the write fails silently without a channel. -/
def sendSetHMCPollingFrequency (status : ℤ) (s : State κ) : State κ :=
  if s.netcSock = 0 then s else s.emit (.wrotePolling status)

/-- What every close does first, with or without a channel. -/
def State.markClosed (s : State κ) : State κ :=
  { (if s.tool = "MSGP" then sendSetHMCPollingFrequency 3 s else s) with
    netcStatus := .closed }

/-- Close the channel and cancel the timers that wait for it. The FSP's pending
answers go with the channel. -/
def State.dropChannel (s : State κ) : State κ :=
  { ((s.emit (.closed s.netcSock)).afterCancel s.netcOpenAfter).cancelAll s.inprogress with
    inprogressQ := []
    fsp := [] }

def netcClose (s : State κ) : Outcome (State κ) :=
  if s.netcSock = 0 then .ok s.markClosed
  else
    (repostAll s.inprogress s.markClosed.dropChannel).andThen fun s =>
      .ok { s with netcSock := 0 }

/-- How an attempt to connect ends. -/
inductive OpenResult
  | socketFailed
  | handshakeFailed (sock : ℕ)
  | established (sock : ℕ)
  deriving DecidableEq, Repr

/-- A channel that was created has a name other than 0. -/
def OpenResult.Valid : OpenResult → Prop
  | .socketFailed => True
  | .handshakeFailed sock | .established sock => sock ≠ 0

instance : DecidablePred OpenResult.Valid
  | .socketFailed => isTrue trivial
  | .handshakeFailed sock | .established sock => inferInstanceAs (Decidable (sock ≠ 0))

def netcOpen (result : OpenResult) (s : State κ) : Outcome (State κ) :=
  if s.netcSock ≠ 0 ∨ s.netcStatus = .opening then .ok s
  else
    match result with
    | .socketFailed => .ok s
    | .handshakeFailed sock => netcClose ({ s with netcSock := sock }.emit (.opened sock))
    | .established sock =>
      let s := ({ s with netcSock := sock }.emit (.opened sock)).emit .wroteVersion
      .ok { s.after .netcTimeout with netcStatus := .opening, netcOpenAfter := s.nextAfter }

def netcTimeout (result : OpenResult) (s : State κ) : Outcome (State κ) :=
  (netcClose s).andThen (netcOpen result)

/-- Start the timer of the next poll, unless polling is off. -/
def State.startSurveillance (s : State κ) : State κ :=
  if s.netcSurveillancePeriod ≠ 0 then
    { s.after .netcSurveillance with netcSurveillanceAfter := s.nextAfter }
  else s

def netcSurveillance (s : State κ) : State κ :=
  let s := s.afterCancel s.netcSurveillanceAfter
  if s.tool = "dev" then s
  else
    match s.netcStatus with
    | .connected | .opening => (sendSetHMCPollingFrequency 1 s).startSurveillance
    | _ => s

/-- A poll cancels its timer, and starts it again behind a message to the FSP. -/
theorem netcSurveillance_cases (s : State κ) :
    netcSurveillance s = s.afterCancel s.netcSurveillanceAfter ∨
      netcSurveillance s = (sendSetHMCPollingFrequency 1
        (s.afterCancel s.netcSurveillanceAfter)).startSurveillance := by
  unfold netcSurveillance
  simp only
  split
  · exact .inl rfl
  · split
    · exact .inr rfl
    · exact .inr rfl
    · exact .inl rfl

def ipmiHealth (result : OpenResult) (s : State κ) : Outcome (State κ) :=
  let s := s.afterCancel s.ipmiHealthAfter
  if s.ipmiHealthPeriod = 0 then .ok s
  else
    let s := { s.after .ipmiHealth with ipmiHealthAfter := s.nextAfter }
    match s.netcStatus with
    | .disconnected | .closed => netcOpen result s
    | .opening => .ok s
    | .connected => ipmiDequeue s
    | .timeout | .error => netcClose s

/-! ## Messages from the FSP -/

/-- The operations whose responses `netc_process` knows, by function and
operation code. -/
inductive FuncOp
  | version
  | password
  | ipmi
  | nodeConfig
  | pollingFrequency
  | unknown
  deriving DecidableEq, Repr

/-- The switch on `$ncfunc$ncop`. -/
def NetcPacket.funcop (p : NetcPacket) : FuncOp :=
  match p.ncfunc ++ p.ncop with
  | [0, 0, 0, 7, 0, 0, 0, 2] => .version
  | [0, 0, 0, 7, 7, 4, 1, 2] => .password
  | [0, 0, 0, 5, 9, 0, 14, 1] => .ipmi
  | [0, 0, 1, 12, 8, 1, 1, 6] => .nodeConfig
  | [0, 0, 0, 5, 0, 0, 0, 9] => .pollingFrequency
  | _ => .unknown

/-- The client identifier is in use: status 0025. -/
def NetcPacket.clientConnected (p : NetcPacket) : Bool := p.ncstatus = [0, 0, 2, 5]

/-- Status 0000. -/
def NetcPacket.success (p : NetcPacket) : Bool := p.ncstatus = [0, 0, 0, 0]

/-- The password was accepted: the session is connected. -/
def passwordAccepted (ncdata : Bytes) (s : State κ) : Outcome (State κ) :=
  if ncdata = [] then .raise s "can't read passwordStatus: no such variable"
  else ipmiDequeue (netcSurveillance { s with netcStatus := .connected })

/-- The version was negotiated: send the password if the session is opening. -/
def versionReceived (ncdata : Bytes) (s : State κ) : Outcome (State κ) :=
  match decodeVersion ncdata with
  | .error message => .raise s message
  | .ok () => .ok (if s.netcStatus = .opening then s.emit .wrotePassword else s)

def nodeConfigReceived (ncdata : Bytes) (s : State κ) : Outcome (State κ) :=
  match processGetNodeConfig ncdata with
  | .error message => .raise s message
  | .ok () => .ok s

/-- The switch of `netc_process`. A refused version or password request closes
the connection and returns at once; every other message ends with another look
at the queue. -/
def netcDispatch (p : NetcPacket) (s : State κ) : Outcome (State κ) :=
  match p.funcop with
  | .version =>
    if p.success then (versionReceived p.ncdata s).andThen ipmiDequeue
    else netcClose s
  | .password =>
    let s := s.afterCancel s.netcOpenAfter
    if p.success then (passwordAccepted p.ncdata s).andThen ipmiDequeue
    else netcClose (s.afterCancel s.ipmiHealthAfter)
  | .ipmi => (processIpmi p.ncdata s).andThen ipmiDequeue
  | .nodeConfig => (nodeConfigReceived p.ncdata s).andThen ipmiDequeue
  | .pollingFrequency => ipmiDequeue s
  | .unknown => ipmiDequeue (s.emit .unknownMessage)

/-- Handle one complete message from the FSP. -/
def netcProcess (p : NetcPacket) (result : OpenResult) (s : State κ) :
    Outcome (State κ) :=
  (if p.clientConnected then (netcClose s).andThen (netcOpen result) else .ok s).andThen
    (netcDispatch p)

end Amester.Netc
