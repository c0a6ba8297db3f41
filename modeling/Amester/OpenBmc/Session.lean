/-
# The openbmc session: requests over HTTP

An `openbmc` object sends each request as an asynchronous HTTP post and takes
its answer in a callback of the HTTP library. The library's requests are not
cancelled when the object closes, so `http` keeps every post whose answer is
still to come, with the message it carries. `effects` is the log of posts and
of answers; an answer names the message it was given to and the message whose
post it came from.

`openbmc2` has the same queue, slot, send and close code under its own names;
the two differ in how they log in and in the size of the buffer they ask for.
-/

import Amester.Ipmi.Queue

namespace Amester.OpenBmc

open BinaryFormat PriorityQueue

universe u

/-! ## Requests and replies -/

/-- `format %d` of a two-digit string: a leading zero makes it octal, and a
string that is no integer raises. -/
def formatD (h : Hex2) : Option ℕ :=
  if h.hi = 0 then
    if h.lo.val ≤ 7 then some h.lo.val else none
  else if h.hi.val ≤ 9 ∧ h.lo.val ≤ 9 then some (10 * h.hi.val + h.lo.val)
  else none

/-- The numbers of the posted body. -/
def pssThruData {κ : Type u} (item : Item κ) : List ℕ :=
  [65, 0, item.data.length + 2, item.cmd.byte.toNat, 0] ++ item.data.map UInt8.toNat

/-- A request for the device identifier is answered without the host. -/
def fakesDeviceId {κ : Type u} (item : Item κ) : Bool :=
  item.netfn.eqDigit 6 && item.cmd.eqDigit 1

/-- The packet of that answer: status 00 and "hello amester". -/
def fakeDeviceId : Bytes :=
  [0x00, 0x68, 0x65, 0x6c, 0x6c, 0x6f, 0x20, 0x61, 0x6d, 0x65, 0x73, 0x74, 0x65, 0x72]

/-- What the HTTP library reports when a post completes: whether its status is
ok, and the numbers under `data` when the body can be read. -/
structure HttpReply where
  ok : Bool
  dictData : Option (List ℤ)

/-- The digits of a status, which `binary format H2` reads as hexadecimal ones;
a minus sign raises. -/
def decimalDigits (n : ℤ) : Option (List Digit) :=
  if n < 0 then none
  else if n = 0 then some [0]
  else some (digitsFrom 10 n.toNat n.toNat)

/-- The packet that `openbmc_process` makes of a reply: the status, and the data
between the count and the checksum. -/
def HttpReply.packet (reply : HttpReply) : Option Bytes := do
  let dictData ← reply.dictData
  if reply.ok then
    let status ← dictData[2]?
    let digits ← decimalDigits status
    let data := (dictData.take (dictData.length - 2)).drop 5
    some (bytesOfDigits ((digits ++ [0]).take 2) ++ bytesOfDigits (data.flatMap format02x))
  else none

/-! ## The session -/

/-- What the session does to the outside. -/
inductive Effect (κ : Type u)
  /-- A post to an OCC with these numbers, carrying this message. -/
  | posted (occNum : ℕ) (body : List ℕ) (item : Item κ)
  /-- The message was answered from the post of `origin`, and its callback, if
  it has one, ran with this status and these data bytes. -/
  | answered (item origin : Item κ) (status : Option ℤ) (databytes : Bytes)

/-- The answered message, if the effect is an answer. -/
def Effect.answered? {κ : Type u} : Effect κ → Option (Item κ)
  | .answered item _ _ _ => some item
  | .posted _ _ _ => none

structure State (κ : Type u) extends MessageQueue κ where
  inprogressQ : List String := []
  /-- The tags whose `inprogress(tag,start_time_ms)` is set. -/
  startTimes : List String := []
  /-- The token of the last post, 0 when there is none. -/
  openbmcSock : ℕ := 0
  openbmcStatus : Status := .disconnected
  openbmcOpenAfter : ℕ := 0
  ipmiHealthAfter : ℕ := 0
  ipmiHealthPeriod : ℤ := 10000
  /-- The pending timers of the object. -/
  afters : List ℕ := []
  /-- The next timer identifier. -/
  nextAfter : ℕ := 1
  /-- The global switch `::network`. -/
  network : Bool := true
  timeout : ℤ := 120000
  /-- The posts whose answer is still to come. -/
  http : List (ℕ × Item κ) := []
  effects : List (Effect κ) := []
  /-- The program has called `exit`. -/
  exited : Bool := false

namespace State

variable {κ : Type u} (s : State κ)

/-- Append to the log. -/
def emit (e : Effect κ) : State κ := { s with effects := s.effects ++ [e] }

def afterCancel (id : ℕ) : State κ := { s with afters := s.afters.filter (· ≠ id) }

/-- The messages answered so far, in order. -/
def answered : List (Item κ) := s.effects.filterMap Effect.answered?

/-- Remove all entries of a tag from the in-progress table. -/
def unsetInprogress (tag : String) : State κ :=
  { s with
    toMessageQueue := s.remove tag
    startTimes := s.startTimes.filter (· ≠ tag) }

/-- Cancel the timers of all messages of a table. -/
def cancelAll (table : List (InProgress κ)) : State κ :=
  { s with afters := Amester.cancelAll InProgress.after id table s.afters }

/-- Enter a message into the in-progress table, take it off the queue and
start its timer. -/
def beginMessage (item : Item κ) (rest : List (Item κ)) : State κ :=
  { s with
    toMessageQueue := s.dispatch (item.entry s.nextAfter) rest
    inprogressQ := s.inprogressQ ++ [item.tag]
    afters := if item.timeout ≠ 0 then s.afters ++ [s.nextAfter] else s.afters
    nextAfter := if item.timeout ≠ 0 then s.nextAfter + 1 else s.nextAfter }

/-- Cancel the timer of the message in progress and clear its entries. -/
def freeSlot (e : InProgress κ) (timer : ℕ) : State κ :=
  { (s.afterCancel timer).unsetInprogress e.tag with inprogressQ := s.inprogressQ.drop 1 }

/-- Put a message on the queue. -/
def enqueueMessage (position : Position) (item : Item κ) : State κ :=
  { s with toMessageQueue := s.insertMessage position item }

/-- Note the time at which a message was sent. -/
def markStart (tag : String) : State κ := { s with startTimes := s.startTimes ++ [tag] }

end State

/-- How an attempt to start a post ends. -/
inductive SendResult
  | started (token : ℕ)
  | failed
  deriving DecidableEq, Repr

variable {κ : Type u}

/-- The state after an attempt to post a message. -/
def State.geturl (result : SendResult) (occNum : ℕ) (item : Item κ) (s : State κ) :
    State κ :=
  match result with
  | .started token =>
    { s.emit (.posted occNum (pssThruData item) item) with
      openbmcSock := token
      http := s.http ++ [(token, item)] }
  | .failed => s

/-- Hand a packet to the callback of a message. -/
def State.answer (item origin : Item κ) (packet : Bytes) (s : State κ) : State κ :=
  match scan [.int 1, .rest] packet with
  | [.int status, .bytes databytes] => s.emit (.answered item origin (some status) databytes)
  | _ => s.emit (.answered item origin none [])

/-- `openbmc_process_packet`, with the dequeue it calls as a parameter. The
packet is taken for the message in progress, wherever it came from; without one
the program exits. -/
def openbmcProcessPacketWith (dequeue : State κ → Outcome (State κ)) (origin : Item κ)
    (packet : Bytes) (s : State κ) : Outcome (State κ) :=
  match lookupTag (s.inprogressQ.headD "") s.inprogress with
  | none => .raise { s with exited := true } "exit"
  | some e =>
    if e.tag ∉ s.startTimes then
      .raise s "can't read inprogress(start_time_ms): no such element in array"
    else
      match e.after with
      | none => .raise s "can't read inprogress(after): no such element in array"
      | some timer =>
        (dequeue (s.freeSlot e timer)).andThen fun s => .ok (s.answer e.toItem origin packet)

/-- `openbmc_send`, with the dequeue of a message that is answered at once. -/
def openbmcSendWith (dequeue : State κ → Outcome (State κ)) (result : SendResult)
    (item : Item κ) (s : State κ) : Outcome (State κ) :=
  if fakesDeviceId item then
    openbmcProcessPacketWith dequeue item fakeDeviceId (s.markStart item.tag)
  else
    match formatD item.lun with
    | none => .raise s "expected integer"
    | some occNum => .ok ((s.geturl result occNum item).markStart item.tag)

/-- `ipmi_dequeue` on a session whose queue is the given list. -/
def ipmiDequeueFrom (result : SendResult) : List (Item κ) → State κ → Outcome (State κ)
  | [], s => .ok s
  | item :: rest, s =>
    if s.network = false then .ok s
    else if s.inprogressQ ≠ [] then .ok s
    else if s.openbmcStatus ≠ .connected then .ok s
    else if (lookupTag item.tag s.inprogress).isSome then .ok s
    else
      openbmcSendWith (ipmiDequeueFrom result rest) result item (s.beginMessage item rest)

/-- Send the next message if one is waiting and none is in progress. At most one
post is started; `result` says how the attempt ends. -/
def ipmiDequeue (result : SendResult) (s : State κ) : Outcome (State κ) :=
  ipmiDequeueFrom result s.ipmiMsgq s

/-- Put a request on the queue, and send it if it is the only one. -/
def ipmiQueue (result : SendResult) (r : Request κ) (position : Position) (s : State κ) :
    Outcome (State κ) :=
  if (s.enqueueMessage position (r.item "0" s.timeout)).ipmiMsgq.length = 1 then
    ipmiDequeue result (s.enqueueMessage position (r.item "0" s.timeout))
  else .ok (s.enqueueMessage position (r.item "0" s.timeout))

/-- Take a packet as the answer to the message in progress. -/
def openbmcProcessPacket (result : SendResult) (origin : Item κ) (packet : Bytes)
    (s : State κ) : Outcome (State κ) :=
  openbmcProcessPacketWith (ipmiDequeue result) origin packet s

/-- Handle the completion of a post. A reply that is not ok, or that cannot be
decoded, ends here. -/
def openbmcProcess (result : SendResult) (origin : Item κ) (reply : HttpReply)
    (s : State κ) : Outcome (State κ) :=
  match reply.packet with
  | some packet => openbmcProcessPacket result origin packet s
  | none => .ok s

/-! ## The connection -/

/-- Put every message of the list back at the front of the queue. -/
def repostAll (result : SendResult) : List (InProgress κ) → State κ → Outcome (State κ)
  | [], s => .ok s
  | e :: table, s =>
    (ipmiQueue result e.repost .front (s.unsetInprogress e.tag)).andThen
      (repostAll result table)

/-- What every close does first. -/
def State.markClosed (s : State κ) : State κ := { s with openbmcStatus := .closed }

/-- Close the session. Without a token the close ends before it looks at the
in-progress table. -/
def openbmcClose (result : SendResult) (s : State κ) : Outcome (State κ) :=
  if s.openbmcSock = 0 then .ok s.markClosed
  else
    (repostAll result s.inprogress
      { (s.markClosed.afterCancel s.openbmcOpenAfter).cancelAll s.inprogress with
        inprogressQ := [] }).andThen fun s => .ok { s with openbmcSock := 0 }

/-- Log in; `connected` says whether the host accepts. -/
def openbmcOpen (connected : Bool) (s : State κ) : State κ :=
  if s.openbmcSock ≠ 0 ∨ s.openbmcStatus = .opening then s
  else if connected then { s with openbmcStatus := .connected }
  else s

def openbmcTimeout (result : SendResult) (connected : Bool) (s : State κ) :
    Outcome (State κ) :=
  (openbmcClose result s).andThen fun s => .ok (openbmcOpen connected s)

/-- Replace the timer of the health check. -/
def State.restartHealth (s : State κ) : State κ :=
  { s.afterCancel s.ipmiHealthAfter with
    afters := (s.afterCancel s.ipmiHealthAfter).afters ++ [s.nextAfter]
    ipmiHealthAfter := s.nextAfter
    nextAfter := s.nextAfter + 1 }

def ipmiHealth (result : SendResult) (connected : Bool) (s : State κ) :
    Outcome (State κ) :=
  if s.ipmiHealthPeriod = 0 then .ok (s.afterCancel s.ipmiHealthAfter)
  else
    match s.openbmcStatus with
    | .disconnected | .closed => .ok (openbmcOpen connected s.restartHealth)
    | .opening => .ok s.restartHealth
    | .connected => ipmiDequeue result s.restartHealth
    | .timeout | .error => openbmcClose result s.restartHealth

/-! ## The methods of `openbmc2` -/

def openbmc2ProcessPacket : SendResult → Item κ → Bytes → State κ → Outcome (State κ) :=
  openbmcProcessPacket

def openbmc2Process : SendResult → Item κ → HttpReply → State κ → Outcome (State κ) :=
  openbmcProcess

def openbmc2Close : SendResult → State κ → Outcome (State κ) := openbmcClose

def openbmc2Open : Bool → State κ → State κ := openbmcOpen

def openbmc2Timeout : SendResult → Bool → State κ → Outcome (State κ) := openbmcTimeout

end Amester.OpenBmc
