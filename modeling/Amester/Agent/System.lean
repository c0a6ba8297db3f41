/-
# The client and its agent

The client's session of `emtagent` and the server of the agent, with the lines that are on their way
in between. Each of them takes its steps on its own: the client sends, gives up and connects again,
the agent serves other clients as well and runs messages within one another, and lines arrive at
any time later, or not at all. What is on its way to the agent of a connection still arrives when
the client has closed it; what is on its way to the client does not.

Whatever happens, a callback runs with the result of its own message, once at most and in the order
of the answers, as long as the agent's system does not give the name of a socket away while its
messages are being run.
-/

import Amester.Agent.Isolation
import Amester.LineHost.Entries

namespace Amester.Agent

open ListFormat EventMachine

universe u

/-! ## The system -/

section Definitions

variable {κ : Type u}

/-- Both parties and what is between them. -/
structure System (κ : Type u) where
  client : LineHost.State κ := {}
  /-- The tags of the client's callbacks that have not returned, the innermost first. -/
  callbacks : List String := []
  agent : Suspended Server Frame := ⟨{}, []⟩
  /-- The number of the connection for which the client has a socket. -/
  link : ℕ := 0
  /-- The client's connections so far, with the names that it had for the sockets. -/
  links : List (ℕ × ℕ) := []
  /-- The lines on their way to the agent. -/
  toAgent : ℕ → List Text := fun _ => []
  /-- What the agent has written to the client's connection and the client has not read. -/
  toClient : List Effect := []
  /-- The messages that were sent, with their connections. -/
  sent : List (ℕ × LineHost.LineItem κ) := []
  /-- The callbacks that ran, with the connection of the reply and what was appended. -/
  handled : List (ℕ × LineHost.LineItem κ × List String) := []

/-- The line that is written for a message. -/
def Tcl.line (tcl : Tcl) (item : LineHost.LineItem κ) : Text :=
  tcl.list [item.tag.toList, item.msg.toList]

/-- What the client makes of a line. -/
def Tcl.input (tcl : Tcl) (line : Text) : LineHost.Input :=
  match tcl.elements line with
  | none => .malformed
  | some words => .line (String.ofList (words.getD 0 [])) (String.ofList (words.getD 1 []))

def sentItem? : LineHost.Effect κ → Option (LineHost.LineItem κ)
  | .sent item => some item
  | .replied _ _ => none

def repliedItem? : LineHost.Effect κ → Option (LineHost.LineItem κ × List String)
  | .replied item arguments => some (item, arguments)
  | .sent _ => none

variable (tcl : Tcl)

/-- The client goes on to a state. A connection that it opens has this number. -/
def System.clientTo (sys : System κ) (conn : ℕ) (t : LineHost.State κ) : System κ :=
  let new := t.effects.drop sys.client.effects.length
  let opens : Bool := sys.client.sock = 0 ∧ t.sock ≠ 0
  let link := if opens then conn else sys.link
  { sys with
    client := t
    link := link
    links := if opens then sys.links ++ [(conn, t.sock)] else sys.links
    toAgent := fun l =>
      if l = link then sys.toAgent l ++ (new.filterMap sentItem?).map tcl.line else sys.toAgent l
    toClient := if opens ∨ t.sock = 0 then [] else sys.toClient
    sent := sys.sent ++ (new.filterMap sentItem?).map fun item => (link, item)
    handled := sys.handled ++ (new.filterMap repliedItem?).map fun reply => (link, reply) }

/-- The client reads. -/
def System.readTo (sys : System κ) (input : LineHost.Input) (written : Bool) : System κ :=
  let read := LineHost.readReply LineHost.emtagent input written sys.client
  { sys with callbacks := read.2.toList ++ sys.callbacks }.clientTo tcl 0 read.1

/-- The lines that the agent takes off a connection. -/
def taken (t : Suspended Server Frame) (l : ℕ) : Happening Event → List Text
  | .occurs (.readable sock (.line line) _ _) =>
    match t.state.channel? sock with
    | some c => if c.conn = l then [line] else []
    | none => []
  | .occurs (.readable _ .failed _ _) | .occurs (.accept _ _ _) | .occurs (.done _ _ _)
  | .returns => []

/-- The agent goes on. -/
def System.agentTo (sys : System κ) (happening : Happening Event) : System κ :=
  let t := (reentrant tcl).machine.step sys.agent happening
  let new := t.state.effects.drop sys.agent.state.effects.length
  { sys with
    agent := t
    toAgent := fun l =>
      (sys.toAgent l).drop ((taken sys.agent l happening).filter (· ≠ [])).length
    toClient :=
      if sys.client.sock = 0 then sys.toClient
      else sys.toClient ++ new.filter fun e => (e.line? tcl sys.link).isSome }

/-- Steps of the system. -/
inductive Move (κ : Type u)
  /-- The client does anything but read a line. -/
  | client (event : LineHost.Event κ) (conn : ℕ)
  | network (on : Bool)
  /-- The client reads a line, up to the callback if one runs. -/
  | clientReads (written : Bool)
  /-- The client reads when no whole line has come. -/
  | clientReadsPart (written : Bool)
  /-- The innermost callback returns. -/
  | clientReturns (written : Bool)
  | agent (happening : Happening Event)

def System.step (sys : System κ) : Move κ → System κ
  | .client event conn =>
    sys.clientTo tcl conn
      ((⟨sys.client, []⟩ : LineHost.World κ).step LineHost.emtagent event).session
  | .network on => sys.clientTo tcl 0 { sys.client with network := on }
  | .clientReads written =>
    if sys.client.pause then sys
    else
      match sys.toClient with
      | [] => sys
      | e :: rest =>
        { sys with toClient := rest }.readTo tcl
          (tcl.input ((e.line? tcl sys.link).getD [])) written
  | .clientReadsPart written => sys.readTo tcl (.line "" "") written
  | .clientReturns written =>
    match sys.callbacks with
    | [] => sys
    | tag :: callbacks =>
      { sys with callbacks := callbacks }.clientTo tcl 0
        (LineHost.afterCallback tag written sys.client)
  | .agent happening => sys.agentTo tcl happening

/-- The client's own steps send messages of one line and read nothing. -/
def OwnStep : LineHost.Event κ → Prop
  | .sendMsg r _ => OneLine r.tag.toList ∧ OneLine r.msg.toList
  | .processMsg input _ => input = .failed
  | .msgTimeout _ | .closeSock | .openTimeout | .openCallback _ _ | .checkSocketStatus
  | .health _ _ | .pause _ | .tagTaken => True

/-- From the client's connections the agent reads the lines in order, or that no whole one has
come. -/
def System.Delivers (sys : System κ) : Happening Event → Prop
  | .occurs (.readable sock (.line line) _ _) =>
    ∀ c ∈ sys.agent.state.channel? sock, c.conn ∈ sys.links.map Prod.fst →
      line = [] ∨ some line = (sys.toAgent c.conn).head?
  | .occurs (.readable _ .failed _ _) | .occurs (.accept _ _ _) | .occurs (.done _ _ _)
  | .returns => True

/-- A new connection has a new number. -/
def System.admissible (sys : System κ) : Move κ → Prop
  | .client event conn =>
    OwnStep event ∧ (⟨sys.client, []⟩ : LineHost.World κ).admissible LineHost.emtagent event ∧
      conn ∉ sys.links.map Prod.fst ∧ conn ∉ sys.agent.state.accepted
  | .network _ => True
  | .clientReads _ => sys.client.sock ≠ 0 ∧ sys.toClient ≠ []
  | .clientReadsPart _ => sys.client.sock ≠ 0
  | .clientReturns _ => sys.callbacks ≠ []
  | .agent happening =>
    (reentrant tcl).machine.admissible sys.agent happening ∧ sys.Delivers happening

def system (κ : Type u) : Machine (System κ) (Move κ) :=
  ⟨System.admissible tcl, System.step tcl⟩

instance decidableOwnStep : DecidablePred (OwnStep (κ := κ))
  | .sendMsg r _ => inferInstanceAs (Decidable (OneLine r.tag.toList ∧ OneLine r.msg.toList))
  | .processMsg input _ => inferInstanceAs (Decidable (input = .failed))
  | .msgTimeout _ | .closeSock | .openTimeout | .openCallback _ _ | .checkSocketStatus
  | .health _ _ | .pause _ | .tagTaken => isTrue trivial

instance decidableDelivers (sys : System κ) : DecidablePred sys.Delivers
  | .occurs (.readable sock (.line line) _ _) =>
    inferInstanceAs (Decidable (∀ c ∈ sys.agent.state.channel? sock,
      c.conn ∈ sys.links.map Prod.fst → line = [] ∨ some line = (sys.toAgent c.conn).head?))
  | .occurs (.readable _ .failed _ _) | .occurs (.accept _ _ _) | .occurs (.done _ _ _)
  | .returns => isTrue trivial

instance decidableSystem (sys : System κ) : DecidablePred ((system tcl κ).admissible sys)
  | .client event conn =>
    inferInstanceAs (Decidable (OwnStep event ∧
      (⟨sys.client, []⟩ : LineHost.World κ).admissible LineHost.emtagent event ∧
      conn ∉ sys.links.map Prod.fst ∧ conn ∉ sys.agent.state.accepted))
  | .network _ => isTrue trivial
  | .clientReads _ => inferInstanceAs (Decidable (sys.client.sock ≠ 0 ∧ sys.toClient ≠ []))
  | .clientReadsPart _ => inferInstanceAs (Decidable (sys.client.sock ≠ 0))
  | .clientReturns _ => inferInstanceAs (Decidable (sys.callbacks ≠ []))
  | .agent happening =>
    inferInstanceAs (Decidable
      ((reentrant tcl).machine.admissible sys.agent happening ∧ sys.Delivers happening))

/-! ## What is to hold -/

/-- An answer as the client should see it: the tag, the message and what its callback gets. -/
def answer? (l : ℕ) : Effect → Option (Text × Text × List Text)
  | .answered call result c => if c = l then some (call.tag, call.msg, [oneLine result]) else none
  | .read _ _ | .started _ | .greeted _ | .closed _ | .raised => none

namespace System

variable (sys : System κ)

def answersOn (l : ℕ) : List (Text × Text × List Text) :=
  sys.agent.state.effects.filterMap (answer? l)

/-- The callbacks that ran for a connection. -/
def handledOn (l : ℕ) : List (Text × Text × List Text) :=
  (sys.handled.filter (·.1 = l)).map fun entry =>
    (entry.2.1.tag.toList, entry.2.1.msg.toList, entry.2.2.map String.toList)

def sentOn (l : ℕ) : List (LineHost.LineItem κ) := (sys.sent.filter (·.1 = l)).map Prod.snd

/-- The messages of a connection that are run. What comes of no whole line has an empty tag. -/
def runsOn (l : ℕ) : List (Text × Text) :=
  ((sys.agent.state.started.filter (·.conn = l)).map fun call => (call.tag, call.msg)).filter
    (·.1 ≠ [])

/-- What is on its way is one line each. Each message is run once at most and in order, answered
once at most, and each callback runs once at most, with the result of its own message. -/
structure Faithful : Prop where
  toAgent : ∀ l, ∀ line ∈ sys.toAgent l, OneLine line
  toClient : sys.client.sock ≠ 0 → ∀ e ∈ sys.toClient, ∀ line ∈ e.line? tcl sys.link, OneLine line
  runs : ∀ l ∈ sys.links.map Prod.fst, (sys.runsOn l).Sublist
    ((sys.sentOn l).map fun item => (item.tag.toList, item.msg.toList))
  answered : sys.agent.state.answered.Subperm sys.agent.state.started
  isolated : sys.agent.state.Isolated
  handled : ∀ l, (sys.handledOn l).Sublist (sys.answersOn l)

end System

end Definitions

end Amester.Agent
