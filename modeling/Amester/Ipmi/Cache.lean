/-
# The cache of IPMI responses

Commands whose response depends on the machine type and the firmware only are answered
from a cache. The cache belongs to the class of a host, so all hosts of one type share
it. An entry is found under an index: what the host type knows of the machine, the tag
of the caller, the route and the command, written one behind the other.

The caller is an AME object, one for each OCC. Its tag names its firmware and API
version, and both are unknown until its first command, which asks for them, has been
answered. What it asks for then depends on what it has obtained so far.
-/

import Amester.Ipmi.Request
import Amester.Lib.EventMachine

namespace Amester.Cache

open BinaryFormat EventMachine

universe u v

/-! ## Hosts and commands -/

/-- The classes of hosts. The others build the index as one of these does: `tunasim` as
`netc`, `openbmc2` and `systemz` as `openbmc`, `emtagent` as `localhost`. -/
inductive HostKind
  | netc
  | openbmc
  | openpower
  | blade
  /-- Has no cache. -/
  | localhost
  deriving DecidableEq, Repr

structure Host where
  /-- What `netc` and `blade` are told as `mtm` when they connect. -/
  machineType : Bytes
  addr : Bytes
  ipmiCacheEnable : Bool := true
  deriving DecidableEq

/-- The arguments of `ipmi_send_sync_cache` without the priority and the tag. -/
structure Query where
  rssa : Hex2
  chan : Hex2
  lun : Hex2
  netfn : Hex2
  cmd : Hex2
  data : Bytes
  deriving DecidableEq

/-- The commands are the same, wherever they go. -/
def Query.Same (q q' : Query) : Prop := q.netfn = q'.netfn ∧ q.cmd = q'.cmd ∧ q.data = q'.data

instance (q q' : Query) : Decidable (q.Same q') :=
  inferInstanceAs (Decidable (q.netfn = q'.netfn ∧ q.cmd = q'.cmd ∧ q.data = q'.data))

/-- The status and the bytes that `ipmi_send_sync` returns. -/
abbrev Response := ℤ × Bytes

namespace HostKind

/-- What is known of the machine. -/
def machine : HostKind → Host → Bytes
  | .netc, host | .blade, host => host.machineType
  | .openpower, host => host.addr
  | .openbmc, _ | .localhost, _ => []

/-- The route and the number of the command. -/
def route : HostKind → Query → Bytes
  | .blade, q => [q.rssa.byte, q.chan.byte, q.lun.byte, q.netfn.byte, q.cmd.byte]
  | .netc, q | .openbmc, q | .openpower, q | .localhost, q =>
    [q.rssa.byte, q.netfn.byte, q.cmd.byte]

/-- `set index [binary format ..]`. -/
def index (kind : HostKind) (host : Host) (tag : Bytes) (q : Query) : Bytes :=
  kind.machine host ++ tag ++ kind.route q ++ q.data

/-- Whether the command is sent, or the cache is read: `blade` sends it too when its
cache is disabled, the others then read the cache. -/
def sends (kind : HostKind) (enable present : Bool) : Bool :=
  match kind with
  | .netc | .openbmc | .openpower => enable && !present
  | .blade => !(enable && present)
  | .localhost => true

/-- Whether the response of a command that was sent is kept. -/
def keeps (kind : HostKind) : Bool := kind ≠ .localhost

end HostKind

/-! ## Tags -/

/-- The characters of a text. -/
def text (s : String) : Bytes := s.toList.map fun c => UInt8.ofNat c.toNat

/-- `"$ame_version $api_version"` before the version is known. -/
def unknownTag : Bytes := text "unknown unknown"

/-- `"$ame_version $api_version"`, from the bytes of the two versions. -/
def versionTag (verMajor verMinor apiMajor apiMinor : ℤ) : Bytes :=
  text (toString verMajor) ++ text "." ++ text (toString verMinor) ++ text " " ++
    text (toString apiMajor) ++ text "." ++ text (toString apiMinor)

/-- The command of `init_version`. -/
def versionCommand : Bytes := [0x1c]

/-- The tag behind `api_callback` and `version_callback`; an error status or a short
response leaves the versions as they were. -/
def initVersion (response : Response) (tag : Bytes) : Bytes :=
  if response.1 = 0 then
    match scan [.int 1, .int 1, .int 1, .int 1, .bytes 4, .bytes 2, .int 1] response.2 with
    | [.int apiMajor, .int apiMinor, .int verMajor, .int verMinor, _, _, _] =>
      versionTag verMajor verMinor apiMajor apiMinor
    | _ => tag
  else tag

/-! ## The machine -/

/-- The hosts and their AME objects. -/
structure World (C : Type u) (H : Type v) where
  kind : HostKind
  host : H → Host
  /-- What the firmware of a host answers. -/
  answer : H → Query → Response
  /-- The host of an AME object, and the route to it. -/
  hostOf : C → H
  rssa : C → Hex2
  lun : C → Hex2
  /-- The next cached command of an AME object, after what it has obtained. -/
  script : C → List Response → Option Bytes

/-- An entry of the cache, with the object that sent the command. The code keeps the
response only. -/
structure Entry (C : Type u) where
  response : Response
  sender : C
  query : Query

structure State (C : Type u) where
  ipmiCache : Bytes → Option (Entry C) := fun _ => none
  tag : C → Bytes := fun _ => unknownTag
  /-- What an object has obtained. -/
  obtained : C → List Response := fun _ => []
  /-- The index and the command for whose response an object waits. -/
  waiting : C → Option (Bytes × Query) := fun _ => none

variable {C : Type u} {H : Type v}

/-- The command of an AME object: `send_sync_cache 3a 3c`. -/
def World.query (w : World C H) (c : C) (data : Bytes) : Query where
  rssa := w.rssa c
  chan := ⟨0, 0⟩
  lun := w.lun c
  netfn := ⟨3, 10⟩
  cmd := ⟨3, 12⟩
  data := data

/-- An object obtains the response to its command. -/
def State.obtain [DecidableEq C] (s : State C) (c : C) (q : Query) (response : Response) :
    State C :=
  { s with
    tag := Function.update s.tag c
      (if q.data = versionCommand then initVersion response (s.tag c) else s.tag c)
    obtained := Function.update s.obtained c (s.obtained c ++ [response])
    waiting := Function.update s.waiting c none }

/-- `ipmi_send_sync_cache` up to the place where it waits. An index that is not in the
array raises. -/
def ipmiSendSyncCache [DecidableEq C] (w : World C H) (c : C) (q : Query) (s : State C) : State C :=
  let index := w.kind.index (w.host (w.hostOf c)) (s.tag c) q
  if w.kind.sends (w.host (w.hostOf c)).ipmiCacheEnable (s.ipmiCache index).isSome then
    { s with waiting := Function.update s.waiting c (some (index, q)) }
  else
    match s.ipmiCache index with
    | some entry => s.obtain c q entry.response
    | none => s

/-- `ipmi_send_sync_cache` from the place where it has waited. -/
def ipmiSendSyncReturn [DecidableEq C] (w : World C H) (c : C) (index : Bytes) (q : Query)
    (s : State C) : State C :=
  let response := w.answer (w.hostOf c) q
  let s := if w.kind.keeps then
      { s with ipmiCache := Function.update s.ipmiCache index (some ⟨response, c, q⟩) }
    else s
  s.obtain c q response

/-- While an object waits the others go on, so the objects take turns in any order. -/
inductive Event (C : Type u)
  /-- The object calls `send_sync_cache` with its next command. -/
  | call (c : C)
  /-- The response comes for which the object waits. -/
  | response (c : C)

/-- The object whose turn it is. -/
def Event.object : Event C → C
  | .call c | .response c => c

def step [DecidableEq C] (w : World C H) (s : State C) : Event C → State C
  | .call c =>
    match w.script c (s.obtained c) with
    | none => s
    | some data => ipmiSendSyncCache w c (w.query c data) s
  | .response c =>
    match s.waiting c with
    | none => s
    | some (index, q) => ipmiSendSyncReturn w c index q s

def admissible (w : World C H) (s : State C) : Event C → Prop
  | .call c => s.waiting c = none ∧ (w.script c (s.obtained c)).isSome
  | .response c => (s.waiting c).isSome

instance (w : World C H) (s : State C) : DecidablePred (admissible w s)
  | .call c => inferInstanceAs (Decidable (s.waiting c = none ∧ (w.script c (s.obtained c)).isSome))
  | .response c => inferInstanceAs (Decidable ((s.waiting c).isSome = true))

def machine [DecidableEq C] (w : World C H) : Machine (State C) (Event C) := ⟨admissible w, step w⟩

instance [DecidableEq C] (w : World C H) (s : State C) :
    DecidablePred ((machine w).admissible s) :=
  inferInstanceAs (DecidablePred (admissible w s))

/-- The objects of one host take all turns. -/
def Alone (w : World C H) (h : H) (events : List (Event C)) : Prop :=
  ∀ e ∈ events, w.hostOf e.object = h

instance [DecidableEq H] (w : World C H) (h : H) (events : List (Event C)) :
    Decidable (Alone w h events) :=
  inferInstanceAs (Decidable (∀ e ∈ events, w.hostOf e.object = h))

end Amester.Cache
