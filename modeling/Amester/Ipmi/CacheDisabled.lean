/-
# Calls with the cache disabled

One call of `ipmi_send_sync_cache`, with `ipmi_send_sync` as a parameter: it waits for
the answer, so the cache and all else may change before it returns, and it may raise.

Behind `ipmi_cache_enable` the host types differ. `blade` sends every command then; the
others take the branch that reads the cache, where an entry is an old answer and a
missing entry raises.
-/

import Amester.Ipmi.Cache

namespace Amester.Cache

open BinaryFormat

universe u v

/-- What a call raises. -/
inductive Raised (E : Type u)
  /-- `ipmi_send_sync` has raised. -/
  | sync (e : E)
  /-- `can't read "ipmi_cache($index)": no such element in array`. -/
  | noElement (index : Bytes)
  deriving DecidableEq, Repr

/-- The cache, and all that `ipmi_send_sync` reads and changes besides. -/
structure Shared (W : Type v) where
  ipmiCache : Bytes → Option Response := fun _ => none
  world : W

/-- What a call leaves behind. -/
structure Called (E : Type u) (W : Type v) where
  result : Except (Raised E) Response
  shared : Shared W
  /-- The commands given to `ipmi_send_sync`. -/
  sent : List Query

variable {E : Type u} {W : Type v}

/-- `ipmi_send_sync`. -/
abbrev Sending (E : Type u) (W : Type v) := Query → Shared W → Except E Response × Shared W

/-- `set ipmi_cache($index)`. -/
def Shared.set (s : Shared W) (index : Bytes) (response : Response) : Shared W :=
  { s with ipmiCache := Function.update s.ipmiCache index (some response) }

@[simp] theorem Shared.set_world (s : Shared W) (index : Bytes) (response : Response) :
    (s.set index response).world = s.world := rfl

@[simp] theorem Shared.set_ipmiCache_self (s : Shared W) (index : Bytes) (response : Response) :
    (s.set index response).ipmiCache index = some response :=
  Function.update_self ..

/-- `return $ipmi_cache($index)`. -/
def returnCached (index : Bytes) (sent : List Query) (s : Shared W) : Called E W :=
  match s.ipmiCache index with
  | some response => ⟨.ok response, s, sent⟩
  | none => ⟨.error (.noElement index), s, sent⟩

/-- `ipmi_send_sync_cache`. -/
def sendSyncCache (kind : HostKind) (ipmiSendSync : Sending E W) (host : Host) (tag : Bytes)
    (q : Query) (s : Shared W) : Called E W :=
  let index := kind.index host tag q
  if kind.sends host.ipmiCacheEnable (s.ipmiCache index).isSome then
    match ipmiSendSync q s with
    | (.error e, s) => ⟨.error (.sync e), s, [q]⟩
    | (.ok response, s) =>
      if kind.keeps then returnCached index [q] (s.set index response)
      else ⟨.ok response, s, [q]⟩
  else returnCached index [] s

section Branches

variable {kind : HostKind} {ipmiSendSync : Sending E W} {host : Host} {tag : Bytes} {q : Query}
variable {s : Shared W}

/-- A call that sends ends as `ipmi_send_sync` does. -/
theorem sendSyncCache_of_sends
    (sends : kind.sends host.ipmiCacheEnable (s.ipmiCache (kind.index host tag q)).isSome = true) :
    (sendSyncCache kind ipmiSendSync host tag q s).sent = [q] ∧
      (sendSyncCache kind ipmiSendSync host tag q s).result =
        (ipmiSendSync q s).1.mapError Raised.sync ∧
      (sendSyncCache kind ipmiSendSync host tag q s).shared.world = (ipmiSendSync q s).2.world := by
  rw [sendSyncCache, if_pos sends]
  rcases ipmiSendSync q s with ⟨e | response, s'⟩
  · exact ⟨rfl, rfl, rfl⟩
  · by_cases keeps : kind.keeps = true
    · simp [keeps, returnCached, Except.mapError]
    · simp [keeps, Except.mapError]

/-- A call that does not send leaves everything as it is, and returns the entry of the
cache when there is one. -/
theorem sendSyncCache_of_not_sends
    (silent :
      kind.sends host.ipmiCacheEnable (s.ipmiCache (kind.index host tag q)).isSome = false) :
    (sendSyncCache kind ipmiSendSync host tag q s).sent = [] ∧
      (sendSyncCache kind ipmiSendSync host tag q s).shared = s ∧
      (sendSyncCache kind ipmiSendSync host tag q s).result =
        match s.ipmiCache (kind.index host tag q) with
        | some response => .ok response
        | none => .error (.noElement (kind.index host tag q)) := by
  rw [sendSyncCache, if_neg (by rw [silent]; exact Bool.false_ne_true), returnCached]
  cases s.ipmiCache (kind.index host tag q) <;> exact ⟨rfl, rfl, rfl⟩

end Branches

/-- The call in the machine of the AME objects, in which an object waits between the two
halves of it, obtains what this call returns when `ipmi_send_sync` answers as the
firmware does. -/
theorem obtained_of_sendSyncCache {C : Type u} {H : Type v} [DecidableEq C] {w : World C H} {c : C}
    {q : Query} {s : State C} {response : Response}
    (returned : (sendSyncCache (E := Empty) w.kind
      (fun q shared => (.ok (w.answer (w.hostOf c) q), shared)) (w.host (w.hostOf c)) (s.tag c) q
      ⟨fun index => (s.ipmiCache index).map Entry.response, ()⟩).result = .ok response) :
    (match (ipmiSendSyncCache w c q s).waiting c with
      | some (index, q) => ipmiSendSyncReturn w c index q (ipmiSendSyncCache w c q s)
      | none => ipmiSendSyncCache w c q s).obtained c = s.obtained c ++ [response] := by
  by_cases sends : w.kind.sends (w.host (w.hostOf c)).ipmiCacheEnable
      (s.ipmiCache (w.kind.index (w.host (w.hostOf c)) (s.tag c) q)).isSome = true
  · rw [(sendSyncCache_of_sends (by simpa using sends)).2.1] at returned
    obtain rfl : w.answer (w.hostOf c) q = response := by simpa [Except.mapError] using returned
    by_cases keeps : w.kind.keeps = true <;>
      simp [ipmiSendSyncCache, sends, ipmiSendSyncReturn, State.obtain, keeps]
  · rw [Bool.not_eq_true] at sends
    rw [(sendSyncCache_of_not_sends (by simpa using sends)).2.2] at returned
    cases present : s.ipmiCache (w.kind.index (w.host (w.hostOf c)) (s.tag c) q) with
    | none => simp [present] at returned
    | some entry =>
        obtain rfl : entry.response = response := by simpa [present] using returned
        rw [present, Option.isSome_some] at sends
        simp [ipmiSendSyncCache, sends, present, State.obtain]

/-! ## The cache disabled -/

/-- The cache has no part in the call: the command is sent, and the call ends as
`ipmi_send_sync` does. -/
def Uncached (kind : HostKind) (ipmiSendSync : Sending E W) (host : Host) (tag : Bytes) (q : Query)
    (s : Shared W) : Prop :=
  (sendSyncCache kind ipmiSendSync host tag q s).sent = [q] ∧
    (sendSyncCache kind ipmiSendSync host tag q s).result =
      (ipmiSendSync q s).1.mapError Raised.sync ∧
    (sendSyncCache kind ipmiSendSync host tag q s).shared.world = (ipmiSendSync q s).2.world

theorem HostKind.sends_disabled (kind : HostKind) (present : Bool) :
    kind.sends false present = true ↔ kind = .blade ∨ kind = .localhost := by
  cases kind <;> simp [HostKind.sends]

/-- With the cache disabled `netc`, `openpower` and `openbmc` never send; `blade` always
does, and `localhost` has no cache. -/
theorem uncached_iff (kind : HostKind) (ipmiSendSync : Sending E W) (host : Host) (tag : Bytes)
    (q : Query) (s : Shared W) (disabled : host.ipmiCacheEnable = false) :
    Uncached kind ipmiSendSync host tag q s ↔ kind = .blade ∨ kind = .localhost := by
  rw [← kind.sends_disabled (s.ipmiCache (kind.index host tag q)).isSome]
  constructor
  · intro uncached
    by_contra silent
    rw [← disabled, Bool.not_eq_true] at silent
    have nothing : (sendSyncCache kind ipmiSendSync host tag q s).sent = [] :=
      (sendSyncCache_of_not_sends silent).1
    rw [uncached.1] at nothing
    exact List.cons_ne_nil q [] nothing
  · intro sends
    rw [← disabled] at sends
    exact sendSyncCache_of_sends sends

/-- A disabled cache of `netc` without an entry: the command is not sent, and reading the
missing entry raises. -/
theorem netc_disabled_raises :
    ¬ Uncached (E := Empty) .netc (fun _ shared => (.ok (0, [1]), shared))
      ⟨text "8335", text "192.168.0.1", false⟩ unknownTag
      ⟨⟨2, 0⟩, ⟨0, 0⟩, ⟨0, 0⟩, ⟨3, 10⟩, ⟨3, 12⟩, versionCommand⟩ ⟨fun _ => none, ()⟩ := by
  intro uncached
  have sent := uncached.1
  rw [(sendSyncCache_of_not_sends rfl).1] at sent
  exact List.cons_ne_nil _ _ sent.symm

theorem uncached_iff_openpower :
    Uncached (E := Empty) .openpower (fun _ shared => (.ok (0, [1]), shared))
      ⟨text "8335", text "192.168.0.1", false⟩ unknownTag
      ⟨⟨2, 0⟩, ⟨0, 0⟩, ⟨0, 0⟩, ⟨3, 10⟩, ⟨3, 12⟩, versionCommand⟩
      ⟨fun _ => some (0, [2]), ()⟩ ↔
        HostKind.openpower = .blade ∨ HostKind.openpower = .localhost :=
  uncached_iff .openpower _ _ _ _ _ rfl

end Amester.Cache
