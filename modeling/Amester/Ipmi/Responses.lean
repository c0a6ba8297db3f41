/-
# Responses that do not free the slot

On a netc session and on an openbmc session the response to the message in progress frees
the slot, runs the callback once and sends the next message. In which states of which runs
it does is said here for both; the condition reads the message in progress, the messages
that would move behind it and, on a netc session, the response.
-/

import Amester.Netc.Slot
import Amester.OpenBmc.Slot

namespace Amester

open BinaryFormat EventMachine

universe u

variable {κ : Type u}

/-- In every run, whatever the timeouts of its requests, the response to the message in
progress frees the slot exactly when it can. -/
theorem response_frees_iff :
    (∀ {s : Netc.State κ}, s.Fresh → ∀ events : List (Netc.Reconnection.Event κ),
      (Netc.Reconnection.machine κ).Admits s events → ∀ e : InProgress κ,
        ((Netc.Reconnection.machine κ).run s events).inprogress = [e] → ∀ ncdata : Bytes,
          (Netc.Frees ncdata ((Netc.Reconnection.machine κ).run s events) e ↔
            Netc.Freeable ncdata ((Netc.Reconnection.machine κ).run s events) e)) ∧
      (∀ {s : OpenBmc.State κ}, s.Fresh → s.http = [] → ∀ events : List (OpenBmc.Event κ),
        ∀ e : InProgress κ,
          ((OpenBmc.machine κ).run ⟨s, []⟩ events).session.inprogress = [e] → ∀ token : ℕ,
            ((OpenBmc.machine κ).run ⟨s, []⟩ events).session.http.lookup token =
                some e.toItem → ∀ (result : OpenBmc.SendResult) (packet : Bytes),
              (OpenBmc.Frees result packet
                  (((OpenBmc.machine κ).run ⟨s, []⟩ events).session.completed token) e ↔
                OpenBmc.Freeable
                  (((OpenBmc.machine κ).run ⟨s, []⟩ events).session.completed token) e)) := by
  constructor
  · intro s fresh events admits e inprogress ncdata
    exact Netc.frees_iff (Netc.run_slotKept fresh admits) inprogress ncdata
  · intro s fresh http events e inprogress token post result packet
    have hfree : s.inprogress = [] := congrArg MessageQueue.inprogress fresh.queue
    have hstart : OpenBmc.SlotKept s := by
      refine .of_free hfree fresh.inprogressQ ?_
      rw [http]
      exact nofun
    have hkept := OpenBmc.run_slotKept (w := ⟨s, []⟩) hstart events
    obtain ⟨before, after, hhttp, -⟩ := List.lookup_eq_some_iff.mp post
    have hmem : (token, e.toItem) ∈ ((OpenBmc.machine κ).run ⟨s, []⟩ events).session.http := by
      rw [hhttp]
      exact List.mem_append_right _ List.mem_cons_self
    have hsent : OpenBmc.Sendable e.toItem :=
      hkept.posts (token, e.toItem) hmem
    exact OpenBmc.frees_iff (hkept.completed token) inprogress hsent result packet

/-! ## Runs with and without timeouts -/

/-- A request with this timeout, for the device identifier or for something else. -/
def requestOf (deviceId : Bool) (timeout : Option ℤ) (callback : ℕ) : Request ℕ where
  rssa := ⟨2, 0⟩
  chan := ⟨0, 0⟩
  lun := ⟨0, 1⟩
  netfn := if deviceId then ⟨0, 6⟩ else ⟨3, 10⟩
  cmd := if deviceId then ⟨0, 1⟩ else ⟨3, 12⟩
  data := [1]
  callback := some callback
  timeout := timeout

/-- The entry of a request in the slot. -/
def entryOf (timeout : Option ℤ) (callback : ℕ) (after : Option ℕ) : InProgress ℕ :=
  { (requestOf false timeout callback).item "0" 120000 with after := after }

/-- A netc session is connected and these requests are queued. -/
def netcRun (requests : List (Request ℕ)) : List (Netc.Reconnection.Event ℕ) :=
  [.netcOpen (.established 7),
    .netcProcess (Netc.Reconnection.sampleMessage [0, 0, 0, 2] [0, 0, 0, 0]) .socketFailed,
    .netcProcess (Netc.Reconnection.sampleMessage [7, 4, 1, 2] [0, 0, 0, 0]) .socketFailed] ++
    requests.map .ipmiQueue

/-- An openbmc session is connected and these requests are queued, of which the first is
posted. -/
def openbmcRun (requests : List (Request ℕ)) : List (OpenBmc.Event ℕ) :=
  .openbmcOpen true :: requests.map fun r => .ipmiQueue r (.started 1)

/-- A netc session that has sent a request whose timeout is 0. -/
def untimedSession : Netc.State ℕ :=
  (Netc.Reconnection.machine ℕ).run {} (netcRun [requestOf false (some 0) 1])

/-- The response to it raises and leaves it in the slot. -/
theorem untimed_slot_held :
    (Netc.Reconnection.machine ℕ).Admits {} (netcRun [requestOf false (some 0) 1]) ∧
      untimedSession.inprogress = [entryOf (some 0) 1 none] ∧
      (Netc.processIpmi Netc.fakeDeviceId untimedSession).error =
        some "can't read inprogress(after): no such element in array" ∧
      (Netc.processIpmi Netc.fakeDeviceId untimedSession).state.inprogress =
        [entryOf (some 0) 1 none] ∧
      ¬ Netc.Frees Netc.fakeDeviceId untimedSession (entryOf (some 0) 1 none) := by
  have herror : (Netc.processIpmi Netc.fakeDeviceId untimedSession).error =
      some "can't read inprogress(after): no such element in array" := by
    decide +kernel
  refine ⟨by decide +kernel, by decide +kernel, herror, by decide +kernel, ?_⟩
  intro hfrees
  have hreturns := hfrees.returns
  rw [herror] at hreturns
  exact absurd hreturns (Option.some_ne_none _)

/-- With timeouts the slot is freed, also when a request for the device identifier stands
between the message in progress and the next. -/
theorem timed_slots_freed :
    Netc.Frees Netc.fakeDeviceId ((Netc.Reconnection.machine ℕ).run {}
        (netcRun [requestOf false (some 5) 1, requestOf true none 2, requestOf false none 3]))
        (entryOf (some 5) 1 (some 2)) ∧
      OpenBmc.Frees (.started 2) [0, 7] (((OpenBmc.machine ℕ).run ⟨{}, []⟩
        (openbmcRun [requestOf false (some 5) 1, requestOf true none 2,
          requestOf false none 3])).session.completed 1) (entryOf (some 5) 1 (some 1)) := by
  constructor
  · have hfresh : ({} : Netc.State ℕ).Fresh := ⟨rfl, rfl, nofun, rfl, rfl⟩
    refine (response_frees_iff.1 hfresh _ ?_ _ ?_ _).mpr ⟨?_, ?_, ?_⟩
    · decide +kernel
    · decide +kernel
    · decide
    · decide
    · decide +kernel
  · have hfresh : ({} : OpenBmc.State ℕ).Fresh := ⟨rfl, rfl, rfl, rfl⟩
    refine (response_frees_iff.2 hfresh rfl _ _ ?_ 1 ?_ _ _).mpr ⟨⟨?_, ?_⟩, ?_⟩
    · decide +kernel
    · decide +kernel
    · decide +kernel
    · decide +kernel
    · decide

end Amester
