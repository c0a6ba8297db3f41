/-
# The message sizes and a synchronous update

The firmware tells how many bytes fit a response by filling one, and how many fit a command
by sending one back. The size of a batch follows from both. Small sizes make a batch of no
sensor, and then a synchronous update takes nothing from its list: it asks for nothing
again and again until the firmware answers with an error.
-/

import Amester.Sensor.Batching

namespace Amester.Sensor

open BinaryFormat

universe u

variable {α : Type u}

/-! ## Finding the message sizes -/

/-- The message sizes, or "unknown". -/
structure Sizes where
  messageSize : Option ℕ := none
  messageReturnSize : Option ℕ := none
  deriving DecidableEq, Repr

/-- What the firmware answers to a command. -/
abbrev Firmware := Bytes → ℤ × Bytes

/-- Send back a message of so many bytes, and a smaller one after an error. -/
def tryMessageSize (firmware : Firmware) (databytes : Bytes) : ℕ → Option ℕ
  | 0 => none
  | size + 1 =>
    let result := firmware (0xfe :: formatA (size + 1) databytes)
    if result.1 = 0 then some result.2.length else tryMessageSize firmware databytes size

/-- Find the message sizes. An error leaves them as they were. -/
def findMessageSize (firmware : Firmware) (sizes : Sizes) : Sizes :=
  let result := firmware [0xff]
  if result.1 = 0 then
    let databytes := result.2
    -- one byte for the command, and one for the routing to the controller
    { messageReturnSize := some databytes.length
      messageSize :=
        (tryMessageSize firmware databytes (databytes.length - 2)).or sizes.messageSize }
  else sizes

/-- The size of a batch from the message sizes. Those that are unknown raise, and it stays
as it was. -/
def initLimit (sizes : Sizes) (s : State α) : Outcome (State α) :=
  match sizes.messageSize, sizes.messageReturnSize with
  | some messageSize, some messageReturnSize =>
    .ok (sensorWatchInit messageSize messageReturnSize s)
  | _, _ => .raise s "can't use non-numeric string as operand of \"-\""

/-- A controller that has just been made, behind the end of `init`. -/
def started (firmware : Firmware) : State α := (initLimit (findMessageSize firmware {}) {}).state

/-- The sizes are unknown, or a batch has room for a sensor. -/
def Sizes.Enough (sizes : Sizes) : Prop :=
  ∀ messageSize messageReturnSize, sizes.messageSize = some messageSize →
    sizes.messageReturnSize = some messageReturnSize →
    3 ≤ messageSize ∧ sensorWatchBytespersensor ≤ messageReturnSize

/-- A synchronous update ends, and unless it raises every sensor has been asked for once. -/
def Ends (cat : Catalog α) (send : SendCommands) (sensorlist : List α) (start : State α) :
    Prop :=
  ∃ fuel r, sensorUpdateByObjectSync cat send fuel sensorlist start = some r ∧
    ∀ s, r = .ok s → s.answered.flatMap Answered.sensors = sensorlist

/-! ## The size of a batch -/

theorem one_le_watchLimit_iff (messageSize messageReturnSize : ℕ) :
    1 ≤ watchLimit messageSize messageReturnSize ↔
      3 ≤ messageSize ∧ sensorWatchBytespersensor ≤ messageReturnSize := by
  rw [watchLimit, le_min_iff, sensorWatchBytespersensor]
  omega

/-- The size of a batch is that of some message sizes, also if they are unknown. -/
theorem initLimit_limit (sizes : Sizes) (s : State α) (fresh : s.sensorWatchLimit = 1) :
    ∃ messageSize messageReturnSize,
      (initLimit sizes s).state.sensorWatchLimit = watchLimit messageSize messageReturnSize ∧
      (sizes.Enough ↔ 1 ≤ watchLimit messageSize messageReturnSize) := by
  obtain ⟨messageSize, messageReturnSize⟩ := sizes
  have hunknown : ∀ sizes : Sizes, (sizes.messageSize = none ∨ sizes.messageReturnSize = none) →
      (initLimit sizes s).state = s → ∃ messageSize messageReturnSize,
        (initLimit sizes s).state.sensorWatchLimit = watchLimit messageSize messageReturnSize ∧
        (sizes.Enough ↔ 1 ≤ watchLimit messageSize messageReturnSize) := by
    intro sizes hnone hstate
    refine ⟨3, 24, by rw [hstate, fresh]; rfl, iff_of_true ?_ (by decide)⟩
    intro ms mrs hms hmrs
    rw [hms, hmrs] at hnone
    simp at hnone
  cases messageSize with
  | none => exact hunknown _ (.inl rfl) rfl
  | some ms =>
      cases messageReturnSize with
      | none => exact hunknown _ (.inr rfl) rfl
      | some mrs =>
          refine ⟨ms, mrs, rfl, ?_⟩
          rw [one_le_watchLimit_iff]
          constructor
          · exact fun h => h ms mrs rfl rfl
          · rintro h ms' mrs' ⟨⟩ ⟨⟩
            exact h

/-! ## Batches of no sensor -/

/-- The variables after so many commands for no sensor. -/
def idle (cat : Catalog α) (send : SendCommands) (s : Syncing α) : ℕ → Syncing α
  | 0 => s
  | k + 1 => (idle cat send s k).asked cat send

section Idle

variable {cat : Catalog α} {send : SendCommands} {s : Syncing α}

theorem idle_eq (cat : Catalog α) (send : SendCommands) (noLimit : s.state.sensorWatchLimit ≤ 0)
    (k : ℕ) :
    (idle cat send s k).state.sensorWatchLimit ≤ 0 ∧
      (idle cat send s k).sensorlist = s.sensorlist ∧
      (idle cat send s k).batch = [] ∧
      (idle cat send s k).answered.length = s.answered.length + k := by
  induction k with
  | zero => exact ⟨noLimit, rfl, by simp [idle, Syncing.batch, Int.toNat_of_nonpos noLimit], rfl⟩
  | succ k ih =>
      obtain ⟨hlimit, hlist, hbatch, hlength⟩ := ih
      have hzero : (idle cat send s k).state.sensorWatchLimit.toNat = 0 :=
        Int.toNat_of_nonpos hlimit
      refine ⟨hlimit, ?_, ?_, ?_⟩
      · rw [idle, Syncing.asked]
        simp only [hzero, List.drop_zero]
        exact hlist
      · change List.take ((idle cat send s k).state.sensorWatchLimit.toNat) _ = []
        rw [hzero, List.take_zero]
      · rw [idle, Syncing.asked]
        simp only [List.length_append, List.length_singleton, hlength]
        omega

/-- A command for no sensor is answered, and nothing else happens. -/
theorem syncStep_idle (cat : Catalog α) (send : SendCommands)
    (noLimit : s.state.sensorWatchLimit ≤ 0) (fresh : s.answered = []) (k : ℕ) :
    ((send k [0x07]).1 = 0 →
      syncStep cat send (idle cat send s k) = .ok (idle cat send s (k + 1))) ∧
    ((send k [0x07]).1 ≠ 0 →
      ∃ e, syncStep cat send (idle cat send s k) = .error e) := by
  obtain ⟨-, -, hbatch, hlength⟩ := idle_eq cat send noLimit k
  rw [fresh, List.length_nil, Nat.zero_add] at hlength
  have hreply : (idle cat send s k).reply cat send = send k [0x07] := by
    rw [Syncing.reply, hbatch, hlength]
    rfl
  constructor
  · intro hstatus
    simp only [syncStep, hreply, if_pos hstatus, hbatch, giveSlices]
    rfl
  · intro hstatus
    exact ⟨_, by simp only [syncStep, hreply, if_neg hstatus]; rfl⟩

theorem idle_sensorlist_ne_nil (cat : Catalog α) (send : SendCommands)
    (noLimit : s.state.sensorWatchLimit ≤ 0) (some : s.sensorlist ≠ []) (k : ℕ) :
    (idle cat send s k).sensorlist ≠ [] := by
  rw [(idle_eq cat send noLimit k).2.1]
  exact some

/-- Without room for a sensor, and without an error, a synchronous update goes on for ever. -/
theorem not_ends_of_success {sensorlist : List α} {start : State α}
    (noLimit : start.sensorWatchLimit ≤ 0) (some : sensorlist ≠ [])
    (success : ∀ k, (send k [0x07]).1 = 0) : ¬ Ends cat send sensorlist start := by
  rintro ⟨fuel, r, hrun, -⟩
  let waiting : Syncing α := { sensorlist := sensorlist, state := start }
  let cond (s : Syncing α) : Prop := s.sensorlist ≠ []
  have hsteps : ∀ k, cond (idle cat send waiting k) ∧
      syncStep cat send (idle cat send waiting k) = .ok (idle cat send waiting (k + 1)) :=
    fun k => ⟨idle_sensorlist_ne_nil cat send noLimit some k,
      (syncStep_idle cat send noLimit rfl k).1 (success k)⟩
  have hendless := WhileLoop.run_of_endless hsteps fuel
  exact absurd (hendless.symm.trans hrun) nofun

end Idle

/-! ## The result -/

/-- A synchronous update ends just if there is nothing to update, a batch has room for a
sensor, or the firmware answers a command for no sensor with an error. -/
theorem sync_ends_iff (cat : Catalog α) (firmware : Firmware) (send : SendCommands)
    (sensorlist : List α) :
    Ends cat send sensorlist (started firmware) ↔
      sensorlist = [] ∨ (findMessageSize firmware {}).Enough ∨ ∃ k, (send k [0x07]).1 ≠ 0 := by
  classical
  obtain ⟨messageSize, messageReturnSize, hlimit, henough⟩ :=
    initLimit_limit (findMessageSize firmware {}) ({} : State α) rfl
  by_cases hpos : 1 ≤ watchLimit messageSize messageReturnSize
  · refine iff_of_true ?_ (Or.inr (Or.inl (henough.mpr hpos)))
    obtain ⟨r, hrun, hok, -⟩ := @sync_ends _ cat send _ _ _ hpos hlimit sensorlist _
      (Nat.lt_succ_self sensorlist.length)
    refine ⟨_, r, hrun, fun s hs => ?_⟩
    obtain ⟨hover, hbatched⟩ := hok s hs
    have hsplit := hbatched.split
    rwa [hover, List.append_nil] at hsplit
  have hno : (started firmware : State α).sensorWatchLimit ≤ 0 := by
    rw [started, hlimit]
    omega
  by_cases hempty : sensorlist = []
  · refine iff_of_true ⟨0, .ok { sensorlist := [], state := started firmware }, ?_, ?_⟩
      (Or.inl hempty)
    · rw [hempty]
      rfl
    · rintro s ⟨⟩
      rw [hempty]
      rfl
  have hnotEnough : ¬ (findMessageSize firmware {}).Enough := fun h => hpos (henough.mp h)
  simp only [hempty, hnotEnough, false_or]
  let waiting : Syncing α := { sensorlist := sensorlist, state := started firmware }
  have hcond : ∀ k, (idle cat send waiting k).sensorlist ≠ [] :=
    idle_sensorlist_ne_nil cat send hno hempty
  constructor
  · intro hends
    by_contra hnone
    exact not_ends_of_success hno hempty (fun k => not_not.mp fun h => hnone ⟨k, h⟩) hends
  · intro hsome
    -- the commands up to the first error
    let n := Nat.find hsome
    obtain ⟨e, herror⟩ : ∃ e, syncStep cat send (idle cat send waiting n) = .error e :=
      (syncStep_idle cat send hno rfl n).2 (Nat.find_spec hsome)
    let cond (s : Syncing α) : Prop := s.sensorlist ≠ []
    have hsteps : ∀ k < n, cond (idle cat send waiting k) ∧
        syncStep cat send (idle cat send waiting k) = .ok (idle cat send waiting (k + 1)) :=
      fun k hk => ⟨hcond k,
        (syncStep_idle cat send hno rfl k).1 (not_not.mp (Nat.find_min hsome hk))⟩
    have hfirst := WhileLoop.run_of_steps hsteps (Nat.add_zero n).le 1
    have hagain : cond (idle cat send waiting n) := hcond n
    have hlast := WhileLoop.run_of_error hagain herror 0
    exact ⟨n + 1, .error e, hfirst.trans hlast, nofun⟩

/-- A firmware that has room for ten bytes, and answers every command without an error. -/
theorem sync_never_ends :
    findMessageSize (fun _ => (0, List.replicate 10 0)) {} = ⟨some 10, some 10⟩ ∧
    ¬ Ends sampleCatalog (fun _ _ => (0, [])) [1] (started fun _ => (0, List.replicate 10 0)) := by
  constructor
  · decide +kernel
  · exact not_ends_of_success (by decide +kernel) (List.cons_ne_nil 1 []) fun _ => rfl

end Amester.Sensor
