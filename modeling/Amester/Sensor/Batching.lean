/-
# Batches of sensors

A command names as many sensors as it and its response have room for. A synchronous update
takes batch after batch from its list; watching takes them from the queue, to which the
sensors return. Both split what they take in order, and give every sensor of a batch the
part of the response at its own place.
-/

import Amester.Lib.Elements
import Amester.Lib.WhileLoop
import Amester.Sensor.Reading
import Amester.Sensor.Conservation

namespace Amester.Sensor

open BinaryFormat

universe u v

variable {α : Type u}

/-! ## The size of a batch -/

/-- As many sensors as a command and its response have room for. -/
def watchLimit (messageSize messageReturnSize : ℕ) : ℤ :=
  min ((messageSize - 1 : ℤ) / 2) (messageReturnSize / sensorWatchBytespersensor : ℕ)

/-- A batch has a sensor, and its command and the expected response have room. -/
structure FitsMessages (cat : Catalog α) (messageSize messageReturnSize : ℕ) (batch : List α) :
    Prop where
  nonempty : 1 ≤ batch.length
  length : (watchCommandBytes cat batch).length = 1 + 2 * batch.length
  command : (watchCommandBytes cat batch).length ≤ messageSize
  response : sensorWatchBytespersensor * batch.length ≤ messageReturnSize

private theorem length_watchCommandBytes (cat : Catalog α) (batch : List α) :
    (watchCommandBytes cat batch).length = 1 + 2 * batch.length := by
  rw [watchCommandBytes, List.length_cons]
  induction batch with
  | nil => rfl
  | cons x batch ih =>
      rw [List.flatMap_cons, List.length_append, length_bigEndian, List.length_cons]
      omega

/-- A batch from the front of a list that is not empty. -/
theorem fitsMessages_take (cat : Catalog α) {messageSize messageReturnSize : ℕ}
    (positive : 1 ≤ watchLimit messageSize messageReturnSize) {list : List α} (some : list ≠ []) :
    FitsMessages cat messageSize messageReturnSize
      (list.take (watchLimit messageSize messageReturnSize).toNat) := by
  have hpos := List.length_pos_iff.mpr some
  have hlength := length_watchCommandBytes cat
    (list.take (watchLimit messageSize messageReturnSize).toNat)
  rw [List.length_take] at hlength
  have hout : watchLimit messageSize messageReturnSize ≤ (messageSize - 1 : ℤ) / 2 :=
    min_le_left _ _
  have hin : watchLimit messageSize messageReturnSize ≤
      (messageReturnSize / sensorWatchBytespersensor : ℕ) := min_le_right _ _
  rw [sensorWatchBytespersensor] at hin
  constructor
  · rw [List.length_take]
    omega
  · rw [hlength, List.length_take]
  · omega
  · rw [List.length_take, sensorWatchBytespersensor]
    omega

/-! ## A synchronous update -/

/-- The errors of a synchronous update. -/
inductive SyncError
  /-- "firmware returned error" -/
  | firmware (status : ℤ)
  /-- "can't read: no such variable" -/
  | noVariable (name : String)
  deriving DecidableEq, Repr

/-- A batch that was asked for, and the answer. -/
structure Answered (α : Type u) where
  sensors : List α
  reply : ℤ × Bytes

/-- The variables of a synchronous update, and what it has asked for. -/
structure Syncing (α : Type u) where
  sensorlist : List α
  /-- `_bytes` -/
  bytes : Option Bytes := none
  answered : List (Answered α) := []
  state : State α

/-- The part of the data at a place, if it is there. -/
def slice (databytes : Bytes) (i : ℕ) : Option Bytes :=
  if i + sensorWatchBytespersensor ≤ databytes.length then
    some ((databytes.drop i).take sensorWatchBytespersensor)
  else none

/-- Give every sensor of a batch its part of the data. A part that is not there leaves the
variable as it was. -/
def giveSlices {σ : Type v} (callback : α → Bytes → σ → σ) :
    List α → ℕ → Bytes → Option Bytes → σ → Except (SyncError × σ) (Option Bytes × σ)
  | [], _, _, bytes, s => .ok (bytes, s)
  | x :: sensors, i, databytes, bytes, s =>
    match (slice databytes i).or bytes with
    | none => .error (.noVariable "_bytes", s)
    | some bytes =>
      giveSlices callback sensors (i + sensorWatchBytespersensor) databytes (some bytes)
        (callback x bytes s)

/-- What the firmware answers to the commands in their order. -/
abbrev SendCommands := ℕ → Bytes → ℤ × Bytes

namespace Syncing

variable (cat : Catalog α) (send : SendCommands) (s : Syncing α)

/-- The next batch. -/
def batch : List α := s.sensorlist.take s.state.sensorWatchLimit.toNat

/-- The answer to the command for the next batch. -/
def reply : ℤ × Bytes := send s.answered.length (watchCommandBytes cat s.batch)

/-- The next batch has been asked for. -/
def asked : Syncing α :=
  { s with
    sensorlist := s.sensorlist.drop s.state.sensorWatchLimit.toNat
    answered := s.answered ++ [⟨s.batch, s.reply cat send⟩]
    state := s.state.emit (.sent (watchCommandBytes cat s.batch)) }

end Syncing

/-- One round of the loop: ask for a batch and update its sensors. -/
def syncStep (cat : Catalog α) (send : SendCommands) (s : Syncing α) :
    Except (SyncError × Syncing α) (Syncing α) :=
  let reply := s.reply cat send
  let asked := s.asked cat send
  if reply.1 = 0 then
    match giveSlices sensorDataCallback s.batch 0 reply.2 s.bytes asked.state with
    | .ok (bytes, state) => .ok { asked with bytes := bytes, state := state }
    | .error (e, state) => .error (e, { asked with state := state })
  else .error (.firmware reply.1, asked)

/-- "Given a list of sensor objects, update each one, then return", with at most `fuel`
commands. -/
def sensorUpdateByObjectSync (cat : Catalog α) (send : SendCommands) (fuel : ℕ)
    (sensorlist : List α) (state : State α) :
    Option (Except (SyncError × Syncing α) (Syncing α)) :=
  WhileLoop.run (fun s : Syncing α => s.sensorlist ≠ []) (syncStep cat send) fuel
    { sensorlist := sensorlist, state := state }

private theorem slice_length {databytes bytes : Bytes} {i : ℕ}
    (h : slice databytes i = some bytes) :
    bytes.length = sensorWatchBytespersensor := by
  rw [slice] at h
  split at h
  · obtain rfl := Option.some.inj h
    rw [List.length_take, List.length_drop]
    omega
  · exact absurd h nofun

private theorem sensorDataCallback_updates (x : α) (bytes : Bytes) (s : State α) :
    (sensorDataCallback x bytes s).updates = s.updates ++ [(x, bytes)] := by
  simp [sensorDataCallback, State.sensorWatchEnque, State.emit, State.updates, Effect.updated?]

/-- The parts of a batch, as they are given behind a place. -/
structure GivenFrom (i : ℕ) (sensors : List α) (databytes : Bytes) (given : List (α × Bytes)) :
    Prop where
  sensors : given.map Prod.fst = sensors
  own : ∀ (k : ℕ) (u : α × Bytes), given[k]? = some u →
    i + sensorWatchBytespersensor * (k + 1) ≤ databytes.length →
    u.2 = (databytes.drop (i + sensorWatchBytespersensor * k)).take sensorWatchBytespersensor
  whole : ∀ u ∈ given, u.2.length = sensorWatchBytespersensor

theorem GivenFrom.nil (i : ℕ) (databytes : Bytes) :
    GivenFrom i ([] : List α) databytes [] :=
  ⟨rfl, nofun, nofun⟩

theorem GivenFrom.cons {i : ℕ} {x : α} {sensors : List α} {databytes b : Bytes}
    {given : List (α × Bytes)}
    (rest : GivenFrom (i + sensorWatchBytespersensor) sensors databytes given)
    (whole : b.length = sensorWatchBytespersensor)
    (own : i + sensorWatchBytespersensor ≤ databytes.length →
      b = (databytes.drop i).take sensorWatchBytespersensor) :
    GivenFrom i (x :: sensors) databytes ((x, b) :: given) where
  sensors := by rw [List.map_cons, rest.sensors]
  own := by
    intro k u hu hinside
    cases k with
    | zero =>
        obtain rfl := Option.some.inj hu
        exact own hinside
    | succ k =>
        have hplace : i + sensorWatchBytespersensor + sensorWatchBytespersensor * k =
            i + sensorWatchBytespersensor * (k + 1) := by
          rw [Nat.mul_succ]
          omega
        rw [← hplace]
        refine rest.own k u hu ?_
        rw [Nat.mul_succ] at hinside ⊢
        omega
  whole := by
    intro u hu
    obtain rfl | hu := List.mem_cons.mp hu
    · exact whole
    · exact rest.whole u hu

/-- If there is a first part, every sensor of the batch is given one. -/
theorem giveSlices_ok {sensors : List α} {i : ℕ} {databytes : Bytes} {bytes : Option Bytes}
    (old : ∀ b, bytes = some b → b.length = sensorWatchBytespersensor)
    (first : sensors ≠ [] → (slice databytes i).or bytes ≠ none) (s : State α) :
    ∃ bytes' s' given,
      giveSlices sensorDataCallback sensors i databytes bytes s = .ok (bytes', s') ∧
      s'.sensorWatchLimit = s.sensorWatchLimit ∧ s'.updates = s.updates ++ given ∧
      (∀ b, bytes' = some b → b.length = sensorWatchBytespersensor) ∧
      GivenFrom i sensors databytes given := by
  induction sensors generalizing i bytes s with
  | nil => exact ⟨bytes, s, [], rfl, rfl, by simp, old, .nil i databytes⟩
  | cons x sensors ih =>
      obtain ⟨b, hb⟩ := Option.ne_none_iff_exists'.mp (first (List.cons_ne_nil x sensors))
      have hlength : b.length = sensorWatchBytespersensor := by
        rcases Option.or_eq_some_iff.mp hb with h | ⟨-, h⟩
        · exact slice_length h
        · exact old b h
      obtain ⟨bytes', s', given, hgive, hlimit, hupdates, hbytes, hgiven⟩ :=
        @ih (i + sensorWatchBytespersensor) (some b)
          (fun b' h => by rw [← Option.some.inj h, hlength])
          (fun _ => by rw [Ne, Option.or_eq_none_iff]; exact fun h => absurd h.2 nofun)
          (sensorDataCallback x b s)
      refine ⟨bytes', s', (x, b) :: given, ?_, hlimit, ?_, hbytes, hgiven.cons hlength ?_⟩
      · rw [giveSlices, hb]
        exact hgive
      · rw [hupdates, sensorDataCallback_updates, List.append_assoc, List.singleton_append]
      · intro hinside
        rw [slice, if_pos hinside, Option.some_or] at hb
        exact (Option.some.inj hb).symm

/-- If there is none, the first sensor raises. -/
theorem giveSlices_error {sensors : List α} {i : ℕ} {databytes : Bytes} {bytes : Option Bytes}
    (some : sensors ≠ []) (missing : (slice databytes i).or bytes = none) (s : State α) :
    giveSlices sensorDataCallback sensors i databytes bytes s =
      .error (.noVariable "_bytes", s) := by
  cases sensors with
  | nil => exact absurd rfl some
  | cons x sensors => rw [giveSlices, missing]

/-! ## The batches of a synchronous update -/

/-- The batches asked for so far are consecutive and have room, and the sensors of those
that were answered have been given the parts of the answers. -/
structure Batched (cat : Catalog α) (messageSize messageReturnSize : ℕ) (sensorlist : List α)
    (start : State α) (updated : List (Answered α)) (s : Syncing α) : Prop where
  split : s.answered.flatMap Answered.sensors ++ s.sensorlist = sensorlist
  fits : ∀ x ∈ s.answered, FitsMessages cat messageSize messageReturnSize x.sensors
  updates : ∃ given, s.state.updates = start.updates ++ given.flatten ∧
    List.Forall₂ (fun x given => GivenFrom 0 x.sensors x.reply.2 given) updated given

/-- What holds whenever the loop begins its body. -/
structure SyncInv (cat : Catalog α) (messageSize messageReturnSize : ℕ) (sensorlist : List α)
    (start : State α) (s : Syncing α) : Prop
    extends Batched cat messageSize messageReturnSize sensorlist start s.answered s where
  limit : s.state.sensorWatchLimit = watchLimit messageSize messageReturnSize
  bytes : ∀ b, s.bytes = some b → b.length = sensorWatchBytespersensor

section Sync

variable {cat : Catalog α} {send : SendCommands} {messageSize messageReturnSize : ℕ}
variable {sensorlist : List α} {start : State α} {s : Syncing α}

private theorem asked_updates : (s.asked cat send).state.updates = s.state.updates := by
  simp [Syncing.asked, State.updates, State.emit, Effect.updated?]

/-- Asking for the next batch keeps the batches consecutive. -/
theorem asked_batched (positive : 1 ≤ watchLimit messageSize messageReturnSize)
    (inv : SyncInv cat messageSize messageReturnSize sensorlist start s)
    (more : s.sensorlist ≠ []) :
    Batched cat messageSize messageReturnSize sensorlist start s.answered (s.asked cat send) where
  split := by
    rw [Syncing.asked, List.flatMap_append, List.flatMap_singleton, Syncing.batch,
      List.append_assoc, List.take_append_drop]
    exact inv.split
  fits := by
    intro x hx
    obtain hx | hx := List.mem_append.mp hx
    · exact inv.fits x hx
    · obtain rfl := List.mem_singleton.mp hx
      rw [Syncing.batch, inv.limit]
      exact fitsMessages_take cat positive more
  updates := by
    rw [asked_updates]
    exact inv.updates

/-- A round asks for the next batch, and its sensors are updated or it raises. -/
theorem syncStep_cases (positive : 1 ≤ watchLimit messageSize messageReturnSize)
    (inv : SyncInv cat messageSize messageReturnSize sensorlist start s)
    (more : s.sensorlist ≠ []) :
    (∃ s', syncStep cat send s = .ok s' ∧
      SyncInv cat messageSize messageReturnSize sensorlist start s' ∧
      s'.sensorlist.length < s.sensorlist.length) ∨
    ∃ e s', syncStep cat send s = .error (e, s') ∧
      Batched cat messageSize messageReturnSize sensorlist start s'.answered.dropLast s' := by
  have hasked : Batched cat messageSize messageReturnSize sensorlist start s.answered
      (s.asked cat send) := asked_batched positive inv more
  have hlast : (s.asked cat send).answered.dropLast = s.answered := List.dropLast_concat
  by_cases hstatus : (s.reply cat send).1 = 0
  swap
  · refine .inr ⟨.firmware (s.reply cat send).1, s.asked cat send, if_neg hstatus, ?_⟩
    rwa [hlast]
  by_cases hfirst : s.batch ≠ [] → (slice (s.reply cat send).2 0).or s.bytes ≠ none
  swap
  · obtain ⟨hsome, hmissing⟩ := Classical.not_imp.mp hfirst
    have hgive := giveSlices_error hsome (not_not.mp hmissing) (s.asked cat send).state
    refine .inr ⟨.noVariable "_bytes", s.asked cat send, ?_, by rwa [hlast]⟩
    simp only [syncStep, if_pos hstatus, hgive]
  obtain ⟨bytes, state, given, hgive, hlimit, hupdates, hbytes, hgiven⟩ :=
    giveSlices_ok inv.bytes hfirst (s.asked cat send).state
  refine .inl ⟨{ s.asked cat send with bytes := bytes, state := state }, ?_, ?_, ?_⟩
  · simp only [syncStep, if_pos hstatus, hgive]
  · refine ⟨⟨hasked.split, hasked.fits, ?_⟩, hlimit.trans inv.limit, hbytes⟩
    obtain ⟨earlier, hearlier, hall⟩ := hasked.updates
    refine ⟨earlier ++ [given], ?_, ?_⟩
    · rw [List.flatten_append, List.flatten_singleton, ← List.append_assoc, ← hearlier]
      exact hupdates
    · exact List.rel_append hall (.cons hgiven .nil)
  · have hpos := List.length_pos_iff.mpr more
    change (s.sensorlist.drop s.state.sensorWatchLimit.toNat).length < _
    rw [List.length_drop, inv.limit]
    omega

/-- A synchronous update ends, with all sensors asked for or an error. -/
theorem sync_ends (positive : 1 ≤ watchLimit messageSize messageReturnSize)
    (limit : start.sensorWatchLimit = watchLimit messageSize messageReturnSize)
    (sensorlist : List α) {fuel : ℕ} (enough : sensorlist.length < fuel) :
    ∃ r, sensorUpdateByObjectSync cat send fuel sensorlist start = some r ∧
      (∀ s, r = .ok s → s.sensorlist = [] ∧
        Batched cat messageSize messageReturnSize sensorlist start s.answered s) ∧
      ∀ e s, r = .error (e, s) →
        Batched cat messageSize messageReturnSize sensorlist start s.answered.dropLast s := by
  have hstart : SyncInv cat messageSize messageReturnSize sensorlist start
      { sensorlist := sensorlist, state := start } :=
    ⟨⟨rfl, nofun, [], (List.append_nil _).symm, .nil⟩, limit, nofun⟩
  have hrounds : ∀ s, SyncInv cat messageSize messageReturnSize sensorlist start s →
      s.sensorlist ≠ [] →
      (∃ s', syncStep cat send s = .ok s' ∧
        SyncInv cat messageSize messageReturnSize sensorlist start s' ∧
        s'.sensorlist.length < s.sensorlist.length) ∨
      ∃ e, syncStep cat send s = .error e ∧
        Batched cat messageSize messageReturnSize sensorlist start e.2.answered.dropLast e.2 := by
    intro s inv more
    rcases syncStep_cases positive inv more with h | ⟨e, s', hraise, hbatched⟩
    · exact .inl h
    · exact .inr ⟨(e, s'), hraise, hbatched⟩
  obtain ⟨r, hrun, hok, herror⟩ := WhileLoop.run_ends
    (SyncInv cat messageSize messageReturnSize sensorlist start)
    (fun e : SyncError × Syncing α =>
      Batched cat messageSize messageReturnSize sensorlist start e.2.answered.dropLast e.2)
    (fun s => s.sensorlist.length) hrounds hstart enough
  refine ⟨r, hrun, fun s hs => ?_, fun e s hs => herror (e, s) hs⟩
  obtain ⟨hinv, hover⟩ := hok s hs
  exact ⟨not_not.mp hover, hinv.toBatched⟩

end Sync

/-! ## The batches of the queue -/

/-- What changes the queue of the sensors that wait: a command takes its batch, and sensors
return. -/
inductive QueueOp (α : Type u)
  | sensorWatchCmd
  | sensorWatchEnque (sensors : List α)

def QueueOp.apply (cat : Catalog α) (s : State α) : QueueOp α → State α
  | .sensorWatchCmd => Sensor.sensorWatchCmd cat s
  | .sensorWatchEnque sensors => s.sensorWatchEnque sensors

/-- The sensors that return. -/
def QueueOp.returned : QueueOp α → List α
  | .sensorWatchCmd => []
  | .sensorWatchEnque sensors => sensors

/-- Rounds of watching. -/
def rounds (cat : Catalog α) (ops : List (QueueOp α)) (s : State α) : State α :=
  ops.foldl (QueueOp.apply cat) s

/-- The batches that rounds of watching ask for are consecutive and have room. -/
structure Watched (cat : Catalog α) (messageSize messageReturnSize : ℕ) (start : State α)
    (returned : List α) (batches : List (List α)) (s : State α) : Prop where
  split : batches.flatten ++ s.sensorWatchQueue = start.sensorWatchQueue ++ returned
  fits : ∀ batch ∈ batches, FitsMessages cat messageSize messageReturnSize batch
  outstanding : s.outstanding =
    start.outstanding ++ batches.map fun batch => ⟨start.sensorWatchGeneration, batch⟩
  effects : s.effects =
    start.effects ++ batches.map fun batch => .sent (watchCommandBytes cat batch)
  generation : s.sensorWatchGeneration = start.sensorWatchGeneration
  limit : s.sensorWatchLimit = watchLimit messageSize messageReturnSize

section Rounds

variable {cat : Catalog α} {messageSize messageReturnSize : ℕ} {start s : State α}
variable {returned : List α} {batches : List (List α)}

/-- A command asks for the next batch, if a sensor waits. -/
theorem Watched.cmd (positive : 1 ≤ watchLimit messageSize messageReturnSize)
    (h : Watched cat messageSize messageReturnSize start returned batches s) :
    ∃ batches', Watched cat messageSize messageReturnSize start returned batches'
      (sensorWatchCmd cat s) := by
  by_cases hqueue : s.sensorWatchQueue = []
  · refine ⟨batches, ?_⟩
    rwa [sensorWatchCmd, if_pos hqueue]
  · refine ⟨batches ++ [s.sensorWatchQueue.take s.sensorWatchLimit.toNat], ?_⟩
    rw [sensorWatchCmd, if_neg hqueue]
    constructor
    · rw [List.flatten_append, List.flatten_singleton, List.append_assoc, List.take_append_drop]
      exact h.split
    · intro batch hbatch
      obtain hbatch | hbatch := List.mem_append.mp hbatch
      · exact h.fits batch hbatch
      · obtain rfl := List.mem_singleton.mp hbatch
        rw [h.limit]
        exact fitsMessages_take cat positive hqueue
    · rw [List.map_append, ← List.append_assoc, ← h.outstanding, ← h.generation]
      rfl
    · rw [List.map_append, ← List.append_assoc, ← h.effects]
      rfl
    · exact h.generation
    · exact h.limit

theorem Watched.enque (h : Watched cat messageSize messageReturnSize start returned batches s)
    (sensors : List α) :
    Watched cat messageSize messageReturnSize start (returned ++ sensors) batches
      (s.sensorWatchEnque sensors) where
  split := by
    rw [State.sensorWatchEnque, ← List.append_assoc, h.split, List.append_assoc]
  fits := h.fits
  outstanding := h.outstanding
  effects := h.effects
  generation := h.generation
  limit := h.limit

/-- Whatever the order of commands and returning sensors. -/
theorem rounds_watched (positive : 1 ≤ watchLimit messageSize messageReturnSize)
    (h : Watched cat messageSize messageReturnSize start returned batches s)
    (ops : List (QueueOp α)) :
    ∃ batches', Watched cat messageSize messageReturnSize start
      (returned ++ ops.flatMap QueueOp.returned) batches' (rounds cat ops s) := by
  induction ops generalizing s returned batches with
  | nil => exact ⟨batches, by simpa [rounds] using h⟩
  | cons op ops ih =>
      cases op with
      | sensorWatchCmd =>
          obtain ⟨batches', h'⟩ := h.cmd positive
          exact ih h'
      | sensorWatchEnque sensors =>
          have hrest := ih (h.enque sensors)
          rwa [List.append_assoc] at hrest

end Rounds

/-! ## The data of a batch -/

theorem GivenFrom.of_drop {sensors : List α} {databytes : Bytes} {given : List (α × Bytes)}
    (h : GivenFrom 0 sensors (databytes.drop sensorWatchBytespersensor) given) :
    GivenFrom (0 + sensorWatchBytespersensor) sensors databytes given where
  sensors := h.sensors
  own := by
    intro k u hu hinside
    rw [h.own k u hu (by rw [List.length_drop]; omega), List.drop_drop, Nat.zero_add, Nat.zero_add]
  whole := h.whole

/-- A response of the expected length gives every sensor of the batch its part. -/
theorem updateSensors_given {sensors : List α} {databytes : Bytes}
    (length : databytes.length = sensors.length * sensorWatchBytespersensor) (s : State α) :
    ∃ given, (updateSensors sensorDataCallback sensors databytes s).updates = s.updates ++ given ∧
      GivenFrom 0 sensors databytes given := by
  induction sensors generalizing databytes s with
  | nil => exact ⟨[], (List.append_nil _).symm, .nil 0 databytes⟩
  | cons x sensors ih =>
      rw [List.length_cons, Nat.succ_mul] at length
      obtain ⟨given, hupdates, hgiven⟩ :=
        @ih (databytes.drop sensorWatchBytespersensor) (by rw [List.length_drop]; omega)
          (sensorDataCallback x (databytes.take sensorWatchBytespersensor) s)
      refine ⟨(x, databytes.take sensorWatchBytespersensor) :: given, ?_,
        hgiven.of_drop.cons ?_ fun _ => by rw [List.drop_zero]⟩
      · rw [updateSensors, hupdates, sensorDataCallback_updates, List.append_assoc,
          List.singleton_append]
      · rw [List.length_take]
        omega

/-- The response to a command of the current generation updates the sensors of its batch,
which return to the queue, and asks for the next batch. -/
theorem sensorWatchCallback_given (cat : Catalog α) {c : WatchCommand α} {databytes : Bytes}
    {s : State α} (current : c.generation = s.sensorWatchGeneration)
    (length : databytes.length = c.sensorlist.length * sensorWatchBytespersensor) :
    ∃ given t, sensorWatchCallback cat 0 databytes c s = sensorWatchCmd cat t ∧
      t.sensorWatchQueue = s.sensorWatchQueue ++ c.sensorlist ∧
      t.updates = s.updates ++ given ∧ GivenFrom 0 c.sensorlist databytes given := by
  obtain ⟨given, hupdates, hgiven⟩ := updateSensors_given length s
  refine ⟨given, updateSensors sensorDataCallback c.sensorlist databytes s, ?_, ?_, hupdates,
    hgiven⟩
  · rw [sensorWatchCallback, if_neg (not_not.mpr rfl), if_neg (not_not.mpr length.symm),
      if_neg (not_not.mpr current)]
  · obtain ⟨effects, hupdate⟩ := updateSensors_eq c.sensorlist databytes s
    rw [hupdate]

/-! ## The result -/

/-- With room for a sensor in a batch, a synchronous update and the rounds of watching ask
for consecutive batches that have room. The sensors of a batch are given the parts of the
response at their own places, and a part changes the reading of its sensor to what it
says. -/
theorem sensor_batching [DecidableEq α] (cat : Catalog α) (messageSize messageReturnSize : ℕ)
    (positive : 1 ≤ watchLimit messageSize messageReturnSize) (s : State α) :
    (∀ send sensorlist fuel, sensorlist.length < fuel → ∃ r,
      sensorUpdateByObjectSync cat send fuel sensorlist
        (sensorWatchInit messageSize messageReturnSize s) = some r ∧
      (∀ t, r = .ok t → t.sensorlist = [] ∧
        Batched cat messageSize messageReturnSize sensorlist
          (sensorWatchInit messageSize messageReturnSize s) t.answered t) ∧
      ∀ e t, r = .error (e, t) →
        Batched cat messageSize messageReturnSize sensorlist
          (sensorWatchInit messageSize messageReturnSize s) t.answered.dropLast t) ∧
    (∀ ops, ∃ batches, Watched cat messageSize messageReturnSize
      (sensorWatchInit messageSize messageReturnSize s) (ops.flatMap QueueOp.returned) batches
      (rounds cat ops (sensorWatchInit messageSize messageReturnSize s))) ∧
    (∀ (c : WatchCommand α) (databytes : Bytes) (t : State α),
      c.generation = t.sensorWatchGeneration →
      databytes.length = c.sensorlist.length * sensorWatchBytespersensor →
      ∃ given t', sensorWatchCallback cat 0 databytes c t = sensorWatchCmd cat t' ∧
        t'.sensorWatchQueue = t.sensorWatchQueue ++ c.sensorlist ∧
        t'.updates = t.updates ++ given ∧ GivenFrom 0 c.sensorlist databytes given) ∧
    ∀ (scaled : α → ℤ → ℚ) (readings : α → Reading ℚ) (x : α) (bytes : Bytes),
      bytes.length = sensorWatchBytespersensor →
      record scaled readings x bytes =
        Function.update readings x (readingOf (scaled x) bytes) := by
  refine ⟨fun send sensorlist fuel enough => ?_, fun ops => ?_,
    fun c databytes t current length => sensorWatchCallback_given cat current length,
    fun scaled readings x bytes complete => record_eq scaled readings x complete⟩
  · have hlimit : (sensorWatchInit messageSize messageReturnSize s).sensorWatchLimit =
        watchLimit messageSize messageReturnSize := rfl
    exact sync_ends positive hlimit sensorlist enough
  · have hstart : Watched cat messageSize messageReturnSize
        (sensorWatchInit messageSize messageReturnSize s) [] []
        (sensorWatchInit messageSize messageReturnSize s) :=
      ⟨(List.append_nil _).symm, nofun, (List.append_nil _).symm, (List.append_nil _).symm, rfl,
        rfl⟩
    exact rounds_watched positive hstart ops

/-- Three sensors with room for two: the batches are the first two and the last. -/
theorem sensor_batching_three :
    ∃ r, sensorUpdateByObjectSync sampleCatalog (fun _ _ => (0, List.replicate 48 1)) 4 [1, 2, 3]
        (sensorWatchInit 5 48 {}) = some r ∧
      ∀ t, r = .ok t → t.answered.flatMap Answered.sensors = [1, 2, 3] := by
  obtain ⟨r, hrun, hok, -⟩ := (sensor_batching sampleCatalog 5 48 (by decide) {}).1
    (fun _ _ => (0, List.replicate 48 1)) [1, 2, 3] 4 (by decide)
  refine ⟨r, hrun, fun t ht => ?_⟩
  obtain ⟨hover, hbatched⟩ := hok t ht
  have hsplit := hbatched.split
  rwa [hover, List.append_nil] at hsplit

end Amester.Sensor
