/-
# Updating sensors once

A synchronous update asks for sensors once, beside the watch that goes on in the background.
It gives the data to the callback that the watch uses too, and that puts the sensor back on
the queue of the watch: at once, or on the local host and on an emtagent host by a timer.

So every sensor that is given data is one more time on the queue, watched or not, and an
update leaves the watch alone only if it gives no sensor any data.
-/

import Amester.Sensor.Batching
import Amester.Sensor.Delayed

namespace Amester.Sensor.OneOff

open BinaryFormat

universe u

variable {α : Type u}

/-! ## The call -/

/-- `sensor_data_callback`: update a sensor and put it back on the queue, later when the host
is the local host or an emtagent. -/
def sensorDataCallback (isLocal : Bool) (x : α) (databytes : Bytes) (s : Delayed.State α) :
    Delayed.State α :=
  if isLocal then Delayed.sensorDataCallback x databytes s
  else { s with watch := Sensor.sensorDataCallback x databytes s.watch }

/-- What an update raises. -/
inductive UpdateError
  | sync (e : SyncError)
  /-- The sensor of a name that is not there: invalid command name "". -/
  | invalidCommand
  deriving DecidableEq, Repr

/-- The variables of an update. A name without a sensor has put "" on the list. -/
structure Updating (α : Type u) where
  sensorlist : List (Option α)
  /-- `_bytes` -/
  bytes : Option Bytes := none
  /-- So many commands have been sent. -/
  sent : ℕ := 0
  state : Delayed.State α

namespace Updating

variable (u : Updating α)

/-- The next batch. -/
def batch : List (Option α) := u.sensorlist.take u.state.watch.sensorWatchLimit.toNat

/-- The next batch has been taken from the list. -/
def taken : Updating α :=
  { u with sensorlist := u.sensorlist.drop u.state.watch.sensorWatchLimit.toNat }

/-- A command has been sent. -/
def asked (command : Bytes) : Updating α :=
  { u with
    sent := u.sent + 1
    state := { u.state with watch := u.state.watch.emit (.sent command) } }

end Updating

/-- The sensors of a batch, when there is one for each name. -/
def sensorsOf (batch : List (Option α)) : Option (List α) := batch.mapM id

/-- One round of the loop. -/
def updateStep (isLocal : Bool) (cat : Catalog α) (send : SendCommands) (u : Updating α) :
    Except (UpdateError × Updating α) (Updating α) :=
  match sensorsOf u.batch with
  | none => .error (.invalidCommand, u.taken)
  | some sensors =>
    let reply := send u.sent (watchCommandBytes cat sensors)
    let asked := u.taken.asked (watchCommandBytes cat sensors)
    if reply.1 = 0 then
      match giveSlices (sensorDataCallback isLocal) sensors 0 reply.2 u.bytes asked.state with
      | .ok (bytes, state) => .ok { asked with bytes := bytes, state := state }
      | .error (e, state) => .error (.sync e, { asked with state := state })
    else .error (.sync (.firmware reply.1), asked)

/-- `sensor_update_by_object_sync` on any host, with at most `fuel` commands. -/
def sensorUpdateSync (isLocal : Bool) (cat : Catalog α) (send : SendCommands) (fuel : ℕ)
    (sensorlist : List (Option α)) (s : Delayed.State α) :
    Option (Except (UpdateError × Updating α) (Updating α)) :=
  WhileLoop.run (fun u : Updating α => u.sensorlist ≠ []) (updateStep isLocal cat send) fuel
    { sensorlist := sensorlist, state := s }

/-- A call of a synchronous update, and what the firmware answers to it. -/
structure Call (α : Type u) where
  sensorlist : List (Option α)
  send : SendCommands
  fuel : ℕ

/-- `sensor_update_by_object_sync` -/
def Call.byObject (sensors : List α) (send : SendCommands) (fuel : ℕ) : Call α :=
  ⟨sensors.map some, send, fuel⟩

/-- `sensor_update_by_name_sync` -/
def Call.byName (cat : Catalog α) (names : List String) (send : SendCommands) (fuel : ℕ) : Call α :=
  ⟨names.map cat.findObject, send, fuel⟩

/-- The state behind a call that has returned or raised. -/
def stateBehind : Except (UpdateError × Updating α) (Updating α) → Delayed.State α
  | .ok u => u.state
  | .error (_, u) => u.state

/-- The state behind a call, if it ends. -/
def Call.perform (isLocal : Bool) (cat : Catalog α) (c : Call α) (s : Delayed.State α) :
    Option (Delayed.State α) :=
  (sensorUpdateSync isLocal cat c.send c.fuel c.sensorlist s).map stateBehind

/-- The state behind calls one after the other. -/
def performAll (isLocal : Bool) (cat : Catalog α) :
    List (Call α) → Delayed.State α → Option (Delayed.State α)
  | [], s => some s
  | c :: calls, s => (c.perform isLocal cat s).bind (performAll isLocal cat calls)

/-! ## The call on other hosts -/

/-- The variables of the update by the batches asked for, and those of the call. -/
structure Follows (u : Updating α) (v : Syncing α) : Prop where
  sensorlist : u.sensorlist = v.sensorlist.map some
  bytes : u.bytes = v.bytes
  sent : u.sent = v.answered.length
  watch : u.state.watch = v.state

private theorem sensorsOf_map_some (sensors : List α) :
    sensorsOf (sensors.map some) = some sensors := by
  induction sensors with
  | nil => rfl
  | cons x sensors ih =>
      rw [sensorsOf] at ih ⊢
      rw [List.map_cons, List.mapM_cons, ih]
      rfl

/-- Without timers the parts are given as in the synchronous update of the watch. -/
theorem giveSlices_remote (sensors : List α) (i : ℕ) (databytes : Bytes) (bytes : Option Bytes)
    (s : Delayed.State α) :
    WhileLoop.Both (fun r r' => r.1 = r'.1 ∧ r.2.watch = r'.2)
      (fun e e' => e.1 = e'.1 ∧ e.2.watch = e'.2)
      (giveSlices (sensorDataCallback false) sensors i databytes bytes s)
      (giveSlices Sensor.sensorDataCallback sensors i databytes bytes s.watch) := by
  induction sensors generalizing i bytes s with
  | nil => exact ⟨rfl, rfl⟩
  | cons x sensors ih =>
      rw [giveSlices, giveSlices]
      cases (slice databytes i).or bytes with
      | none => exact ⟨rfl, rfl⟩
      | some b => exact ih _ _ _

private theorem updateStep_remote {cat : Catalog α} {send : SendCommands} {u : Updating α}
    {v : Syncing α}
    (follows : Follows u v) :
    WhileLoop.Both Follows (fun e e' => e.1 = .sync e'.1 ∧ Follows e.2 e'.2)
      (updateStep false cat send u) (syncStep cat send v) := by
  have hbatch : u.batch = v.batch.map some := by
    rw [Updating.batch, Syncing.batch, follows.sensorlist, follows.watch, List.map_take]
  have hlist : u.taken.sensorlist = (v.asked cat send).sensorlist.map some := by
    rw [Updating.taken, Syncing.asked, follows.watch]
    simp only [follows.sensorlist, List.map_drop]
  have hasked : Follows (u.taken.asked (watchCommandBytes cat v.batch)) (v.asked cat send) := by
    refine ⟨hlist, follows.bytes, ?_, ?_⟩
    · simp [Updating.asked, Updating.taken, Syncing.asked, follows.sent]
    · simp [Updating.asked, Updating.taken, Syncing.asked, follows.watch]
  have hgive := giveSlices_remote v.batch 0 (v.reply cat send).2 v.bytes
    (u.taken.asked (watchCommandBytes cat v.batch)).state
  rw [hasked.watch] at hgive
  simp only [updateStep, hbatch, sensorsOf_map_some, syncStep, Syncing.reply, follows.sent,
    follows.bytes] at hgive ⊢
  by_cases hstatus : (send v.answered.length (watchCommandBytes cat v.batch)).1 = 0
  · simp only [hstatus, reduceIte]
    revert hgive
    cases giveSlices (sensorDataCallback false) v.batch 0
        (send v.answered.length (watchCommandBytes cat v.batch)).2 v.bytes
        (u.taken.asked (watchCommandBytes cat v.batch)).state with
    | ok r =>
        cases giveSlices Sensor.sensorDataCallback v.batch 0
            (send v.answered.length (watchCommandBytes cat v.batch)).2 v.bytes
            (v.asked cat send).state with
        | ok r' => exact fun h => ⟨hasked.sensorlist, h.1, hasked.sent, h.2⟩
        | error e => exact False.elim
    | error e =>
        cases giveSlices Sensor.sensorDataCallback v.batch 0
            (send v.answered.length (watchCommandBytes cat v.batch)).2 v.bytes
            (v.asked cat send).state with
        | ok r' => exact False.elim
        | error e' =>
            exact fun h => ⟨congrArg _ h.1, hasked.sensorlist, hasked.bytes, hasked.sent, h.2⟩
  · simp only [hstatus, reduceIte]
    exact ⟨rfl, hasked⟩

/-- The variables behind a synchronous update of the watch. -/
def syncBehind : Except (SyncError × Syncing α) (Syncing α) → State α
  | .ok v => v.state
  | .error (_, v) => v.state

/-- On a host that is neither local nor an emtagent the call is the synchronous update. -/
theorem perform_remote (cat : Catalog α) (send : SendCommands) (fuel : ℕ) (sensors : List α)
    (s : Delayed.State α) :
    ((Call.byObject sensors send fuel).perform false cat s).map Delayed.State.watch =
      (sensorUpdateByObjectSync cat send fuel sensors s.watch).map syncBehind := by
  have hrun : Option.Rel (WhileLoop.Both Follows fun e e' => e.1 = .sync e'.1 ∧ Follows e.2 e'.2)
      (sensorUpdateSync false cat send fuel (sensors.map some) s)
      (sensorUpdateByObjectSync cat send fuel sensors s.watch) := by
    apply WhileLoop.run_both
    · intro u v follows
      rw [follows.sensorlist]
      simp
    · exact fun u v follows _ => updateStep_remote follows
    · exact ⟨rfl, rfl, rfl, rfl⟩
  simp only [Call.perform, Call.byObject, Option.map_map]
  generalize sensorUpdateSync false cat send fuel (sensors.map some) s = result at hrun ⊢
  generalize sensorUpdateByObjectSync cat send fuel sensors s.watch = result' at hrun ⊢
  cases hrun with
  | none => rfl
  | @some r r' hboth =>
      cases r with
      | ok u =>
          cases r' with
          | ok v => exact congrArg some hboth.watch
          | error e => exact hboth.elim
      | error e =>
          cases r' with
          | ok v => exact hboth.elim
          | error e' => exact congrArg some hboth.2.watch

/-! ## What a call leaves -/

/-- The timer behind the first `n` fires, so many times. -/
def fireBehind (n : ℕ) : ℕ → Delayed.State α → Delayed.State α
  | 0, s => s
  | k + 1, s => fireBehind n k (s.fire n)

/-- The watch is as it was, and also when the timers that were started since have fired. If
every watched sensor, and no other, was to be asked for once, this is still so. -/
structure LeavesWatch (before after : Delayed.State α) : Prop where
  sensorobjs : after.watch.sensorobjs = before.watch.sensorobjs
  queue : after.watch.sensorWatchQueue = before.watch.sensorWatchQueue
  settled : (fireBehind before.timers.length (after.timers.length - before.timers.length)
    after).watch.sensorWatchQueue = before.watch.sensorWatchQueue
  polled : Conserved before.watch → Conserved after.watch

/-- Nothing but that these sensors were put back. -/
structure PutBack (isLocal : Bool) (given : List α) (before after : Delayed.State α) : Prop where
  sensorobjs : after.watch.sensorobjs = before.watch.sensorobjs
  limit : after.watch.sensorWatchLimit = before.watch.sensorWatchLimit
  generation : after.watch.sensorWatchGeneration = before.watch.sensorWatchGeneration
  outstanding : after.watch.outstanding = before.watch.outstanding
  queue : after.watch.sensorWatchQueue =
    before.watch.sensorWatchQueue ++ if isLocal then [] else given
  timers : after.timers = before.timers ++
    if isLocal then given.map fun x => ⟨x, before.watch.sensorWatchGeneration⟩ else []

theorem PutBack.refl (isLocal : Bool) (s : Delayed.State α) : PutBack isLocal [] s s := by
  constructor <;> simp

theorem PutBack.trans {isLocal : Bool} {given given' : List α} {s s' s'' : Delayed.State α}
    (h : PutBack isLocal given s s') (h' : PutBack isLocal given' s' s'') :
    PutBack isLocal (given ++ given') s s'' where
  sensorobjs := h'.sensorobjs.trans h.sensorobjs
  limit := h'.limit.trans h.limit
  generation := h'.generation.trans h.generation
  outstanding := h'.outstanding.trans h.outstanding
  queue := by
    rw [h'.queue, h.queue]
    cases isLocal <;> simp
  timers := by
    rw [h'.timers, h.timers, h.generation]
    cases isLocal <;> simp

/-- Sending a command puts nothing back. -/
theorem putBack_emit (isLocal : Bool) (s : Delayed.State α) (e : Effect α) :
    PutBack isLocal [] s { s with watch := s.watch.emit e } := by
  constructor <;> simp [State.emit]

/-- The callback puts its sensor back. -/
theorem putBack_callback (isLocal : Bool) (x : α) (databytes : Bytes) (s : Delayed.State α) :
    PutBack isLocal [x] s (sensorDataCallback isLocal x databytes s) := by
  cases isLocal <;>
    constructor <;>
    simp [sensorDataCallback, Delayed.sensorDataCallback, Sensor.sensorDataCallback, State.emit,
      State.sensorWatchEnque]

/-- Timers that fire put their sensors on the queue. -/
theorem fireBehind_queue (n k : ℕ) (s : Delayed.State α) :
    (fireBehind n k s).watch.sensorWatchQueue =
      s.watch.sensorWatchQueue ++ ((s.timers.drop n).take k).map Delayed.Timer.sensor := by
  induction k generalizing s with
  | zero => simp [fireBehind]
  | succ k ih =>
      rw [fireBehind, ih]
      cases htimer : s.timers[n]? with
      | none =>
          have hshort : s.timers.length ≤ n := List.getElem?_eq_none_iff.mp htimer
          simp [Delayed.State.fire, htimer, List.drop_eq_nil_of_le hshort]
      | some t =>
          obtain ⟨hinside, rfl⟩ := List.getElem?_eq_some_iff.mp htimer
          have herase : (s.timers.eraseIdx n).drop n = s.timers.drop (n + 1) := by
            rw [List.eraseIdx_eq_take_drop_succ, List.drop_left' (by rw [List.length_take]; omega)]
          rw [Delayed.State.fire, htimer, List.drop_eq_getElem_cons hinside, List.take_succ_cons,
            herase]
          simp [State.sensorWatchEnque]

theorem PutBack.conserved {isLocal : Bool} {s s' : Delayed.State α} (h : PutBack isLocal [] s s')
    (conserved : Conserved s.watch) : Conserved s'.watch := by
  have hqueue : s'.watch.sensorWatchQueue = s.watch.sensorWatchQueue := by
    rw [h.queue]
    cases isLocal <;> simp
  have hcurrent : s'.watch.current = s.watch.current := by
    rw [State.current, State.current, h.outstanding, h.generation]
  have hbatch : s'.watch.batch = s.watch.batch := by rw [State.batch, State.batch, hcurrent]
  constructor
  · rw [h.sensorobjs]
    exact conserved.distinct
  · rw [h.sensorobjs, hqueue, hbatch]
    exact conserved.places
  · rw [hcurrent]
    exact conserved.single

/-- The watch is left alone if nothing was put back. -/
theorem PutBack.leaves_iff {isLocal : Bool} {given : List α} {s s' : Delayed.State α}
    (h : PutBack isLocal given s s') : LeavesWatch s s' ↔ given = [] := by
  have hsettled : (fireBehind s.timers.length (s'.timers.length - s.timers.length)
      s').watch.sensorWatchQueue = s.watch.sensorWatchQueue ++ given := by
    rw [fireBehind_queue, h.queue, h.timers]
    cases isLocal <;> simp [Function.comp_def]
  constructor
  · intro leaves
    have hsame := leaves.settled
    rw [hsettled] at hsame
    exact List.append_right_eq_self.mp hsame
  · rintro rfl
    refine ⟨h.sensorobjs, ?_, by rw [hsettled, List.append_nil], h.conserved⟩
    rw [h.queue]
    cases isLocal <;> simp

/-! ## Rounds -/

private theorem sensorsOf_of_mem {batch : List (Option α)} (unknown : none ∈ batch) :
    sensorsOf batch = none := by
  induction batch with
  | nil => exact absurd unknown List.not_mem_nil
  | cons x batch ih =>
      cases x with
      | none => rfl
      | some x =>
          have hrest : none ∈ batch := by simpa using unknown
          have htail := ih hrest
          rw [sensorsOf] at htail ⊢
          rw [List.mapM_cons, htail]
          rfl

private theorem sensorsOf_of_not_mem {batch : List (Option α)} (known : none ∉ batch) :
    sensorsOf batch = some (batch.filterMap id) := by
  induction batch with
  | nil => rfl
  | cons x batch ih =>
      cases x with
      | none => exact absurd List.mem_cons_self known
      | some x =>
          have htail := ih fun h => known (List.mem_cons_of_mem _ h)
          rw [sensorsOf] at htail ⊢
          rw [List.mapM_cons, htail]
          rfl

private theorem filterMap_id_eq_nil {batch : List (Option α)} (known : none ∉ batch) :
    batch.filterMap id = [] ↔ batch = [] := by
  constructor
  · intro h
    rw [List.filterMap_eq_nil_iff] at h
    by_contra hne
    obtain ⟨x, hx⟩ := List.exists_mem_of_ne_nil batch hne
    have hnone : x = none := h x hx
    exact known (hnone ▸ hx)
  · rintro rfl
    rfl

/-- Giving a batch its data puts back some of its sensors: none if there is no sensor, or no
data for the first. -/
theorem giveSlices_putBack (isLocal : Bool) (sensors : List α) (i : ℕ) (databytes : Bytes)
    (bytes : Option Bytes) (s : Delayed.State α) :
    ∃ given, (given = [] ↔ sensors = [] ∨ (slice databytes i).or bytes = none) ∧
      (∀ bytes' s',
        giveSlices (sensorDataCallback isLocal) sensors i databytes bytes s = .ok (bytes', s') →
        PutBack isLocal given s s' ∧ (given = [] → sensors = [])) ∧
      ∀ e s', giveSlices (sensorDataCallback isLocal) sensors i databytes bytes s = .error (e, s') →
        PutBack isLocal given s s' := by
  induction sensors generalizing i bytes s with
  | nil =>
      refine ⟨[], by simp, ?_, ?_⟩
      · rintro bytes' s' ⟨⟩
        exact ⟨.refl isLocal s, fun _ => rfl⟩
      · rintro e s' ⟨⟩
  | cons x sensors ih =>
      rw [giveSlices]
      cases hslice : (slice databytes i).or bytes with
      | none =>
          refine ⟨[], by simp, ?_, ?_⟩
          · rintro bytes' s' ⟨⟩
          · rintro e s' ⟨⟩
            exact .refl isLocal s
      | some b =>
          obtain ⟨given, -, hok, herror⟩ := ih (i + sensorWatchBytespersensor) (some b)
            (sensorDataCallback isLocal x b s)
          have hfirst := putBack_callback isLocal x b s
          refine ⟨x :: given, by simp, ?_, ?_⟩
          · intro bytes' s' hgive
            exact ⟨hfirst.trans (hok bytes' s' hgive).1, fun h => absurd h (List.cons_ne_nil _ _)⟩
          · intro e s' hgive
            exact hfirst.trans (herror e s' hgive)

/-- A round that gives no sensor any data. -/
def Quiet (cat : Catalog α) (send : SendCommands) (u : Updating α) : Prop :=
  u.batch = [] ∨ none ∈ u.batch ∨
    (send u.sent (watchCommandBytes cat (u.batch.filterMap id))).1 ≠ 0 ∨
      (slice (send u.sent (watchCommandBytes cat (u.batch.filterMap id))).2 0).or u.bytes = none

/-- A round puts back some of the sensors of its batch. -/
theorem updateStep_putBack (isLocal : Bool) (cat : Catalog α) (send : SendCommands)
    (u : Updating α) :
    ∃ given, (given = [] ↔ Quiet cat send u) ∧
      (∀ u', updateStep isLocal cat send u = .ok u' →
        PutBack isLocal given u.state u'.state ∧ (given = [] → u.batch = [])) ∧
      ∀ e u', updateStep isLocal cat send u = .error (e, u') →
        PutBack isLocal given u.state u'.state := by
  by_cases unknown : none ∈ u.batch
  · refine ⟨[], by simp [Quiet, unknown], ?_⟩
    simp only [updateStep, sensorsOf_of_mem unknown]
    refine ⟨nofun, ?_⟩
    rintro e u' ⟨⟩
    exact .refl isLocal u.state
  simp only [updateStep, sensorsOf_of_not_mem unknown]
  have hsent := putBack_emit isLocal u.state
    (.sent (watchCommandBytes cat (u.batch.filterMap id)))
  by_cases hstatus : (send u.sent (watchCommandBytes cat (u.batch.filterMap id))).1 = 0
  · obtain ⟨given, hnone, hok, herror⟩ := giveSlices_putBack isLocal (u.batch.filterMap id) 0
      (send u.sent (watchCommandBytes cat (u.batch.filterMap id))).2 u.bytes
      (u.taken.asked (watchCommandBytes cat (u.batch.filterMap id))).state
    refine ⟨given, ?_, ?_, ?_⟩
    · rw [hnone, filterMap_id_eq_nil unknown, Quiet]
      simp only [unknown, ne_eq, hstatus, not_true_eq_false, false_or]
    · intro u' hstep
      rw [if_pos hstatus] at hstep
      split at hstep
      · rename_i bytes state hgive
        obtain rfl := Except.ok.inj hstep
        obtain ⟨hput, hempty⟩ := hok bytes state hgive
        exact ⟨hsent.trans hput, fun h => (filterMap_id_eq_nil unknown).mp (hempty h)⟩
      · exact absurd hstep nofun
    · intro e u' hstep
      rw [if_pos hstatus] at hstep
      split at hstep
      · exact absurd hstep nofun
      · rename_i e' state hgive
        obtain ⟨rfl, rfl⟩ := Prod.mk.inj (Except.error.inj hstep)
        exact hsent.trans (herror e' state hgive)
  · rw [if_neg hstatus]
    refine ⟨[], iff_of_true rfl (.inr (.inr (.inl hstatus))), nofun, ?_⟩
    rintro e u' ⟨⟩
    exact hsent

private theorem updateStep_sensorlist {isLocal : Bool} {cat : Catalog α} {send : SendCommands}
    {u u' : Updating α} (step : updateStep isLocal cat send u = .ok u') :
    u'.sensorlist = u.sensorlist.drop u.state.watch.sensorWatchLimit.toNat := by
  unfold updateStep at step
  split at step
  · exact absurd step nofun
  · dsimp only at step
    split at step
    · split at step
      · rw [← Except.ok.inj step]
        rfl
      · exact absurd step nofun
    · exact absurd step nofun

/-- A batch of no sensor is followed by another one. -/
theorem batch_eq_nil {isLocal : Bool} {cat : Catalog α} {send : SendCommands} {u u' : Updating α}
    (empty : u.batch = []) (step : updateStep isLocal cat send u = .ok u')
    (limit : u'.state.watch.sensorWatchLimit = u.state.watch.sensorWatchLimit) : u'.batch = [] := by
  rw [Updating.batch, updateStep_sensorlist step, limit]
  obtain hzero | hnil := List.take_eq_nil_iff.mp empty
  · rw [hzero, List.take_zero]
  · rw [hnil, List.drop_nil, List.take_nil]

/-! ## Calls -/

/-- A call that gives no sensor any data: it takes no sensor from its list, the first batch has
a name without a sensor, or its command is answered with an error or without the data of a
sensor. -/
def Call.Silent (cat : Catalog α) (limit : ℤ) (c : Call α) : Prop :=
  c.sensorlist.take limit.toNat = [] ∨ none ∈ c.sensorlist.take limit.toNat ∨
    (c.send 0 (watchCommandBytes cat ((c.sensorlist.take limit.toNat).filterMap id))).1 ≠ 0 ∨
      (c.send 0 (watchCommandBytes cat ((c.sensorlist.take limit.toNat).filterMap id))).2.length <
        sensorWatchBytespersensor

/-- The variables before the first round. -/
def Call.start (c : Call α) (s : Delayed.State α) : Updating α :=
  { sensorlist := c.sensorlist, state := s }

theorem Call.quiet_start_iff (cat : Catalog α) (c : Call α) (s : Delayed.State α) :
    Quiet cat c.send (c.start s) ↔ c.Silent cat s.watch.sensorWatchLimit := by
  simp [Quiet, Call.Silent, Updating.batch, Call.start, slice]

/-- The rounds of a call whose batches are empty put nothing back. -/
theorem run_putBack_nil {isLocal : Bool} {cat : Catalog α} {send : SendCommands} {fuel : ℕ}
    {s : Delayed.State α} {u : Updating α} {r : Except (UpdateError × Updating α) (Updating α)}
    (put : PutBack isLocal [] s u.state) (empty : u.batch = [])
    (run : WhileLoop.run (fun u => u.sensorlist ≠ []) (updateStep isLocal cat send) fuel u =
      some r) : PutBack isLocal [] s (stateBehind r) := by
  have hkeeps := WhileLoop.run_keeps
    (fun u : Updating α => PutBack isLocal [] s u.state ∧ u.batch = [])
    (fun e : UpdateError × Updating α => PutBack isLocal [] s e.2.state)
    (by
      rintro u u' ⟨hput, hempty⟩ - hstep
      obtain ⟨given, hquiet, hok, -⟩ := updateStep_putBack isLocal cat send u
      obtain rfl := hquiet.mpr (.inl hempty)
      have hstate := (hok u' hstep).1
      exact ⟨hput.trans hstate, batch_eq_nil hempty hstep hstate.limit⟩)
    (by
      rintro u ⟨e, u'⟩ ⟨hput, hempty⟩ - hstep
      obtain ⟨given, hquiet, -, herror⟩ := updateStep_putBack isLocal cat send u
      obtain rfl := hquiet.mpr (.inl hempty)
      exact hput.trans (herror e u' hstep))
    ⟨put, empty⟩ run
  cases r with
  | ok u => exact (hkeeps.1 u rfl).1
  | error e => exact hkeeps.2 e rfl

/-- The rounds of a call put back more sensors. -/
theorem run_putBack {isLocal : Bool} {cat : Catalog α} {send : SendCommands} {fuel : ℕ}
    {first : List α} {s : Delayed.State α} {u : Updating α}
    {r : Except (UpdateError × Updating α) (Updating α)} (put : PutBack isLocal first s u.state)
    (run : WhileLoop.run (fun u => u.sensorlist ≠ []) (updateStep isLocal cat send) fuel u =
      some r) : ∃ more, PutBack isLocal (first ++ more) s (stateBehind r) := by
  have hkeeps := WhileLoop.run_keeps
    (fun u' : Updating α => ∃ more, PutBack isLocal (first ++ more) s u'.state)
    (fun e : UpdateError × Updating α => ∃ more, PutBack isLocal (first ++ more) s e.2.state)
    (by
      rintro u u' ⟨more, hmore⟩ - hstep
      obtain ⟨given, -, hok, -⟩ := updateStep_putBack isLocal cat send u
      refine ⟨more ++ given, ?_⟩
      rw [← List.append_assoc]
      exact hmore.trans (hok u' hstep).1)
    (by
      rintro u ⟨e, u'⟩ ⟨more, hmore⟩ - hstep
      obtain ⟨given, -, -, herror⟩ := updateStep_putBack isLocal cat send u
      refine ⟨more ++ given, ?_⟩
      rw [← List.append_assoc]
      exact hmore.trans (herror e u' hstep))
    ⟨[], by rwa [List.append_nil]⟩ run
  cases r with
  | ok u => exact hkeeps.1 u rfl
  | error e => exact hkeeps.2 e rfl

/-- A call puts back some sensors, and none if it is silent. -/
theorem Call.perform_putBack {isLocal : Bool} {cat : Catalog α} {c : Call α}
    {s s' : Delayed.State α} (ended : c.perform isLocal cat s = some s') :
    ∃ given, PutBack isLocal given s s' ∧ (given = [] ↔ c.Silent cat s.watch.sensorWatchLimit) := by
  obtain ⟨r, hrun, rfl⟩ := Option.map_eq_some_iff.mp ended
  change WhileLoop.run (fun u => u.sensorlist ≠ []) _ c.fuel (c.start s) = some r at hrun
  by_cases hbatch : (c.start s).batch = []
  · -- the batches of the other rounds are empty too
    have hput := run_putBack_nil (PutBack.refl isLocal s) hbatch hrun
    exact ⟨[], hput, iff_of_true rfl (.inl hbatch)⟩
  · -- the first round decides whether the call is silent
    have hmore : (c.start s).sensorlist ≠ [] := by
      intro hnil
      rw [Updating.batch, hnil, List.take_nil] at hbatch
      exact hbatch rfl
    obtain ⟨first, hquiet, hok, herror⟩ := updateStep_putBack isLocal cat c.send (c.start s)
    rw [c.quiet_start_iff cat s] at hquiet
    cases hfuel : c.fuel with
    | zero =>
        rw [hfuel, WhileLoop.run, if_pos hmore] at hrun
        simp at hrun
    | succ fuel =>
        rw [hfuel, WhileLoop.run, if_pos hmore] at hrun
        cases hstep : updateStep isLocal cat c.send (c.start s) with
        | error e =>
            rw [hstep] at hrun
            obtain rfl := Option.some.inj hrun
            exact ⟨first, herror e.1 e.2 hstep, hquiet⟩
        | ok u =>
            rw [hstep] at hrun
            obtain ⟨hput, hsome⟩ := hok u hstep
            have hfirst : first ≠ [] := fun h => hbatch (hsome h)
            have hloud : ¬ c.Silent cat s.watch.sensorWatchLimit := fun h => hfirst (hquiet.mpr h)
            obtain ⟨more, hbehind⟩ := run_putBack hput hrun
            exact ⟨first ++ more, hbehind, iff_of_false (by simp [hfirst]) hloud⟩

/-- The limit is that of the watch before the first call. -/
theorem performAll_putBack {isLocal : Bool} {cat : Catalog α} {calls : List (Call α)}
    {s s' : Delayed.State α} (ended : performAll isLocal cat calls s = some s') :
    ∃ given, PutBack isLocal given s s' ∧
      (given = [] ↔ ∀ c ∈ calls, c.Silent cat s.watch.sensorWatchLimit) := by
  induction calls generalizing s with
  | nil =>
      obtain rfl := Option.some.inj ended
      exact ⟨[], .refl isLocal s, iff_of_true rfl nofun⟩
  | cons c calls ih =>
      obtain ⟨between, hcall, hrest⟩ := Option.bind_eq_some_iff.mp ended
      obtain ⟨given, hput, hsilent⟩ := Call.perform_putBack hcall
      obtain ⟨more, hmore, hall⟩ := ih hrest
      refine ⟨given ++ more, hput.trans hmore, ?_⟩
      rw [List.append_eq_nil_iff, hsilent, hall, hput.limit, List.forall_mem_cons]

/-- Any number of updates leaves the watch alone if and only if none of them gives a sensor
any data. -/
theorem leavesWatch_iff {isLocal : Bool} {cat : Catalog α} {calls : List (Call α)}
    {s s' : Delayed.State α} (ended : performAll isLocal cat calls s = some s') :
    LeavesWatch s s' ↔ ∀ c ∈ calls, c.Silent cat s.watch.sensorWatchLimit := by
  obtain ⟨given, hput, hsilent⟩ := performAll_putBack ended
  rw [hput.leaves_iff, hsilent]

/-- Two sensors are watched. -/
def watchingTwo : Delayed.State ℕ where
  watch := { sensorobjs := [1, 2], sensorWatchQueue := [1, 2], sensorWatchLimit := 5 }

/-- One of them and another sensor are updated. -/
def updateTwo : Call ℕ := .byObject [2, 3] (fun _ _ => (0, List.replicate 48 0)) 2

/-- The state behind the update. -/
def updatedTwo : Delayed.State ℕ where
  watch :=
    { sensorobjs := [1, 2], sensorWatchQueue := [1, 2, 2, 3], sensorWatchLimit := 5
      effects := [.sent [0x07, 0, 2, 0, 3], .updated 2 (List.replicate 24 0),
        .updated 3 (List.replicate 24 0)] }

theorem updateTwo_perform :
    performAll false sampleCatalog [updateTwo] watchingTwo = some updatedTwo :=
  rfl

/-- A watched sensor is on the queue twice, and one that is not watched is on it. -/
theorem updateTwo_disturbs :
    performAll false sampleCatalog [updateTwo] watchingTwo = some updatedTwo ∧
      ¬ LeavesWatch watchingTwo updatedTwo := by
  refine ⟨updateTwo_perform, fun leaves => ?_⟩
  exact absurd leaves.queue (by decide)

theorem leavesWatch_iff_updateTwo :
    LeavesWatch watchingTwo updatedTwo ↔
      ∀ c ∈ [updateTwo], c.Silent sampleCatalog watchingTwo.watch.sensorWatchLimit :=
  leavesWatch_iff updateTwo_perform

end Amester.Sensor.OneOff
