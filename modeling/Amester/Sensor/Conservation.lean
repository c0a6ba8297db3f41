/-
# Where the watched sensors are

Every watched sensor is waiting in the queue or part of the batch that has been
asked for. Two responses break this. A successful response of wrong length is
dropped before its batch is put back. And an error restarts the monitoring
without a look at the generation: if it answers a command of an earlier
generation, a second loop is started beside the one of the current generation.
The result here is that these are the only two.
-/

import Amester.Lib.EventMachine
import Amester.Sensor.Watch

namespace Amester.Sensor

open BinaryFormat EventMachine

universe u

variable {α : Type u}

/-! ## Runs

The user changes the list at any time, and the outstanding commands are answered
in any order. -/

inductive Event
  | sensorWatchInit (messageSize messageReturnSize : ℕ)
  | setSensorList (sensors : List String)
  | addSensorList (sensors : List String)
  | setSensorListNum (r_num : List ℕ)
  | addSensorListNum (r_num : List ℕ)
  /-- The response to the command at a position among the outstanding ones. -/
  | response (position : ℕ) (status : ℤ) (databytes : Bytes)

/-- The command at a position is no longer outstanding. -/
def State.withdraw (s : State α) (position : ℕ) : State α :=
  { s with outstanding := s.outstanding.eraseIdx position }

def step [DecidableEq α] (cat : Catalog α) (s : State α) : Event → State α
  | .sensorWatchInit messageSize messageReturnSize =>
    sensorWatchInit messageSize messageReturnSize s
  | .setSensorList sensors => (setSensorList cat sensors s).state
  | .addSensorList sensors => (addSensorList cat sensors s).state
  | .setSensorListNum r_num => (setSensorListNum cat r_num s).state
  | .addSensorListNum r_num => (addSensorListNum cat r_num s).state
  | .response position status databytes =>
    match s.outstanding[position]? with
    | none => s
    | some c => sensorWatchCallback cat status databytes c (s.withdraw position)

/-- Numbers are those of sensors, and a list is set without repetitions. -/
def admissible (cat : Catalog α) (s : State α) : Event → Prop
  | .setSensorListNum r_num => r_num.Nodup ∧ ∀ n ∈ r_num, (cat.sensornum2obj n).isSome
  | .addSensorListNum r_num => ∀ n ∈ r_num, (cat.sensornum2obj n).isSome
  | .response position _ _ => position < s.outstanding.length
  | .sensorWatchInit _ _ | .setSensorList _ | .addSensorList _ => True

instance (cat : Catalog α) (s : State α) : DecidablePred (admissible cat s)
  | .setSensorListNum r_num =>
    inferInstanceAs (Decidable (r_num.Nodup ∧ ∀ n ∈ r_num, (cat.sensornum2obj n).isSome))
  | .addSensorListNum r_num =>
    inferInstanceAs (Decidable (∀ n ∈ r_num, (cat.sensornum2obj n).isSome))
  | .response position _ _ => inferInstanceAs (Decidable (position < s.outstanding.length))
  | .sensorWatchInit _ _ | .setSensorList _ | .addSensorList _ => isTrue trivial

def machine [DecidableEq α] (cat : Catalog α) : Machine (State α) Event :=
  ⟨admissible cat, step cat⟩

instance [DecidableEq α] (cat : Catalog α) (s : State α) :
    DecidablePred ((machine cat).admissible s) :=
  inferInstanceAs (DecidablePred (admissible cat s))

/-- The event answers this command. -/
def Event.Answers (s : State α) (c : WatchCommand α) (status : ℤ) (databytes : Bytes) :
    Event → Prop
  | .response position status' databytes' =>
    s.outstanding[position]? = some c ∧ status' = status ∧ databytes' = databytes
  | _ => False

/-- The watched sensors are in the queue or in the batch, each once, and one batch
at most has been asked for. -/
structure Conserved (s : State α) : Prop where
  distinct : s.sensorobjs.Nodup
  places : s.sensorobjs.Perm (s.sensorWatchQueue ++ s.batch)
  single : s.current.length ≤ 1

/-- What a step should do. -/
structure Kept [DecidableEq α] (cat : Catalog α) (s : State α) (event : Event) : Prop where
  conserved : Conserved (step cat s event)
  /-- The data of an older generation updates no sensor. -/
  stale : ∀ c status databytes, event.Answers s c status databytes →
    c.generation ≠ s.sensorWatchGeneration → (step cat s event).updates = s.updates

/-- When a step does it. -/
structure Condition (s : State α) (event : Event) : Prop where
  /-- No batch of the current generation is answered with bytes of a wrong length. -/
  lengths : ∀ c databytes, event.Answers s c 0 databytes →
    c.generation = s.sensorWatchGeneration →
    c.sensorlist.length * sensorWatchBytespersensor ≠ databytes.length → c.sensorlist = []
  /-- No command of an older generation fails while one of the current generation is
  outstanding. -/
  errors : ∀ c status databytes, event.Answers s c status databytes → status ≠ 0 →
    c.generation ≠ s.sensorWatchGeneration → s.current = []

/-- The invariant of the runs that satisfy the condition. -/
structure Inv (s : State α) : Prop extends Conserved s where
  older : ∀ c ∈ s.outstanding, c.generation ≤ s.sensorWatchGeneration
  watched : s.current ≠ [] → s.sensorobjs ≠ []

/-! ## The steps -/

/-- The state between two batches: nothing is outstanding in the current
generation, and all watched sensors are in the queue. -/
structure Between (s : State α) : Prop where
  distinct : s.sensorobjs.Nodup
  places : s.sensorobjs.Perm s.sensorWatchQueue
  current : s.current = []
  older : ∀ c ∈ s.outstanding, c.generation ≤ s.sensorWatchGeneration

/-- Asking for the next batch. -/
theorem sensorWatchCmd_inv (cat : Catalog α) {s : State α} (h : Between s) :
    Inv (sensorWatchCmd cat s) := by
  by_cases hqueue : s.sensorWatchQueue = []
  · have hbatch : s.batch = [] := by simp [State.batch, h.current]
    rw [sensorWatchCmd, if_pos hqueue]
    refine ⟨⟨h.distinct, ?_, by simp [h.current]⟩, h.older,
      fun hcurrent => absurd h.current hcurrent⟩
    rw [hbatch, List.append_nil]
    exact h.places
  · have hcurrent : (sensorWatchCmd cat s).current =
        [⟨s.sensorWatchGeneration, s.sensorWatchQueue.take s.sensorWatchLimit.toNat⟩] := by
      have hold := h.current
      simp only [State.current] at hold
      simp [sensorWatchCmd, hqueue, State.current, State.emit, hold]
    have hfields : (sensorWatchCmd cat s).sensorobjs = s.sensorobjs ∧
        (sensorWatchCmd cat s).sensorWatchQueue =
          s.sensorWatchQueue.drop s.sensorWatchLimit.toNat ∧
        (sensorWatchCmd cat s).sensorWatchGeneration = s.sensorWatchGeneration := by
      simp [sensorWatchCmd, hqueue, State.emit]
    obtain ⟨hobjs, hrest, hgeneration⟩ := hfields
    refine ⟨⟨?_, ?_, by simp [hcurrent]⟩, ?_, ?_⟩
    · rw [hobjs]
      exact h.distinct
    · rw [hobjs, hrest, State.batch, hcurrent, List.flatMap_cons, List.flatMap_nil,
        List.append_nil]
      refine h.places.trans ?_
      conv_lhs => rw [← List.take_append_drop s.sensorWatchLimit.toNat s.sensorWatchQueue]
      exact List.perm_append_comm
    · intro c hc
      rw [hgeneration]
      have hcmem : c ∈ s.outstanding ++
          [⟨s.sensorWatchGeneration, s.sensorWatchQueue.take s.sensorWatchLimit.toNat⟩] := by
        simpa [sensorWatchCmd, hqueue] using hc
      obtain hold | hnew := List.mem_append.mp hcmem
      · exact h.older c hold
      · obtain rfl := List.mem_singleton.mp hnew
        exact le_refl _
    · intro _ hempty
      rw [hobjs] at hempty
      have hperm := h.places
      rw [hempty] at hperm
      exact hqueue hperm.nil_eq.symm

/-- Restarting the monitoring when no command of the current generation is
outstanding. -/
theorem sensorWatchStart_inv (cat : Catalog α) {s : State α} (distinct : s.sensorobjs.Nodup)
    (current : s.current = [])
    (older : ∀ c ∈ s.outstanding, c.generation ≤ s.sensorWatchGeneration) :
    Inv (sensorWatchStart cat s) :=
  sensorWatchCmd_inv cat ⟨distinct, by simp [State.sensorWatchEnque], current, older⟩

/-- Restarting the monitoring beside an outstanding command of the current
generation leaves two of them. -/
theorem sensorWatchStart_second (cat : Catalog α) {s : State α} (watched : s.sensorobjs ≠ []) :
    (sensorWatchStart cat s).current.length = s.current.length + 1 := by
  simp [sensorWatchStart, sensorWatchCmd, State.sensorWatchEnque, watched, State.current,
    State.emit]

/-- A new generation has no outstanding commands. -/
theorem nextGeneration_current {s : State α}
    (older : ∀ c ∈ s.outstanding, c.generation ≤ s.sensorWatchGeneration) :
    s.nextGeneration.current = [] := by
  refine List.filter_eq_nil_iff.mpr fun c hc => ?_
  have hle := older c hc
  have hne : c.generation ≠ s.sensorWatchGeneration + 1 := by omega
  simp [State.nextGeneration, hne]

/-! ### Changes of the list -/

/-- Appending known sensors appends their numbers. -/
theorem appendSensors_again [DecidableEq α] (cat : Catalog α) {r_num : List ℕ}
    (known : ∀ n ∈ r_num, (cat.sensornum2obj n).isSome) (s : State α) :
    ∃ objs, appendSensors cat true r_num s = .ok { s with sensorobjs := objs } ∧
      objs.map cat.sensornum = s.sensorobjs.map cat.sensornum ++ r_num := by
  induction r_num generalizing s with
  | nil => exact ⟨s.sensorobjs, rfl, by simp⟩
  | cons n r_num ih =>
      obtain ⟨x, hx⟩ := Option.isSome_iff_exists.mp (known n List.mem_cons_self)
      obtain ⟨objs, happend, hnums⟩ := ih (fun m hm => known m (List.mem_cons_of_mem _ hm))
        { s with sensorobjs := s.sensorobjs ++ [x] }
      refine ⟨objs, ?_, ?_⟩
      · simpa [appendSensors, hx] using happend
      · rw [hnums]
        simp [cat.sensornum_of_number n x hx]

/-- Adding known sensors repeats none. -/
theorem appendSensors_new [DecidableEq α] (cat : Catalog α) {r_num : List ℕ}
    (known : ∀ n ∈ r_num, (cat.sensornum2obj n).isSome) {s : State α}
    (distinct : s.sensorobjs.Nodup) :
    ∃ objs, appendSensors cat false r_num s = .ok { s with sensorobjs := objs } ∧
      objs.Nodup := by
  induction r_num generalizing s with
  | nil => exact ⟨s.sensorobjs, rfl, distinct⟩
  | cons n r_num ih =>
      obtain ⟨x, hx⟩ := Option.isSome_iff_exists.mp (known n List.mem_cons_self)
      have hrest : ∀ m ∈ r_num, (cat.sensornum2obj m).isSome :=
        fun m hm => known m (List.mem_cons_of_mem _ hm)
      by_cases hmem : x ∈ s.sensorobjs
      · obtain ⟨objs, happend, hnodup⟩ := ih hrest distinct
        exact ⟨objs, by simpa [appendSensors, hx, hmem] using happend, hnodup⟩
      · have hadded :
            ({ s with sensorobjs := s.sensorobjs ++ [x] } : State α).sensorobjs.Nodup := by
          simpa using List.nodup_append.mpr
            ⟨distinct, List.nodup_singleton x,
              by simpa using fun y hy => ne_of_mem_of_not_mem hy hmem⟩
        obtain ⟨objs, happend, hnodup⟩ := ih hrest hadded
        exact ⟨objs, by simpa [appendSensors, hx, hmem] using happend, hnodup⟩

theorem setSensorListNum_inv [DecidableEq α] (cat : Catalog α) {s : State α} (h : Inv s)
    {r_num : List ℕ} (distinct : r_num.Nodup)
    (known : ∀ n ∈ r_num, (cat.sensornum2obj n).isSome) :
    Inv (setSensorListNum cat r_num s).state := by
  obtain ⟨objs, happend, hnums⟩ :=
    appendSensors_again cat known { s.nextGeneration with sensorobjs := [] }
  have hnodup : objs.Nodup := by
    refine List.Nodup.of_map cat.sensornum ?_
    rw [hnums]
    simpa using distinct
  rw [setSensorListNum, happend]
  exact sensorWatchStart_inv cat hnodup (nextGeneration_current h.older)
    fun c hc => Nat.le_succ_of_le (h.older c hc)

theorem addSensorListNum_inv [DecidableEq α] (cat : Catalog α) {s : State α} (h : Inv s)
    {r_num : List ℕ}
    (known : ∀ n ∈ r_num, (cat.sensornum2obj n).isSome) :
    Inv (addSensorListNum cat r_num s).state := by
  have hdistinct : s.nextGeneration.sensorobjs.Nodup := h.distinct
  obtain ⟨objs, happend, hnodup⟩ := appendSensors_new cat known hdistinct
  rw [addSensorListNum, happend]
  exact sensorWatchStart_inv cat hnodup (nextGeneration_current h.older)
    fun c hc => Nat.le_succ_of_le (h.older c hc)

/-- The numbers of sensors found by name are known, and different. -/
theorem numbersOfNames_spec (cat : Catalog α) {sensors : List String} {r_num numbers : List ℕ}
    (found : numbersOfNames cat sensors r_num = some numbers) (distinct : r_num.Nodup)
    (known : ∀ n ∈ r_num, (cat.sensornum2obj n).isSome) :
    numbers.Nodup ∧ ∀ n ∈ numbers, (cat.sensornum2obj n).isSome := by
  induction sensors generalizing r_num with
  | nil =>
      obtain rfl := Option.some.inj found
      exact ⟨distinct, known⟩
  | cons name sensors ih =>
      rw [numbersOfNames] at found
      cases hobject : cat.findObject name with
      | none => simp [hobject] at found
      | some x =>
          simp only [hobject] at found
          by_cases hmem : cat.sensornum x ∈ r_num
          · rw [if_pos hmem] at found
            exact ih found distinct known
          · rw [if_neg hmem] at found
            refine ih found ?_ ?_
            · exact List.nodup_append.mpr ⟨distinct, List.nodup_singleton _,
                by simpa using fun y hy => ne_of_mem_of_not_mem hy hmem⟩
            · intro n hn
              obtain hold | hnew := List.mem_append.mp hn
              · exact known n hold
              · obtain rfl := List.mem_singleton.mp hnew
                simp [cat.number_of_name name x hobject]

theorem setSensorList_inv [DecidableEq α] (cat : Catalog α) {s : State α} (h : Inv s)
    (sensors : List String) :
    Inv (setSensorList cat sensors s).state := by
  rw [setSensorList]
  cases hfound : numbersOfNames cat sensors [] with
  | none => exact h
  | some r_num =>
      obtain ⟨hdistinct, hknown⟩ := numbersOfNames_spec cat hfound List.nodup_nil (by simp)
      exact setSensorListNum_inv cat h hdistinct hknown

theorem addSensorList_inv [DecidableEq α] (cat : Catalog α) {s : State α} (h : Inv s)
    (sensors : List String) :
    Inv (addSensorList cat sensors s).state := by
  rw [addSensorList]
  cases hfound : numbersOfNames cat sensors [] with
  | none => exact h
  | some r_num =>
      obtain ⟨-, hknown⟩ := numbersOfNames_spec cat hfound List.nodup_nil (by simp)
      exact addSensorListNum_inv cat h hknown

/-! ### Responses -/

/-- Taking a command out of the outstanding ones. -/
theorem withdraw_outstanding {s : State α} {position : ℕ} {c : WatchCommand α}
    (found : s.outstanding[position]? = some c) :
    ∃ before after, s.outstanding = before ++ c :: after ∧
      (s.withdraw position).outstanding = before ++ after := by
  obtain ⟨hlt, hget⟩ := List.getElem?_eq_some_iff.mp found
  refine ⟨s.outstanding.take position, s.outstanding.drop (position + 1), ?_, ?_⟩
  · rw [← hget, ← List.drop_eq_getElem_cons hlt, List.take_append_drop]
  · exact List.eraseIdx_eq_take_drop_succ s.outstanding position

/-- Without a command of an older generation the current ones are the same. -/
theorem withdraw_stale {s : State α} {position : ℕ} {c : WatchCommand α}
    (found : s.outstanding[position]? = some c)
    (stale : c.generation ≠ s.sensorWatchGeneration) :
    (s.withdraw position).current = s.current := by
  obtain ⟨before, after, hbefore, hafter⟩ := withdraw_outstanding found
  have hgeneration : (s.withdraw position).sensorWatchGeneration = s.sensorWatchGeneration := rfl
  simp [State.current, hbefore, hafter, hgeneration, List.filter_append, stale]

/-- The only command of the current generation leaves none behind. -/
theorem withdraw_current {s : State α} (h : Conserved s) {position : ℕ} {c : WatchCommand α}
    (found : s.outstanding[position]? = some c)
    (current : c.generation = s.sensorWatchGeneration) :
    s.current = [c] ∧ (s.withdraw position).current = [] := by
  obtain ⟨before, after, hbefore, hafter⟩ := withdraw_outstanding found
  have hgeneration : (s.withdraw position).sensorWatchGeneration = s.sensorWatchGeneration := rfl
  have hsplit : s.current = before.filter (fun c => c.generation = s.sensorWatchGeneration) ++
      c :: after.filter (fun c => c.generation = s.sensorWatchGeneration) := by
    simp [State.current, hbefore, List.filter_append, current]
  have hsingle := h.single
  rw [hsplit, List.length_append, List.length_cons] at hsingle
  have hnone : before.filter (fun c => c.generation = s.sensorWatchGeneration) = [] ∧
      after.filter (fun c => c.generation = s.sensorWatchGeneration) = [] := by
    constructor <;> apply List.eq_nil_of_length_eq_zero <;> omega
  refine ⟨by rw [hsplit, hnone.1, hnone.2, List.nil_append], ?_⟩
  simp [State.current, hafter, hgeneration, List.filter_append, hnone]

theorem withdraw_older {s : State α} (h : Inv s) (position : ℕ) :
    ∀ c ∈ (s.withdraw position).outstanding,
      c.generation ≤ (s.withdraw position).sensorWatchGeneration :=
  fun c hc => h.older c (List.mem_of_mem_eraseIdx hc)

/-- Dropping the response to a command of an older generation. -/
theorem withdraw_inv {s : State α} (h : Inv s) {position : ℕ} {c : WatchCommand α}
    (found : s.outstanding[position]? = some c)
    (stale : c.generation ≠ s.sensorWatchGeneration) : Inv (s.withdraw position) := by
  have hcurrent := withdraw_stale found stale
  refine ⟨⟨h.distinct, ?_, by rw [hcurrent]; exact h.single⟩, withdraw_older h position, ?_⟩
  · rw [State.batch, hcurrent]
    exact h.places
  · rw [hcurrent]
    exact h.watched

/-- Updating the sensors of a batch puts them back on the queue and changes nothing
else but the log. -/
theorem updateSensors_eq (sensorlist : List α) (databytes : Bytes) (s : State α) :
    ∃ effects, updateSensors sensorDataCallback sensorlist databytes s =
      { s with
        sensorWatchQueue := s.sensorWatchQueue ++ sensorlist
        effects := effects } := by
  induction sensorlist generalizing databytes s with
  | nil => exact ⟨s.effects, by simp [updateSensors]⟩
  | cons x sensorlist ih =>
      obtain ⟨effects, hrest⟩ := ih (databytes.drop sensorWatchBytespersensor)
        (sensorDataCallback x (databytes.take sensorWatchBytespersensor) s)
      refine ⟨effects, ?_⟩
      rw [updateSensors, hrest]
      simp [sensorDataCallback, State.sensorWatchEnque, State.emit]

/-- A command does not change the updates. -/
theorem sensorWatchCmd_updates (cat : Catalog α) (s : State α) :
    (sensorWatchCmd cat s).updates = s.updates := by
  unfold sensorWatchCmd
  split
  · rfl
  · simp [State.updates, State.emit, Effect.updated?]

/-- The response to a command of an older generation updates no sensor. -/
theorem sensorWatchCallback_stale (cat : Catalog α) (status : ℤ) (databytes : Bytes)
    {c : WatchCommand α} {s : State α} (stale : c.generation ≠ s.sensorWatchGeneration) :
    (sensorWatchCallback cat status databytes c s).updates = s.updates := by
  unfold sensorWatchCallback
  split_ifs with hstatus hlength
  · exact sensorWatchCmd_updates cat _
  · rfl
  · rfl

/-- A successful response with the data of a batch of the current generation. -/
theorem sensorWatchCallback_data (cat : Catalog α) {s : State α} (h : Inv s) {position : ℕ}
    {c : WatchCommand α} (found : s.outstanding[position]? = some c)
    (current : c.generation = s.sensorWatchGeneration) (databytes : Bytes) :
    Inv (sensorWatchCmd cat
      (updateSensors sensorDataCallback c.sensorlist databytes (s.withdraw position))) := by
  obtain ⟨hcommand, hnone⟩ := withdraw_current h.toConserved found current
  obtain ⟨effects, hupdate⟩ := updateSensors_eq c.sensorlist databytes (s.withdraw position)
  rw [hupdate]
  refine sensorWatchCmd_inv cat ⟨h.distinct, ?_, hnone, withdraw_older h position⟩
  have hplaces := h.places
  rw [State.batch, hcommand, List.flatMap_cons, List.flatMap_nil, List.append_nil] at hplaces
  exact hplaces

/-- A batch that is dropped is nowhere, so only an empty one may be. -/
theorem withdraw_conserved_iff {s : State α} (h : Inv s) {position : ℕ} {c : WatchCommand α}
    (found : s.outstanding[position]? = some c)
    (current : c.generation = s.sensorWatchGeneration) :
    Conserved (s.withdraw position) ↔ c.sensorlist = [] := by
  obtain ⟨hcommand, hnone⟩ := withdraw_current h.toConserved found current
  have hbatch : (s.withdraw position).batch = [] := by rw [State.batch, hnone, List.flatMap_nil]
  have hplaces := h.places
  rw [State.batch, hcommand, List.flatMap_cons, List.flatMap_nil, List.append_nil] at hplaces
  constructor
  · intro hconserved
    have hbefore := hplaces.length_eq
    have hafter := hconserved.places.length_eq
    rw [hbatch, List.append_nil] at hafter
    have hsame : (s.withdraw position).sensorobjs.length = s.sensorobjs.length := rfl
    have hqueue : (s.withdraw position).sensorWatchQueue.length = s.sensorWatchQueue.length := rfl
    rw [List.length_append] at hbefore
    exact List.eq_nil_of_length_eq_zero (by omega)
  · intro hempty
    rw [hempty, List.append_nil] at hplaces
    refine ⟨h.distinct, ?_, by simp [hnone]⟩
    rw [hbatch, List.append_nil]
    exact hplaces

/-- An error that answers a command of an older generation keeps the books only if
no command of the current one is outstanding. -/
theorem sensorWatchStart_conserved_iff (cat : Catalog α) {s : State α} (h : Inv s)
    {position : ℕ} {c : WatchCommand α} (found : s.outstanding[position]? = some c)
    (stale : c.generation ≠ s.sensorWatchGeneration) :
    Conserved (sensorWatchStart cat (s.withdraw position)) ↔ s.current = [] := by
  have hcurrent := withdraw_stale found stale
  constructor
  · intro hconserved
    by_contra hne
    have hsecond := sensorWatchStart_second cat (s := s.withdraw position) (h.watched hne)
    have hpositive := List.length_pos_of_ne_nil hne
    have hsingle := hconserved.single
    rw [hcurrent] at hsecond
    omega
  · intro hnone
    have hwithdrawn : (s.withdraw position).current = [] := hcurrent.trans hnone
    have hinv : Inv (sensorWatchStart cat (s.withdraw position)) :=
      sensorWatchStart_inv cat h.distinct hwithdrawn (withdraw_older h position)
    exact hinv.toConserved

/-- What the response to a command needs for the books to be kept. -/
structure Harmless (s : State α) (c : WatchCommand α) (status : ℤ) (databytes : Bytes) :
    Prop where
  lengths : status = 0 → c.generation = s.sensorWatchGeneration →
    c.sensorlist.length * sensorWatchBytespersensor ≠ databytes.length → c.sensorlist = []
  errors : status ≠ 0 → c.generation ≠ s.sensorWatchGeneration → s.current = []

/-- A harmless response keeps the invariant. -/
theorem sensorWatchCallback_inv (cat : Catalog α) {s : State α} (h : Inv s) {position : ℕ}
    {c : WatchCommand α} (found : s.outstanding[position]? = some c) {status : ℤ}
    {databytes : Bytes} (harmless : Harmless s c status databytes) :
    Inv (sensorWatchCallback cat status databytes c (s.withdraw position)) := by
  have hgeneration : (s.withdraw position).sensorWatchGeneration = s.sensorWatchGeneration := rfl
  have holder := withdraw_older h position
  by_cases hcurrent : c.generation = s.sensorWatchGeneration
  · have hnone := (withdraw_current h.toConserved found hcurrent).2
    unfold sensorWatchCallback
    split_ifs with hstatus hlength hstale
    · exact sensorWatchStart_inv cat h.distinct hnone holder
    · have hempty := harmless.lengths (not_not.mp hstatus) hcurrent hlength
      have hconserved := (withdraw_conserved_iff h found hcurrent).mpr hempty
      exact ⟨hconserved, holder, fun hsome => absurd hnone hsome⟩
    · exact absurd (hcurrent.trans hgeneration.symm) hstale
    · exact sensorWatchCallback_data cat h found hcurrent databytes
  · unfold sensorWatchCallback
    split_ifs with hstatus hlength hstale
    · have hnone := (withdraw_stale found hcurrent).trans (harmless.errors hstatus hcurrent)
      exact sensorWatchStart_inv cat h.distinct hnone holder
    · exact withdraw_inv h found hcurrent
    · exact withdraw_inv h found hcurrent
    · exact absurd (not_not.mp hstale) hcurrent

/-- Only a harmless response keeps the books. -/
theorem harmless_of_conserved (cat : Catalog α) {s : State α} (h : Inv s) {position : ℕ}
    {c : WatchCommand α} (found : s.outstanding[position]? = some c) {status : ℤ}
    {databytes : Bytes}
    (conserved : Conserved (sensorWatchCallback cat status databytes c (s.withdraw position))) :
    Harmless s c status databytes := by
  refine ⟨fun hstatus hcurrent hlength => ?_, fun hstatus hstale => ?_⟩
  · rw [sensorWatchCallback, if_neg (not_not.mpr hstatus), if_pos hlength] at conserved
    exact (withdraw_conserved_iff h found hcurrent).mp conserved
  · rw [sensorWatchCallback, if_pos hstatus] at conserved
    exact (sensorWatchStart_conserved_iff cat h found hstale).mp conserved

theorem Event.answers_response {s : State α} {c c' : WatchCommand α} {position : ℕ}
    {status status' : ℤ} {databytes databytes' : Bytes}
    (found : s.outstanding[position]? = some c)
    (answers : (Event.response position status databytes).Answers s c' status' databytes') :
    c' = c ∧ status' = status ∧ databytes' = databytes := by
  obtain ⟨hfound, hstatus, hdatabytes⟩ := answers
  exact ⟨Option.some.inj (hfound.symm.trans found), hstatus.symm, hdatabytes.symm⟩

/-- The condition on a response is that it is harmless. -/
theorem condition_response {s : State α} {c : WatchCommand α} {position : ℕ} {status : ℤ}
    {databytes : Bytes} (found : s.outstanding[position]? = some c) :
    Condition s (.response position status databytes) ↔ Harmless s c status databytes := by
  constructor
  · intro hcondition
    refine ⟨?_, hcondition.errors c status databytes ⟨found, rfl, rfl⟩⟩
    rintro rfl
    exact hcondition.lengths c databytes ⟨found, rfl, rfl⟩
  · intro hharmless
    refine ⟨?_, ?_⟩
    · intro c' databytes' hanswers
      obtain ⟨rfl, rfl, rfl⟩ := Event.answers_response found hanswers
      exact hharmless.lengths rfl
    · intro c' status' databytes' hanswers
      obtain ⟨rfl, rfl, rfl⟩ := Event.answers_response found hanswers
      exact hharmless.errors

/-- A step that satisfies the condition keeps the invariant. -/
theorem step_inv [DecidableEq α] (cat : Catalog α) (s : State α) (event : Event) (h : Inv s)
    (adm : admissible cat s event) (condition : Condition s event) : Inv (step cat s event) := by
  cases event with
  | sensorWatchInit messageSize messageReturnSize =>
      exact ⟨⟨h.distinct, h.places, h.single⟩, h.older, h.watched⟩
  | setSensorList sensors => exact setSensorList_inv cat h sensors
  | addSensorList sensors => exact addSensorList_inv cat h sensors
  | setSensorListNum r_num => exact setSensorListNum_inv cat h adm.1 adm.2
  | addSensorListNum r_num => exact addSensorListNum_inv cat h adm
  | response position status databytes =>
      obtain ⟨c, hfound⟩ : ∃ c, s.outstanding[position]? = some c := by
        exact ⟨_, List.getElem?_eq_getElem adm⟩
      have hharmless := (condition_response hfound).mp condition
      rw [step, hfound]
      exact sensorWatchCallback_inv cat h hfound hharmless

/-- Under the invariant a step keeps the books exactly when it satisfies the
condition. -/
theorem kept_iff [DecidableEq α] (cat : Catalog α) (s : State α) (event : Event) (h : Inv s)
    (adm : admissible cat s event) : Kept cat s event ↔ Condition s event := by
  constructor
  · intro hkept
    cases event with
    | response position status databytes =>
        obtain ⟨c, hfound⟩ : ∃ c, s.outstanding[position]? = some c :=
          ⟨_, List.getElem?_eq_getElem adm⟩
        have hconserved := hkept.conserved
        rw [step, hfound] at hconserved
        exact (condition_response hfound).mpr (harmless_of_conserved cat h hfound hconserved)
    | sensorWatchInit messageSize messageReturnSize => exact ⟨nofun, nofun⟩
    | setSensorList sensors => exact ⟨nofun, nofun⟩
    | addSensorList sensors => exact ⟨nofun, nofun⟩
    | setSensorListNum r_num => exact ⟨nofun, nofun⟩
    | addSensorListNum r_num => exact ⟨nofun, nofun⟩
  · intro hcondition
    refine ⟨(step_inv cat s event h adm hcondition).toConserved, ?_⟩
    intro c status databytes hanswers hstale
    cases event with
    | response position status' databytes' =>
        obtain ⟨hfound, rfl, rfl⟩ := hanswers
        rw [step, hfound]
        exact sensorWatchCallback_stale cat _ _ hstale
    | sensorWatchInit messageSize messageReturnSize => exact absurd hanswers id
    | setSensorList sensors => exact absurd hanswers id
    | addSensorList sensors => exact absurd hanswers id
    | setSensorListNum r_num => exact absurd hanswers id
    | addSensorListNum r_num => exact absurd hanswers id

/-- A controller that watches no sensor yet. -/
structure State.Fresh (s : State α) : Prop where
  sensorobjs : s.sensorobjs = []
  queue : s.sensorWatchQueue = []
  outstanding : s.outstanding = []

theorem fresh_inv {s : State α} (fresh : s.Fresh) : Inv s := by
  have hcurrent : s.current = [] := by simp [State.current, fresh.outstanding]
  refine ⟨⟨?_, ?_, ?_⟩, ?_, fun hsome => absurd hcurrent hsome⟩
  · simp [fresh.sensorobjs]
  · simp [fresh.sensorobjs, fresh.queue, State.batch, hcurrent]
  · simp [hcurrent]
  · simp [fresh.outstanding]

/-- The runs in which every step keeps the watched sensors in their places are
exactly the runs in which no batch of the current generation is answered with a
wrong length, and no command of an older generation fails while one of the
current generation is outstanding. -/
theorem watch_run_kept_iff [DecidableEq α] (cat : Catalog α) {s : State α} (fresh : s.Fresh)
    (events : List Event) (admits : (machine cat).Admits s events) :
    (machine cat).EachStep (Kept cat) s events ↔ (machine cat).EachStep Condition s events :=
  (machine cat).eachStep_iff_of_invariant (step_inv cat) (kept_iff cat) (fresh_inv fresh) admits

/-! ## Runs of a controller with ten sensors -/

/-- Ten sensors that are found by number only. -/
def sampleCatalog : Catalog ℕ where
  findObject _ := none
  sensornum2obj n := if n < 10 then some n else none
  sensornum x := x
  sensornum_of_number n x hx := by
    split_ifs at hx
    exact (Option.some.inj hx).symm
  number_of_name _ _ hx := by simp at hx

/-- Changing the list is never a problem. -/
theorem Condition.setSensorListNum (s : State α) (r_num : List ℕ) :
    Condition s (.setSensorListNum r_num) := ⟨nofun, nofun⟩

theorem Condition.addSensorListNum (s : State α) (r_num : List ℕ) :
    Condition s (.addSensorListNum r_num) := ⟨nofun, nofun⟩

theorem Condition.sensorWatchInit (s : State α) (messageSize messageReturnSize : ℕ) :
    Condition s (.sensorWatchInit messageSize messageReturnSize) := ⟨nofun, nofun⟩

/-- Neither is the data of a batch. -/
theorem Condition.data {s : State α} {position : ℕ} {databytes : Bytes} {c : WatchCommand α}
    (found : s.outstanding[position]? = some c)
    (length : c.sensorlist.length * sensorWatchBytespersensor = databytes.length) :
    Condition s (.response position 0 databytes) :=
  (condition_response found).mpr ⟨fun _ _ hlength => absurd length hlength, fun h => absurd rfl h⟩

/-- Or an error of the current generation. -/
theorem Condition.error {s : State α} {position : ℕ} {status : ℤ} {databytes : Bytes}
    {c : WatchCommand α} (found : s.outstanding[position]? = some c) (failed : status ≠ 0)
    (current : c.generation = s.sensorWatchGeneration) :
    Condition s (.response position status databytes) :=
  (condition_response found).mpr ⟨fun h => absurd h failed, fun _ hstale => absurd current hstale⟩

/-- Three sensors are watched in batches of two; a fourth is added while the first
batch is on its way. -/
def sampleRun : List Event :=
  [.sensorWatchInit 5 100, .setSensorListNum [3, 1, 4], .addSensorListNum [1, 5]]

theorem watch_run_kept_iff_sample :
    (machine sampleCatalog).EachStep (Kept sampleCatalog) {}
      (sampleRun ++ [.response 0 0 (List.replicate 48 7), .response 0 193 [],
        .response 0 0 (List.replicate 48 8)]) := by
  refine (watch_run_kept_iff sampleCatalog ⟨rfl, rfl, rfl⟩ _ (by decide +kernel)).mpr ?_
  exact ⟨.sensorWatchInit _ _ _, .setSensorListNum _ _, .addSensorListNum _ _,
    .data (c := ⟨1, [3, 1]⟩) (by decide +kernel) (by decide +kernel),
    .error (c := ⟨2, [3, 1]⟩) (by decide +kernel) (by decide) (by decide +kernel),
    .data (c := ⟨2, [3, 1]⟩) (by decide +kernel) (by decide +kernel), trivial⟩

/-- The batch that is on its way when the sensor is added fails, and a second loop is
started; or the next batch is answered with too few bytes, and is lost. -/
theorem broken_responses_break_books :
    ((machine sampleCatalog).Admits {} (sampleRun ++ [.response 0 193 []]) ∧
        ¬ (machine sampleCatalog).EachStep (Kept sampleCatalog) {}
          (sampleRun ++ [.response 0 193 []])) ∧
      (machine sampleCatalog).Admits {} (sampleRun ++ [.response 1 0 [7]]) ∧
        ¬ (machine sampleCatalog).EachStep (Kept sampleCatalog) {}
          (sampleRun ++ [.response 1 0 [7]]) := by
  refine ⟨⟨by decide +kernel, fun hkept => ?_⟩, by decide +kernel, fun hkept => ?_⟩
  · obtain ⟨-, -, -, hlast, -⟩ := hkept
    have hsingle := hlast.conserved.single
    revert hsingle
    decide +kernel
  · obtain ⟨-, -, -, hlast, -⟩ := hkept
    have hplaces := hlast.conserved.places.length_eq
    revert hplaces
    decide +kernel

end Amester.Sensor
