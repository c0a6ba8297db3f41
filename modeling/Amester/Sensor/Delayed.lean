/-
# Watching sensors of a local host

On the local host and on an emtagent host an updated sensor does not return to the
queue at once: a timer puts it there after the sensor's period. The timer does
nothing else. It asks for no data, and it does not look whether its sensor is still
watched.

So the loop stands still once a batch is answered while no sensor waits, unless
another command is on its way; and a timer that fires after the list was changed
queues a sensor that is off the list or that the change has queued already. The
result here is that nothing else goes wrong.
-/

import Amester.Sensor.Conservation

namespace Amester.Sensor.Delayed

open BinaryFormat EventMachine

universe u

variable {α : Type u}

/-- `after $update_period [list $amec sensor_watch_enque $this]`. -/
structure Timer (α : Type u) where
  sensor : α
  /-- The generation in which it was started, which the code does not keep. -/
  generation : ℕ
  deriving DecidableEq

structure State (α : Type u) where
  watch : Sensor.State α := {}
  /-- The timers that have not fired yet, in the order in which they were started. -/
  timers : List (Timer α) := []

/-- Update a sensor, and put it back on the queue later. -/
def sensorDataCallback (x : α) (databytes : Bytes) (s : State α) : State α where
  watch := s.watch.emit (.updated x databytes)
  timers := s.timers ++ [⟨x, s.watch.sensorWatchGeneration⟩]

/-- Handle the response to a command. -/
def sensorWatchCallback (cat : Catalog α) (status : ℤ) (databytes : Bytes) (c : WatchCommand α)
    (s : State α) : State α :=
  if status ≠ 0 then { s with watch := sensorWatchStart cat s.watch }
  else if c.sensorlist.length * sensorWatchBytespersensor ≠ databytes.length then s
  else if c.generation ≠ s.watch.sensorWatchGeneration then s
  else
    let s := updateSensors sensorDataCallback c.sensorlist databytes s
    { s with watch := sensorWatchCmd cat s.watch }

/-! ## Runs

The user changes the list at any time, the outstanding commands are answered in any
order, and the timers fire in any order: every sensor has a period of its own. -/

inductive Event
  | sensorWatchInit (messageSize messageReturnSize : ℕ)
  | setSensorList (sensors : List String)
  | addSensorList (sensors : List String)
  | setSensorListNum (r_num : List ℕ)
  | addSensorListNum (r_num : List ℕ)
  /-- The response to the command at a position among the outstanding ones. -/
  | response (position : ℕ) (status : ℤ) (databytes : Bytes)
  /-- The timer at a position fires. -/
  | fire (position : ℕ)

/-- The command at a position is no longer outstanding. -/
def State.withdraw (s : State α) (position : ℕ) : State α :=
  { s with watch := s.watch.withdraw position }

/-- A timer fires. -/
def State.fire (s : State α) (position : ℕ) : State α :=
  match s.timers[position]? with
  | none => s
  | some t =>
    { watch := s.watch.sensorWatchEnque [t.sensor]
      timers := s.timers.eraseIdx position }

def step [DecidableEq α] (cat : Catalog α) (s : State α) : Event → State α
  | .sensorWatchInit messageSize messageReturnSize =>
    { s with watch := sensorWatchInit messageSize messageReturnSize s.watch }
  | .setSensorList sensors => { s with watch := (setSensorList cat sensors s.watch).state }
  | .addSensorList sensors => { s with watch := (addSensorList cat sensors s.watch).state }
  | .setSensorListNum r_num => { s with watch := (setSensorListNum cat r_num s.watch).state }
  | .addSensorListNum r_num => { s with watch := (addSensorListNum cat r_num s.watch).state }
  | .response position status databytes =>
    match s.watch.outstanding[position]? with
    | none => s
    | some c => sensorWatchCallback cat status databytes c (s.withdraw position)
  | .fire position => s.fire position

/-- The numbers of a new list are those of sensors. -/
def admissible (cat : Catalog α) (s : State α) : Event → Prop
  | .setSensorListNum r_num => ∀ n ∈ r_num, (cat.sensornum2obj n).isSome
  | .addSensorListNum r_num => ∀ n ∈ r_num, (cat.sensornum2obj n).isSome
  | .response position _ _ => position < s.watch.outstanding.length
  | .fire position => position < s.timers.length
  | .sensorWatchInit _ _ | .setSensorList _ | .addSensorList _ => True

instance (cat : Catalog α) (s : State α) : DecidablePred (admissible cat s)
  | .setSensorListNum r_num =>
    inferInstanceAs (Decidable (∀ n ∈ r_num, (cat.sensornum2obj n).isSome))
  | .addSensorListNum r_num =>
    inferInstanceAs (Decidable (∀ n ∈ r_num, (cat.sensornum2obj n).isSome))
  | .response position _ _ => inferInstanceAs (Decidable (position < s.watch.outstanding.length))
  | .fire position => inferInstanceAs (Decidable (position < s.timers.length))
  | .sensorWatchInit _ _ | .setSensorList _ | .addSensorList _ => isTrue trivial

def machine [DecidableEq α] (cat : Catalog α) : Machine (State α) Event :=
  ⟨admissible cat, step cat⟩

instance [DecidableEq α] (cat : Catalog α) (s : State α) :
    DecidablePred ((machine cat).admissible s) :=
  inferInstanceAs (DecidablePred (admissible cat s))

/-- The event answers this command. -/
def Event.Answers (s : State α) (c : WatchCommand α) (status : ℤ) (databytes : Bytes) :
    Event → Prop
  | .response position status' databytes' =>
    s.watch.outstanding[position]? = some c ∧ status' = status ∧ databytes' = databytes
  | _ => False

/-- The event is this timer's. -/
def Event.Fires (s : State α) (t : Timer α) : Event → Prop
  | .fire position => s.timers[position]? = some t
  | _ => False

theorem Event.Fires.exists_position {s : State α} {t : Timer α} {event : Event}
    (fires : event.Fires s t) :
    ∃ position, event = .fire position ∧ s.timers[position]? = some t := by
  cases event with
  | fire position => exact ⟨position, rfl, fires⟩
  | _ => exact absurd fires id

/-- Firing this timer now sends a command. -/
def State.Issues (s : State α) (position : ℕ) : Prop :=
  s.watch.outstanding.length < (s.fire position).watch.outstanding.length

/-- A command is queued or in flight, or a pending timer will issue one. -/
def State.Continues (s : State α) : Prop :=
  s.watch.outstanding ≠ [] ∨ ∃ position < s.timers.length, s.Issues position

/-- The sensor of the timer was removed from the list; or the list was changed after
the timer was started, which has queued every sensor of the list again. -/
def State.Obsolete (s : State α) (t : Timer α) : Prop :=
  t.sensor ∉ s.watch.sensorobjs ∨
    t.generation ≠ s.watch.sensorWatchGeneration ∧ t.sensor ∈ s.watch.sensorobjs

/-- What a step should do. -/
structure Kept [DecidableEq α] (cat : Catalog α) (s : State α) (event : Event) : Prop where
  continues : (step cat s event).watch.sensorobjs ≠ [] → (step cat s event).Continues
  discarded : ∀ t, event.Fires s t → s.Obsolete t →
    (step cat s event).watch.sensorWatchQueue = s.watch.sensorWatchQueue

/-- When a step does it. -/
structure Condition (s : State α) (event : Event) : Prop where
  /-- While sensors are watched, a successful response leaves another command
  outstanding, or is the data of a batch of the current generation and finds
  sensors waiting in the queue. -/
  responses : ∀ c databytes, event.Answers s c 0 databytes → s.watch.sensorobjs ≠ [] →
    1 < s.watch.outstanding.length ∨
      c.sensorlist.length * sensorWatchBytespersensor = databytes.length ∧
        c.generation = s.watch.sensorWatchGeneration ∧ s.watch.sensorWatchQueue ≠ []
  /-- The list has not been changed since the timer was started. -/
  timers : ∀ t, event.Fires s t → t.generation = s.watch.sensorWatchGeneration

/-! ## The steps -/

/-- The commands and timers of the current generation are about sensors of the list. -/
structure Sound (s : State α) : Prop where
  asked : ∀ c ∈ s.watch.outstanding, c.generation ≤ s.watch.sensorWatchGeneration ∧
    (c.generation = s.watch.sensorWatchGeneration → c.sensorlist ⊆ s.watch.sensorobjs)
  started : ∀ t ∈ s.timers, t.generation ≤ s.watch.sensorWatchGeneration ∧
    (t.generation = s.watch.sensorWatchGeneration → t.sensor ∈ s.watch.sensorobjs)

/-- The invariant of the runs that satisfy the condition. -/
structure Inv (s : State α) : Prop extends Sound s where
  continues : s.watch.sensorobjs ≠ [] → s.watch.outstanding ≠ []
  queued : s.watch.sensorWatchQueue ⊆ s.watch.sensorobjs

/-- A timer never issues a command. -/
theorem fire_outstanding (s : State α) (position : ℕ) :
    (s.fire position).watch.outstanding = s.watch.outstanding := by
  unfold State.fire
  cases s.timers[position]? with
  | none => rfl
  | some t => rfl

/-- So the loop goes on only through a command that is on its way. -/
theorem continues_iff (s : State α) : s.Continues ↔ s.watch.outstanding ≠ [] := by
  constructor
  · rintro (houtstanding | ⟨position, -, hissues⟩)
    · exact houtstanding
    · rw [State.Issues, fire_outstanding] at hissues
      exact absurd hissues (lt_irrefl _)
  · intro houtstanding
    exact Or.inl houtstanding

/-- Under the invariant a timer is obsolete exactly if the list was changed since it
was started. -/
theorem obsolete_iff {s : State α} (h : Inv s) {t : Timer α} (mem : t ∈ s.timers) :
    s.Obsolete t ↔ t.generation ≠ s.watch.sensorWatchGeneration := by
  constructor
  · rintro (hremoved | ⟨hstale, -⟩)
    · intro hcurrent
      exact hremoved ((h.started t mem).2 hcurrent)
    · exact hstale
  · intro hstale
    by_cases hmem : t.sensor ∈ s.watch.sensorobjs
    · exact Or.inr ⟨hstale, hmem⟩
    · exact Or.inl hmem

/-! ### Commands -/

/-- What asking for a batch changes. -/
theorem sensorWatchCmd_cases (cat : Catalog α) (s : Sensor.State α) :
    s.sensorWatchQueue = [] ∧ sensorWatchCmd cat s = s ∨
      s.sensorWatchQueue ≠ [] ∧ ∃ effects, sensorWatchCmd cat s =
        { s with
          sensorWatchQueue := s.sensorWatchQueue.drop s.sensorWatchLimit.toNat
          outstanding := s.outstanding ++
            [⟨s.sensorWatchGeneration, s.sensorWatchQueue.take s.sensorWatchLimit.toNat⟩]
          effects := effects } := by
  unfold sensorWatchCmd
  by_cases hqueue : s.sensorWatchQueue = []
  · rw [if_pos hqueue]
    exact Or.inl ⟨hqueue, rfl⟩
  · rw [if_neg hqueue]
    exact Or.inr ⟨hqueue, _, rfl⟩

/-- Asking for a batch keeps the invariant, and sets the loop going if a sensor waits. -/
theorem sensorWatchCmd_inv (cat : Catalog α) {s : State α} (sound : Sound s)
    (continues : s.watch.sensorobjs ≠ [] →
      s.watch.outstanding ≠ [] ∨ s.watch.sensorWatchQueue ≠ [])
    (queued : s.watch.sensorWatchQueue ⊆ s.watch.sensorobjs) :
    Inv { s with watch := sensorWatchCmd cat s.watch } := by
  obtain ⟨hempty, hcmd⟩ | ⟨hwaiting, effects, hcmd⟩ := sensorWatchCmd_cases cat s.watch
  · rw [hcmd]
    refine ⟨sound, fun hwatched => ?_, queued⟩
    exact (continues hwatched).resolve_right (not_not.mpr hempty)
  · rw [hcmd]
    refine ⟨⟨?_, sound.started⟩, fun _ => by simp, ?_⟩
    · intro c hc
      obtain hold | hnew := List.mem_append.mp hc
      · exact sound.asked c hold
      · obtain rfl := List.mem_singleton.mp hnew
        exact ⟨le_refl _, fun _ x hx => queued (List.mem_of_mem_take hx)⟩
    · intro x hx
      exact queued (List.mem_of_mem_drop hx)

/-- The state in which a restart asks for the first batch. -/
def requeued (s : Sensor.State α) : Sensor.State α :=
  { s with sensorWatchQueue := [] }.sensorWatchEnque s.sensorobjs

@[simp]
theorem requeued_queue (s : Sensor.State α) : (requeued s).sensorWatchQueue = s.sensorobjs := by
  simp [requeued, State.sensorWatchEnque]

private theorem sensorWatchStart_eq (cat : Catalog α) (s : Sensor.State α) :
    sensorWatchStart cat s = sensorWatchCmd cat (requeued s) := rfl

/-- Restarting the monitoring sets the loop going. -/
theorem sensorWatchStart_inv (cat : Catalog α) {s : State α} (sound : Sound s) :
    Inv { s with watch := sensorWatchStart cat s.watch } := by
  have hsound : Sound { s with watch := requeued s.watch } := ⟨sound.asked, sound.started⟩
  rw [sensorWatchStart_eq]
  apply sensorWatchCmd_inv cat hsound
  · intro hwatched
    right
    rw [requeued_queue]
    exact hwatched
  · rw [requeued_queue]
    exact List.Subset.refl _

/-! ### Changes of the list -/

/-- The list is another one, and the monitoring restarts in a new generation. -/
def Changed (cat : Catalog α) (s s' : Sensor.State α) : Prop :=
  ∃ objs, s' = sensorWatchStart cat { s.nextGeneration with sensorobjs := objs }

/-- Appending known sensors changes the list only. -/
theorem appendSensors_ok [DecidableEq α] (cat : Catalog α) (again : Bool) {r_num : List ℕ}
    (known : ∀ n ∈ r_num, (cat.sensornum2obj n).isSome) (s : Sensor.State α) :
    ∃ objs, appendSensors cat again r_num s = .ok { s with sensorobjs := objs } := by
  induction r_num generalizing s with
  | nil => exact ⟨s.sensorobjs, rfl⟩
  | cons n r_num ih =>
      obtain ⟨x, hx⟩ := Option.isSome_iff_exists.mp (known n List.mem_cons_self)
      have hrest : ∀ m ∈ r_num, (cat.sensornum2obj m).isSome :=
        fun m hm => known m (List.mem_cons_of_mem _ hm)
      rw [appendSensors, hx]
      by_cases hskip : again = false ∧ x ∈ s.sensorobjs
      · obtain ⟨objs, happend⟩ := ih hrest s
        refine ⟨objs, ?_⟩
        simpa only [if_pos hskip] using happend
      · obtain ⟨objs, happend⟩ := ih hrest { s with sensorobjs := s.sensorobjs ++ [x] }
        refine ⟨objs, ?_⟩
        simpa only [if_neg hskip] using happend

private theorem setSensorListNum_changed [DecidableEq α] (cat : Catalog α) {r_num : List ℕ}
    (known : ∀ n ∈ r_num, (cat.sensornum2obj n).isSome) (s : Sensor.State α) :
    Changed cat s (setSensorListNum cat r_num s).state := by
  obtain ⟨objs, happend⟩ :=
    appendSensors_ok cat true known { s.nextGeneration with sensorobjs := [] }
  refine ⟨objs, ?_⟩
  rw [setSensorListNum, happend]
  rfl

private theorem addSensorListNum_changed [DecidableEq α] (cat : Catalog α) {r_num : List ℕ}
    (known : ∀ n ∈ r_num, (cat.sensornum2obj n).isSome) (s : Sensor.State α) :
    Changed cat s (addSensorListNum cat r_num s).state := by
  obtain ⟨objs, happend⟩ := appendSensors_ok cat false known s.nextGeneration
  refine ⟨objs, ?_⟩
  rw [addSensorListNum, happend]
  rfl

/-- Names stand for known numbers, and an unknown name changes nothing. -/
theorem setSensorList_changed [DecidableEq α] (cat : Catalog α) (sensors : List String)
    (s : Sensor.State α) :
    (setSensorList cat sensors s).state = s ∨
      Changed cat s (setSensorList cat sensors s).state := by
  rw [setSensorList]
  cases hfound : numbersOfNames cat sensors [] with
  | none => exact Or.inl rfl
  | some r_num =>
      obtain ⟨-, hknown⟩ := numbersOfNames_spec cat hfound List.nodup_nil (by simp)
      exact Or.inr (setSensorListNum_changed cat hknown s)

private theorem addSensorList_changed [DecidableEq α] (cat : Catalog α) (sensors : List String)
    (s : Sensor.State α) :
    (addSensorList cat sensors s).state = s ∨
      Changed cat s (addSensorList cat sensors s).state := by
  rw [addSensorList]
  cases hfound : numbersOfNames cat sensors [] with
  | none => exact Or.inl rfl
  | some r_num =>
      obtain ⟨-, hknown⟩ := numbersOfNames_spec cat hfound List.nodup_nil (by simp)
      exact Or.inr (addSensorListNum_changed cat hknown s)

/-- A change of the list keeps the invariant: what was asked for or started before
belongs to an older generation. -/
theorem changed_inv {cat : Catalog α} {s : State α} (h : Inv s) {watch : Sensor.State α}
    (changed : Changed cat s.watch watch) : Inv { s with watch := watch } := by
  obtain ⟨objs, rfl⟩ := changed
  have hsound : Sound { s with watch := { s.watch.nextGeneration with sensorobjs := objs } } := by
    constructor
    · intro c hc
      have hlt : c.generation < s.watch.sensorWatchGeneration + 1 :=
        Nat.lt_succ_of_le (h.asked c hc).1
      exact ⟨le_of_lt hlt, fun hcurrent => absurd hcurrent (ne_of_lt hlt)⟩
    · intro t ht
      have hlt : t.generation < s.watch.sensorWatchGeneration + 1 :=
        Nat.lt_succ_of_le (h.started t ht).1
      exact ⟨le_of_lt hlt, fun hcurrent => absurd hcurrent (ne_of_lt hlt)⟩
  exact sensorWatchStart_inv cat hsound

/-! ### Responses and timers -/

/-- Updating the sensors of a batch starts a timer for each, and changes nothing else
but the log. -/
theorem updateSensors_eq (sensorlist : List α) (databytes : Bytes) (s : State α) :
    ∃ effects, updateSensors sensorDataCallback sensorlist databytes s =
      { watch := { s.watch with effects := effects }
        timers := s.timers ++
          sensorlist.map fun x => ⟨x, s.watch.sensorWatchGeneration⟩ } := by
  induction sensorlist generalizing databytes s with
  | nil => exact ⟨s.watch.effects, by simp [updateSensors]⟩
  | cons x sensorlist ih =>
      obtain ⟨effects, hrest⟩ := ih (databytes.drop sensorWatchBytespersensor)
        (sensorDataCallback x (databytes.take sensorWatchBytespersensor) s)
      refine ⟨effects, ?_⟩
      rw [updateSensors, hrest]
      simp [sensorDataCallback, State.emit]

/-- Taking a command out of the outstanding ones leaves the others. -/
theorem withdraw_sound {s : State α} (h : Sound s) (position : ℕ) :
    Sound (s.withdraw position) := by
  refine ⟨?_, h.started⟩
  intro c hc
  exact h.asked c (List.mem_of_mem_eraseIdx hc)

private theorem withdraw_outstanding_ne_nil {s : State α} {position : ℕ}
    (lt : position < s.watch.outstanding.length) :
    (s.withdraw position).watch.outstanding ≠ [] ↔ 1 < s.watch.outstanding.length := by
  have hlength : (s.withdraw position).watch.outstanding.length =
      s.watch.outstanding.length - 1 := List.length_eraseIdx_of_lt lt
  rw [← List.length_pos_iff, hlength]
  omega

/-- The data of a batch of the current generation. -/
theorem updateSensors_inv (cat : Catalog α) {s : State α} (h : Inv s) {position : ℕ}
    {c : WatchCommand α} (found : s.watch.outstanding[position]? = some c)
    (current : c.generation = s.watch.sensorWatchGeneration) (databytes : Bytes)
    (continues : s.watch.sensorobjs ≠ [] →
      (s.withdraw position).watch.outstanding ≠ [] ∨ s.watch.sensorWatchQueue ≠ []) :
    Inv { updateSensors sensorDataCallback c.sensorlist databytes (s.withdraw position) with
      watch := sensorWatchCmd cat (updateSensors sensorDataCallback c.sensorlist databytes
        (s.withdraw position)).watch } := by
  have hsubset := (h.asked c (List.mem_of_getElem? found)).2 current
  have hwithdrawn := withdraw_sound h.toSound position
  obtain ⟨effects, hupdate⟩ := updateSensors_eq c.sensorlist databytes (s.withdraw position)
  rw [hupdate]
  refine sensorWatchCmd_inv cat ⟨hwithdrawn.asked, ?_⟩ continues h.queued
  intro t ht
  obtain hold | hnew := List.mem_append.mp ht
  · exact hwithdrawn.started t hold
  · obtain ⟨x, hx, rfl⟩ := List.mem_map.mp hnew
    exact ⟨le_refl _, fun _ => hsubset hx⟩

/-- A response leaves the list as it is. -/
theorem sensorWatchCallback_sensorobjs (cat : Catalog α) (status : ℤ) (databytes : Bytes)
    (c : WatchCommand α) (s : State α) :
    (sensorWatchCallback cat status databytes c s).watch.sensorobjs = s.watch.sensorobjs := by
  have hcmd : ∀ w : Sensor.State α, (sensorWatchCmd cat w).sensorobjs = w.sensorobjs := by
    intro w
    obtain ⟨-, hw⟩ | ⟨-, effects, hw⟩ := sensorWatchCmd_cases cat w <;> rw [hw]
  obtain ⟨effects, hupdate⟩ := updateSensors_eq c.sensorlist databytes s
  unfold sensorWatchCallback
  split_ifs with hstatus hlength hstale
  · exact hcmd _
  · rfl
  · rfl
  · rw [hupdate]
    exact hcmd _

/-- What keeps the loop going after a successful response. -/
def Followed (s : State α) (c : WatchCommand α) (databytes : Bytes) : Prop :=
  1 < s.watch.outstanding.length ∨
    c.sensorlist.length * sensorWatchBytespersensor = databytes.length ∧
      c.generation = s.watch.sensorWatchGeneration ∧ s.watch.sensorWatchQueue ≠ []

/-- A response that is followed by another command keeps the invariant. -/
theorem sensorWatchCallback_inv (cat : Catalog α) {s : State α} (h : Inv s) {position : ℕ}
    {c : WatchCommand α} (found : s.watch.outstanding[position]? = some c) {status : ℤ}
    {databytes : Bytes}
    (followed : status = 0 → s.watch.sensorobjs ≠ [] → Followed s c databytes) :
    Inv (sensorWatchCallback cat status databytes c (s.withdraw position)) := by
  obtain ⟨hlt, -⟩ := List.getElem?_eq_some_iff.mp found
  have hsound := withdraw_sound h.toSound position
  unfold sensorWatchCallback
  split_ifs with hstatus hlength hstale
  · exact sensorWatchStart_inv cat hsound
  · refine ⟨hsound, fun hwatched => ?_, h.queued⟩
    obtain hother | ⟨hdata, -, -⟩ := followed (not_not.mp hstatus) hwatched
    · exact (withdraw_outstanding_ne_nil hlt).mpr hother
    · exact absurd hdata hlength
  · refine ⟨hsound, fun hwatched => ?_, h.queued⟩
    obtain hother | ⟨-, hcurrent, -⟩ := followed (not_not.mp hstatus) hwatched
    · exact (withdraw_outstanding_ne_nil hlt).mpr hother
    · exact absurd hcurrent hstale
  · refine updateSensors_inv cat h found (not_not.mp hstale) databytes fun hwatched => ?_
    obtain hother | ⟨-, -, hwaiting⟩ := followed (not_not.mp hstatus) hwatched
    · exact Or.inl ((withdraw_outstanding_ne_nil hlt).mpr hother)
    · exact Or.inr hwaiting

/-- Only such a response leaves a command outstanding. -/
theorem followed_of_outstanding (cat : Catalog α) {s : State α} {position : ℕ}
    {c : WatchCommand α} (found : s.watch.outstanding[position]? = some c) {databytes : Bytes}
    (outstanding : (sensorWatchCallback cat 0 databytes c
      (s.withdraw position)).watch.outstanding ≠ []) : Followed s c databytes := by
  obtain ⟨hlt, -⟩ := List.getElem?_eq_some_iff.mp found
  obtain ⟨effects, hupdate⟩ := updateSensors_eq c.sensorlist databytes (s.withdraw position)
  rw [sensorWatchCallback, if_neg (not_not.mpr rfl)] at outstanding
  split_ifs at outstanding with hlength hstale
  · exact Or.inl ((withdraw_outstanding_ne_nil hlt).mp outstanding)
  · exact Or.inl ((withdraw_outstanding_ne_nil hlt).mp outstanding)
  · by_cases hwaiting : s.watch.sensorWatchQueue = []
    · left
      rw [hupdate] at outstanding
      obtain ⟨-, hcmd⟩ | ⟨hqueue, -⟩ := sensorWatchCmd_cases cat
        { (s.withdraw position).watch with effects := effects }
      · have hsent : (sensorWatchCmd cat
            { (s.withdraw position).watch with effects := effects }).outstanding ≠ [] := outstanding
        rw [hcmd] at hsent
        exact (withdraw_outstanding_ne_nil hlt).mp hsent
      · exact absurd hwaiting hqueue
    · exact Or.inr ⟨not_not.mp hlength, not_not.mp hstale, hwaiting⟩

/-- A timer of the current generation queues a watched sensor. -/
theorem fire_inv {s : State α} (h : Inv s) {position : ℕ} {t : Timer α}
    (found : s.timers[position]? = some t)
    (current : t.generation = s.watch.sensorWatchGeneration) : Inv (s.fire position) := by
  have hwatched := (h.started t (List.mem_of_getElem? found)).2 current
  rw [State.fire, found]
  refine ⟨⟨h.asked, ?_⟩, h.continues, ?_⟩
  · intro t' ht'
    exact h.started t' (List.mem_of_mem_eraseIdx ht')
  · intro x hx
    obtain hold | hnew := List.mem_append.mp hx
    · exact h.queued hold
    · obtain rfl := List.mem_singleton.mp hnew
      exact hwatched

/-- A step that satisfies the condition keeps the invariant. -/
theorem step_inv [DecidableEq α] (cat : Catalog α) (s : State α) (event : Event) (h : Inv s)
    (adm : admissible cat s event) (condition : Condition s event) : Inv (step cat s event) := by
  cases event with
  | sensorWatchInit messageSize messageReturnSize =>
      exact ⟨⟨h.asked, h.started⟩, h.continues, h.queued⟩
  | setSensorList sensors =>
      obtain hsame | hchanged := setSensorList_changed cat sensors s.watch
      · rw [step, hsame]
        exact h
      · exact changed_inv h hchanged
  | addSensorList sensors =>
      obtain hsame | hchanged := addSensorList_changed cat sensors s.watch
      · rw [step, hsame]
        exact h
      · exact changed_inv h hchanged
  | setSensorListNum r_num => exact changed_inv h (setSensorListNum_changed cat adm s.watch)
  | addSensorListNum r_num => exact changed_inv h (addSensorListNum_changed cat adm s.watch)
  | response position status databytes =>
      obtain ⟨c, hfound⟩ : ∃ c, s.watch.outstanding[position]? = some c :=
        ⟨_, List.getElem?_eq_getElem adm⟩
      rw [step, hfound]
      refine sensorWatchCallback_inv cat h hfound ?_
      rintro rfl hwatched
      exact condition.responses c databytes ⟨hfound, rfl, rfl⟩ hwatched
  | fire position =>
      obtain ⟨t, hfound⟩ : ∃ t, s.timers[position]? = some t :=
        ⟨_, List.getElem?_eq_getElem adm⟩
      exact fire_inv h hfound (condition.timers t hfound)

/-- Under the invariant a step does what it should exactly when it satisfies the
condition. -/
theorem kept_iff [DecidableEq α] (cat : Catalog α) (s : State α) (event : Event) (h : Inv s)
    (adm : admissible cat s event) : Kept cat s event ↔ Condition s event := by
  constructor
  · intro hkept
    constructor
    · intro c databytes hanswers hwatched
      cases event with
      | response position status databytes' =>
          obtain ⟨hfound, rfl, rfl⟩ := hanswers
          have hcontinues := hkept.continues
          rw [continues_iff, step, hfound] at hcontinues
          simp only [sensorWatchCallback_sensorobjs] at hcontinues
          exact followed_of_outstanding cat hfound (hcontinues hwatched)
      | sensorWatchInit messageSize messageReturnSize => exact absurd hanswers id
      | setSensorList sensors => exact absurd hanswers id
      | addSensorList sensors => exact absurd hanswers id
      | setSensorListNum r_num => exact absurd hanswers id
      | addSensorListNum r_num => exact absurd hanswers id
      | fire position => exact absurd hanswers id
    · intro t hfires
      by_contra hstale
      obtain ⟨position, rfl, hfound⟩ := hfires.exists_position
      have hobsolete := (obsolete_iff h (List.mem_of_getElem? hfound)).mpr hstale
      have hqueue := hkept.discarded t hfires hobsolete
      simp [step, State.fire, hfound, State.sensorWatchEnque] at hqueue
  · intro hcondition
    constructor
    · intro hwatched
      rw [continues_iff]
      exact (step_inv cat s event h adm hcondition).continues hwatched
    · intro t hfires hobsolete
      obtain ⟨position, -, hfound⟩ := hfires.exists_position
      have hmem := List.mem_of_getElem? hfound
      exact absurd (hcondition.timers t hfires) ((obsolete_iff h hmem).mp hobsolete)

/-- A controller that watches no sensor yet. -/
structure State.Fresh (s : State α) : Prop where
  watch : s.watch.Fresh
  timers : s.timers = []

theorem fresh_inv {s : State α} (fresh : s.Fresh) : Inv s := by
  refine ⟨⟨?_, ?_⟩, ?_, ?_⟩
  · simp [fresh.watch.outstanding]
  · simp [fresh.timers]
  · intro hwatched
    exact absurd fresh.watch.sensorobjs hwatched
  · simp [fresh.watch.queue]

/-- The runs in which the loop always goes on and every obsolete timer is discarded
are exactly the runs in which every successful response leaves another command
outstanding, or brings the data of the current generation while sensors wait, and no
timer fires after a change of the list. -/
theorem delayed_run_kept_iff [DecidableEq α] (cat : Catalog α) {s : State α} (fresh : s.Fresh)
    (events : List Event) (admits : (machine cat).Admits s events) :
    (machine cat).EachStep (Kept cat) s events ↔ (machine cat).EachStep Condition s events :=
  (machine cat).eachStep_iff_of_invariant (step_inv cat) (kept_iff cat) (fresh_inv fresh) admits

/-! ## Runs of a controller with ten sensors -/

theorem Condition.setSensorListNum (s : State α) (r_num : List ℕ) :
    Condition s (.setSensorListNum r_num) := ⟨nofun, nofun⟩

theorem Condition.sensorWatchInit (s : State α) (messageSize messageReturnSize : ℕ) :
    Condition s (.sensorWatchInit messageSize messageReturnSize) := ⟨nofun, nofun⟩

theorem Condition.response {s : State α} {position : ℕ} {status : ℤ} {databytes : Bytes}
    {c : WatchCommand α} (found : s.watch.outstanding[position]? = some c)
    (followed : status = 0 → Followed s c databytes) :
    Condition s (.response position status databytes) := by
  refine ⟨?_, nofun⟩
  rintro c' databytes' ⟨hfound, rfl, rfl⟩ -
  obtain rfl := Option.some.inj (found.symm.trans hfound)
  exact followed rfl

theorem Condition.fire {s : State α} {position : ℕ} {t : Timer α}
    (found : s.timers[position]? = some t)
    (current : t.generation = s.watch.sensorWatchGeneration) : Condition s (.fire position) := by
  refine ⟨nofun, ?_⟩
  intro t' hfires
  obtain rfl := Option.some.inj (found.symm.trans hfires)
  exact current

/-- Three sensors are watched in batches of two, and the first batch is answered. -/
def sampleRun : List Event :=
  [.sensorWatchInit 5 100, .setSensorListNum [3, 1, 4], .response 0 0 (List.replicate 48 7)]

/-- A timer fires while the second batch is on its way, so there is a third. -/
theorem delayed_run_kept_iff_sample :
    (machine sampleCatalog).EachStep (Kept sampleCatalog) {}
      (sampleRun ++ [.fire 0, .response 0 0 (List.replicate 24 8), .response 0 193 []]) := by
  refine (delayed_run_kept_iff sampleCatalog ⟨⟨rfl, rfl, rfl⟩, rfl⟩ _ (by decide +kernel)).mpr ?_
  refine ⟨.sensorWatchInit _ _ _, .setSensorListNum _ _, ?_, ?_, ?_, ?_, trivial⟩
  · exact .response (c := ⟨1, [3, 1]⟩) (by decide +kernel)
      fun _ => Or.inr ⟨by decide +kernel, by decide +kernel, by decide +kernel⟩
  · exact .fire (t := ⟨3, 1⟩) (by decide +kernel) (by decide +kernel)
  · exact .response (c := ⟨1, [4]⟩) (by decide +kernel)
      fun _ => Or.inr ⟨by decide +kernel, by decide +kernel, by decide +kernel⟩
  · exact .response (c := ⟨1, [3]⟩) (by decide +kernel) fun h => absurd h (by decide)

/-- Both batches are answered before a timer fires, and the loop stands still: all
three timers fire, three sensors wait, and no command is on its way. Or the list is
changed while the timers run: a sensor that is off the list is queued, and one that
the change has queued is queued a second time. -/
theorem delayed_enques_break_watch :
    let stalled := sampleRun ++
      [.response 0 0 (List.replicate 24 8), .fire 0, .fire 0, .fire 0]
    let removed := sampleRun ++ [.setSensorListNum [4, 5], .fire 0]
    let repeated := sampleRun ++ [.setSensorListNum [4, 5, 3], .fire 0]
    ((machine sampleCatalog).Admits {} stalled ∧
      ¬ (machine sampleCatalog).EachStep (Kept sampleCatalog) {} stalled ∧
      ((machine sampleCatalog).run {} stalled).timers = [] ∧
      ((machine sampleCatalog).run {} stalled).watch.sensorWatchQueue = [3, 1, 4] ∧
      ((machine sampleCatalog).run {} stalled).watch.outstanding = []) ∧
    ((machine sampleCatalog).Admits {} removed ∧
      ¬ (machine sampleCatalog).EachStep (Kept sampleCatalog) {} removed ∧
      ((machine sampleCatalog).run {} removed).watch.sensorobjs = [4, 5] ∧
      ((machine sampleCatalog).run {} removed).watch.sensorWatchQueue = [3]) ∧
    ((machine sampleCatalog).Admits {} repeated ∧
      ¬ (machine sampleCatalog).EachStep (Kept sampleCatalog) {} repeated ∧
      ((machine sampleCatalog).run {} repeated).watch.sensorWatchQueue = [3, 3]) := by
  intro stalled removed repeated
  refine ⟨⟨by decide +kernel, fun hkept => ?_, by decide +kernel, by decide +kernel,
      by decide +kernel⟩,
    ⟨by decide +kernel, fun hkept => ?_, by decide +kernel, by decide +kernel⟩,
    ⟨by decide +kernel, fun hkept => ?_, by decide +kernel⟩⟩
  · obtain ⟨-, -, -, hanswer, -⟩ := hkept
    have hcontinues := hanswer.continues
    rw [continues_iff] at hcontinues
    revert hcontinues
    decide +kernel
  · obtain ⟨-, -, -, -, hfire, -⟩ := hkept
    have hqueue := hfire.discarded ⟨3, 1⟩ (by unfold Event.Fires; decide +kernel)
        (Or.inl (by decide +kernel))
    revert hqueue
    decide +kernel
  · obtain ⟨-, -, -, -, hfire, -⟩ := hkept
    have hqueue := hfire.discarded ⟨3, 1⟩ (by unfold Event.Fires; decide +kernel)
      (Or.inr ⟨by decide +kernel, by decide +kernel⟩)
    revert hqueue
    decide +kernel

end Amester.Sensor.Delayed
