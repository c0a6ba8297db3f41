/-
# Event-driven machines and their finite runs

A single-threaded event loop is a state and a total step: every callback runs
to its end before the next event is taken. The environment decides which event
comes next, so a machine also says which events are admissible in a state. A
run is a list of events, and the results here turn facts about one step into
facts about every run.

Two kinds of run property occur. A state property holds in every state a run
visits; a step property relates the state before an event to what the event
does. The exactness theorem at the end characterizes the runs that keep a step
property by a condition that reads only the state before each event.
-/

import Mathlib.Data.List.Basic

namespace EventMachine

universe u v

/-- A deterministic step together with the events the environment may deliver
in each state. -/
structure Machine (σ : Type u) (ε : Type v) where
  /-- The environment can deliver this event in this state. -/
  admissible : σ → ε → Prop
  /-- Run the event's handler to its end. -/
  step : σ → ε → σ

namespace Machine

variable {σ : Type u} {ε : Type v} (M : Machine σ ε)

/-- The state after a list of events. -/
def run (s : σ) (events : List ε) : σ := events.foldl M.step s

@[simp]
theorem run_nil (s : σ) : M.run s [] = s := rfl

@[simp]
theorem run_cons (s : σ) (e : ε) (events : List ε) :
    M.run s (e :: events) = M.run (M.step s e) events := rfl

theorem run_append (s : σ) (first second : List ε) :
    M.run s (first ++ second) = M.run (M.run s first) second :=
  List.foldl_append

/-- Every event of the list satisfies `C` in the state in which it occurs. -/
def EachStep (C : σ → ε → Prop) : σ → List ε → Prop
  | _, [] => True
  | s, e :: events => C s e ∧ EachStep C (M.step s e) events

@[simp]
theorem eachStep_nil (C : σ → ε → Prop) (s : σ) : M.EachStep C s [] := trivial

@[simp]
theorem eachStep_cons (C : σ → ε → Prop) (s : σ) (e : ε) (events : List ε) :
    M.EachStep C s (e :: events) ↔ C s e ∧ M.EachStep C (M.step s e) events :=
  Iff.rfl

instance decidableEachStep (C : σ → ε → Prop) [∀ s e, Decidable (C s e)] :
    ∀ (s : σ) (events : List ε), Decidable (M.EachStep C s events)
  | _, [] => isTrue trivial
  | s, e :: events =>
    have := decidableEachStep C (M.step s e) events
    inferInstanceAs (Decidable (C s e ∧ M.EachStep C (M.step s e) events))

theorem eachStep_append {C : σ → ε → Prop} {s : σ} {first second : List ε} :
    M.EachStep C s (first ++ second) ↔
      M.EachStep C s first ∧ M.EachStep C (M.run s first) second := by
  induction first generalizing s with
  | nil => simp
  | cons e first ih => simp [ih, and_assoc]

theorem EachStep.mono {M : Machine σ ε} {C D : σ → ε → Prop}
    (weaker : ∀ s e, C s e → D s e) {s : σ} {events : List ε}
    (h : M.EachStep C s events) : M.EachStep D s events := by
  induction events generalizing s with
  | nil => trivial
  | cons e events ih => exact ⟨weaker s e h.1, ih h.2⟩

/-- The environment can deliver the events one after the other from `s`. -/
def Admits (s : σ) (events : List ε) : Prop := M.EachStep M.admissible s events

instance decidableAdmits [∀ s e, Decidable (M.admissible s e)] (s : σ)
    (events : List ε) : Decidable (M.Admits s events) :=
  inferInstanceAs (Decidable (M.EachStep M.admissible s events))

/-- Every state the run visits, the first and the last included, satisfies `P`. -/
def Always (P : σ → Prop) : σ → List ε → Prop
  | s, [] => P s
  | s, e :: events => P s ∧ Always P (M.step s e) events

/-- A state property of a run splits into its first state and the states its
events lead to. -/
theorem always_iff_eachStep {P : σ → Prop} {s : σ} {events : List ε} :
    M.Always P s events ↔
      P s ∧ M.EachStep (fun before e => P (M.step before e)) s events := by
  induction events generalizing s with
  | nil => simp [Always]
  | cons e events ih => simp [Always, ih]

theorem Always.last {M : Machine σ ε} {P : σ → Prop} {s : σ} {events : List ε}
    (h : M.Always P s events) : P (M.run s events) := by
  induction events generalizing s with
  | nil => exact h
  | cons e events ih => exact ih h.2

theorem Always.mono {M : Machine σ ε} {P Q : σ → Prop} (weaker : ∀ s, P s → Q s) {s : σ}
    {events : List ε} (h : M.Always P s events) : M.Always Q s events := by
  induction events generalizing s with
  | nil => exact weaker s h
  | cons e events ih => exact ⟨weaker s h.1, ih h.2⟩

/-- An invariant kept by every admissible event that satisfies `C` holds in
every state of a run whose events all satisfy `C`. -/
theorem always_of_invariant {C : σ → ε → Prop} {Inv : σ → Prop}
    (keeps : ∀ s e, Inv s → M.admissible s e → C s e → Inv (M.step s e))
    {s : σ} {events : List ε} (start : Inv s) (admits : M.Admits s events)
    (each : M.EachStep C s events) : M.Always Inv s events := by
  induction events generalizing s with
  | nil => exact start
  | cons e events ih =>
      exact ⟨start, ih (keeps s e start admits.1 each.1) admits.2 each.2⟩

/-- The unconditional case: an invariant kept by every admissible event holds in
every state of every run. -/
theorem always_invariant {Inv : σ → Prop}
    (keeps : ∀ s e, Inv s → M.admissible s e → Inv (M.step s e))
    {s : σ} {events : List ε} (start : Inv s) (admits : M.Admits s events) :
    M.Always Inv s events := by
  have each : M.EachStep (fun _ _ => True) s events :=
    EachStep.mono (fun _ _ _ => trivial) admits
  exact M.always_of_invariant (fun s e inv adm _ => keeps s e inv adm) start admits each

/-- The unconditional case: an invariant kept by every admissible event holds
after every run. -/
theorem invariant_run {Inv : σ → Prop}
    (keeps : ∀ s e, Inv s → M.admissible s e → Inv (M.step s e))
    {s : σ} {events : List ε} (start : Inv s) (admits : M.Admits s events) :
    Inv (M.run s events) :=
  (M.always_invariant keeps start admits).last

/-- If, under an invariant, `Q` holds of a step exactly when `C` does, and the
steps with `C` keep the invariant, then the runs that satisfy `Q` throughout
are exactly the runs that satisfy `C` throughout. After the first step that
misses `C` nothing more needs to be known. -/
theorem eachStep_iff_of_invariant {C Q : σ → ε → Prop} {Inv : σ → Prop}
    (keeps : ∀ s e, Inv s → M.admissible s e → C s e → Inv (M.step s e))
    (exact_step : ∀ s e, Inv s → M.admissible s e → (Q s e ↔ C s e))
    {s : σ} {events : List ε} (start : Inv s) (admits : M.Admits s events) :
    M.EachStep Q s events ↔ M.EachStep C s events := by
  induction events generalizing s with
  | nil => simp
  | cons e events ih =>
      rw [eachStep_cons, eachStep_cons, exact_step s e start admits.1]
      exact and_congr_right fun c =>
        ih (keeps s e start admits.1 c) admits.2

/-- If, under an invariant, `P` holds behind a step exactly when `C` holds of it, and
the steps with `C` keep the invariant, then `P` holds in every state of exactly the
runs that satisfy `C` throughout. -/
theorem always_iff_of_invariant {P : σ → Prop} {C : σ → ε → Prop} {Inv : σ → Prop}
    (keeps : ∀ s e, Inv s → M.admissible s e → C s e → Inv (M.step s e))
    (exact_step : ∀ s e, Inv s → M.admissible s e → (P (M.step s e) ↔ C s e))
    {s : σ} {events : List ε} (start : Inv s) (holds : P s) (admits : M.Admits s events) :
    M.Always P s events ↔ M.EachStep C s events := by
  rw [always_iff_eachStep, and_iff_right holds]
  exact M.eachStep_iff_of_invariant keeps exact_step start admits

/-! ## A machine in another -/

section

universe w

variable {τ : Type w} {N : Machine τ ε} {part : σ → τ}

/-- A machine whose state has a part that takes the steps of another machine. -/
theorem run_part (steps : ∀ s e, part (M.step s e) = N.step (part s) e) (s : σ)
    (events : List ε) : part (M.run s events) = N.run (part s) events := by
  induction events generalizing s with
  | nil => rfl
  | cons e events ih => rw [run_cons, run_cons, ih, steps]

theorem eachStep_part (steps : ∀ s e, part (M.step s e) = N.step (part s) e)
    {C : τ → ε → Prop} {s : σ} {events : List ε} :
    M.EachStep (fun s e => C (part s) e) s events ↔ N.EachStep C (part s) events := by
  induction events generalizing s with
  | nil => simp
  | cons e events ih => rw [eachStep_cons, eachStep_cons, ih, steps]

end

end Machine

end EventMachine
