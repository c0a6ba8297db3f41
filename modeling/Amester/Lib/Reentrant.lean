/-
# Event loops whose handlers call back

A handler may end in a call of foreign code that enters the event loop again
and lets further events be handled before it returns. What the handler still
has to do after the call is a frame; the frames of all calls that have not
returned are a stack, the innermost first. An outside event is handled on top
of the stack, and when the innermost call returns, the rest of its handler runs.

An invariant of the state that every handler keeps up to its call, and every
rest of a handler keeps from there, holds in every state of every run, to any
depth of the stack.
-/

import Amester.Lib.EventMachine

namespace EventMachine

universe u v w

/-- Handlers that are cut where they call back: what happens up to the call, and
what is left to do after it. -/
structure Reentrant (σ : Type u) (ε : Type v) (φ : Type w) where
  /-- The environment can deliver this event in this state. -/
  admissible : σ → ε → Prop
  /-- Run the handler up to its call, if it makes one. -/
  handle : σ → ε → σ × Option φ
  /-- Run the rest of a handler, up to its next call. -/
  resume : φ → σ → σ × Option φ

/-- A state and the calls that have not returned, the innermost first. -/
structure Suspended (σ : Type u) (φ : Type w) where
  state : σ
  stack : List φ := []

/-- An outside event, or the return of the innermost call. -/
inductive Happening (ε : Type v)
  | occurs (event : ε)
  | returns

namespace Reentrant

variable {σ : Type u} {ε : Type v} {φ : Type w} (M : Reentrant σ ε φ)

/-- Put the call that a piece of a handler ended in on the stack. -/
def push (result : σ × Option φ) (stack : List φ) : Suspended σ φ :=
  ⟨result.1, result.2.toList ++ stack⟩

def step (s : Suspended σ φ) : Happening ε → Suspended σ φ
  | .occurs event => push (M.handle s.state event) s.stack
  | .returns =>
    match s.stack with
    | [] => s
    | frame :: stack => push (M.resume frame s.state) stack

def Admissible (s : Suspended σ φ) : Happening ε → Prop
  | .occurs event => M.admissible s.state event
  | .returns => s.stack ≠ []

/-- The machine whose states carry the stack. -/
def machine : Machine (Suspended σ φ) (Happening ε) := ⟨M.Admissible, M.step⟩

instance decidableAdmissible [∀ s, DecidablePred (M.admissible s)] (s : Suspended σ φ) :
    DecidablePred (M.machine.admissible s)
  | .occurs event => inferInstanceAs (Decidable (M.admissible s.state event))
  | .returns => inferInstanceAs (Decidable (s.stack ≠ []))

/-- What both pieces of every handler keep is kept by every step. -/
theorem step_invariant {C : σ → ε → Prop} {I : σ → Prop}
    (handles : ∀ s e, I s → M.admissible s e → C s e → I (M.handle s e).1)
    (resumes : ∀ f s, I s → I (M.resume f s).1) (s : Suspended σ φ) (h : Happening ε)
    (inv : I s.state) (admits : M.Admissible s h)
    (holds : ∀ event, h = .occurs event → C s.state event) : I (M.step s h).state := by
  cases h with
  | occurs event => exact handles s.state event inv admits (holds event rfl)
  | returns =>
      obtain ⟨state, stack⟩ := s
      cases stack with
      | nil => exact inv
      | cons frame stack => exact resumes frame state inv

/-- The condition on a step: it is about the outside events only. -/
def Meets (C : σ → ε → Prop) (s : Suspended σ φ) : Happening ε → Prop
  | .occurs event => C s.state event
  | .returns => True

instance decidableMeets {C : σ → ε → Prop} [∀ s, DecidablePred (C s)] (s : Suspended σ φ) :
    DecidablePred (Meets C s)
  | .occurs event => inferInstanceAs (Decidable (C s.state event))
  | .returns => isTrue trivial

/-- The handler of the event has run to its end, or what was left of one has. -/
def Ends (s : Suspended σ φ) : Happening ε → Prop
  | .occurs event => (M.handle s.state event).2 = none
  | .returns => ∀ frame ∈ s.stack.head?, (M.resume frame s.state).2 = none

instance decidableEnds (s : Suspended σ φ) : DecidablePred (M.Ends s)
  | .occurs event => inferInstanceAs (Decidable ((M.handle s.state event).2 = none))
  | .returns =>
    inferInstanceAs (Decidable (∀ frame ∈ s.stack.head?, (M.resume frame s.state).2 = none))

/-- In a run whose outside events meet the condition, the invariant holds in
every state, whatever calls have not returned. -/
theorem always_of_invariant {C : σ → ε → Prop} {I : σ → Prop}
    (handles : ∀ s e, I s → M.admissible s e → C s e → I (M.handle s e).1)
    (resumes : ∀ f s, I s → I (M.resume f s).1) {s : Suspended σ φ}
    {happenings : List (Happening ε)} (start : I s.state)
    (admits : M.machine.Admits s happenings)
    (each : M.machine.EachStep (Meets C) s happenings) :
    M.machine.Always (fun s => I s.state) s happenings := by
  refine M.machine.always_of_invariant ?_ start admits each
  intro s h inv hadmits hmeets
  refine M.step_invariant handles resumes s h inv hadmits ?_
  rintro event rfl
  exact hmeets

end Reentrant

end EventMachine
