/-
# Handlers as chains of calls that may raise

A handler that calls foreign code in the middle of nested calls has more than one
call left to finish. What each of them still has to do is a piece, and the
pieces of one handler are a chain, the innermost first. A piece that has run may
put further pieces in front of the chain. A piece that raises takes the chain
down to the next piece that catches, and with it the whole handler when there is
none.

The exactness theorem is about a state property that every handler and every piece
keeps under a condition on it, and that is lost as soon as one runs without it.
-/

import Amester.Lib.Reentrant

namespace EventMachine

universe u v w

/-- Handlers cut where they call back, as chains of pieces. A result without a
list of pieces is a raised error. -/
structure CallChain (σ : Type u) (ε : Type v) (π : Type w) where
  /-- The environment can deliver this event in this state. -/
  admissible : σ → ε → Prop
  /-- Run the handler up to its call, if it makes one. -/
  handle : σ → ε → σ × Option (List π)
  /-- Run a piece up to its next call. -/
  execute : π → σ → σ × Option (List π)
  /-- The piece goes on after an error of what it has called. -/
  catches : π → Bool

namespace CallChain

variable {σ : Type u} {ε : Type v} {π : Type w} (K : CallChain σ ε π)

/-- A chain of no pieces is a handler that has returned. -/
def frame : List π → Option (List π)
  | [] => none
  | p :: rest => some (p :: rest)

/-- Go on after a piece, or after the error it has raised. -/
def proceed (result : σ × Option (List π)) (rest : List π) : σ × Option (List π) :=
  match result.2 with
  | some pieces => (result.1, frame (pieces ++ rest))
  | none => (result.1, frame (rest.dropWhile fun p => !K.catches p))

/-- The innermost piece of a chain runs when the call it waits for returns. -/
def resume : List π → σ → σ × Option (List π)
  | [], s => (s, none)
  | p :: rest, s => K.proceed (K.execute p s) rest

/-- The chains are the frames of handlers that call back. -/
def reentrant : Reentrant σ ε (List π) where
  admissible := K.admissible
  handle s event := K.proceed (K.handle s event) []
  resume := K.resume

abbrev machine : Machine (Suspended σ (List π)) (Happening ε) := K.reentrant.machine

instance decidableAdmissible [∀ s, DecidablePred (K.admissible s)] (s : σ) :
    DecidablePred (K.reentrant.admissible s) :=
  inferInstanceAs (DecidablePred (K.admissible s))

/-- The conditions on an event, and on a return, where it is about the piece that runs. -/
def Meets (C : σ → ε → Prop) (D : σ → π → Prop) (s : Suspended σ (List π)) :
    Happening ε → Prop
  | .occurs event => C s.state event
  | .returns => ∀ p ∈ s.stack.head?.bind List.head?, D s.state p

instance decidableMeets {C : σ → ε → Prop} {D : σ → π → Prop} [∀ s, DecidablePred (C s)]
    [∀ s, DecidablePred (D s)] (s : Suspended σ (List π)) : DecidablePred (Meets C D s)
  | .occurs event => inferInstanceAs (Decidable (C s.state event))
  | .returns =>
    inferInstanceAs (Decidable (∀ p ∈ s.stack.head?.bind List.head?, D s.state p))

theorem proceed_fst (result : σ × Option (List π)) (rest : List π) :
    (K.proceed result rest).1 = result.1 := by
  unfold proceed
  split <;> rfl

@[simp]
theorem mem_frame {pieces chain : List π} :
    chain ∈ frame pieces ↔ pieces ≠ [] ∧ pieces = chain := by
  cases pieces <;> simp [frame]

/-- The chain that is left has no pieces but the new ones and those of the rest. -/
theorem mem_proceed {result : σ × Option (List π)} {rest chain : List π} {p : π}
    (left : chain ∈ (K.proceed result rest).2) (mem : p ∈ chain) :
    (∃ pieces ∈ result.2, p ∈ pieces) ∨ p ∈ rest := by
  obtain ⟨s, pieces | pieces⟩ := result
  · obtain ⟨-, rfl⟩ := mem_frame.mp left
    exact Or.inr ((List.dropWhile_sublist _).subset mem)
  · obtain ⟨-, rfl⟩ := mem_frame.mp left
    rcases List.mem_append.mp mem with new | old
    · exact Or.inl ⟨pieces, rfl, new⟩
    · exact Or.inr old

section Invariant

variable {I : σ → Prop} {G : π → Prop} {C : σ → ε → Prop} {D : σ → π → Prop}

/-- A state property and a property of all pieces that are left. -/
structure Sound (I : σ → Prop) (G : π → Prop) (s : Suspended σ (List π)) : Prop where
  state : I s.state
  pieces : ∀ chain ∈ s.stack, ∀ p ∈ chain, G p

theorem push_sound {result : σ × Option (List π)} {rest : List π} {stack : List (List π)}
    (state : I result.1) (new : ∀ pieces ∈ result.2, ∀ p ∈ pieces, G p)
    (left : ∀ p ∈ rest, G p) (below : ∀ chain ∈ stack, ∀ p ∈ chain, G p) :
    Sound I G (Reentrant.push (K.proceed result rest) stack) := by
  constructor
  · rw [Reentrant.push, proceed_fst]
    exact state
  · intro chain hchain p hp
    rcases List.mem_append.mp hchain with top | under
    · rcases K.mem_proceed (Option.mem_toList.mp top) hp with ⟨pieces, hpieces, mem⟩ | mem
      · exact new pieces hpieces p mem
      · exact left p mem
    · exact below chain under p hp

variable (handles : ∀ s e, I s → K.admissible s e → C s e →
    I (K.handle s e).1 ∧ ∀ pieces ∈ (K.handle s e).2, ∀ p ∈ pieces, G p)
  (executes : ∀ p s, I s → G p → D s p →
    I (K.execute p s).1 ∧ ∀ pieces ∈ (K.execute p s).2, ∀ q ∈ pieces, G q)

include handles executes

/-- What handlers and pieces keep is kept by every step. -/
theorem step_sound (s : Suspended σ (List π)) (h : Happening ε) (sound : Sound I G s)
    (admits : K.machine.admissible s h) (meets : Meets C D s h) :
    Sound I G (K.machine.step s h) := by
  cases h with
  | occurs event =>
      obtain ⟨state, new⟩ := handles s.state event sound.state admits meets
      exact K.push_sound state new (by simp) sound.pieces
  | returns =>
      obtain ⟨state, stack⟩ := s
      cases stack with
      | nil => exact sound
      | cons chain stack =>
          have below : ∀ chain ∈ stack, ∀ p ∈ chain, G p := fun chain mem =>
            sound.pieces chain (List.mem_cons_of_mem _ mem)
          cases chain with
          | nil => exact ⟨sound.state, below⟩
          | cons p rest =>
              have left := sound.pieces (p :: rest) List.mem_cons_self
              obtain ⟨kept, new⟩ := executes p state sound.state (left p List.mem_cons_self)
                (meets p rfl)
              exact K.push_sound kept new (fun q mem => left q (List.mem_cons_of_mem _ mem))
                below

/-- A property that follows from the invariant, and that a handler or a piece loses
when it runs without its condition, holds throughout a run exactly when every
event and every piece that runs in it meets the condition. -/
theorem always_iff {P : σ → Prop} (follows : ∀ s, I s → P s)
    (loses : ∀ s e, I s → K.admissible s e → ¬C s e → ¬P (K.handle s e).1)
    (breaks : ∀ p s, I s → G p → ¬D s p → ¬P (K.execute p s).1) {s : σ}
    {happenings : List (Happening ε)} (start : I s)
    (admits : K.machine.Admits ⟨s, []⟩ happenings) :
    K.machine.Always (fun s => P s.state) ⟨s, []⟩ happenings ↔
      K.machine.EachStep (Meets C D) ⟨s, []⟩ happenings := by
  have sound : Sound I G (⟨s, []⟩ : Suspended σ (List π)) := ⟨start, by simp⟩
  have exact_step : ∀ (s : Suspended σ (List π)) (h : Happening ε), Sound I G s →
      K.machine.admissible s h → (P (K.machine.step s h).state ↔ Meets C D s h) := by
    intro s h sound hadmits
    constructor
    · intro holds
      cases h with
      | occurs event =>
          by_contra missed
          apply loses s.state event sound.state hadmits missed
          rw [← K.proceed_fst (K.handle s.state event) []]
          exact holds
      | returns =>
          obtain ⟨state, stack⟩ := s
          intro p hp
          obtain ⟨chain, top, first⟩ := Option.bind_eq_some_iff.mp hp
          obtain ⟨stack, rfl⟩ := List.head?_eq_some_iff.mp top
          obtain ⟨rest, rfl⟩ := List.head?_eq_some_iff.mp first
          by_contra missed
          apply breaks p state sound.state
            (sound.pieces _ List.mem_cons_self p List.mem_cons_self) missed
          rw [← K.proceed_fst (K.execute p state) rest]
          exact holds
    · intro meets
      exact follows _ (K.step_sound handles executes s h sound hadmits meets).state
  rw [Machine.always_iff_eachStep]
  constructor
  · rintro ⟨-, each⟩
    exact (K.machine.eachStep_iff_of_invariant (K.step_sound handles executes) exact_step sound
      admits).mp each
  · intro each
    exact ⟨follows s start, (K.machine.eachStep_iff_of_invariant
      (K.step_sound handles executes) exact_step sound admits).mpr each⟩

end Invariant

end CallChain

end EventMachine
