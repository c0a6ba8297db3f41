/-
# While loops

A loop tests a condition on its variables and runs its body as long as the
condition holds; the body may raise, which ends the loop. Fuel bounds the number
of rounds, and a loop that is not over by then has no result. The rule for total
correctness asks for an invariant that the body keeps without raising, and for a
measure that every round decreases; any fuel from the measure on is enough. Where
no measure is at hand, what a loop returns is what it is over with at the last of
the states that its rounds lead to.
-/

import Mathlib.Data.Nat.Notation
import Mathlib.Data.Option.Defs
import Mathlib.Logic.Relation

namespace WhileLoop

universe u v

variable {σ : Type u} {ε : Type v}

/-- Run the body while the condition holds, for at most `fuel` rounds. -/
def run (cond : σ → Prop) [DecidablePred cond] (body : σ → Except ε σ) :
    ℕ → σ → Option (Except ε σ)
  | 0, s => if cond s then none else some (.ok s)
  | fuel + 1, s =>
    if cond s then
      match body s with
      | .ok s' => run cond body fuel s'
      | .error e => some (.error e)
    else some (.ok s)

variable {cond : σ → Prop} [DecidablePred cond] {body : σ → Except ε σ}

/-- A loop whose condition fails is over, whatever the fuel. -/
theorem run_of_not {s : σ} (ended : ¬ cond s) (fuel : ℕ) : run cond body fuel s = some (.ok s) := by
  cases fuel with
  | zero => rw [run, if_neg ended]
  | succ fuel => rw [run, if_neg ended]

theorem run_of_ok {s s' : σ} (again : cond s) (step : body s = .ok s') (fuel : ℕ) :
    run cond body (fuel + 1) s = run cond body fuel s' := by
  rw [run, if_pos again, step]

theorem run_of_error {s : σ} {e : ε} (again : cond s) (raises : body s = .error e) (fuel : ℕ) :
    run cond body (fuel + 1) s = some (.error e) := by
  rw [run, if_pos again, raises]

/-- More fuel changes nothing once the loop is over. -/
theorem run_add {s : σ} {fuel : ℕ} {r : Except ε σ} (ended : run cond body fuel s = some r)
    (later : ℕ) : run cond body (fuel + later) s = some r := by
  induction fuel generalizing s with
  | zero =>
      rw [run] at ended
      split at ended
      · simp at ended
      · rename_i hover
        rw [run_of_not hover, ended]
  | succ fuel ih =>
      by_cases again : cond s
      · rw [Nat.succ_add, run, if_pos again]
        rw [run, if_pos again] at ended
        cases hbody : body s with
        | ok s' =>
            rw [hbody] at ended
            exact ih ended
        | error e =>
            rw [hbody] at ended
            exact ended
      · rw [run_of_not again] at ended ⊢
        exact ended

/-! ## The states of a loop -/

section

open Relation

/-- A round that does not raise. -/
def Round (cond : σ → Prop) (body : σ → Except ε σ) (s s' : σ) : Prop :=
  cond s ∧ body s = .ok s'

/-- The loop is over at a state: its condition fails, or its body raises. -/
def Over (cond : σ → Prop) (body : σ → Except ε σ) (s : σ) : Except ε σ → Prop
  | .ok s' => s' = s ∧ ¬ cond s
  | .error e => cond s ∧ body s = .error e

omit [DecidablePred cond] in
theorem round_rightUnique : Relator.RightUnique (Round cond body) := by
  rintro s t u ⟨-, left⟩ ⟨-, right⟩
  exact Except.ok.inj (left.symm.trans right)

omit [DecidablePred cond] in
theorem Over.not_round {s t : σ} {r : Except ε σ} (atEnd : Over cond body s r) :
    ¬ Round cond body s t := by
  rintro ⟨again, step⟩
  cases r with
  | ok s' => exact atEnd.2 again
  | error e =>
      rw [atEnd.2] at step
      cases step

/-- A loop returns what it is over with at the last one of its states. -/
theorem run_iff_reaches {s : σ} {r : Except ε σ} :
    (∃ fuel, run cond body fuel s = some r) ↔
      ∃ last, ReflTransGen (Round cond body) s last ∧ Over cond body last r := by
  constructor
  · rintro ⟨fuel, hrun⟩
    induction fuel generalizing s with
    | zero =>
        rw [run] at hrun
        split at hrun
        · simp at hrun
        · rename_i hover
          obtain rfl := Option.some.inj hrun
          exact ⟨s, .refl, rfl, hover⟩
    | succ fuel ih =>
        by_cases again : cond s
        · cases hbody : body s with
          | ok s' =>
              rw [run_of_ok again hbody] at hrun
              obtain ⟨last, reaches, atEnd⟩ := ih hrun
              exact ⟨last, .head ⟨again, hbody⟩ reaches, atEnd⟩
          | error e =>
              rw [run_of_error again hbody] at hrun
              obtain rfl := Option.some.inj hrun
              exact ⟨s, .refl, again, hbody⟩
        · rw [run_of_not again] at hrun
          obtain rfl := Option.some.inj hrun
          exact ⟨s, .refl, rfl, again⟩
  · rintro ⟨last, reaches, atEnd⟩
    induction reaches using ReflTransGen.head_induction_on with
    | refl =>
        cases r with
        | ok s' =>
            obtain ⟨rfl, hover⟩ := atEnd
            exact ⟨0, run_of_not hover 0⟩
        | error e => exact ⟨1, run_of_error atEnd.1 atEnd.2 0⟩
    | head step _ ih =>
        obtain ⟨fuel, hrun⟩ := ih
        exact ⟨fuel + 1, (run_of_ok step.1 step.2 fuel).trans hrun⟩

omit [DecidablePred cond] in
/-- Every state of a loop that is over leads to the last one. -/
theorem reaches_last {s t last : σ} {r : Except ε σ}
    (ended : ReflTransGen (Round cond body) s last) (atEnd : Over cond body last r)
    (reached : ReflTransGen (Round cond body) s t) : ReflTransGen (Round cond body) t last := by
  rcases ReflTransGen.total_of_right_unique round_rightUnique reached ended with later | before
  · exact later
  · rcases before.cases_head with rfl | ⟨u, step, -⟩
    · exact .refl
    · exact absurd step atEnd.not_round

end

/-! ## Loops whose states are known

The states of a loop are often those of a sequence. What a loop returns is then known for
every fuel, also if it does not end. -/

section

variable {states : ℕ → σ}

/-- The loop is at a state of the sequence after as many rounds. -/
theorem run_of_steps {n : ℕ}
    (steps : ∀ k < n, cond (states k) ∧ body (states k) = .ok (states (k + 1))) {fuel k : ℕ}
    (reached : fuel + k ≤ n) (later : ℕ) :
    run cond body (fuel + later) (states k) = run cond body later (states (fuel + k)) := by
  induction fuel generalizing k with
  | zero => rw [Nat.zero_add, Nat.zero_add]
  | succ fuel ih =>
      obtain ⟨hcond, hbody⟩ := steps k (by omega)
      rw [Nat.succ_add, run_of_ok hcond hbody, ih (by omega)]
      congr 2
      omega

/-- A loop that is over at the end of a sequence has a result for as much fuel. -/
theorem run_of_sequence {n : ℕ}
    (steps : ∀ k < n, cond (states k) ∧ body (states k) = .ok (states (k + 1)))
    (ended : ¬ cond (states n)) (fuel : ℕ) :
    run cond body fuel (states 0) = if n ≤ fuel then some (.ok (states n)) else none := by
  by_cases enough : n ≤ fuel
  · obtain ⟨later, rfl⟩ := Nat.le.dest enough
    rw [if_pos enough, run_of_steps steps (Nat.le_refl n), Nat.add_zero, run_of_not ended]
  · have hless : fuel < n := Nat.lt_of_not_le enough
    rw [if_neg enough, ← Nat.add_zero fuel, run_of_steps steps (by omega), Nat.add_zero, run,
      if_pos (steps fuel hless).1]

/-- A loop that goes on and on has no result. -/
theorem run_of_endless
    (steps : ∀ k, cond (states k) ∧ body (states k) = .ok (states (k + 1))) (fuel : ℕ) :
    run cond body fuel (states 0) = none := by
  rw [← Nat.add_zero fuel, run_of_steps (n := fuel) (fun k _ => steps k) (Nat.le_refl fuel), run,
    if_pos (steps (fuel + 0)).1]

end

/-! ## Two loops that go the same way -/

section Related

universe u' v'

variable {τ : Type u'} {ζ : Type v'} {cond' : τ → Prop} [DecidablePred cond']
    {body' : τ → Except ζ τ}

/-- Both rounds are over with related variables, or both raise. -/
def Both (R : σ → τ → Prop) (Raised : ε → ζ → Prop) : Except ε σ → Except ζ τ → Prop
  | .ok s, .ok t => R s t
  | .error e, .error e' => Raised e e'
  | _, _ => False

/-- Loops whose rounds are related go the same way. -/
theorem run_both {R : σ → τ → Prop} {Raised : ε → ζ → Prop}
    (conds : ∀ s t, R s t → (cond s ↔ cond' t))
    (bodies : ∀ s t, R s t → cond s → Both R Raised (body s) (body' t)) {s : σ} {t : τ}
    (start : R s t) (fuel : ℕ) :
    Option.Rel (Both R Raised) (run cond body fuel s) (run cond' body' fuel t) := by
  induction fuel generalizing s t with
  | zero =>
      have hcond := conds s t start
      by_cases again : cond s
      · rw [run, run, if_pos again, if_pos (hcond.mp again)]
        exact .none
      · rw [run, run, if_neg again, if_neg ((not_congr hcond).mp again)]
        exact .some start
  | succ fuel ih =>
      have hcond := conds s t start
      by_cases again : cond s
      · have hbody := bodies s t start again
        rw [run, run, if_pos again, if_pos (hcond.mp again)]
        cases hs : body s with
        | ok s' =>
            cases ht : body' t with
            | ok t' =>
                rw [hs, ht] at hbody
                exact ih hbody
            | error e => simp [hs, ht, Both] at hbody
        | error e =>
            cases ht : body' t with
            | ok t' => simp [hs, ht, Both] at hbody
            | error e' =>
                rw [hs, ht] at hbody
                exact .some hbody
      · rw [run_of_not again, run_of_not ((not_congr hcond).mp again)]
        exact .some start

end Related

/-- A loop whose body may raise ends if every round that does not raise decreases a
measure: with the invariant, or with what holds where the body raises. -/
theorem run_ends (Inv : σ → Prop) (Raised : ε → Prop) (measure : σ → ℕ)
    (keeps : ∀ s, Inv s → cond s →
      (∃ s', body s = .ok s' ∧ Inv s' ∧ measure s' < measure s) ∨
        ∃ e, body s = .error e ∧ Raised e)
    {s : σ} (start : Inv s) {fuel : ℕ} (enough : measure s < fuel) :
    ∃ r, run cond body fuel s = some r ∧ (∀ s', r = .ok s' → Inv s' ∧ ¬ cond s') ∧
      ∀ e, r = .error e → Raised e := by
  induction fuel generalizing s with
  | zero => exact absurd enough (Nat.not_lt_zero _)
  | succ fuel ih =>
      by_cases again : cond s
      · rcases keeps s start again with ⟨s', hstep, hinv, hless⟩ | ⟨e, hraise, hraised⟩
        · rw [run_of_ok again hstep fuel]
          exact ih hinv (Nat.lt_of_lt_of_le hless (Nat.le_of_lt_succ enough))
        · refine ⟨.error e, run_of_error again hraise fuel, nofun, ?_⟩
          rintro e' ⟨⟩
          exact hraised
      · refine ⟨.ok s, run_of_not again (fuel + 1), ?_, nofun⟩
        rintro s' ⟨⟩
        exact ⟨start, again⟩

/-- Partial correctness: an invariant that the body keeps holds when the loop is over, and
where the body raises there is what it leaves then. -/
theorem run_keeps (Inv : σ → Prop) (Raised : ε → Prop)
    (keeps : ∀ s s', Inv s → cond s → body s = .ok s' → Inv s')
    (raises : ∀ s e, Inv s → cond s → body s = .error e → Raised e)
    {s : σ} (start : Inv s) {fuel : ℕ} {r : Except ε σ} (ended : run cond body fuel s = some r) :
    (∀ s', r = .ok s' → Inv s') ∧ ∀ e, r = .error e → Raised e := by
  induction fuel generalizing s with
  | zero =>
      rw [run] at ended
      split at ended
      · simp at ended
      · obtain rfl := Option.some.inj ended
        refine ⟨?_, nofun⟩
        rintro s' ⟨⟩
        exact start
  | succ fuel ih =>
      rw [run] at ended
      split at ended
      · rename_i again
        split at ended
        · rename_i s' hstep
          exact ih (keeps s s' start again hstep) ended
        · rename_i e hraise
          obtain rfl := Option.some.inj ended
          refine ⟨nofun, ?_⟩
          rintro e' ⟨⟩
          exact raises s e start again hraise
      · obtain rfl := Option.some.inj ended
        refine ⟨?_, nofun⟩
        rintro s' ⟨⟩
        exact start

/-- Total correctness: the loop ends without raising in a state that satisfies the
invariant and no longer the condition. -/
theorem run_total (Inv : σ → Prop) (measure : σ → ℕ)
    (keeps : ∀ s, Inv s → cond s → ∃ s', body s = .ok s' ∧ Inv s' ∧ measure s' < measure s)
    {s : σ} (start : Inv s) {fuel : ℕ} (enough : measure s ≤ fuel) :
    ∃ s', run cond body fuel s = some (.ok s') ∧ Inv s' ∧ ¬ cond s' := by
  induction fuel generalizing s with
  | zero =>
      by_cases again : cond s
      · obtain ⟨s', -, -, hless⟩ := keeps s start again
        exact absurd (Nat.lt_of_lt_of_le hless enough) (Nat.not_lt_zero _)
      · exact ⟨s, run_of_not again 0, start, again⟩
  | succ fuel ih =>
      by_cases again : cond s
      · obtain ⟨s', hstep, hinv, hless⟩ := keeps s start again
        rw [run_of_ok again hstep fuel]
        exact ih hinv (Nat.le_of_lt_succ (Nat.lt_of_lt_of_le hless enough))
      · exact ⟨s, run_of_not again (fuel + 1), start, again⟩

end WhileLoop
