/-
# Names and patterns

A pattern matches names character by character: a question mark stands for any character
and a star for any string. A literal followed by a star matches the names that begin with
the literal.
-/

import Mathlib.Algebra.Group.Nat.Defs
import Mathlib.Data.List.Infix
import Mathlib.Tactic.Common

namespace Glob

abbrev Text := List Char

/-- Whether a pattern of literals, question marks and stars matches a text. -/
def stringMatch : Text → Text → Bool
  | [], text => text.isEmpty
  | c :: pattern, text =>
    if c = '*' then text.tails.any (stringMatch pattern)
    else match text with
      | [] => false
      | d :: text => (c = '?' || c = d) && stringMatch pattern text

/-- A text without stars and question marks. -/
def Literal (text : Text) : Prop := ∀ c ∈ text, c ≠ '*' ∧ c ≠ '?'

theorem literal_cons {c : Char} {text : Text} :
    Literal (c :: text) ↔ (c ≠ '*' ∧ c ≠ '?') ∧ Literal text := by
  simp only [Literal, List.forall_mem_cons]

theorem stringMatch_star (text : Text) : stringMatch ['*'] text = true := by
  have hnil : [] ∈ text.tails := (List.mem_tails _ _).mpr List.nil_suffix
  cases text with
  | nil => rfl
  | cons d text =>
      simp only [stringMatch, if_true, List.any_eq_true]
      exact ⟨[], hnil, rfl⟩

/-- A literal followed by a star matches what begins with the literal. -/
theorem stringMatch_literal_star {literal : Text} (plain : Literal literal) (text : Text) :
    stringMatch (literal ++ ['*']) text = true ↔ literal <+: text := by
  induction literal generalizing text with
  | nil =>
      rw [List.nil_append]
      exact iff_of_true (stringMatch_star text) List.nil_prefix
  | cons c literal ih =>
      obtain ⟨⟨hstar, hany⟩, hplain⟩ := literal_cons.mp plain
      cases text with
      | nil => simp [stringMatch, hstar]
      | cons d text =>
          simp only [List.cons_append, stringMatch, if_neg hstar, hany, decide_false,
            Bool.false_or, Bool.and_eq_true, decide_eq_true_eq, ih hplain text,
            List.cons_prefix_cons]

/-- A literal matches itself only. -/
theorem stringMatch_literal {literal : Text} (plain : Literal literal) (text : Text) :
    stringMatch literal text = true ↔ literal = text := by
  induction literal generalizing text with
  | nil => cases text <;> simp [stringMatch]
  | cons c literal ih =>
      obtain ⟨⟨hstar, hany⟩, hplain⟩ := literal_cons.mp plain
      cases text with
      | nil => simp [stringMatch, hstar]
      | cons d text =>
          simp only [stringMatch, if_neg hstar, hany, decide_false, Bool.false_or,
            Bool.and_eq_true, decide_eq_true_eq, ih hplain text, List.cons.injEq]

/-- A text without the separator begins what stands before the separator. -/
theorem prefix_append_separator {literal text : Text} {c : Char} (absent : c ∉ literal)
    (rest : Text) : literal <+: text ++ c :: rest ↔ literal <+: text := by
  constructor
  · intro hinit
    rcases List.prefix_or_prefix_of_prefix hinit (List.prefix_append text (c :: rest)) with
      hshort | ⟨more, hlong⟩
    · exact hshort
    · subst hlong
      cases more with
      | nil => rw [List.append_nil]
      | cons d more =>
          rw [List.prefix_append_right_inj, List.cons_prefix_cons] at hinit
          obtain ⟨rfl, -⟩ := hinit
          exact absurd (List.mem_append_right _ List.mem_cons_self) absent
  · intro hinit
    exact hinit.trans (List.prefix_append _ _)

end Glob
