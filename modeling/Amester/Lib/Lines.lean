/-
# Texts and their lines

A text is cut into lines at every separator. What stands behind the last separator is a line
too, unless it is empty. Lines without separators are read back from the text that has a
separator behind each of them.
-/

import Mathlib.Data.List.Basic

namespace Lines

universe u

variable {α : Type u} (sep : α)

/-- The text has nothing behind its last separator. -/
def Closed (text : List α) : Prop := text = [] ∨ text.getLast? = some sep

variable {sep}

theorem closed_append_sep (line rest : List α) :
    Closed sep (line ++ sep :: rest) ↔ Closed sep rest := by
  cases rest with
  | nil => simp [Closed]
  | cons c rest => simp [Closed, List.getLast?_append, List.getLast?_cons]

theorem closed_of_not_mem {text : List α} (absent : sep ∉ text) : Closed sep text ↔ text = [] := by
  refine ⟨fun hclosed => ?_, Or.inl⟩
  obtain hnil | hlast := hclosed
  · exact hnil
  · exact absurd (List.mem_of_getLast? hlast) absent

variable [DecidableEq α] (sep)

/-- The lines of a text. What stands behind the last separator is one too, unless it is
empty. -/
def lines : List α → List (List α)
  | [] => []
  | c :: text =>
    if c = sep then [] :: lines text
    else
      match lines text with
      | [] => [[c]]
      | line :: rest => (c :: line) :: rest

/-- Lines with a separator behind each. -/
def unlines (lines : List (List α)) : List α := lines.flatMap fun line => line ++ [sep]

/-- The first line and what stands behind its separator. -/
def cut : List α → Option (List α × List α)
  | [] => none
  | c :: text =>
    if c = sep then some ([], text)
    else (cut text).map fun parts => (c :: parts.1, parts.2)

variable {sep}

theorem cut_eq_none_iff {text : List α} : cut sep text = none ↔ sep ∉ text := by
  induction text with
  | nil => simp [cut]
  | cons c text ih =>
      by_cases hc : c = sep
      · simp [cut, hc]
      · rw [cut, if_neg hc, Option.map_eq_none_iff, ih, List.mem_cons, not_or]
        exact ⟨fun h => ⟨Ne.symm hc, h⟩, fun h => h.2⟩

theorem cut_eq_some {text line rest : List α} (found : cut sep text = some (line, rest)) :
    text = line ++ sep :: rest ∧ sep ∉ line := by
  induction text generalizing line with
  | nil => simp [cut] at found
  | cons c text ih =>
      rw [cut] at found
      split at found
      · rename_i hc
        obtain ⟨rfl, rfl⟩ := Prod.mk.inj (Option.some.inj found)
        exact ⟨by rw [hc]; rfl, List.not_mem_nil⟩
      · rename_i hc
        obtain ⟨⟨line, rest⟩, hcut, hparts⟩ := Option.map_eq_some_iff.mp found
        obtain ⟨rfl, rfl⟩ := Prod.mk.inj hparts
        obtain ⟨rfl, habsent⟩ := ih hcut
        refine ⟨rfl, ?_⟩
        rw [List.mem_cons, not_or]
        exact ⟨Ne.symm hc, habsent⟩

theorem lines_append_sep {line : List α} (absent : sep ∉ line) (rest : List α) :
    lines sep (line ++ sep :: rest) = line :: lines sep rest := by
  induction line with
  | nil => rw [List.nil_append, lines, if_pos rfl]
  | cons c line ih =>
      rw [List.mem_cons, not_or] at absent
      rw [List.cons_append, lines, if_neg (Ne.symm absent.1), ih absent.2]

theorem lines_of_not_mem {line : List α} (absent : sep ∉ line) (nonempty : line ≠ []) :
    lines sep line = [line] := by
  induction line with
  | nil => exact absurd rfl nonempty
  | cons c line ih =>
      rw [List.mem_cons, not_or] at absent
      rw [lines, if_neg (Ne.symm absent.1)]
      cases line with
      | nil => rfl
      | cons d line => rw [ih absent.2 (List.cons_ne_nil d line)]

theorem sep_not_mem_of_mem_lines {text line : List α} (mem : line ∈ lines sep text) :
    sep ∉ line := by
  induction text generalizing line with
  | nil => exact absurd mem List.not_mem_nil
  | cons c text ih =>
      rw [lines] at mem
      split at mem
      · obtain rfl | hmem := List.mem_cons.mp mem
        · exact List.not_mem_nil
        · exact ih hmem
      · rename_i hc
        split at mem
        · obtain rfl := List.mem_singleton.mp mem
          simpa using Ne.symm hc
        · rename_i first rest hlines
          obtain rfl | hmem := List.mem_cons.mp mem
          · rw [List.mem_cons, not_or]
            exact ⟨Ne.symm hc, ih (by rw [hlines]; exact List.mem_cons_self)⟩
          · exact ih (by rw [hlines]; exact List.mem_cons_of_mem _ hmem)

/-- Lines with a separator behind each are read back. -/
theorem lines_unlines {parts : List (List α)} (absent : ∀ line ∈ parts, sep ∉ line) :
    lines sep (unlines sep parts) = parts := by
  induction parts with
  | nil => rfl
  | cons line parts ih =>
      have hline := absent line List.mem_cons_self
      have hrest := ih fun line hmem => absent line (List.mem_cons_of_mem _ hmem)
      rw [unlines, List.flatMap_cons, List.append_assoc, List.singleton_append,
        lines_append_sep hline, ← unlines, hrest]

theorem unlines_inj {first second : List (List α)} (absent : ∀ line ∈ first, sep ∉ line)
    (absent' : ∀ line ∈ second, sep ∉ line) :
    unlines sep first = unlines sep second ↔ first = second := by
  refine ⟨fun same => ?_, congrArg (unlines sep)⟩
  rw [← lines_unlines absent, same, lines_unlines absent']

end Lines
