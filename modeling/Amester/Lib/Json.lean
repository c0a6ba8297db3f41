/-
# Reading JSON texts

A reader takes a value off the front of a text. Readers of numbers, lists and objects
with one member follow the grammar of JSON: a number has no leading zero, between the
elements of a list there is one comma, and blanks may stand around every value.

The numbers here are natural numbers without fraction or exponent, and keys are compared
letter by letter, without escapes.
-/

import Mathlib.Data.List.Basic
import Mathlib.Data.Nat.Notation
import Amester.Lib.Numeral

namespace Json

open Numeral

universe u

/-- A value and the text behind it, if the text begins with a value. -/
abbrev Reader (α : Type u) := List Char → Option (α × List Char)

variable {α : Type u}

/-! ## Readers -/

def blank (c : Char) : Bool := c = ' ' || c = '\t' || c = '\n' || c = '\r'

/-- The text behind its leading blanks. -/
def skip (text : List Char) : List Char := text.dropWhile blank

/-- A number, written as its decimal text. -/
def number : Reader ℕ := fun text =>
  let n := Nat.ofDigitChars 10 (text.takeWhile Char.isDigit) 0
  if text.takeWhile Char.isDigit = decimal n then some (n, text.dropWhile Char.isDigit) else none

/-- The elements of a list and the bracket behind them; `fuel` bounds their count. -/
def items (item : Reader α) : ℕ → Reader (List α)
  | 0, _ => none
  | fuel + 1, text =>
    match item (skip text) with
    | none => none
    | some (x, behind) =>
      match skip behind with
      | ',' :: rest => (items item fuel rest).map fun r => (x :: r.1, r.2)
      | ']' :: rest => some ([x], rest)
      | _ => none

/-- `[..]` -/
def list (item : Reader α) : Reader (List α) := fun text =>
  match text with
  | '[' :: inside =>
    match skip inside with
    | ']' :: rest => some ([], rest)
    | _ => items item inside.length inside
  | _ => none

/-- The text behind another one. -/
def behind (expected text : List Char) : Option (List Char) :=
  if text.take expected.length = expected then some (text.drop expected.length) else none

/-- `{"key": ..}` -/
def member (key : List Char) (value : Reader α) : Reader α := fun text =>
  match text with
  | '{' :: inside =>
    match behind ('"' :: key ++ ['"']) (skip inside) with
    | none => none
    | some rest =>
      match skip rest with
      | ':' :: rest =>
        match value (skip rest) with
        | none => none
        | some (x, rest) =>
          match skip rest with
          | '}' :: rest => some (x, rest)
          | _ => none
      | _ => none
  | _ => none

/-- A whole text that is one value. -/
def document (value : Reader α) (text : List Char) : Option α :=
  match value (skip text) with
  | some (x, rest) => if skip rest = [] then some x else none
  | none => none

/-! ## Blanks -/

theorem skip_cons_of_not_blank {c : Char} (text : List Char) (h : blank c = false) :
    skip (c :: text) = c :: text := by
  simp [skip, h]

theorem skip_blanks_append {blanks : List Char} (all : ∀ c ∈ blanks, blank c = true)
    (text : List Char) : skip (blanks ++ text) = skip text := by
  induction blanks with
  | nil => rfl
  | cons c blanks ih =>
      have hblank := all c List.mem_cons_self
      rw [skip, List.cons_append, List.dropWhile_cons_of_pos hblank]
      exact ih fun c hc => all c (List.mem_cons_of_mem _ hc)

/-! ## Texts that are read -/

/-- The text is read as the value, whatever follows that is not a digit. -/
def Reads (value : Reader α) (text : List Char) (x : α) : Prop :=
  ∀ rest : List Char, (∀ c ∈ rest.head?, c.isDigit = false) →
    value (text ++ rest) = some (x, rest)

/-- The text is read as the value when blanks stand around it, up to a character behind
it that is neither a blank nor a digit. -/
def ReadsInside (value : Reader α) (text : List Char) (x : α) : Prop :=
  ∀ (c : Char) (rest : List Char), blank c = false → c.isDigit = false →
    ∃ remaining, value (skip (text ++ c :: rest)) = some (x, remaining) ∧ skip remaining = c :: rest

theorem isDigit_of_blank {c : Char} (h : blank c = true) : c.isDigit = false := by
  simp only [blank, Bool.or_eq_true, decide_eq_true_eq] at h
  obtain ((rfl | rfl) | rfl) | rfl := h <;> rfl

/-- Blanks may be added around a text. -/
theorem Reads.inside {value : Reader α} {c : Char} {text : List Char} {x : α}
    (reads : Reads value (c :: text) x) (start : blank c = false) {front back : List Char}
    (hfront : ∀ c ∈ front, blank c = true) (hback : ∀ c ∈ back, blank c = true) :
    ReadsInside value (front ++ (c :: text) ++ back) x := by
  intro stop rest hblank hdigit
  refine ⟨back ++ stop :: rest, ?_, ?_⟩
  · rw [List.append_assoc, List.append_assoc, skip_blanks_append hfront, List.cons_append,
      skip_cons_of_not_blank _ start, ← List.cons_append]
    apply reads
    intro d hd
    cases back with
    | nil =>
        obtain rfl : stop = d := by simpa using hd
        exact hdigit
    | cons b back =>
        obtain rfl : b = d := by simpa using hd
        exact isDigit_of_blank (hback b List.mem_cons_self)
  · rw [skip_blanks_append hback, skip_cons_of_not_blank _ hblank]

/-- A number is read from its decimal text. -/
theorem reads_number (n : ℕ) : Reads number (decimal n) n := by
  intro rest hstop
  have hall : ∀ c ∈ decimal n, c.isDigit = true := fun c hc => isDigit_of_mem_decimal hc
  have htake : (decimal n ++ rest).takeWhile Char.isDigit = decimal n := by
    rw [List.takeWhile_append_of_pos hall]
    cases rest with
    | nil => simp
    | cons c rest => simp [hstop c rfl]
  have hdrop : (decimal n ++ rest).dropWhile Char.isDigit = rest := by
    rw [List.dropWhile_append_of_pos hall]
    cases rest with
    | nil => simp
    | cons c rest => simp [hstop c rfl]
  rw [number, htake, hdrop, ofDigitChars_decimal, if_pos rfl]

theorem eq_append_of_number {text rest : List Char} {n : ℕ} (h : number text = some (n, rest)) :
    text = decimal n ++ rest := by
  simp only [number, Option.ite_none_right_eq_some, Option.some.injEq, Prod.mk.injEq] at h
  obtain ⟨hcanonical, rfl, rfl⟩ := h
  rw [← hcanonical, List.takeWhile_append_dropWhile]

/-- No number begins with such a character. -/
theorem number_of_not_digit {c : Char} (h : c.isDigit = false) (text : List Char) :
    number (c :: text) = none := by
  rw [number, List.takeWhile_cons_of_neg (by simp [h])]
  exact if_neg fun hnil => decimal_ne_nil _ hnil.symm

/-! ## Lists -/

/-- The texts, each with a comma behind it. -/
def eachComma (texts : List (List Char)) : List Char := texts.flatMap (· ++ [','])

/-- The texts with commas between them. -/
def joinComma : List (List Char) → List Char
  | [] => []
  | [text] => text
  | text :: texts => text ++ ',' :: joinComma texts

theorem joinComma_cons_cons (text text' : List Char) (texts : List (List Char)) :
    joinComma (text :: text' :: texts) = text ++ ',' :: joinComma (text' :: texts) := rfl

/-- A comma behind all but the last text joins them. -/
theorem eachComma_append_joinComma (front : List (List Char)) {texts : List (List Char)}
    (nonempty : texts ≠ []) : eachComma front ++ joinComma texts = joinComma (front ++ texts) := by
  induction front with
  | nil => rfl
  | cons text front ih =>
      obtain ⟨next, rest, hnext⟩ : ∃ next rest, front ++ texts = next :: rest :=
        List.exists_cons_of_ne_nil (by simp [nonempty])
      rw [List.cons_append, hnext, joinComma_cons_cons, ← hnext, ← ih]
      simp [eachComma]

section Items

variable {item : Reader α}

theorem items_cons_comma {text : List Char} {x : α} (reads : ReadsInside item text x) (fuel : ℕ)
    (rest : List Char) :
    items item (fuel + 1) (text ++ ',' :: rest) =
      (items item fuel rest).map fun r => (x :: r.1, r.2) := by
  obtain ⟨remaining, hitem, hskip⟩ := reads ',' rest rfl rfl
  rw [items, hitem]
  simp only [hskip]

theorem items_last {text : List Char} {x : α} (reads : ReadsInside item text x) (fuel : ℕ)
    (rest : List Char) : items item (fuel + 1) (text ++ ']' :: rest) = some ([x], rest) := by
  obtain ⟨remaining, hitem, hskip⟩ := reads ']' rest rfl rfl
  rw [items, hitem]
  simp only [hskip]

/-- A comma behind the last element is not read. -/
theorem items_eachComma_close {texts : List (List Char)} {xs : List α}
    (reads : List.Forall₂ (ReadsInside item) texts xs) {rest : List Char}
    (closed : item (']' :: rest) = none) (fuel : ℕ) :
    items item fuel (eachComma texts ++ ']' :: rest) = none := by
  induction reads generalizing fuel with
  | nil =>
      cases fuel with
      | zero => rfl
      | succ fuel =>
          rw [eachComma, List.flatMap_nil, List.nil_append, items,
            skip_cons_of_not_blank rest rfl, closed]
  | @cons text x texts xs h hs ih =>
      cases fuel with
      | zero => rfl
      | succ fuel =>
          have htext : eachComma (text :: texts) ++ ']' :: rest =
              text ++ ',' :: (eachComma texts ++ ']' :: rest) := by
            simp [eachComma]
          rw [htext, items_cons_comma h, ih, Option.map_none]

/-- Elements with commas between them, and a bracket behind. -/
theorem items_joinComma {texts : List (List Char)} {xs : List α}
    (reads : List.Forall₂ (ReadsInside item) texts xs) (nonempty : texts ≠ []) {fuel : ℕ}
    (enough : texts.length ≤ fuel) (rest : List Char) :
    items item fuel (joinComma texts ++ ']' :: rest) = some (xs, rest) := by
  induction reads generalizing fuel with
  | nil => exact absurd rfl nonempty
  | @cons text x texts xs h hs ih =>
      obtain ⟨fuel, rfl⟩ : ∃ k, fuel = k + 1 :=
        ⟨fuel - 1, by rw [List.length_cons] at enough; omega⟩
      rw [List.length_cons, Nat.succ_le_succ_iff] at enough
      cases hs with
      | nil => exact items_last h fuel rest
      | @cons text' x' texts' xs' h' hs' =>
          rw [joinComma_cons_cons, List.append_assoc, List.cons_append, items_cons_comma h,
            ih (List.cons_ne_nil _ _) enough]
          rfl

theorem length_le_length_joinComma (texts : List (List Char)) :
    texts.length ≤ (joinComma texts).length + 1 := by
  fun_induction joinComma texts with
  | case1 => exact Nat.zero_le _
  | case2 text => simp
  | case3 text texts nonempty ih =>
      rw [List.length_cons, List.length_append, List.length_cons]
      omega

/-- A list is read from the texts of its elements with commas between them. -/
theorem reads_list {texts : List (List Char)} {xs : List α}
    (reads : List.Forall₂ (ReadsInside item) texts xs) (nonempty : texts ≠ [])
    (closed : ∀ rest, item (']' :: rest) = none) :
    Reads (list item) ('[' :: joinComma texts ++ [']']) xs := by
  intro rest _
  have enough : texts.length ≤ (joinComma texts ++ ']' :: rest).length := by
    have hlength := length_le_length_joinComma texts
    rw [List.length_append, List.length_cons]
    omega
  have hitems := items_joinComma reads nonempty enough rest
  have htext : '[' :: joinComma texts ++ [']'] ++ rest =
      '[' :: (joinComma texts ++ ']' :: rest) := by
    simp
  rw [htext, list]
  split
  · rename_i behind hskip
    rw [items.eq_def] at hitems
    split at hitems
    · simp at hitems
    · rw [hskip, closed] at hitems
      simp at hitems
  · exact hitems

/-- A text that does not begin with an element is not the inside of a list. -/
theorem items_of_none {text : List Char} (h : item (skip text) = none) (fuel : ℕ) :
    items item fuel text = none := by
  cases fuel with
  | zero => rfl
  | succ fuel => rw [items, h]

theorem list_of_none {c : Char} {inside rest : List Char} (start : skip inside = c :: rest)
    (open_ : c ≠ ']') (h : items item inside.length inside = none) :
    list item ('[' :: inside) = none := by
  rw [list, start]
  split
  · rename_i hclose
    exact absurd (List.cons.inj hclose).1 open_
  · exact h

end Items

/-! ## Objects and documents -/

theorem eq_append_of_behind {expected text rest : List Char}
    (h : behind expected text = some rest) :
    text = expected ++ rest := by
  simp only [behind, Option.ite_none_right_eq_some, Option.some.injEq] at h
  obtain ⟨htake, rfl⟩ := h
  calc
    text = text.take expected.length ++ text.drop expected.length :=
      (List.take_append_drop _ _).symm
    _ = expected ++ text.drop expected.length := by rw [htake]

theorem behind_append (expected text : List Char) :
    behind expected (expected ++ text) = some text := by
  rw [behind, List.take_left, if_pos rfl, List.drop_left]

section Member

variable {value : Reader α} {key : List Char}

/-- An object with one member is read from the text of its value. -/
theorem reads_member {text : List Char} {x : α} (reads : ReadsInside value text x) :
    Reads (member key value) ('{' :: ('"' :: key ++ ['"']) ++ ':' :: text ++ ['}']) x := by
  intro rest _
  obtain ⟨remaining, hvalue, hskip⟩ := reads '}' rest rfl rfl
  have htext : '{' :: ('"' :: key ++ ['"']) ++ ':' :: text ++ ['}'] ++ rest =
      '{' :: ('"' :: (key ++ ['"'] ++ ':' :: (text ++ '}' :: rest))) := by
    simp
  have hbehind : behind ('"' :: key ++ ['"'])
      ('"' :: (key ++ ['"'] ++ ':' :: (text ++ '}' :: rest))) =
        some (':' :: (text ++ '}' :: rest)) :=
    behind_append _ _
  rw [htext, member, skip_cons_of_not_blank _ rfl, hbehind]
  simp only [skip_cons_of_not_blank (text ++ '}' :: rest) (c := ':') rfl, hvalue, hskip]

theorem member_of_none {text : List Char} (h : value (skip text) = none) :
    member key value ('{' :: ('"' :: key ++ ['"']) ++ ':' :: text) = none := by
  have hbehind : behind ('"' :: key ++ ['"']) ('"' :: (key ++ ['"'] ++ ':' :: text)) =
      some (':' :: text) :=
    behind_append _ _
  rw [List.cons_append, List.cons_append, List.cons_append, member, skip_cons_of_not_blank _ rfl,
    hbehind]
  simp only [skip_cons_of_not_blank text (c := ':') rfl, h]

theorem document_of_reads {c : Char} {text : List Char} {x : α} (reads : Reads value (c :: text) x)
    (start : blank c = false) : document value (c :: text) = some x := by
  have hvalue := reads [] (by simp)
  rw [List.append_nil] at hvalue
  rw [document, skip_cons_of_not_blank _ start, hvalue]
  rfl

theorem document_of_none {c : Char} {text : List Char} (start : blank c = false)
    (h : value (c :: text) = none) : document value (c :: text) = none := by
  rw [document, skip_cons_of_not_blank _ start, h]

end Member

end Json
