/-
# Lists as lines of words

A list of texts is written as words with a blank between them and is read back element by element.
What a format must keep is that a list is read as it was written, that elements without line ends
make one line, and that plain words with blanks between them are a list as they stand.

One such format writes a word as it is if it is plain, in braces if it is not and has neither braces
nor backslashes, and otherwise with a backslash in front of each character that is not plain.
-/

import Mathlib.Data.List.Basic

namespace ListFormat

abbrev Text := List Char

/-- The characters that end a word, open a group or are substituted. -/
def special : List Char := [' ', '\t', '\n', '{', '}', '"', '\\', '[', ']', '$', ';']

def lineEnds : List Char := ['\n', '\r']

/-- A text of one line. -/
def OneLine (text : Text) : Prop := ∀ c ∈ lineEnds, c ∉ text

instance decidableOneLine : DecidablePred OneLine := fun text =>
  List.decidableBAll (· ∉ text) lineEnds

theorem isDigit_lineEnd {c : Char} (ends : c ∈ lineEnds) : c.isDigit = false := by
  obtain rfl | rfl : c = '\n' ∨ c = '\r' := by simpa [lineEnds] using ends
  · rfl
  · rfl

/-- A word that is written as it is. -/
def Plain (word : Text) : Prop := word ≠ [] ∧ ∀ c ∈ word, c ∉ special

-- over the list, since all characters can be gone through as well
instance decidablePlain (word : Text) : Decidable (Plain word) :=
  @instDecidableAnd _ _ (inferInstanceAs (Decidable (word ≠ [])))
    (List.decidableBAll (· ∉ special) word)

/-- Words with a blank between them. -/
def joined (words : List Text) : Text := [' '].intercalate words

theorem joined_cons (word : Text) (words : List Text) :
    joined (word :: words) = word ++ if words = [] then [] else ' ' :: joined words := by
  cases words with
  | nil => simp [joined]
  | cons next words => rw [joined, List.intercalate_cons_cons, joined]; simp

theorem joined_append {first : List Text} (nonempty : first ≠ []) (second : List Text) :
    joined (first ++ second) =
      joined first ++ if second = [] then [] else ' ' :: joined second := by
  induction first with
  | nil => exact absurd rfl nonempty
  | cons w words ih =>
      by_cases hwords : words = []
      · subst hwords
        rw [List.singleton_append, joined_cons, joined_cons w [], if_pos rfl, List.append_nil]
      · have hboth : words ++ second ≠ [] := by simp [hwords]
        rw [List.cons_append, joined_cons, joined_cons w words, if_neg hboth, if_neg hwords,
          ih hwords, List.append_assoc, List.cons_append]

end ListFormat

/-- A written form of lists that is read back. -/
structure ListFormat where
  /-- Write a list. -/
  list : List ListFormat.Text → ListFormat.Text
  /-- The elements of a list, `none` when the text is not one. -/
  elements : ListFormat.Text → Option (List ListFormat.Text)
  elements_list : ∀ words, elements (list words) = some words
  list_absent : ∀ c ∈ ListFormat.lineEnds, ∀ words, (∀ word ∈ words, c ∉ word) → c ∉ list words
  elements_plain : ∀ words, (∀ word ∈ words, ListFormat.Plain word) →
    elements (ListFormat.joined words) = some words

namespace ListFormat

theorem oneLine_list (format : ListFormat) {words : List Text}
    (lines : ∀ word ∈ words, OneLine word) : OneLine (format.list words) :=
  fun c ends => format.list_absent c ends words fun word mem => lines word mem c ends

/-! ## Words with braces and backslashes -/

def escape (c : Char) : Text :=
  if c = '\n' then ['\\', 'n'] else if c ∈ special then ['\\', c] else [c]

def unescape (c : Char) : Char := if c = 'n' then '\n' else c

/-- A word that can be written in braces. -/
def Unbraced (word : Text) : Prop := ∀ c ∈ word, c ∉ ['{', '}', '\\']

instance decidableUnbraced (word : Text) : Decidable (Unbraced word) :=
  List.decidableBAll (· ∉ ['{', '}', '\\']) word

def quoted (word : Text) : Text :=
  if Plain word then word
  else if Unbraced word then '{' :: word ++ ['}']
  else word.flatMap escape

/-- Where the reader is, with what it has of a word. -/
inductive Scan
  | between
  | bare (word : Text)
  /-- Behind a backslash. -/
  | escaped (word : Text)
  /-- In braces, with the number of further ones that are open. -/
  | braced (depth : ℕ) (word : Text)
  /-- Behind the braces of a word. -/
  | closed (word : Text)

def blanks : List Char := [' ', '\t', '\n']

def read : Scan → Text → Option (List Text)
  | .between, [] => some []
  | .between, c :: text =>
    if c ∈ blanks then read .between text
    else if c = '{' then read (.braced 0 []) text
    else if c = '\\' then read (.escaped []) text
    else read (.bare [c]) text
  | .bare word, [] => some [word]
  | .bare word, c :: text =>
    if c ∈ blanks then (read .between text).map (word :: ·)
    else if c = '\\' then read (.escaped word) text
    else read (.bare (word ++ [c])) text
  | .escaped _, [] => none
  | .escaped word, c :: text => read (.bare (word ++ [unescape c])) text
  | .braced _ _, [] => none
  | .braced depth word, c :: text =>
    if c = '{' then read (.braced (depth + 1) (word ++ [c])) text
    else if c = '}' then
      match depth with
      | 0 => read (.closed word) text
      | depth + 1 => read (.braced depth (word ++ [c])) text
    else read (.braced depth (word ++ [c])) text
  | .closed word, [] => some [word]
  | .closed word, c :: text =>
    if c ∈ blanks then (read .between text).map (word :: ·) else none

section Read

variable (word text : Text) (c : Char)

theorem read_between : read .between (c :: text) =
    if c ∈ blanks then read .between text
    else if c = '{' then read (.braced 0 []) text
    else if c = '\\' then read (.escaped []) text
    else read (.bare [c]) text := rfl

theorem read_bare : read (.bare word) (c :: text) =
    if c ∈ blanks then (read .between text).map (word :: ·)
    else if c = '\\' then read (.escaped word) text
    else read (.bare (word ++ [c])) text := rfl

theorem read_escaped : read (.escaped word) (c :: text) =
    read (.bare (word ++ [unescape c])) text := rfl

theorem read_braced : read (.braced 0 word) (c :: text) =
    if c = '{' then read (.braced 1 (word ++ [c])) text
    else if c = '}' then read (.closed word) text
    else read (.braced 0 (word ++ [c])) text := rfl

theorem read_closed : read (.closed word) (c :: text) =
    if c ∈ blanks then (read .between text).map (word :: ·) else none := rfl

end Read

theorem not_special {c : Char} (plain : c ∉ special) :
    c ∉ blanks ∧ c ≠ '{' ∧ c ≠ '}' ∧ c ≠ '\\' := by
  refine ⟨fun hblank => plain ?_, ?_, ?_, ?_⟩
  · simp only [blanks, List.mem_cons, List.not_mem_nil, or_false] at hblank
    obtain rfl | rfl | rfl := hblank <;> decide
  all_goals
    rintro rfl
    exact plain (by decide)

theorem read_bare_plain (word : Text) {more : Text} (plain : ∀ c ∈ more, c ∉ special)
    (rest : Text) : read (.bare word) (more ++ rest) = read (.bare (word ++ more)) rest := by
  induction more generalizing word with
  | nil => simp
  | cons c more ih =>
      obtain ⟨hblank, -, -, hbackslash⟩ := not_special (plain c List.mem_cons_self)
      rw [List.cons_append, read_bare, if_neg hblank, if_neg hbackslash,
        ih _ fun d hd => plain d (List.mem_cons_of_mem c hd), List.append_assoc,
        List.singleton_append]

theorem read_unbraced (word : Text) {more : Text} (unbraced : Unbraced more) (rest : Text) :
    read (.braced 0 word) (more ++ '}' :: rest) = read (.closed (word ++ more)) rest := by
  induction more generalizing word with
  | nil => simp [read_braced]
  | cons c more ih =>
      have hc := unbraced c List.mem_cons_self
      simp only [List.mem_cons, List.not_mem_nil, or_false, not_or] at hc
      rw [List.cons_append, read_braced, if_neg hc.1, if_neg hc.2.1,
        ih _ fun d hd => unbraced d (List.mem_cons_of_mem c hd), List.append_assoc,
        List.singleton_append]

theorem read_bare_escape (word : Text) (c : Char) (rest : Text) :
    read (.bare word) (escape c ++ rest) = read (.bare (word ++ [c])) rest := by
  unfold escape
  split_ifs with hnewline hspecial
  · subst hnewline
    simp [read_bare, read_escaped, blanks, unescape]
  · have hn : c ≠ 'n' := by
      rintro rfl
      exact absurd hspecial (by decide)
    simp [read_bare, read_escaped, blanks, unescape, hn]
  · exact read_bare_plain word (by simpa using hspecial) rest

theorem read_bare_escapes (word more rest : Text) :
    read (.bare word) (more.flatMap escape ++ rest) = read (.bare (word ++ more)) rest := by
  induction more generalizing word with
  | nil => simp
  | cons c more ih =>
      rw [List.flatMap_cons, List.append_assoc, read_bare_escape, ih, List.append_assoc,
        List.singleton_append]

theorem read_between_escape (c : Char) (rest : Text) :
    read .between (escape c ++ rest) = read (.bare [c]) rest := by
  unfold escape
  split_ifs with hnewline hspecial
  · subst hnewline
    simp [read_between, read_escaped, blanks, unescape]
  · have hn : c ≠ 'n' := by
      rintro rfl
      exact absurd hspecial (by decide)
    simp [read_between, read_escaped, blanks, unescape, hn]
  · obtain ⟨hblank, hbrace, -, hbackslash⟩ := not_special hspecial
    rw [List.singleton_append, read_between, if_neg hblank, if_neg hbrace, if_neg hbackslash]

/-- What may follow a word. -/
def Ends (rest : Text) : Prop := rest = [] ∨ ∃ more, rest = ' ' :: more

theorem Ends.bare {rest : Text} (ends : Ends rest) (word : Text) :
    read (.bare word) rest = (read .between rest).map (word :: ·) := by
  obtain rfl | ⟨more, rfl⟩ := ends
  · rfl
  · simp [read_bare, read_between, blanks]

theorem Ends.closed {rest : Text} (ends : Ends rest) (word : Text) :
    read (.closed word) rest = (read .between rest).map (word :: ·) := by
  obtain rfl | ⟨more, rfl⟩ := ends
  · rfl
  · simp [read_closed, read_between, blanks]

theorem read_plain {word rest : Text} (plain : Plain word) (ends : Ends rest) :
    read .between (word ++ rest) = (read .between rest).map (word :: ·) := by
  obtain ⟨hnonempty, hplain⟩ := plain
  obtain ⟨c, word, rfl⟩ := List.exists_cons_of_ne_nil hnonempty
  obtain ⟨hblank, hbrace, -, hbackslash⟩ := not_special (hplain c List.mem_cons_self)
  rw [List.cons_append, read_between, if_neg hblank, if_neg hbrace, if_neg hbackslash,
    read_bare_plain _ fun d hd => hplain d (List.mem_cons_of_mem c hd), List.singleton_append,
    ends.bare]

/-- A word is read back from the way it is written. -/
theorem read_quoted (word : Text) {rest : Text} (ends : Ends rest) :
    read .between (quoted word ++ rest) = (read .between rest).map (word :: ·) := by
  unfold quoted
  split_ifs with hplain hunbraced
  · exact read_plain hplain ends
  · have hopen : read .between ('{' :: (word ++ '}' :: rest)) =
        read (.braced 0 []) (word ++ '}' :: rest) := by
      simp [read_between, blanks]
    rw [List.cons_append, List.cons_append, List.append_assoc, List.singleton_append, hopen,
      read_unbraced [] hunbraced, List.nil_append, ends.closed]
  · cases word with
    | nil => exact absurd nofun hunbraced
    | cons c word =>
        rw [List.flatMap_cons, List.append_assoc, read_between_escape, read_bare_escapes,
          List.singleton_append, ends.bare]

theorem ends_joined (words : List Text) :
    Ends (if words = [] then [] else ' ' :: joined words) := by
  split_ifs with hempty
  · exact .inl rfl
  · exact .inr ⟨_, rfl⟩

theorem read_blank (words : List Text) :
    read .between (if words = [] then [] else ' ' :: joined words) =
      read .between (joined words) := by
  split_ifs with hempty
  · rw [hempty]
    rfl
  · simp [read_between, blanks]

theorem read_joined_quoted (words : List Text) :
    read .between (joined (words.map quoted)) = some words := by
  induction words with
  | nil => rfl
  | cons word words ih =>
      rw [List.map_cons, joined_cons, read_quoted word (ends_joined _), read_blank, ih]
      rfl

theorem read_joined_plain {words : List Text} (plain : ∀ word ∈ words, Plain word) :
    read .between (joined words) = some words := by
  induction words with
  | nil => rfl
  | cons word words ih =>
      rw [joined_cons, read_plain (plain word List.mem_cons_self) (ends_joined _), read_blank,
        ih fun w hw => plain w (List.mem_cons_of_mem word hw)]
      rfl

variable {c : Char}

theorem not_mem_escape (ends : c ∈ lineEnds) {d : Char} (ne : c ≠ d) : c ∉ escape d := by
  have hother : c ≠ '\\' ∧ c ≠ 'n' := by
    obtain rfl | rfl : c = '\n' ∨ c = '\r' := by simpa [lineEnds] using ends
    · decide
    · decide
  unfold escape
  split_ifs with hnewline hspecial
  · simp [hother]
  · simp [hother, ne]
  · simp [ne]

theorem not_mem_quoted (ends : c ∈ lineEnds) {word : Text} (absent : c ∉ word) :
    c ∉ quoted word := by
  unfold quoted
  split_ifs with hplain hunbraced
  · exact absent
  · have hbraces : c ≠ '{' ∧ c ≠ '}' := by
      obtain rfl | rfl : c = '\n' ∨ c = '\r' := by simpa [lineEnds] using ends
      · decide
      · decide
    simp [absent, hbraces]
  · intro hmem
    obtain ⟨d, hd, hc⟩ := List.mem_flatMap.mp hmem
    exact not_mem_escape ends (fun hsame => absent (hsame ▸ hd)) hc

theorem not_mem_joined (blank : c ≠ ' ') {words : List Text} (absent : ∀ word ∈ words, c ∉ word) :
    c ∉ joined words := by
  induction words with
  | nil => simp [joined]
  | cons word words ih =>
      have hfirst := absent word List.mem_cons_self
      have hrest := ih fun w hw => absent w (List.mem_cons_of_mem word hw)
      rw [joined_cons, List.mem_append]
      rintro (hmem | hmem)
      · exact hfirst hmem
      · split_ifs at hmem
        · exact absurd hmem List.not_mem_nil
        · obtain heq | hmem := List.mem_cons.mp hmem
          · exact blank heq
          · exact hrest hmem

theorem not_mem_joined_quoted (c : Char) (ends : c ∈ lineEnds) (words : List Text)
    (absent : ∀ word ∈ words, c ∉ word) : c ∉ joined (words.map quoted) := by
  refine not_mem_joined ?_ fun written hwritten => ?_
  · rintro rfl
    exact absurd ends (by decide)
  · obtain ⟨word, hword, rfl⟩ := List.mem_map.mp hwritten
    exact not_mem_quoted ends (absent word hword)

/-- Words in braces or with backslashes where they need it. -/
def quoting : ListFormat where
  list words := joined (words.map quoted)
  elements := read .between
  elements_list := read_joined_quoted
  list_absent := not_mem_joined_quoted
  elements_plain _ := read_joined_plain

example : quoting.list ["tag1".toList, "get power".toList, []] = "tag1 {get power} {}".toList := by
  decide

end ListFormat
