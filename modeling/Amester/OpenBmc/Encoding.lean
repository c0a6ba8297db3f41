/-
# The body of a post

A request is posted as the text of a JSON object: under `data` a list with one list of
numbers. The text is put together from the count, the command and the data, whose bytes a
loop converts one by one, with a comma behind each but the last.

The comma in front of the data is always there, and the count has one element of the list
to itself. So the text is the request for one up to 253 bytes of data: without data the list
ends in a comma, and a larger count is no byte.
-/

import Amester.Lib.Json
import Amester.OpenBmc.Session

namespace Amester.OpenBmc

open BinaryFormat Json Numeral

/-- The loop over the data from byte `x` on: `data2` are their digits, `len` is their
number, and the last argument counts the bytes left. -/
def myData (data2 : List Digit) (len : ℕ) : ℕ → ℕ → List Char
  | _, 0 => []
  | x, n + 1 =>
    decimal (hexValue ((data2.drop (2 * x)).take 2)) ++ (if x ≠ len - 1 then [','] else []) ++
      myData data2 len (x + 1) n

/-- `PssThruData` of `openbmc_send`. -/
def pssThruText (cmd : Hex2) (data : Bytes) : List Char :=
  "\x7b\"data\": [ [65,0,".toList ++ decimal (data.length + 2) ++ ",".toList ++
    decimal cmd.value.toNat ++ ",0,".toList ++
    myData (hexDigits data) data.length 0 data.length ++ "] ] \x7d".toList

/-- `PssThruData` of `openbmc2_send`. -/
def pssThruText2 : Hex2 → Bytes → List Char := pssThruText

example : pssThruText ⟨3, 12⟩ [0xfd, 0x0f, 0xfa] =
    "\x7b\"data\": [ [65,0,5,60,0,253,15,250] ] \x7d".toList := by
  decide +kernel

/-! ## Data -/

/-- The loop writes the numbers of the bytes with commas between them. -/
theorem myData_eq (front data : Bytes) :
    myData (hexDigits (front ++ data)) (front ++ data).length front.length data.length =
      joinComma (data.map fun b => decimal b.toNat) := by
  induction data generalizing front with
  | nil => rfl
  | cons b rest ih =>
      have hfield : ((hexDigits (front ++ b :: rest)).drop (2 * front.length)).take 2 =
          digitsOf b := by
        have hdigits : hexDigits (front ++ b :: rest) =
            hexDigits front ++ (digitsOf b ++ hexDigits rest) := by
          simp [hexDigits]
        rw [hdigits, List.drop_left' (length_hexDigits front)]
        rfl
      have hnext := ih (front ++ [b])
      have hindex : (front ++ [b]).length = front.length + 1 := by simp
      rw [hindex, List.append_assoc, List.singleton_append] at hnext
      rw [List.length_cons, myData, hfield, hexValue_digitsOf]
      cases rest with
      | nil => simp [myData, joinComma]
      | cons b' rest =>
          have hcomma : front.length ≠ (front ++ b :: b' :: rest).length - 1 := by
            rw [List.length_append, List.length_cons, List.length_cons]
            omega
          rw [if_pos hcomma]
          rw [hnext, List.map_cons, List.map_cons, List.map_cons, joinComma_cons_cons,
            List.append_assoc, List.singleton_append]

/-- The number of a command is its byte. -/
theorem toNat_value (cmd : Hex2) : cmd.value.toNat = cmd.byte.toNat := by
  rw [← Hex2.byte_toNat, Int.toNat_natCast]

/-! ## Reading the body -/

/-- The body is an object with a list of lists of numbers under `data`. -/
def bodyReader : Json.Reader (List (List ℕ)) := member "data".toList (list (list number))

/-- The numbers in front of the data. -/
def headNumbers (cmd : Hex2) (data : Bytes) : List ℕ :=
  [65, 0, data.length + 2, cmd.byte.toNat, 0]

/-- The text of the list of numbers. -/
def numbersText (cmd : Hex2) (data : Bytes) : List Char :=
  '[' :: (eachComma ((headNumbers cmd data).map decimal) ++
    joinComma (data.map fun b => decimal b.toNat)) ++ [']']

/-- The text of the list around it, with its blanks. -/
def listText (cmd : Hex2) (data : Bytes) : List Char :=
  [' '] ++ ('[' :: ([' '] ++ numbersText cmd data ++ [' ']) ++ [']']) ++ [' ']

private theorem pssThruText_eq (cmd : Hex2) (data : Bytes) :
    pssThruText cmd data =
      '{' :: ('"' :: "data".toList ++ ['"']) ++ ':' :: listText cmd data ++ ['}'] := by
  have hdata := myData_eq [] data
  rw [List.nil_append, List.length_nil] at hdata
  have h65 : decimal 65 = ['6', '5'] := by decide +kernel
  have h0 : decimal 0 = ['0'] := by decide +kernel
  unfold pssThruText
  rw [hdata, toNat_value]
  simp [listText, numbersText, eachComma, headNumbers, h65, h0]

private theorem readsInside_number (n : ℕ) : ReadsInside number (decimal n) n := by
  obtain ⟨c, text, htext⟩ := List.exists_cons_of_ne_nil (decimal_ne_nil n)
  have hdigit : c.isDigit = true := by
    apply isDigit_of_mem_decimal (n := n)
    rw [htext]
    exact List.mem_cons_self
  have hblank : blank c = false := by
    by_contra h
    rw [isDigit_of_blank (Bool.of_not_eq_false h)] at hdigit
    exact Bool.false_ne_true hdigit
  have hreads := reads_number n
  rw [htext] at hreads ⊢
  have hinside : ReadsInside number ([] ++ (c :: text) ++ []) n := hreads.inside hblank nofun nofun
  rwa [List.nil_append, List.append_nil] at hinside

private theorem readsInside_numbers (ns : List ℕ) :
    List.Forall₂ (ReadsInside number) (ns.map decimal) ns := by
  rw [List.forall₂_map_left_iff]
  exact List.forall₂_same.mpr fun n _ => readsInside_number n

private theorem number_close (rest : List Char) : number (']' :: rest) = none :=
  number_of_not_digit rfl rest

private theorem numbers_close (rest : List Char) : list number (']' :: rest) = none := rfl

/-- With data the body is the list of their numbers behind those of the head. -/
theorem document_pssThruText {cmd : Hex2} {data : Bytes} (nonempty : data ≠ []) :
    document bodyReader (pssThruText cmd data) =
      some [headNumbers cmd data ++ data.map UInt8.toNat] := by
  have htexts : numbersText cmd data =
      '[' :: joinComma ((headNumbers cmd data ++ data.map UInt8.toNat).map decimal) ++ [']'] := by
    rw [numbersText, eachComma_append_joinComma _ (by simpa using nonempty), List.map_append,
      List.map_map]
    rfl
  have hnumbers : Reads (list number) (numbersText cmd data)
      (headNumbers cmd data ++ data.map UInt8.toNat) := by
    rw [htexts]
    exact reads_list (readsInside_numbers _) (by simp [headNumbers]) number_close
  have hblanks : ∀ c ∈ [' '], blank c = true := by
    intro c hc
    rw [List.mem_singleton.mp hc]
    rfl
  have hlist : Reads (list (list number))
      ('[' :: joinComma [[' '] ++ numbersText cmd data ++ [' ']] ++ [']'])
      [headNumbers cmd data ++ data.map UInt8.toNat] :=
    reads_list (.cons (hnumbers.inside rfl hblanks hblanks) .nil) (List.cons_ne_nil _ _)
      numbers_close
  rw [pssThruText_eq]
  exact document_of_reads (reads_member (hlist.inside rfl hblanks hblanks)) rfl

/-- Without data there is nothing behind the last comma. -/
theorem list_numbersText_nil (cmd : Hex2) (rest : List Char) :
    list number (numbersText cmd [] ++ rest) = none := by
  have hinside : numbersText cmd [] ++ rest =
      '[' :: (eachComma ((headNumbers cmd []).map decimal) ++ ']' :: rest) := by
    simp [numbersText, joinComma]
  have hitems :=
    items_eachComma_close (readsInside_numbers (headNumbers cmd [])) (number_close rest)
  have hfirst : eachComma ((headNumbers cmd []).map decimal) =
      '6' :: '5' :: ',' :: eachComma ([0, 2, cmd.byte.toNat, 0].map decimal) := rfl
  have hstart : skip (eachComma ((headNumbers cmd []).map decimal) ++ ']' :: rest) =
      eachComma ((headNumbers cmd []).map decimal) ++ ']' :: rest := by
    rw [hfirst]
    exact skip_cons_of_not_blank _ rfl
  rw [hinside]
  rw [hfirst, List.cons_append] at hstart hitems ⊢
  exact list_of_none hstart (by decide) (hitems _)

private theorem document_pssThruText_nil (cmd : Hex2) :
    document bodyReader (pssThruText cmd []) = none := by
  have hinner := list_numbersText_nil cmd ([' '] ++ [']'] ++ [' '] ++ ['}'])
  obtain ⟨text, htext⟩ : ∃ text, numbersText cmd [] = '[' :: text := ⟨_, rfl⟩
  have hskip : skip (listText cmd [] ++ ['}']) =
      '[' :: ' ' :: (numbersText cmd [] ++ ([' '] ++ [']'] ++ [' '] ++ ['}'])) := by
    simp [listText, skip, blank]
  have houter : list (list number)
      ('[' :: ' ' :: (numbersText cmd [] ++ ([' '] ++ [']'] ++ [' '] ++ ['}']))) = none := by
    have hopen : skip (' ' :: (numbersText cmd [] ++ ([' '] ++ [']'] ++ [' '] ++ ['}']))) =
        '[' :: (text ++ ([' '] ++ [']'] ++ [' '] ++ ['}'])) := by
      rw [htext]
      rfl
    rw [htext] at hinner
    exact list_of_none hopen (by decide) (items_of_none (by rw [hopen]; exact hinner) _)
  have hbody : pssThruText cmd [] =
      '{' :: ('"' :: "data".toList ++ ['"']) ++ ':' :: (listText cmd [] ++ ['}']) := by
    rw [pssThruText_eq]
    simp only [List.append_assoc, List.cons_append]
  rw [hbody]
  exact document_of_none rfl (member_of_none (by rw [hskip]; exact houter))

/-! ## The body as a request -/

/-- The body is valid, all its numbers are bytes, the second and the third of them count
those behind them, and these are the command, zero and the data. -/
def Encodes (text : List Char) (cmd : Hex2) (data : Bytes) : Prop :=
  ∃ first high low rest, document bodyReader text = some [first :: high :: low :: rest] ∧
    (∀ n ∈ first :: high :: low :: rest, n ≤ 255) ∧ 256 * high + low = rest.length ∧
    rest = cmd.byte.toNat :: 0 :: data.map UInt8.toNat

/-- The body is the request for one up to 253 bytes of data. -/
theorem encodes_iff (cmd : Hex2) (data : Bytes) :
    Encodes (pssThruText cmd data) cmd data ↔ 1 ≤ data.length ∧ data.length ≤ 253 := by
  by_cases hempty : data = []
  · subst hempty
    constructor
    · rintro ⟨first, high, low, rest, hdocument, -⟩
      rw [document_pssThruText_nil] at hdocument
      simp at hdocument
    · rintro ⟨hmany, -⟩
      exact absurd hmany (by decide)
  · have hpos : 1 ≤ data.length := List.length_pos_of_ne_nil hempty
    have hdocument := @document_pssThruText cmd data hempty
    constructor
    · rintro ⟨first, high, low, rest, hread, hbytes, -, -⟩
      rw [hdocument] at hread
      obtain ⟨-, -, hlow, -⟩ : 65 = first ∧ 0 = high ∧ data.length + 2 = low ∧ _ := by
        simpa [headNumbers] using hread
      have hbyte := hbytes low (by simp)
      omega
    · rintro ⟨-, hfew⟩
      refine ⟨65, 0, data.length + 2, cmd.byte.toNat :: 0 :: data.map UInt8.toNat, hdocument, ?_,
        by simp, rfl⟩
      intro n hn
      simp only [List.mem_cons, List.mem_map] at hn
      obtain rfl | rfl | rfl | rfl | rfl | ⟨b, -, rfl⟩ := hn
      · omega
      · omega
      · omega
      · exact Nat.le_of_lt_succ cmd.byte.toNat_lt
      · omega
      · exact Nat.le_of_lt_succ b.toNat_lt

/-- A request without data is not valid. -/
theorem empty_request_invalid :
    document bodyReader (pssThruText ⟨3, 12⟩ []) = none ∧
      ¬ Encodes (pssThruText ⟨3, 12⟩ []) ⟨3, 12⟩ [] := by
  have hnone : document bodyReader (pssThruText ⟨3, 12⟩ []) = none := document_pssThruText_nil _
  refine ⟨hnone, ?_⟩
  rintro ⟨first, high, low, rest, hdocument, -⟩
  rw [hnone] at hdocument
  simp at hdocument

end Amester.OpenBmc
