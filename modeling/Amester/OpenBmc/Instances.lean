/-
# Finding the OCCs of a machine

The reply to `enumerate` is a list in which the names of the entries alternate with their
values. `find_occ_instance` goes through it once, looking for the entry of one OCC at a
time: of number 0 first, and of the next number once this one has been found active.

So the numbers it finds are 0, 1 and so on, as far as these are active and stand in this
order. These are the active OCCs when there is one and they are numbered from 0 in the
order of their entries; with none active the list that is returned has never been set.
-/

import Amester.Lib.Json
import Amester.OpenBmc.Session

namespace Amester.OpenBmc

open BinaryFormat Json Numeral

/-! ## The scan -/

def occPrefix : List Char := "/org/open_power/control/occ".toList

/-- The name of the entry of an OCC. -/
def occPath (n : ℕ) : List Char := occPrefix ++ decimal n

/-- `[string first "OccActive true" $LineValue] != -1` -/
def occActive (line : List Char) : Prop := "OccActive true".toList <:+: line

instance (line : List Char) : Decidable (occActive line) :=
  inferInstanceAs (Decidable ("OccActive true".toList <:+: line))

/-- The variables of the scan; `_occlist` is set by the first `lappend`. -/
structure Scanning where
  searchOccNumber : ℕ := 0
  occFound : Bool := false
  occlist : Option (List (List Digit)) := none
  deriving DecidableEq

/-- `lappend _occlist [format "%02x" $SearchOccNumber]`, `incr SearchOccNumber` -/
def Scanning.append (s : Scanning) : Scanning :=
  { s with
    occlist := some (s.occlist.getD [] ++ [format02x s.searchOccNumber])
    searchOccNumber := s.searchOccNumber + 1 }

/-- One name or value. -/
def Scanning.line (s : Scanning) (line : List Char) : Scanning :=
  if line = occPath s.searchOccNumber then { s with occFound := true }
  else if s.occFound then
    if occActive line then { s with occFound := false }.append else { s with occFound := false }
  else { s with occFound := false }

/-- What the second request of `find_occ_instance`, which sets the size of the buffer, sets
`G_CountDown` to. -/
def setBuffer (fast slow : ℤ) (reply : HttpReply) : Except String (Option ℤ) :=
  match reply.dictData with
  | none => .error "key \"data\" not known in dictionary"
  | some dictData =>
    match dictData[3]? with
    | none => .error "empty expression"
    | some status =>
      if status = 0 ∧ reply.ok then
        match dictData[4]? with
        | none => .error "empty expression"
        | some status2 => .ok (some (if status2 = 0 then fast else slow))
      else .ok none

/-- The list and the countdown of `find_occ_instance`, from the list of the first reply and
from the reply to the second request. -/
def findOccInstanceWith (fast slow : ℤ) (dictData : List (List Char)) (buffer : HttpReply) :
    Except String (List (List Digit) × Option ℤ) :=
  let s := dictData.foldl Scanning.line {}
  match setBuffer fast slow buffer with
  | .error e => .error e
  | .ok countDown =>
    match s.occlist with
    | none => .error "can't read \"_occlist\": no such variable"
    | some occlist => .ok (occlist, countDown)

def findOccInstance : List (List Char) → HttpReply → Except String (List (List Digit) × Option ℤ) :=
  findOccInstanceWith 11 75

/-- `find_occ_instance` of `openbmc2` -/
def findOccInstance2 :
    List (List Char) → HttpReply → Except String (List (List Digit) × Option ℤ) :=
  findOccInstanceWith 0 75

/-- The list that `init` makes the OCCs of a node from; a node whose scan raises is
skipped. -/
def nodeOcclist (found : Except String (List (List Digit) × Option ℤ)) :
    Option (List (List Digit)) :=
  match found with
  | .error _ => none
  | .ok (occlist, _) => some (if occlist = [] then [[0, 1]] else occlist)

/-! ## Enumerate replies -/

/-- An entry of the reply. -/
structure OccEntry where
  name : List Char
  value : List Char
  deriving DecidableEq

/-- The number of the OCC whose entry this is. -/
def OccEntry.number? (e : OccEntry) : Option ℕ :=
  match behind occPrefix e.name with
  | none => none
  | some rest =>
    match number rest with
    | some (n, []) => some n
    | _ => none

/-- The number, when the OCC is active. -/
def OccEntry.active? (e : OccEntry) : Option ℕ := if occActive e.value then e.number? else none

/-- The reply: every name occurs once, and no value is the name of an OCC, as the values
are objects. -/
structure Enumerated where
  entries : List OccEntry
  names : (entries.map OccEntry.name).Nodup
  values : ∀ e ∈ entries, ∀ n, e.value ≠ occPath n

namespace Enumerated

/-- The list of names and values. -/
def dictData (reply : Enumerated) : List (List Char) :=
  reply.entries.flatMap fun e => [e.name, e.value]

/-- The numbers of the active OCCs, in the order of their entries. -/
def active (reply : Enumerated) : List ℕ := reply.entries.filterMap OccEntry.active?

end Enumerated

theorem number?_eq_some {e : OccEntry} {n : ℕ} : e.number? = some n ↔ e.name = occPath n := by
  constructor
  · intro h
    unfold OccEntry.number? at h
    split at h
    · simp at h
    · rename_i rest hbehind
      split at h
      · rename_i m hnumber
        obtain rfl := Option.some.inj h
        rw [eq_append_of_behind hbehind, eq_append_of_number hnumber, List.append_nil]
        rfl
      · simp at h
  · intro h
    have hnumber := reads_number n [] (by simp)
    rw [List.append_nil] at hnumber
    rw [OccEntry.number?, h, occPath, behind_append]
    simp only [hnumber]

/-! ## What is found -/

/-- The numbers from `m` on that stand in the list in their order. -/
def inOrder : ℕ → List ℕ → List ℕ
  | _, [] => []
  | m, n :: ns => if n = m then m :: inOrder (m + 1) ns else inOrder m ns

theorem length_inOrder_le (m : ℕ) (ns : List ℕ) : (inOrder m ns).length ≤ ns.length := by
  fun_induction inOrder m ns with
  | case1 => exact Nat.le_refl 0
  | case2 m ns ih => simpa using ih
  | case3 m n ns hne ih => exact ih.trans (Nat.le_succ _)

/-- None is left out of a list that counts from `m` on, and of no other. -/
theorem length_inOrder_eq_iff (m : ℕ) (ns : List ℕ) :
    (inOrder m ns).length = ns.length ↔ ns = List.range' m ns.length := by
  fun_induction inOrder m ns with
  | case1 => simp
  | case2 m ns ih => simpa [List.range'_succ] using ih
  | case3 m n ns hne ih =>
      have hle := length_inOrder_le m ns
      constructor
      · intro h
        rw [List.length_cons] at h
        omega
      · intro h
        rw [List.length_cons, List.range'_succ, List.cons.injEq] at h
        exact absurd h.1 hne

theorem inOrder_range' (m n : ℕ) : inOrder m (List.range' m n) = List.range' m n := by
  induction n generalizing m with
  | zero => rfl
  | succ n ih => rw [List.range'_succ, inOrder, if_pos rfl, ih]

/-- A name and its value. -/
theorem line_line {e : OccEntry} {m : ℕ} {l : Option (List (List Digit))}
    (value : ∀ n, e.value ≠ occPath n) :
    (Scanning.line ⟨m, false, l⟩ e.name).line e.value =
      if e.active? = some m then ⟨m + 1, false, some (l.getD [] ++ [format02x m])⟩
      else ⟨m, false, l⟩ := by
  by_cases hname : e.name = occPath m
  · have hnumber : e.number? = some m := number?_eq_some.mpr hname
    by_cases hactive : occActive e.value
    · simp [Scanning.line, hname, value, hactive, OccEntry.active?, hnumber, Scanning.append]
    · simp [Scanning.line, hname, value, hactive, OccEntry.active?]
  · have hnumber : e.number? ≠ some m := fun h => hname (number?_eq_some.mp h)
    have hactive : e.active? ≠ some m := fun h => hnumber (Option.ite_none_right_eq_some.mp h).2
    simp [Scanning.line, hname, value, hactive]

/-- The scan appends the numbers in order to its list. -/
theorem scan_eq {entries : List OccEntry} (values : ∀ e ∈ entries, ∀ n, e.value ≠ occPath n) (m : ℕ)
    (l : Option (List (List Digit))) :
    ((entries.flatMap fun e => [e.name, e.value]).foldl Scanning.line ⟨m, false, l⟩).occlist =
      if inOrder m (entries.filterMap OccEntry.active?) = [] then l
      else some (l.getD [] ++
        (inOrder m (entries.filterMap OccEntry.active?)).map fun n : ℕ => format02x n) := by
  induction entries generalizing m l with
  | nil => rfl
  | cons e entries ih =>
      have hvalue := values e List.mem_cons_self
      have hbehind := ih fun e he => values e (List.mem_cons_of_mem _ he)
      rw [List.flatMap_cons, List.foldl_append, List.foldl_cons, List.foldl_cons, List.foldl_nil,
        line_line hvalue]
      cases hactive : e.active? with
      | none => rw [if_neg nofun, hbehind, List.filterMap_cons_none hactive]
      | some n =>
          rw [List.filterMap_cons_some hactive, inOrder]
          by_cases hn : n = m
          · rw [if_pos (congrArg some hn), if_pos hn, hbehind, if_neg (List.cons_ne_nil _ _)]
            split
            · rename_i hnone
              rw [hnone]
              rfl
            · simp
          · rw [if_neg fun h => hn (Option.some.inj h), if_neg hn, hbehind]

/-- What `find_occ_instance` returns when the second request is answered. -/
theorem findOccInstanceWith_eq (reply : Enumerated) {fast slow : ℤ} {buffer : HttpReply}
    {countDown : Option ℤ} (answered : setBuffer fast slow buffer = .ok countDown) :
    findOccInstanceWith fast slow reply.dictData buffer =
      if inOrder 0 reply.active = [] then .error "can't read \"_occlist\": no such variable"
      else .ok ((inOrder 0 reply.active).map (fun n : ℕ => format02x n), countDown) := by
  have hscan := scan_eq reply.values 0 none
  rw [findOccInstanceWith, answered, Enumerated.dictData, Enumerated.active]
  simp only [hscan]
  by_cases hnone : inOrder 0 (reply.entries.filterMap OccEntry.active?) = []
  · rw [if_pos hnone, if_pos hnone]
  · rw [if_neg hnone, if_neg hnone]
    rfl

/-- When no OCC is found `init` skips the node, and never takes the list it has for an
empty one. -/
theorem nodeOcclist_eq (reply : Enumerated) {fast slow : ℤ} {buffer : HttpReply}
    {countDown : Option ℤ} (answered : setBuffer fast slow buffer = .ok countDown) :
    nodeOcclist (findOccInstanceWith fast slow reply.dictData buffer) =
      if inOrder 0 reply.active = [] then none
      else some ((inOrder 0 reply.active).map fun n : ℕ => format02x n) := by
  rw [findOccInstanceWith_eq reply answered]
  split
  · rfl
  · rename_i hsome
    rw [nodeOcclist, if_neg (by simpa using hsome)]

/-- The active OCCs are found: each of them once, and an empty list when there is none. -/
def FindsActive (reply : Enumerated)
    (found : Except String (List (List Digit) × Option ℤ)) : Prop :=
  ∃ occlist countDown, found = .ok (occlist, countDown) ∧
    occlist.Perm (reply.active.map fun n : ℕ => format02x n)

theorem findsActive_iff_of_answered (reply : Enumerated) {fast slow : ℤ} {buffer : HttpReply}
    {countDown : Option ℤ} (answered : setBuffer fast slow buffer = .ok countDown) :
    FindsActive reply (findOccInstanceWith fast slow reply.dictData buffer) ↔
      reply.active ≠ [] ∧ reply.active = List.range reply.active.length := by
  rw [FindsActive, findOccInstanceWith_eq reply answered]
  constructor
  · rintro ⟨occlist, countDown', hfound, hperm⟩
    split at hfound
    · simp at hfound
    · rename_i hsome
      have hlist : (inOrder 0 reply.active).map (fun n : ℕ => format02x n) = occlist :=
        (Prod.mk.inj (Except.ok.inj hfound)).1
      have hlength := hperm.length_eq
      rw [← hlist, List.length_map, List.length_map] at hlength
      refine ⟨?_, ?_⟩
      · intro hnone
        rw [hnone] at hsome
        exact hsome rfl
      · rw [List.range_eq_range']
        exact (length_inOrder_eq_iff 0 _).mp hlength
  · rintro ⟨hsome, hrange⟩
    have hall : inOrder 0 reply.active = reply.active := by
      rw [hrange, List.range_eq_range', inOrder_range']
    rw [hall, if_neg hsome]
    exact ⟨_, _, rfl, List.Perm.refl _⟩

/-- They are found when the second request is answered, there is one, and their entries stand
in the order of their numbers, which begin with 0 and leave none out. -/
theorem findsActive_iff (reply : Enumerated) (fast slow : ℤ) (buffer : HttpReply) :
    FindsActive reply (findOccInstanceWith fast slow reply.dictData buffer) ↔
      (∃ countDown, setBuffer fast slow buffer = .ok countDown) ∧
        reply.active ≠ [] ∧ reply.active = List.range reply.active.length := by
  cases answered : setBuffer fast slow buffer with
  | error e => simp [FindsActive, findOccInstanceWith, answered]
  | ok countDown =>
      rw [findsActive_iff_of_answered reply answered]
      simp

/-- A reply with an entry for each of some OCCs, active or not. -/
def occReply (occs : List (ℕ × Bool)) : List OccEntry :=
  occs.map fun (n, active) =>
    ⟨occPath n, (if active then "OccActive true" else "OccActive false").toList⟩

/-- The second of two OCCs is active. -/
def secondActive : Enumerated where
  entries := occReply [(0, false), (1, true)]
  names := by decide +kernel
  values := by
    have hstart : ∀ e ∈ occReply [(0, false), (1, true)], e.value.head? = some 'O' := by
      decide +kernel
    intro e he n h
    have hfirst := hstart e he
    rw [h] at hfirst
    exact absurd (Option.some.inj hfirst) (by decide)

/-- The second request is answered with status zero. -/
def bufferSet : HttpReply := ⟨true, some [66, 60, 0, 0, 0]⟩

/-- The OCC that is active is not found, and the variable that is returned is not set. -/
theorem secondActive_raises :
    findOccInstance secondActive.dictData bufferSet =
        .error "can't read \"_occlist\": no such variable" ∧
      ¬ FindsActive secondActive (findOccInstance secondActive.dictData bufferSet) := by
  have hraise : findOccInstance secondActive.dictData bufferSet =
      .error "can't read \"_occlist\": no such variable" := by
    rw [findOccInstance, findOccInstanceWith_eq secondActive rfl]
    exact if_pos (by decide +kernel)
  refine ⟨hraise, ?_⟩
  rintro ⟨occlist, countDown, hfound, -⟩
  rw [hraise] at hfound
  simp at hfound

end Amester.OpenBmc
