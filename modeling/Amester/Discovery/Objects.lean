/-
# Finding the AME components of a host

Every responder address, or every OCC, is asked for its API version, and an object of the class
for this version is made for it. The list of the objects is returned.

An address that does not answer ends the search with an empty list, and a version that is not
supported adds an empty element. So the list is not always that of the objects that were made.
-/

import Amester.Lib.BinaryFormat

namespace Amester.Discovery

open BinaryFormat

/-! ## Searching -/

/-- What becomes of one address. -/
inductive Verdict (α : Type)
  /-- Nothing has answered: the search is over. -/
  | undetected
  /-- The search raises. -/
  | raised (message : String)
  /-- The version is not supported: the list gets an empty element. -/
  | skipped
  /-- The constructor has raised, which is reported: the search goes on. -/
  | failed
  | created (object : α)
  deriving DecidableEq

/-- What a search returns, without value where it raises, and the objects that it made. Empty
elements of the list are `none`. -/
structure Search (α : Type) where
  returned : Except String (List (Option α))
  created : List α
  deriving DecidableEq

/-- The loop over the addresses. -/
def search {α : Type} (ameclist : List (Option α)) (created : List α) :
    List (Verdict α) → Search α
  | [] => ⟨.ok ameclist, created⟩
  | .undetected :: _ => ⟨.ok [], created⟩
  | .raised message :: _ => ⟨.error message, created⟩
  | .skipped :: verdicts => search (ameclist ++ [none]) created verdicts
  | .failed :: verdicts => search ameclist created verdicts
  | .created a :: verdicts => search (ameclist ++ [some a]) (created ++ [a]) verdicts

/-! ## Versions -/

/-- How the message for the API version comes back: it raises, or it has a status and bytes. -/
abbrev Answer := Except String (ℤ × Bytes)

/-- `ameapimajor` and `ameapiminor`. -/
def apiVersion (databytes : Bytes) : ℤ × ℤ :=
  match scan [.int 1, .int 1] databytes with
  | [.int major, .int minor] => (major, minor)
  | [.int major] => (major, 0)
  | _ => (0, 0)

/-- The version is less than the least that is supported. -/
def tooLow (major minor : ℤ) : Prop := major < 2 ∨ major = 2 ∧ minor < 8

/-- The version is above the greatest that is supported. -/
def tooHigh (major minor : ℤ) : Prop := 2 < major ∨ major = 2 ∧ 28 < minor

instance (major minor : ℤ) : Decidable (tooLow major minor) :=
  inferInstanceAs (Decidable (_ ∨ _))

instance (major minor : ℤ) : Decidable (tooHigh major minor) :=
  inferInstanceAs (Decidable (_ ∨ _))

/-- The class of a version that has its own or is out of range. -/
def defaultClass (major minor : ℤ) : Option String :=
  if tooLow major minor then none
  else if tooHigh major minor then some "ame_2_28"
  else some ("ame_" ++ toString major ++ "_" ++ toString minor)

/-- The class that `init_ame_objects` takes. -/
def ameClass (major minor : ℤ) : Option String :=
  if major = 2 ∧ (minor = 9 ∨ minor = 10 ∨ minor = 11) then some "ame_2_8"
  else if major = 2 ∧ minor = 17 then some "ame_2_16"
  else defaultClass major minor

/-- The class that `init_ameocc_objects` takes. -/
def ameoccClass (major minor : ℤ) : Option String :=
  if major = 2 ∧ minor = 26 then some "ame_2_26" else defaultClass major minor

/-! ## Objects -/

/-- An object of a class, with its name and its options. -/
structure AmeObject where
  cls : String
  name : String
  rssa : String
  lun : Option String
  node : Option ℤ
  deriving DecidableEq

/-- One address or OCC: its number, the answer for the version, and the classes whose constructor
works for it. -/
structure Probe where
  addr : String
  answer : Answer
  constructs : String → Bool

/-- Make an object of a class; `broken` if its constructor raises. -/
def Probe.construct (p : Probe) (broken : Verdict AmeObject) (object : String → AmeObject) :
    Option String → Verdict AmeObject
  | none => .skipped
  | some cls => if p.constructs cls then .created (object cls) else broken

/-- What `init_ame_objects` does with an address. -/
def ameVerdict (host : String) (i : ℕ) (p : Probe) : Verdict AmeObject :=
  let (major, minor) := match p.answer with
    | .error _ => (0, 0)
    | .ok (status, databytes) => if status ≠ 0 then (0, 0) else apiVersion databytes
  if major = 0 then .undetected
  else p.construct .failed
    (fun cls => ⟨cls, "::" ++ host ++ "_ame" ++ toString i, p.addr, none, none⟩)
    (ameClass major minor)

/-- What `init_ameocc_objects` does with an OCC. -/
def ameoccVerdict (host : String) (rssa : ℤ) (i : ℕ) (p : Probe) : Verdict AmeObject :=
  let node := rssa - 20
  match p.answer with
  | .error errmsg =>
    .raised ("Error while determining AME firmware level on host=" ++ host ++ " addr=" ++
      toString rssa ++ ": " ++ errmsg)
  | .ok (status, databytes) =>
    let (major, minor) := if status ≠ 0 then (0, 0) else apiVersion databytes
    if major = 0 then .undetected
    else p.construct
      (.raised ("Can't connect to AME firmware with API " ++ toString major ++ "." ++
        toString minor ++ " for host=" ++ host ++ " node=" ++ toString node ++ " occ=" ++ p.addr))
      (fun cls => ⟨cls, "::" ++ host ++ "_node" ++ toString node ++ "_ame" ++ toString i,
        toString rssa, some p.addr, some node⟩)
      (ameoccClass major minor)

/-- `init_ame_objects`: the chassis status comes first. -/
def initAmeObjects (host : String) (chassis : Answer) (probes : List Probe) : Search AmeObject :=
  match chassis with
  | .error _ => ⟨.ok [], []⟩
  | .ok (status, _) =>
    if status ≠ 0 then ⟨.ok [], []⟩ else search [] [] (probes.mapIdx (ameVerdict host))

/-- `init_ameocc_objects` -/
def initAmeoccObjects (host : String) (rssa : ℤ) (probes : List Probe) : Search AmeObject :=
  search [] [] (probes.mapIdx (ameoccVerdict host rssa))

/-! ## What is returned -/

/-- A list that is returned is that of the objects made, in order and without empty elements. -/
def Search.Exact {α : Type} (s : Search α) : Prop :=
  ∀ ameclist, s.returned = .ok ameclist → ameclist = s.created.map some

namespace Verdict

variable {α : Type}

/-- The search does not go on. -/
def stops : Verdict α → Bool
  | .undetected => true
  | .raised _ => true
  | _ => false

/-- The element that the list gets. -/
def element : Verdict α → Option (Option α)
  | .skipped => some none
  | .created a => some (some a)
  | _ => none

/-- The object that is made. -/
def object : Verdict α → Option α
  | .created a => some a
  | _ => none

end Verdict

/-- Either a search that is over early has found nothing, or it goes through and no version is too
low for it. -/
def Complete {α : Type} (verdicts : List (Verdict α)) : Prop :=
  match verdicts.find? Verdict.stops with
  | none => .skipped ∉ verdicts
  | some .undetected => ∀ a, .created a ∉ verdicts.takeWhile fun v => !v.stops
  | some _ => True

section

variable {α : Type} {verdicts : List (Verdict α)}

theorem search_exact_iff (ameclist : List (Option α)) (created : List α)
    (verdicts : List (Verdict α)) :
    (search ameclist created verdicts).Exact ↔
      match verdicts.find? Verdict.stops with
      | none => ameclist ++ verdicts.filterMap Verdict.element =
          (created ++ verdicts.filterMap Verdict.object).map some
      | some .undetected =>
        created ++ (verdicts.takeWhile fun v => !v.stops).filterMap Verdict.object = []
      | some _ => True := by
  induction verdicts generalizing ameclist created with
  | nil => simp [search, Search.Exact]
  | cons v verdicts ih =>
      cases v with
      | undetected =>
          have hexact : (search ameclist created (.undetected :: verdicts)).Exact ↔
              [] = created.map some := by
            constructor
            · exact fun h => h [] rfl
            · rintro h ameclist hlist
              exact (Except.ok.inj hlist).symm.trans h
          rw [hexact, eq_comm, List.map_eq_nil_iff]
          exact (iff_of_eq (congrArg (· = []) (List.append_nil created))).symm
      | raised message => exact iff_of_true (fun _ h => nomatch h) trivial
      | skipped =>
          rw [search, ih, List.append_assoc]
          exact Iff.rfl
      | failed =>
          rw [search, ih]
          exact Iff.rfl
      | created a =>
          rw [search, ih, List.append_assoc, List.append_assoc, List.append_assoc]
          exact Iff.rfl

/-- The elements are the objects if no version is too low, and only then. -/
theorem elements_eq_iff (verdicts : List (Verdict α)) :
    verdicts.filterMap Verdict.element = (verdicts.filterMap Verdict.object).map some ↔
      .skipped ∉ verdicts := by
  constructor
  · intro heq hmem
    have hnone : none ∈ (verdicts.filterMap Verdict.object).map some := by
      rw [← heq]
      exact List.mem_filterMap.mpr ⟨.skipped, hmem, rfl⟩
    simp at hnone
  · intro hmem
    induction verdicts with
    | nil => rfl
    | cons v verdicts ih =>
        rw [List.mem_cons, not_or] at hmem
        cases v with
        | skipped => exact absurd rfl hmem.1
        | undetected => exact ih hmem.2
        | raised message => exact ih hmem.2
        | failed => exact ih hmem.2
        | created a => exact congrArg (some a :: ·) (ih hmem.2)

theorem objects_eq_nil_iff (verdicts : List (Verdict α)) :
    verdicts.filterMap Verdict.object = [] ↔ ∀ a, .created a ∉ verdicts := by
  rw [List.filterMap_eq_nil_iff]
  constructor
  · intro h a hmem
    exact Option.some_ne_none a (h _ hmem)
  · intro h v hmem
    cases v with
    | created a => exact absurd hmem (h a)
    | undetected => rfl
    | raised message => rfl
    | skipped => rfl
    | failed => rfl

/-- A search returns the objects that it made exactly if it is complete. -/
theorem exact_iff_complete (verdicts : List (Verdict α)) :
    (search [] [] verdicts).Exact ↔ Complete verdicts := by
  rw [search_exact_iff, Complete]
  cases verdicts.find? Verdict.stops with
  | none => exact elements_eq_iff verdicts
  | some v =>
      cases v with
      | undetected => exact objects_eq_nil_iff _
      | raised message => exact Iff.rfl
      | skipped => exact Iff.rfl
      | failed => exact Iff.rfl
      | created a => exact Iff.rfl

end

/-- The chassis has answered. -/
def Communicates (chassis : Answer) : Prop := ∃ databytes, chassis = .ok (0, databytes)

theorem initAmeObjects_exact_iff (host : String) (chassis : Answer) (probes : List Probe) :
    (initAmeObjects host chassis probes).Exact ↔
      (Communicates chassis → Complete (probes.mapIdx (ameVerdict host))) := by
  have hempty : (⟨.ok [], []⟩ : Search AmeObject).Exact := by
    rintro ameclist hlist
    rw [← Except.ok.inj hlist]
    rfl
  cases chassis with
  | error errmsg => exact iff_of_true hempty fun ⟨_, h⟩ => nomatch h
  | ok answer =>
      obtain ⟨status, databytes⟩ := answer
      by_cases hstatus : status = 0
      · subst hstatus
        have hsearch : initAmeObjects host (.ok (0, databytes)) probes =
            search [] [] (probes.mapIdx (ameVerdict host)) := rfl
        rw [hsearch, exact_iff_complete]
        exact ⟨fun h _ => h, fun h => h ⟨databytes, rfl⟩⟩
      · have hsearch : initAmeObjects host (.ok (status, databytes)) probes = ⟨.ok [], []⟩ :=
          if_pos hstatus
        rw [hsearch]
        refine iff_of_true hempty ?_
        rintro ⟨_, h⟩
        exact absurd (congrArg Prod.fst (Except.ok.inj h)) hstatus

/-- Object discovery returns what it made exactly if the address that ends the search has none
before it that got an object, or no address ends it and no version is too low. -/
theorem discovery_exact_iff (host : String) (rssa : ℤ) (chassis : Answer) (probes : List Probe) :
    ((initAmeObjects host chassis probes).Exact ↔
        (Communicates chassis → Complete (probes.mapIdx (ameVerdict host)))) ∧
      ((initAmeoccObjects host rssa probes).Exact ↔
        Complete (probes.mapIdx (ameoccVerdict host rssa))) :=
  ⟨initAmeObjects_exact_iff host chassis probes, exact_iff_complete _⟩

/-- The second address does not answer. -/
def lostSecond : List Probe :=
  [⟨"20", .ok (0, [2, 16]), fun _ => true⟩, ⟨"22", .ok (0xC3, []), fun _ => true⟩]

/-- The object of the first address is not in the list. -/
theorem created_object_lost :
    ¬ ∀ (host : String) (rssa : ℤ) (chassis : Answer) (probes : List Probe),
        (initAmeObjects host chassis probes).Exact ∧
          (initAmeoccObjects host rssa probes).Exact := by
  intro exact
  have hexact := (exact "fsp" 20 (.ok (0, [])) lostSecond).1 [] rfl
  have hcreated : (initAmeObjects "fsp" (.ok (0, [])) lostSecond).created.length = 1 := by
    decide +kernel
  have hlength := congrArg List.length hexact
  rw [List.length_map, hcreated] at hlength
  cases hlength

end Amester.Discovery
