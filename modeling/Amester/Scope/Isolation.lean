/-
# What the end of a stream or of an analysis removes

The pattern by which a stream or an analysis is removed matches all identifiers that
begin with its own. So the end of one leaves all others alone if and only if no other
that has entries has a number that begins with the same digits: `u1` is not to be closed
while `u10` is open. The identifiers of a run are those of its counter, so this is a
condition on numbers.
-/

import Amester.Lib.EventMachine
import Amester.Scope.Store

namespace Amester.Scope

open EventMachine

universe u

variable {ν : Type u}

/-! ## Identifiers -/

private theorem mem_uid {c : Char} {n : ℕ} (mem : c ∈ uid n) : c = 'u' ∨ c.isDigit := by
  rcases List.mem_cons.mp mem with rfl | hdigit
  · exact .inl rfl
  · exact .inr (Numeral.isDigit_of_mem_decimal hdigit)

private theorem uid_literal (n : ℕ) : Glob.Literal (uid n) := by
  intro c hmem
  constructor <;> rintro rfl <;> revert hmem <;> intro hmem <;>
    rcases mem_uid hmem with h | h <;> revert h <;> decide

private theorem comma_not_mem_uid (n : ℕ) : ',' ∉ uid n := by
  intro hmem
  rcases mem_uid hmem with h | h <;> revert h <;> decide

private theorem uid_injective {m n : ℕ} (same : uid m = uid n) : m = n :=
  Numeral.decimal_injective (List.cons.inj same).2

/-- An identifier begins with another if its number does. -/
theorem uid_prefix_iff {m : ℕ} (pos : 0 < m) (n : ℕ) :
    uid m <+: uid n ↔ ∃ k, n / 10 ^ k = m := by
  rw [uid, uid, List.cons_prefix_cons, Numeral.decimal_prefix_iff pos n]
  exact and_iff_right rfl

private theorem not_uid_prefix_options (m : ℕ) : ¬ uid m <+: "options".toList := by
  intro hinit
  have hhead := (List.cons_prefix_cons.mp hinit).1
  revert hhead
  decide

theorem uid_ne_options (m : ℕ) : uid m ≠ "options".toList := by
  intro h
  exact not_uid_prefix_options m (h ▸ List.prefix_rfl)

/-! ## Arrays -/

namespace TclArray

variable {a : TclArray ν}

theorem set_of_ne {id id' : Ident} (other : id' ≠ id) (field : String) (v : ν) :
    a.set id field v id' = a id' := Function.update_of_ne other _ _

theorem setAll_of_ne {id id' : Ident} (other : id' ≠ id) (fields : List (String × ν)) :
    a.setAll id fields id' = a id' := by
  induction fields generalizing a with
  | nil => rfl
  | cons entry fields ih =>
      rw [setAll, List.foldl_cons]
      exact ih.trans (set_of_ne other _ _)

/-- What is set under an identifier depends on what it had. -/
theorem setAll_congr {a' : TclArray ν} {id : Ident} (same : a' id = a id)
    (fields : List (String × ν)) : a'.setAll id fields id = a.setAll id fields id := by
  induction fields generalizing a a' with
  | nil => exact same
  | cons entry fields ih =>
      rw [setAll, setAll, List.foldl_cons, List.foldl_cons]
      apply ih
      rw [TclArray.set, TclArray.set, Function.update_self, Function.update_self, same]

/-- A field that is set stays set. -/
theorem setAll_isSome {id : Ident} {field : String} (set : (a id field).isSome)
    (fields : List (String × ν)) : (a.setAll id fields id field).isSome := by
  induction fields generalizing a with
  | nil => exact set
  | cons entry fields ih =>
      rw [setAll, List.foldl_cons]
      apply ih
      rw [TclArray.set, Function.update_self, Function.update_apply]
      split
      · rfl
      · exact set

private theorem unset_uid (m : ℕ) (id : Ident) (field : String) :
    a.unset (uid m ++ ['*']) id field = if uid m <+: id then none else a id field := by
  rw [unset]
  apply if_congr _ rfl rfl
  rw [Glob.stringMatch_literal_star (uid_literal m),
    Glob.prefix_append_separator (comma_not_mem_uid m)]

end TclArray

/-- The identifiers with entries are the options and those the counter has given. -/
def Keyed (a : TclArray ν) (count : ℕ) : Prop :=
  ∀ id field, a id field ≠ none →
    (∃ n, 0 < n ∧ n ≤ count ∧ id = uid n) ∨ id = "options".toList

/-- No other identifier with entries has a number that begins with the digits of this
one. -/
def Clear (a : TclArray ν) (m : ℕ) : Prop :=
  ∀ n, (∃ field, a (uid n) field ≠ none) → (∃ k, n / 10 ^ k = m) → n = m

/-- Everything but the entries of one identifier. -/
def without (a : TclArray ν) (id : Ident) : TclArray ν := fun id' =>
  if id' = id then fun _ => none else a id'

/-- The pattern of an identifier removes exactly its entries if no other identifier with
entries begins with it. -/
theorem unset_eq_without_iff {a : TclArray ν} {count m : ℕ} (keyed : Keyed a count)
    (pos : 0 < m) : a.unset (uid m ++ ['*']) = without a (uid m) ↔ Clear a m := by
  constructor
  · rintro hunset n ⟨field, hentry⟩ hdigits
    by_contra hne
    have hfield := congrFun (congrFun hunset (uid n)) field
    rw [TclArray.unset_uid, if_pos ((uid_prefix_iff pos n).mpr hdigits), without,
      if_neg fun h => hne (uid_injective h)] at hfield
    exact hentry hfield.symm
  · intro hclear
    funext id field
    rw [TclArray.unset_uid, without]
    split_ifs with hinit hid hid
    · rfl
    · by_contra hentry
      rcases keyed id field (Ne.symm hentry) with ⟨n, -, -, rfl⟩ | rfl
      · rw [hclear n ⟨field, Ne.symm hentry⟩ ((uid_prefix_iff pos n).mp hinit)] at hid
        exact hid rfl
      · exact not_uid_prefix_options m hinit
    · exact absurd (hid ▸ List.prefix_rfl) hinit
    · rfl

/-- The same for an identifier that may be missing. -/
theorem unset_iff {a : TclArray ν} {count m : ℕ} (keyed : Keyed a count) (pos : 0 < m) :
    (∀ id, a.unset (uid m ++ ['*']) id =
      if some id = some (uid m) then fun _ => none else a id) ↔ Clear a m := by
  rw [← unset_eq_without_iff keyed pos, funext_iff]
  simp only [Option.some.injEq, without]

/-- The identifier that was given last is the beginning of no other. -/
theorem clear_of_newest {a : TclArray ν} {count m : ℕ} (keyed : Keyed a count)
    (newest : count ≤ m) :
    Clear a m := by
  rintro n ⟨field, hentry⟩ ⟨k, hk⟩
  have hle : n ≤ m := by
    rcases keyed (uid n) field hentry with ⟨n', -, hn', hid⟩ | hid
    · rw [uid_injective hid]
      exact hn'.trans newest
    · exact absurd hid (uid_ne_options n)
  exact le_antisymm hle (hk ▸ Nat.div_le_self n (10 ^ k))

/-! ## What the parts of an analysis touch -/

/-- Nothing changes but one stream and one analysis. The stream stays open, and has a file
while it is open. -/
structure Touches (streamid tag : Ident) (g g' : Globals ν) : Prop where
  uidCount : g'.uidCount = g.uidCount
  stream : ∀ id, id ≠ streamid → g'.stream id = g.stream id
  streamids : ∀ id, id ≠ streamid → g'.streamids id = g.streamids id
  ta : ∀ id, id ≠ tag → g'.ta id = g.ta id
  running : g'.running = g.running
  opened : g.streamids streamid = true → g'.streamids streamid = true
  file : (g.streamids streamid = true → (g.stream streamid "file").isSome) →
    g'.streamids streamid = true → (g'.stream streamid "file").isSome

namespace Touches

variable {streamid tag : Ident} {g g' g'' : Globals ν}

theorem refl (g : Globals ν) : Touches streamid tag g g :=
  ⟨rfl, fun _ _ => rfl, fun _ _ => rfl, fun _ _ => rfl, rfl, id, id⟩

theorem trans (first : Touches streamid tag g g') (second : Touches streamid tag g' g'') :
    Touches streamid tag g g'' where
  uidCount := second.uidCount.trans first.uidCount
  stream id other := (second.stream id other).trans (first.stream id other)
  streamids id other := (second.streamids id other).trans (first.streamids id other)
  ta id other := (second.ta id other).trans (first.ta id other)
  running := second.running.trans first.running
  opened h := second.opened (first.opened h)
  file h := second.file (first.file h)

/-- Two commands in a row touch what each of them touches. -/
theorem andThen {r : Outcome (Globals ν)} {next : Globals ν → Outcome (Globals ν)}
    (first : Touches streamid tag g r.state)
    (second : ∀ g', Touches streamid tag g' (next g').state) :
    Touches streamid tag g (r.andThen next).state :=
  Outcome.andThen_state first fun h => h.trans (second r.state)

end Touches

namespace Globals

variable (streamid tag : Ident) (g : Globals ν)

/-- An analysis sets fields of its own. -/
theorem touches_ta {ta : TclArray (TaCell ν)} (others : ∀ id, id ≠ tag → ta id = g.ta id) :
    Touches streamid tag g { g with ta := ta } :=
  ⟨rfl, fun _ _ => rfl, fun _ _ => rfl, others, rfl, id, id⟩

/-- Reading sets fields of the stream. -/
theorem touches_setAll (fields : List (String × Cell)) :
    Touches streamid tag g { g with stream := g.stream.setAll streamid fields } :=
  ⟨rfl, fun _ other => TclArray.setAll_of_ne other fields, fun _ _ => rfl, fun _ _ => rfl,
    rfl, id, fun h hopen => TclArray.setAll_isSome (h hopen) fields⟩

theorem streamRead_touches : Touches streamid tag g (g.streamRead streamid).1.state := by
  unfold streamRead
  cases loadStream (g.stream streamid) with
  | none => exact .refl g
  | some s =>
      dsimp only
      cases (Scope.streamRead s).2 with
      | error e => exact touches_setAll streamid tag g _
      | ok rec => exact touches_setAll streamid tag g _

theorem saveRecord_touches (rec : Record) : Touches streamid tag g (g.saveRecord tag rec) :=
  touches_ta streamid tag g fun _ other => TclArray.set_of_ne other _ _

theorem cullHistory_touches : Touches streamid tag g (g.cullHistory tag) := by
  unfold cullHistory
  split
  · split
    · exact touches_ta streamid tag g fun _ other => TclArray.set_of_ne other _ _
    · exact .refl g
  · exact .refl g

theorem primeHistory_touches (n : ℕ) :
    Touches streamid tag g (g.primeHistory streamid tag n).state := by
  induction n generalizing g with
  | zero => exact .refl g
  | succ n ih =>
      have hread := streamRead_touches streamid tag g
      rw [primeHistory]
      generalize g.streamRead streamid = read at hread ⊢
      obtain ⟨outcome, rec⟩ := read
      refine hread.andThen fun g' => ?_
      cases rec with
      | none => exact .refl g'
      | some rec => exact (saveRecord_touches streamid tag g' rec).trans (ih _)

variable (A : Analysis ν)

theorem taInitialize_touches : Touches streamid tag g (g.taInitialize A tag) :=
  touches_ta streamid tag g fun _ other => TclArray.setAll_of_ne other _

theorem analyzeRecord_touches (rec : Record) :
    Touches streamid tag g (g.analyzeRecord A tag rec).state := by
  refine (saveRecord_touches streamid tag g rec).trans ?_
  unfold analyzeRecord
  dsimp only
  split
  · exact .refl _
  · exact (touches_ta streamid tag _ fun _ other => TclArray.setAll_of_ne other _).trans
      (cullHistory_touches streamid tag _)

theorem analyzeRecords_touches (records : List Record) :
    Touches streamid tag g (g.analyzeRecords A tag records).state := by
  induction records generalizing g with
  | nil => exact .refl g
  | cons rec records ih => exact (analyzeRecord_touches streamid tag g A rec).andThen ih

theorem analyzeStream_touches (n : ℕ) :
    Touches streamid tag g (g.analyzeStream A streamid tag n).state := by
  induction n generalizing g with
  | zero => exact .refl g
  | succ n ih =>
      have hread := streamRead_touches streamid tag g
      rw [analyzeStream]
      generalize g.streamRead streamid = read at hread ⊢
      obtain ⟨outcome, rec⟩ := read
      refine hread.andThen fun g' => ?_
      cases rec with
      | none => exact .refl g'
      | some rec => exact (analyzeRecord_touches streamid tag g' A rec).andThen ih

variable (files : String → Option BinaryFormat.Bytes)

/-- A file that can be opened is a field of the stream, whatever happens later. -/
theorem file_mem_openFields (filename : String) (file : BinaryFormat.Bytes) (start : ℤ)
    (length : StreamLength) :
    "file" ∈ (openFields filename (some file) start length).1.map Prod.fst := by
  unfold openFields
  dsimp only
  repeat' split
  all_goals simp

private theorem setAll_of_mem {ν : Type u} (a : TclArray ν) (id : Ident) {field : String}
    {fields : List (String × ν)} (mem : field ∈ fields.map Prod.fst) :
    (a.setAll id fields id field).isSome := by
  induction fields generalizing a with
  | nil => exact absurd mem List.not_mem_nil
  | cons entry fields ih =>
      rw [TclArray.setAll, List.foldl_cons]
      rcases List.mem_cons.mp mem with rfl | hmem
      · apply TclArray.setAll_isSome
        rw [TclArray.set, Function.update_self, Function.update_self]
        rfl
      · exact ih _ hmem

/-- A stream that has been opened has a file. -/
theorem openFields_file {filename : String} {file : Option BinaryFormat.Bytes} {start : ℤ}
    {length : StreamLength} (opened : (openFields filename file start length).2 = none)
    (a : TclArray Cell) (id : Ident) :
    (a.setAll id (openFields filename file start length).1 id "file").isSome := by
  cases file with
  | none => exact absurd opened nofun
  | some file => exact setAll_of_mem a id (file_mem_openFields filename file start length)

/-- So many identifiers have been given. -/
def counted (n : ℕ) : Globals ν := { g with uidCount := n }

private theorem streamOpen_fst (filename : String) (start : ℤ) (length : StreamLength) :
    (g.streamOpen files filename start length).1 = uid (g.uidCount + 1) := rfl

/-- Opening a stream takes one identifier and touches what belongs to it. If the stream
can be opened it is open. -/
theorem streamOpen_touches (filename : String) (start : ℤ) (length : StreamLength) :
    Touches (uid (g.uidCount + 1)) tag (g.counted (g.uidCount + 1))
        (g.streamOpen files filename start length).2.state ∧
      ((g.streamOpen files filename start length).2.error = none →
        (g.streamOpen files filename start length).2.state.streamids (uid (g.uidCount + 1)) =
          true) := by
  unfold streamOpen uidCreate
  dsimp only
  cases herror : (openFields filename (files filename) start length).2 with
  | some e =>
      refine ⟨⟨rfl, fun id other => TclArray.setAll_of_ne other _, fun _ _ => rfl,
        fun _ _ => rfl, rfl, id, fun h hopen => TclArray.setAll_isSome (h hopen) _⟩, nofun⟩
  | none =>
      refine ⟨⟨rfl, fun id other => TclArray.setAll_of_ne other _,
        fun id other => Function.update_of_ne other _ _, fun _ _ => rfl, rfl,
        fun _ => Function.update_self _ _ _, fun _ _ => openFields_file herror _ _⟩,
        fun _ => Function.update_self _ _ _⟩

/-! ## The end of a stream -/

/-- What closing leaves of a stream that has a file. -/
def closed : Globals ν :=
  { g with
    stream := g.stream.unset (streamid ++ ['*'])
    streamids := fun id => !Glob.stringMatch streamid id && g.streamids id }

theorem streamClose_of_file (file : (g.stream streamid "file").isSome) :
    g.streamClose streamid = .ok (g.closed streamid) := by
  have hsome : (g.stream streamid "file").isNone = false := by
    rw [← Option.not_isSome, file, Bool.not_true]
  rw [streamClose, hsome]
  rfl

private theorem streamClose_of_none (file : ¬ (g.stream streamid "file").isSome) :
    g.streamClose streamid = .raise g noVariable := by
  have hnone : (g.stream streamid "file").isNone = true := by
    rw [← Option.not_isSome, Bool.eq_false_of_not_eq_true file, Bool.not_false]
  rw [streamClose, if_pos hnone]

private theorem closed_streamids (m : ℕ) (id : Ident) :
    (g.closed (uid m)).streamids id = (decide (id ≠ uid m) && g.streamids id) := by
  have hmatch : Glob.stringMatch (uid m) id = decide (uid m = id) := by
    rw [Bool.eq_iff_iff, Glob.stringMatch_literal (uid_literal m), decide_eq_true_eq]
  simp only [closed, hmatch, ne_eq, decide_not, eq_comm]

/-! ## The beginning of an analysis -/

/-- An analysis that has begun in `g` has raised, or it has come to `ready` and goes on
with `finish`. -/
def Begun (ready : Globals ν → Prop) (finish : Globals ν → Globals ν) (r : Outcome (Globals ν)) :
    Prop :=
  ∃ t, Touches streamid tag g t ∧
    (r.state = t ∧ r.error ≠ none ∨ ready t ∧ r = .ok (finish t))

variable {streamid tag g} in
theorem Begun.andThen {ready : Globals ν → Prop} {finish : Globals ν → Globals ν}
    {r : Outcome (Globals ν)} {next : Globals ν → Outcome (Globals ν)}
    (first : Touches streamid tag g r.state)
    (second : r.error = none → Begun streamid tag r.state ready finish (next r.state)) :
    Begun streamid tag g ready finish (r.andThen next) := by
  by_cases hreturned : r.error = none
  · obtain ⟨t, htouches, hends⟩ := second hreturned
    rw [Outcome.andThen_of_ok hreturned]
    exact ⟨t, first.trans htouches, hends⟩
  · rw [Outcome.andThen_of_raised hreturned]
    exact ⟨r.state, first, .inl ⟨rfl, hreturned⟩⟩

/-- `ta_file` touches its analysis and its stream, and the stream is closed in the end. -/
theorem taFile_begun (filename : String) (start : ℤ) (length : StreamLength)
    (callback : String) :
    Begun (uid (g.uidCount + 2)) (uid (g.uidCount + 1)) (g.counted (g.uidCount + 2))
      (fun t => (t.stream (uid (g.uidCount + 2)) "file").isSome)
      (fun t => { t.closed (uid (g.uidCount + 2)) with
        running := (uid (g.uidCount + 1), none) :: t.running })
      (g.taFile A files filename start length callback) := by
  unfold taFile uidCreate
  dsimp only
  let fields : List (String × TaCell ν) :=
    [("start", TaCell.int start), ("length", .length length), ("callback", .text callback)]
  have htag : Touches (uid (g.uidCount + 2)) (uid (g.uidCount + 1)) (g.counted (g.uidCount + 2))
      { g.counted (g.uidCount + 2) with ta := g.ta.setAll (uid (g.uidCount + 1)) fields } :=
    touches_ta _ _ _ fun id other => TclArray.setAll_of_ne other fields
  have hopen := streamOpen_touches (uid (g.uidCount + 1))
    { g.counted (g.uidCount + 1) with ta := g.ta.setAll (uid (g.uidCount + 1)) fields } files
    filename (historyStart start) (historyLength start length)
  refine Begun.andThen (htag.trans hopen.1) fun _ => ?_
  refine Begun.andThen (primeHistory_touches _ _ _ _) fun _ => ?_
  refine Begun.andThen ((taInitialize_touches _ _ _ A).trans
    (analyzeStream_touches _ _ _ A _)) fun _ => ?_
  generalize Outcome.state _ = t
  by_cases hfile : (t.stream (uid (g.uidCount + 2)) "file").isSome
  · refine ⟨t, .refl t, .inr ⟨hfile, ?_⟩⟩
    rw [streamOpen_fst, streamClose_of_file _ _ hfile]
    rfl
  · refine ⟨t, .refl t, .inl ?_⟩
    rw [streamOpen_fst, streamClose_of_none _ _ hfile]
    exact ⟨rfl, nofun⟩

/-- `ta_records` has raised before it opens a stream, or it touches its analysis and its
stream, and the stream stays open. -/
theorem taRecords_begun (filename : String) (records : List Record) :
    (g.taRecords A files filename records).state = g.counted (g.uidCount + 1) ∨
      Begun (uid (g.uidCount + 2)) (uid (g.uidCount + 1)) (g.counted (g.uidCount + 2))
        (fun t => t.streamids (uid (g.uidCount + 2)) = true)
        (fun t => { t with
          running := (uid (g.uidCount + 1), some (uid (g.uidCount + 2))) :: t.running })
        (g.taRecords A files filename records) := by
  unfold taRecords uidCreate
  dsimp only
  split
  · split
    · exact .inl rfl
    · split
      · exact .inl rfl
      · exact .inl rfl
      · split
        · exact .inl rfl
        · right
          have hopen := fun start length => streamOpen_touches (uid (g.uidCount + 1))
            { g with uidCount := g.uidCount + 1 } files filename start length
          refine Begun.andThen (hopen _ _).1 fun hok => ?_
          have hids := (hopen _ _).2 hok
          rw [streamOpen_fst]
          generalize Outcome.state _ = g₂ at hids ⊢
          generalize Int.toNat _ = n
          have hprime := primeHistory_touches (uid (g.uidCount + 2)) (uid (g.uidCount + 1)) g₂ n
          refine Begun.andThen hprime fun _ => ?_
          have hids := hprime.opened hids
          generalize Outcome.state _ = g₃ at hids ⊢
          have hanalyze := (taInitialize_touches (uid (g.uidCount + 2)) (uid (g.uidCount + 1))
            g₃ A).trans (analyzeRecords_touches _ _ _ A (interpolate records))
          refine Begun.andThen hanalyze fun _ => ?_
          exact ⟨_, .refl _, .inr ⟨hanalyze.opened hids, rfl⟩⟩
  · exact .inl rfl

end Globals

/-! ## Runs -/

/-- What can happen next: a command, or the return of the innermost callback. -/
inductive Command
  /-- Another part of the program takes an identifier. -/
  | uid
  | streamOpen (filename : String) (start : ℤ) (length : StreamLength)
  | streamRead (streamid : Ident)
  | streamClose (streamid : Ident)
  | taFile (filename : String) (start : ℤ) (length : StreamLength) (callback : String)
  | taRecords (filename : String) (records : List Record)
  /-- The callback of the innermost analysis returns. -/
  | taDone
  /-- The callback of the innermost analysis raises. -/
  | taFail

section Run

variable (A : Analysis ν) (files : String → Option BinaryFormat.Bytes)

def step (g : Globals ν) : Command → Globals ν
  | .uid => g.uidCreate.2
  | .streamOpen filename start length => (g.streamOpen files filename start length).2.state
  | .streamRead streamid => (g.streamRead streamid).1.state
  | .streamClose streamid => (g.streamClose streamid).state
  | .taFile filename start length callback =>
    (g.taFile A files filename start length callback).state
  | .taRecords filename records => (g.taRecords A files filename records).state
  | .taDone => g.taDone.state
  | .taFail => g.taFail

/-- Only open streams are read and closed, and the stream of an analysis is left to the
analysis. -/
def Admissible (g : Globals ν) : Command → Prop
  | .streamRead streamid => g.streamids streamid = true
  | .streamClose streamid =>
    g.streamids streamid = true ∧ some streamid ∉ g.running.map Prod.snd
  | .taDone | .taFail => g.running ≠ []
  | _ => True

def machine : Machine (Globals ν) Command where
  admissible := Admissible
  step := step A files

/-- Exactly the entries of one stream and of one analysis are removed, and every other
open stream is read as before. -/
structure Removed (streamid tag : Option Ident) (g g' : Globals ν) : Prop where
  stream : ∀ id, g'.stream id = if some id = streamid then fun _ => none else g.stream id
  streamids : ∀ id, g'.streamids id = (decide (some id ≠ streamid) && g.streamids id)
  ta : ∀ id, g'.ta id = if some id = tag then fun _ => none else g.ta id
  reads : ∀ id, g.streamids id = true → some id ≠ streamid →
    ∀ n, g'.readTimes id n = g.readTimes id n

/-- The end of a stream and the end of an analysis remove exactly what belongs to them.
The stream that `ta_file` opens and closes before its callback leaves nothing. -/
def Isolated (g : Globals ν) : Command → Prop
  | .streamClose streamid => Removed (some streamid) none g (g.streamClose streamid).state
  | .taFile filename start length callback =>
    (g.taFile A files filename start length callback).error = none →
      let g' := (g.taFile A files filename start length callback).state
      g'.stream = g.stream ∧ g'.streamids = g.streamids ∧
        ∀ id, id ≠ Scope.uid (g.uidCount + 1) → g'.ta id = g.ta id
  | .taDone =>
    ∀ a ∈ g.running.head?, Removed a.2 (some a.1) { g with running := g.running.tail }
      g.taDone.state
  | _ => True

/-- No other stream with entries has a number that begins with the digits of a stream
that is closed, and no other analysis with entries one that begins with the digits of an
analysis that is over. -/
def Condition (g : Globals ν) : Command → Prop
  | .streamClose streamid => ∀ m, streamid = Scope.uid m → Clear g.stream m
  | .taDone => ∀ a ∈ g.running.head?,
    (∀ m, a.2 = some (Scope.uid m) → Clear g.stream m) ∧ ∀ m, a.1 = Scope.uid m → Clear g.ta m
  | _ => True

end Run

/-! ## The invariant -/

/-- An identifier that the counter has given. -/
def Given (g : Globals ν) (id : Ident) : Prop := ∃ n, 0 < n ∧ n ≤ g.uidCount ∧ id = uid n

structure Inv (g : Globals ν) : Prop where
  stream : Keyed g.stream g.uidCount
  ta : Keyed g.ta g.uidCount
  opened : ∀ id, g.streamids id = true → (g.stream id "file").isSome
  given : ∀ id, g.streamids id = true → Given g id
  tags : ∀ a ∈ g.running, Given g a.1
  streams : ∀ a ∈ g.running, ∀ id, a.2 = some id → g.streamids id = true
  distinct : (g.running.filterMap Prod.snd).Nodup

private theorem keyed_mono {a : TclArray ν} {n n' : ℕ} (le : n ≤ n') (keyed : Keyed a n) :
    Keyed a n' := by
  intro id field hentry
  rcases keyed id field hentry with ⟨k, hpos, hle, hid⟩ | hid
  · exact .inl ⟨k, hpos, hle.trans le, hid⟩
  · exact .inr hid

theorem inv_init : Inv (Globals.init : Globals ν) where
  stream := fun _ _ h => absurd rfl h
  ta := by
    intro id field hentry
    by_contra hid
    rw [not_or] at hid
    have hnone : (Globals.init : Globals ν).ta id = fun _ => none :=
      TclArray.set_of_ne (a := fun _ _ => none) hid.2 "binsize" (TaCell.int 1)
    exact hentry (congrFun hnone field)
  opened := nofun
  given := nofun
  tags := nofun
  streams := nofun
  distinct := List.nodup_nil

namespace Inv

variable {g : Globals ν}

/-- More identifiers may be given. -/
theorem counted (inv : Inv g) {n : ℕ} (le : g.uidCount ≤ n) : Inv (g.counted n) where
  stream := keyed_mono le inv.stream
  ta := keyed_mono le inv.ta
  opened := inv.opened
  given := fun id hid => by
    obtain ⟨k, hpos, hle, hk⟩ := inv.given id hid
    exact ⟨k, hpos, hle.trans le, hk⟩
  tags := fun a ha => by
    obtain ⟨k, hpos, hle, hk⟩ := inv.tags a ha
    exact ⟨k, hpos, hle.trans le, hk⟩
  streams := inv.streams
  distinct := inv.distinct

/-- What touches a given stream and a given analysis only keeps the invariant. -/
theorem touches (inv : Inv g) {streamid tag : Ident} {g' : Globals ν}
    (touches : Touches streamid tag g g') (hstream : Given g streamid) (htag : Given g tag) :
    Inv g' where
  stream := by
    intro id field hentry
    rw [touches.uidCount]
    by_cases hid : id = streamid
    · exact .inl (hid ▸ hstream)
    · rw [touches.stream id hid] at hentry
      exact inv.stream id field hentry
  ta := by
    intro id field hentry
    rw [touches.uidCount]
    by_cases hid : id = tag
    · exact .inl (hid ▸ htag)
    · rw [touches.ta id hid] at hentry
      exact inv.ta id field hentry
  opened := by
    intro id hopen
    by_cases hid : id = streamid
    · subst hid
      exact touches.file (inv.opened id) hopen
    · rw [touches.streamids id hid] at hopen
      rw [touches.stream id hid]
      exact inv.opened id hopen
  given := by
    intro id hopen
    rw [Given, touches.uidCount]
    by_cases hid : id = streamid
    · exact hid ▸ hstream
    · exact inv.given id ((touches.streamids id hid) ▸ hopen)
  tags := by
    rw [touches.running]
    intro a ha
    rw [Given, touches.uidCount]
    exact inv.tags a ha
  streams := by
    rw [touches.running]
    intro a ha id hsome
    have hopen := inv.streams a ha id hsome
    by_cases hid : id = streamid
    · subst hid
      exact touches.opened hopen
    · rwa [touches.streamids id hid]
  distinct := by
    rw [touches.running]
    exact inv.distinct

/-- A stream with no open identifier left for it is closed. -/
theorem closed (inv : Inv g) {m : ℕ} (clear : Clear g.stream m) (pos : 0 < m)
    (free : some (uid m) ∉ g.running.map Prod.snd) : Inv (g.closed (uid m)) := by
  have hstream : (g.closed (uid m)).stream = without g.stream (uid m) :=
    (unset_eq_without_iff inv.stream pos).mpr clear
  have hopen : ∀ id, (g.closed (uid m)).streamids id = true →
      id ≠ uid m ∧ g.streamids id = true := by
    intro id h
    rwa [Globals.closed_streamids, Bool.and_eq_true, decide_eq_true_eq] at h
  refine ⟨?_, inv.ta, ?_, ?_, inv.tags, ?_, inv.distinct⟩
  · intro id field hentry
    rw [hstream, without] at hentry
    split at hentry
    · exact absurd rfl hentry
    · exact inv.stream id field hentry
  · intro id h
    rw [hstream, without, if_neg (hopen id h).1]
    exact inv.opened id (hopen id h).2
  · intro id h
    exact inv.given id (hopen id h).2
  · intro a ha id hsome
    have hne : id ≠ uid m := by
      rintro rfl
      exact free (hsome ▸ List.mem_map_of_mem ha)
    rw [Globals.closed_streamids, inv.streams a ha id hsome, decide_eq_true hne]
    rfl

/-- A callback begins. -/
theorem pushed (inv : Inv g) {tag : Ident} (htag : Given g tag) {stream : Option Ident}
    (opened : ∀ id, stream = some id → g.streamids id = true)
    (free : ∀ id, stream = some id → some id ∉ g.running.map Prod.snd) :
    Inv { g with running := (tag, stream) :: g.running } where
  stream := inv.stream
  ta := inv.ta
  opened := inv.opened
  given := inv.given
  tags := by
    intro a ha
    rcases List.mem_cons.mp ha with rfl | ha
    · exact htag
    · exact inv.tags a ha
  streams := by
    intro a ha id hsome
    rcases List.mem_cons.mp ha with rfl | ha
    · exact opened id hsome
    · exact inv.streams a ha id hsome
  distinct := by
    cases stream with
    | none => exact inv.distinct
    | some id =>
        refine List.nodup_cons.mpr ⟨fun hmem => ?_, inv.distinct⟩
        obtain ⟨a, ha, hsnd⟩ := List.mem_filterMap.mp hmem
        exact free id rfl (hsnd ▸ List.mem_map_of_mem ha)

/-- The innermost callback is over. -/
theorem popped (inv : Inv g) : Inv { g with running := g.running.tail } where
  stream := inv.stream
  ta := inv.ta
  opened := inv.opened
  given := inv.given
  tags := fun a ha => inv.tags a (List.mem_of_mem_tail ha)
  streams := fun a ha => inv.streams a (List.mem_of_mem_tail ha)
  distinct := inv.distinct.sublist ((List.tail_sublist _).filterMap _)

end Inv

/-! ## Each step -/

/-- What a stream gives depends on its own fields. -/
theorem readTimes_congr {streamid : Ident} {g g' : Globals ν}
    (same : g'.stream streamid = g.stream streamid) (n : ℕ) :
    g'.readTimes streamid n = g.readTimes streamid n := by
  induction n generalizing g g' with
  | zero => rfl
  | succ n ih =>
      have hread : (g'.streamRead streamid).1.error = (g.streamRead streamid).1.error ∧
          (g'.streamRead streamid).2 = (g.streamRead streamid).2 ∧
          (g'.streamRead streamid).1.state.stream streamid =
            (g.streamRead streamid).1.state.stream streamid := by
        unfold Globals.streamRead
        rw [same]
        cases Globals.loadStream (g.stream streamid) with
        | none => exact ⟨rfl, rfl, same⟩
        | some s =>
            dsimp only
            cases (streamRead s).2 with
            | error e => exact ⟨rfl, rfl, TclArray.setAll_congr same _⟩
            | ok rec => exact ⟨rfl, rfl, TclArray.setAll_congr same _⟩
      rw [Globals.readTimes, Globals.readTimes]
      dsimp only
      rw [hread.1, hread.2.1, ih hread.2.2]

section Step

variable {g : Globals ν}

/-- The pattern of a stream removes exactly this stream if its number is clear. -/
theorem removed_closed_iff (inv : Inv g) {m : ℕ} (pos : 0 < m) :
    Removed (some (uid m)) none g (g.closed (uid m)) ↔ Clear g.stream m := by
  rw [← unset_iff inv.stream pos]
  constructor
  · exact Removed.stream
  · intro hstream
    refine ⟨hstream, fun id => ?_, fun id => rfl, fun id _ hne n => readTimes_congr ?_ n⟩
    · rw [Globals.closed_streamids]
      simp only [ne_eq, Option.some.injEq]
    · exact (hstream id).trans (if_neg hne)

theorem streamClose_isolated_iff (inv : Inv g) {streamid : Ident}
    (opened : g.streamids streamid = true) :
    Removed (some streamid) none g (g.streamClose streamid).state ↔
      ∀ m, streamid = uid m → Clear g.stream m := by
  obtain ⟨m, hpos, -, rfl⟩ := inv.given streamid opened
  rw [Globals.streamClose_of_file _ _ (inv.opened _ opened), Outcome.ok_state,
    removed_closed_iff inv hpos]
  constructor
  · intro hclear m' hm'
    rwa [← uid_injective hm']
  · intro hclear
    exact hclear m rfl

/-- What the end of an analysis leaves. -/
theorem taDone_state (inv : Inv g) {tag : Ident} {stream : Option Ident}
    {rest : List (Ident × Option Ident)} (hrunning : g.running = (tag, stream) :: rest) :
    g.taDone.state =
      { (match stream with
          | none => { g with running := rest }
          | some streamid => Globals.closed streamid { g with running := rest }) with
        ta := g.ta.unset (tag ++ ['*']) } := by
  rw [Globals.taDone, hrunning]
  cases stream with
  | none => rfl
  | some streamid =>
      have hopen := inv.streams (tag, some streamid) (hrunning ▸ List.mem_cons_self) streamid rfl
      dsimp only
      rw [Globals.streamClose_of_file streamid { g with running := rest } (inv.opened _ hopen)]
      rfl

/-- The patterns of an analysis and of its stream remove exactly these if their numbers
are clear. -/
theorem taDone_isolated_iff (inv : Inv g) {tag : Ident} {stream : Option Ident}
    {rest : List (Ident × Option Ident)} (hrunning : g.running = (tag, stream) :: rest) :
    Removed stream (some tag) { g with running := rest } g.taDone.state ↔
      (∀ m, stream = some (uid m) → Clear g.stream m) ∧ ∀ m, tag = uid m → Clear g.ta m := by
  have hmem : (tag, stream) ∈ g.running := hrunning ▸ List.mem_cons_self
  obtain ⟨k, hk, -, htag⟩ := inv.tags _ hmem
  have htag : tag = uid k := htag
  subst htag
  have hclearTag : (∀ m, uid k = uid m → Clear g.ta m) ↔ Clear g.ta k := by
    constructor
    · intro h
      exact h k rfl
    · intro h m hm
      rwa [← uid_injective hm]
  rw [taDone_state inv hrunning, hclearTag, ← unset_iff inv.ta hk]
  cases stream with
  | none =>
      constructor
      · intro removed
        exact ⟨nofun, removed.ta⟩
      · rintro ⟨-, hta⟩
        refine ⟨fun _ => rfl, fun id => by simp, hta, fun id _ _ n => ?_⟩
        apply readTimes_congr
        rfl
  | some streamid =>
      have hopen := inv.streams _ hmem streamid rfl
      obtain ⟨m, hm, -, rfl⟩ := inv.given streamid hopen
      have hclear : (∀ m', some (uid m) = some (uid m') → Clear g.stream m') ↔
          Clear g.stream m := by
        constructor
        · intro h
          exact h m rfl
        · intro h m' hm'
          rwa [← uid_injective (Option.some.inj hm')]
      rw [hclear, ← unset_iff inv.stream hm]
      constructor
      · intro removed
        exact ⟨removed.stream, removed.ta⟩
      · rintro ⟨hstream, hta⟩
        refine ⟨hstream, fun id => ?_, hta, fun id _ hne n => readTimes_congr ?_ n⟩
        · have hids := Globals.closed_streamids { g with running := rest } m id
          simp only [ne_eq, Option.some.injEq]
          simpa using hids
        · exact (hstream id).trans (if_neg hne)

/-- The end of an analysis with clear numbers keeps the invariant. -/
theorem Inv.taDone (inv : Inv g) {tag : Ident} {stream : Option Ident}
    {rest : List (Ident × Option Ident)} (hrunning : g.running = (tag, stream) :: rest)
    (clearStream : ∀ m, stream = some (uid m) → Clear g.stream m)
    (clearTag : ∀ m, tag = uid m → Clear g.ta m) : Inv g.taDone.state := by
  have hmem : (tag, stream) ∈ g.running := hrunning ▸ List.mem_cons_self
  have hpopped : Inv { g with running := rest } := by
    have h := inv.popped
    rwa [hrunning] at h
  have hunset : ∀ g' : Globals ν, Inv g' → g'.ta = g.ta →
      Inv { g' with ta := g.ta.unset (tag ++ ['*']) } := by
    intro g' inv' hta
    obtain ⟨k, hk, -, htag⟩ := inv.tags _ hmem
    have htag : tag = uid k := htag
    subst htag
    refine ⟨inv'.stream, ?_, inv'.opened, inv'.given, inv'.tags, inv'.streams, inv'.distinct⟩
    intro id field hentry
    apply inv'.ta id field
    rw [hta]
    dsimp only at hentry
    rw [(unset_iff inv.ta hk).mpr (clearTag k rfl)] at hentry
    split at hentry
    · exact absurd rfl hentry
    · exact hentry
  rw [taDone_state inv hrunning]
  cases stream with
  | none => exact hunset _ hpopped rfl
  | some streamid =>
      obtain ⟨m, hm, -, rfl⟩ := inv.given streamid (inv.streams _ hmem streamid rfl)
      refine hunset _ (hpopped.closed (clearStream m rfl) hm ?_) rfl
      have hdistinct : (uid m :: rest.filterMap Prod.snd).Nodup := by
        have h := inv.distinct
        rw [hrunning] at h
        exact h
      intro hfree
      obtain ⟨a, ha, hsnd⟩ := List.mem_map.mp hfree
      exact (List.nodup_cons.mp hdistinct).1 (List.mem_filterMap.mpr ⟨a, ha, hsnd⟩)

variable (A : Analysis ν) (files : String → Option BinaryFormat.Bytes)

private theorem given_succ (g : Globals ν) :
    Given (g.counted (g.uidCount + 2)) (uid (g.uidCount + 1)) :=
  ⟨g.uidCount + 1, Nat.succ_pos _, Nat.le_succ _, rfl⟩

private theorem given_last (g : Globals ν) (n : ℕ) : Given (g.counted (n + 1)) (uid (n + 1)) :=
  ⟨n + 1, Nat.succ_pos n, le_rfl, rfl⟩

theorem Inv.stream_fresh (inv : Inv g) {n : ℕ} (fresh : g.uidCount < n) (field : String) :
    g.stream (uid n) field = none := by
  by_contra hentry
  rcases inv.stream _ field hentry with ⟨k, -, hle, hid⟩ | hid
  · exact absurd (uid_injective hid) (by omega)
  · exact uid_ne_options _ hid

theorem Inv.streamids_fresh (inv : Inv g) {n : ℕ} (fresh : g.uidCount < n) :
    g.streamids (uid n) = false := by
  by_contra hopen
  obtain ⟨k, -, hle, hid⟩ := inv.given _ (Bool.eq_true_of_not_eq_false hopen)
  exact absurd (uid_injective hid) (by omega)

/-- No running analysis has a stream that was not given before. -/
theorem Inv.free_fresh (inv : Inv g) {n : ℕ} (fresh : g.uidCount < n) :
    some (uid n) ∉ g.running.map Prod.snd := by
  intro hmem
  obtain ⟨a, ha, hsnd⟩ := List.mem_map.mp hmem
  have hopen := inv.streams a ha _ hsnd
  rw [inv.streamids_fresh fresh] at hopen
  exact absurd hopen nofun

/-- The stream of `ta_file` was given last, so its pattern matches no other. -/
theorem taFile_isolated (inv : Inv g) (filename : String) (start : ℤ) (length : StreamLength)
    (callback : String) : Isolated A files g (.taFile filename start length callback) := by
  intro hok
  obtain ⟨t, htouches, ⟨-, hraised⟩ | ⟨-, hfinish⟩⟩ :=
    Globals.taFile_begun g A files filename start length callback
  · exact absurd hok hraised
  · have hinv : Inv t := (inv.counted (Nat.le_add_right _ 2)).touches htouches
      (given_last g _) (given_succ g)
    have hclear : Clear t.stream (g.uidCount + 2) :=
      clear_of_newest hinv.stream htouches.uidCount.le
    have hunset := (unset_iff hinv.stream (Nat.succ_pos _)).mpr hclear
    have hfresh : g.uidCount < g.uidCount + 2 := by omega
    rw [hfinish]
    refine ⟨?_, ?_, htouches.ta⟩
    · funext id
      refine (hunset id).trans ?_
      split
      · rename_i hid
        funext field
        rw [Option.some.inj hid, inv.stream_fresh hfresh]
      · rename_i hid
        exact htouches.stream id fun h => hid (congrArg some h)
    · funext id
      refine (Globals.closed_streamids t _ id).trans ?_
      by_cases hid : id = uid (g.uidCount + 2)
      · rw [hid, inv.streamids_fresh hfresh]
        simp
      · rw [htouches.streamids id hid, decide_eq_true hid]
        rfl

theorem Inv.taFile (inv : Inv g) (filename : String) (start : ℤ) (length : StreamLength)
    (callback : String) : Inv (g.taFile A files filename start length callback).state := by
  obtain ⟨t, htouches, ⟨hstate, -⟩ | ⟨-, hfinish⟩⟩ :=
    Globals.taFile_begun g A files filename start length callback
  all_goals
    have hinv : Inv t := (inv.counted (Nat.le_add_right _ 2)).touches htouches
      (given_last g _) (given_succ g)
  · rwa [hstate]
  · have hclear : Clear t.stream (g.uidCount + 2) :=
      clear_of_newest hinv.stream htouches.uidCount.le
    have hfree : some (uid (g.uidCount + 2)) ∉ t.running.map Prod.snd := by
      rw [htouches.running]
      exact inv.free_fresh (by omega)
    have htag : Given t (uid (g.uidCount + 1)) := by
      rw [Given, htouches.uidCount]
      exact given_succ g
    rw [hfinish]
    exact (hinv.closed hclear (Nat.succ_pos _) hfree).pushed htag nofun nofun

theorem Inv.taRecords (inv : Inv g) (filename : String) (records : List Record) :
    Inv (g.taRecords A files filename records).state := by
  obtain hearly | ⟨t, htouches, hends⟩ := Globals.taRecords_begun g A files filename records
  · rw [hearly]
    exact inv.counted (Nat.le_succ _)
  · have hinv : Inv t := (inv.counted (Nat.le_add_right _ 2)).touches htouches
      (given_last g _) (given_succ g)
    obtain ⟨hstate, -⟩ | ⟨hopen, hfinish⟩ := hends
    · rwa [hstate]
    · have htag : Given t (uid (g.uidCount + 1)) := by
        rw [Given, htouches.uidCount]
        exact given_succ g
      rw [hfinish]
      refine hinv.pushed htag ?_ ?_
      · rintro id ⟨⟩
        exact hopen
      · rintro id ⟨⟩
        rw [htouches.running]
        exact inv.free_fresh (by omega)

/-- Every admissible step that meets the condition keeps the invariant. -/
theorem step_inv (inv : Inv g) (e : Command) (admissible : Admissible g e)
    (condition : Condition g e) : Inv (step A files g e) := by
  cases e with
  | uid => exact inv.counted (Nat.le_succ _)
  | streamOpen filename start length =>
      exact (inv.counted (Nat.le_succ _)).touches
        (Globals.streamOpen_touches (uid (g.uidCount + 1)) g files filename start length).1
        (given_last g _) (given_last g _)
  | streamRead streamid =>
      have hgiven := inv.given streamid admissible
      exact inv.touches (Globals.streamRead_touches streamid streamid g) hgiven hgiven
  | streamClose streamid =>
      obtain ⟨m, hpos, -, rfl⟩ := inv.given streamid admissible.1
      have hclosed := inv.closed (condition m rfl) hpos admissible.2
      rw [step, Globals.streamClose_of_file _ _ (inv.opened _ admissible.1)]
      exact hclosed
  | taFile filename start length callback => exact inv.taFile A files _ _ _ _
  | taRecords filename records => exact inv.taRecords A files _ _
  | taDone =>
      cases hrunning : g.running with
      | nil => exact absurd hrunning admissible
      | cons a rest =>
          have hcondition := condition a (by rw [hrunning]; rfl)
          exact inv.taDone hrunning hcondition.1 hcondition.2
  | taFail =>
      have hpopped := inv.popped
      rwa [← List.drop_one] at hpopped

/-- A step isolates what it ends exactly if it meets the condition. -/
theorem isolated_iff (inv : Inv g) (e : Command) (admissible : Admissible g e) :
    Isolated A files g e ↔ Condition g e := by
  cases e with
  | streamClose streamid => exact streamClose_isolated_iff inv admissible.1
  | taFile filename start length callback =>
      exact iff_of_true (taFile_isolated A files inv filename start length callback) trivial
  | taDone =>
      cases hrunning : g.running with
      | nil => exact absurd hrunning admissible
      | cons a rest =>
          obtain ⟨tag, stream⟩ := a
          have hiff := taDone_isolated_iff inv hrunning
          unfold Isolated Condition
          simp only [hrunning, List.head?_cons, List.tail_cons, Option.mem_some_iff, forall_eq']
          exact hiff
  | uid | streamOpen | streamRead | taRecords | taFail => exact iff_of_true trivial trivial

end Step

/-- In every run the ends of streams and analyses remove exactly what belongs to them and
leave all others as they were if and only if none of them has a number with which that of
another begins that still has entries. -/
theorem isolated_run_iff (A : Analysis ν) (files : String → Option BinaryFormat.Bytes)
    {events : List Command} (admits : (machine A files).Admits Globals.init events) :
    (machine A files).EachStep (Isolated A files) Globals.init events ↔
      (machine A files).EachStep Condition Globals.init events :=
  (machine A files).eachStep_iff_of_invariant
    (fun _ e inv admissible condition => step_inv A files inv e admissible condition)
    (fun _ e inv admissible => isolated_iff A files inv e admissible) inv_init admits

/-- An analysis that computes nothing. -/
def idle : Analysis Unit where
  initial := fun _ => []
  processRecord := fun _ _ => some []

/-- Every file is the trace with a gap. -/
def sampleFiles : String → Option BinaryFormat.Bytes := fun _ => some sampleTrace.bytes

/-- Two streams of which the first is closed. -/
theorem isolated_run_iff_sample :
    (machine idle sampleFiles).EachStep (Isolated idle sampleFiles) Globals.init
        [.streamOpen "trace" 0 .toEnd, .streamOpen "trace" 2 .toEnd, .streamClose (uid 1)] ↔
      (machine idle sampleFiles).EachStep Condition Globals.init
        [.streamOpen "trace" 0 .toEnd, .streamOpen "trace" 2 .toEnd, .streamClose (uid 1)] :=
  isolated_run_iff idle sampleFiles
    ⟨trivial, trivial, ⟨by decide +kernel, by decide +kernel⟩, trivial⟩

/-- The first stream is closed while the tenth identifier is that of another. -/
def shortDigits : List Command :=
  [.streamOpen "trace" 0 .toEnd, .uid, .uid, .uid, .uid, .uid, .uid, .uid, .uid,
    .streamOpen "trace" 2 .toEnd, .streamClose (uid 1)]

/-- Closing `u1` removes `u10`. -/
theorem close_removes_longer :
    (machine idle sampleFiles).Admits Globals.init shortDigits ∧
      ¬ (machine idle sampleFiles).EachStep (Isolated idle sampleFiles) Globals.init
        shortDigits := by
  constructor
  · exact ⟨trivial, trivial, trivial, trivial, trivial, trivial, trivial, trivial, trivial,
      trivial, ⟨by decide +kernel, by decide +kernel⟩, trivial⟩
  · rintro ⟨-, -, -, -, -, -, -, -, -, -, removed, -⟩
    have hfile := congrFun (removed.stream (uid 10)) "file"
    revert hfile
    decide +kernel

end Amester.Scope
