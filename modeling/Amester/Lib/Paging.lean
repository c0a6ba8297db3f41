/-
# Tables read page by page

A table of a known number of records is asked for from a record number on, and the
answer decides how many records it brings. The reader goes on with the number behind
the last of them until it has all. What it makes of an answer depends on what it has
kept so far.

Such a reader ends if every answer brings a record, and it never ends if it asks the
same number again and again. Whether an answer is good or bad matters only for the
numbers that are asked for.

The records of one answer follow each other without a count: each says where the next
one begins, and the answer ends with its last byte.
-/

import Mathlib.Algebra.Order.Ring.Int
import Mathlib.Data.List.Nodup
import Mathlib.Tactic.Common

namespace Paging

universe u v

variable {τ : Type u} {ε : Type v}

/-! ## The records of one answer -/

/-- The records of an answer of so many bytes, from place `j` on. `record` reads the one
at a place, under its number, and says where the next one begins. -/
def records (record : ℕ → ℕ → τ → Except ε (ℕ × τ)) (size : ℕ) :
    ℕ → ℕ → ℕ → τ → Except ε (ℕ × τ)
  | 0, _, i, t => .ok (i, t)
  | fuel + 1, j, i, t =>
    if j < size then
      match record i j t with
      | .error e => .error e
      | .ok (j', t') => records record size fuel j' (i + 1) t'
    else .ok (i, t)

section Records

variable {record : ℕ → ℕ → τ → Except ε (ℕ × τ)} {size : ℕ}

theorem records_of_le {j : ℕ} (beyond : size ≤ j) (fuel i : ℕ) (t : τ) :
    records record size fuel j i t = .ok (i, t) := by
  cases fuel with
  | zero => rfl
  | succ fuel => rw [records, if_neg (Nat.not_lt.mpr beyond)]

theorem records_of_error {i j : ℕ} {t : τ} {e : ε} (more : j < size)
    (error : record i j t = .error e) (fuel : ℕ) :
    records record size (fuel + 1) j i t = .error e := by
  rw [records, if_pos more, error]

theorem records_of_ok {i j j' : ℕ} {t t' : τ} (more : j < size)
    (ok : record i j t = .ok (j', t')) (fuel : ℕ) :
    records record size (fuel + 1) j i t = records record size fuel j' (i + 1) t' := by
  rw [records, if_pos more, ok]

/-- What every record keeps, all records of an answer keep; an answer that is not empty
brings a record. -/
theorem records_keeps {Inv : ℕ → ℕ → τ → Prop}
    (keeps : ∀ i j t, Inv i j t → j < size → ∀ j' t', record i j t = .ok (j', t') →
      Inv (i + 1) j' t')
    {fuel i j : ℕ} {t : τ} (holds : Inv i j t) {i' : ℕ} {t' : τ}
    (hrecords : records record size fuel j i t = .ok (i', t')) :
    (∃ j', Inv i' j' t') ∧ i ≤ i' ∧ (j < size → 0 < fuel → i < i') := by
  induction fuel generalizing i j t with
  | zero =>
      obtain ⟨rfl, rfl⟩ := Prod.mk.inj (Except.ok.inj hrecords)
      exact ⟨⟨j, holds⟩, le_rfl, fun _ hfuel => absurd hfuel (lt_irrefl 0)⟩
  | succ fuel ih =>
      by_cases hmore : j < size
      · cases hrecord : record i j t with
        | error e =>
            rw [records_of_error hmore hrecord] at hrecords
            exact absurd hrecords nofun
        | ok next =>
            rw [records_of_ok hmore hrecord] at hrecords
            obtain ⟨hinv, hle, -⟩ := ih (keeps i j t holds hmore _ _ hrecord) hrecords
            exact ⟨hinv, Nat.le_of_succ_le hle, fun _ _ => hle⟩
      · rw [records_of_le (Nat.not_lt.mp hmore)] at hrecords
        obtain ⟨rfl, rfl⟩ := Prod.mk.inj (Except.ok.inj hrecords)
        exact ⟨⟨j, holds⟩, le_rfl, fun h => absurd h hmore⟩

/-- An answer that ends with an error ends with the error of a record that is read after
records that keep the invariant. -/
theorem records_error {Inv : ℕ → ℕ → τ → Prop}
    (keeps : ∀ i j t, Inv i j t → j < size → ∀ j' t', record i j t = .ok (j', t') →
      Inv (i + 1) j' t')
    {fuel i j : ℕ} {t : τ} (holds : Inv i j t) {e : ε}
    (hrecords : records record size fuel j i t = .error e) :
    ∃ i' j' t', Inv i' j' t' ∧ j' < size ∧ record i' j' t' = .error e := by
  induction fuel generalizing i j t with
  | zero => exact absurd hrecords nofun
  | succ fuel ih =>
      by_cases hmore : j < size
      · cases hrecord : record i j t with
        | error e' =>
            rw [records_of_error hmore hrecord] at hrecords
            exact ⟨i, j, t, holds, hmore, hrecord.trans hrecords⟩
        | ok next =>
            rw [records_of_ok hmore hrecord] at hrecords
            exact ih (keeps i j t holds hmore _ _ hrecord) hrecords
      · rw [records_of_le (Nat.not_lt.mp hmore)] at hrecords
        exact absurd hrecords nofun

/-- Encoded records that are not empty have a byte each. -/
theorem length_le_length_flatMap {α β : Type*} {encode : α → List β}
    (nonempty : ∀ e, encode e ≠ []) (entries : List α) :
    entries.length ≤ (entries.flatMap encode).length := by
  induction entries with
  | nil => exact Nat.zero_le _
  | cons e entries ih =>
      have hpos : 0 < (encode e).length := List.length_pos_iff.mpr (nonempty e)
      rw [List.flatMap_cons, List.length_append, List.length_cons]
      omega

/-- In a table of distinct names, a record of an answer has another name than those read
before. -/
theorem name_not_mem {α β : Type*} {name : α → β} {table : List α}
    (distinct : (table.map name).Nodup)
    {k m : ℕ} {done rest : List α} {e : α} (split : done ++ e :: rest = (table.drop k).take m) :
    name e ∉ (table.take k ++ done).map name := by
  have hnodup : ((table.take k ++ done ++ e :: rest).map name).Nodup := by
    rw [List.append_assoc, split, ← List.take_add]
    exact distinct.sublist ((List.take_sublist _ _).map _)
  rw [List.map_append, List.map_cons] at hnodup
  intro hmem
  exact (List.disjoint_of_nodup_append hnodup hmem) List.mem_cons_self

/-- An answer that is a number of encoded records is read record by record, each behind
those read before. -/
theorem records_encoded {α β : Type*} {encode : α → List β} (nonempty : ∀ e, encode e ≠ [])
    (Inv : List α → τ → Prop) {first : ℕ} {entries : List α}
    (reads : ∀ done e rest t, done ++ e :: rest = entries → Inv done t →
      ∃ t', record (first + done.length) (done.flatMap encode).length t =
        .ok (((done ++ [e]).flatMap encode).length, t') ∧ Inv (done ++ [e]) t')
    {t : τ} (start : Inv [] t) {fuel : ℕ} (enough : entries.length ≤ fuel) :
    ∃ t', records record (entries.flatMap encode).length fuel 0 first t =
      .ok (first + entries.length, t') ∧ Inv entries t' := by
  have hfrom : ∀ rest done t fuel, done ++ rest = entries → Inv done t → rest.length ≤ fuel →
      ∃ t', records record (entries.flatMap encode).length fuel (done.flatMap encode).length
        (first + done.length) t = .ok (first + entries.length, t') ∧ Inv entries t' := by
    intro rest
    induction rest with
    | nil =>
        rintro done t fuel rfl hinv -
        rw [List.append_nil]
        exact ⟨t, records_of_le le_rfl fuel _ t, hinv⟩
    | cons e rest ih =>
        intro done t fuel hsplit hinv henough
        obtain ⟨fuel, rfl⟩ := Nat.exists_eq_succ_of_ne_zero
          (Nat.ne_of_gt (Nat.lt_of_lt_of_le (Nat.succ_pos _) henough))
        obtain ⟨t', hrecord, hinv'⟩ := reads done e rest t hsplit hinv
        have hmore : (done.flatMap encode).length < (entries.flatMap encode).length := by
          have hpos : 0 < (encode e).length := List.length_pos_iff.mpr (nonempty e)
          rw [← hsplit, List.flatMap_append, List.flatMap_cons, List.length_append,
            List.length_append]
          omega
        have hnext : first + done.length + 1 = first + (done ++ [e]).length := by
          rw [List.length_append, List.length_singleton, Nat.add_assoc]
        rw [records_of_ok hmore hrecord, hnext]
        exact ih (done ++ [e]) t' fuel (by rw [List.append_assoc, List.singleton_append, hsplit])
          hinv' (Nat.le_of_succ_le_succ henough)
  have hall := hfrom entries [] t fuel (List.nil_append entries) start enough
  rwa [List.flatMap_nil, List.length_nil] at hall

end Records

/-! ## The answers -/

section Reading

variable (take : ℕ → τ → Except ε (ℕ × τ)) (n : ℤ)

/-- Read the table from record `i` on, with so many answers at most. `take` asks for the
records from a number on. -/
def run : ℕ → ℕ → τ → Option (Except ε τ)
  | 0, _, _ => none
  | fuel + 1, i, t =>
    if (i : ℤ) < n then
      match take i t with
      | .error e => some (.error e)
      | .ok (i', t') => run fuel i' t'
    else some (.ok t)

/-- The numbers that are asked for, with what is kept when they are. -/
inductive Asked (start : τ) : ℕ → τ → Prop
  | first (more : (0 : ℤ) < n) : Asked start 0 start
  | next {i i' : ℕ} {t t' : τ} (asked : Asked start i t) (taken : take i t = .ok (i', t'))
      (more : (i' : ℤ) < n) : Asked start i' t'

end Reading

variable {take : ℕ → τ → Except ε (ℕ × τ)} {n : ℤ}

theorem Asked.lt {start : τ} {i : ℕ} {t : τ} (asked : Asked take n start i t) : (i : ℤ) < n := by
  cases asked with
  | first more => exact more
  | next _ _ more => exact more

theorem run_of_le {i : ℕ} (beyond : n ≤ i) (fuel : ℕ) (t : τ) :
    run take n (fuel + 1) i t = some (.ok t) := by
  rw [run, if_neg (not_lt.mpr beyond)]

theorem run_of_error {i : ℕ} {t : τ} {e : ε} (more : (i : ℤ) < n) (error : take i t = .error e)
    (fuel : ℕ) : run take n (fuel + 1) i t = some (.error e) := by
  rw [run, if_pos more, error]

theorem run_of_ok {i i' : ℕ} {t t' : τ} (more : (i : ℤ) < n) (ok : take i t = .ok (i', t'))
    (fuel : ℕ) : run take n (fuel + 1) i t = run take n fuel i' t' := by
  rw [run, if_pos more, ok]

/-- A run that finishes also finishes from every number that is asked for. -/
theorem Asked.run_eq {start : τ} {i : ℕ} {t : τ} (asked : Asked take n start i t)
    {r : Except ε τ} {fuel : ℕ} (finishes : run take n fuel 0 start = some r) :
    ∃ fuel, run take n fuel i t = some r := by
  induction asked with
  | first => exact ⟨fuel, finishes⟩
  | next asked taken _ ih =>
      obtain ⟨fuel, hrun⟩ := ih
      cases fuel with
      | zero => exact absurd hrun nofun
      | succ fuel =>
          rw [run_of_ok asked.lt taken] at hrun
          exact ⟨fuel, hrun⟩

/-- The answer to this number brings no record, whatever is kept. -/
def Stuck (take : ℕ → τ → Except ε (ℕ × τ)) (i : ℕ) : Prop :=
  ∀ t, ∃ t', take i t = .ok (i, t')

theorem Stuck.run_eq {i : ℕ} (stuck : Stuck take i) (more : (i : ℤ) < n) (fuel : ℕ) :
    ∀ t, run take n fuel i t = none := by
  induction fuel with
  | zero => exact fun _ => rfl
  | succ fuel ih =>
      intro t
      obtain ⟨t', htake⟩ := stuck t
      rw [run_of_ok more htake]
      exact ih t'

/-- A run that asks for a number whose answer brings no record does not finish. -/
theorem Asked.not_stuck {start : τ} {i : ℕ} {t : τ} (asked : Asked take n start i t)
    {r : Except ε τ} {fuel : ℕ} (finishes : run take n fuel 0 start = some r) :
    ¬ Stuck take i := by
  intro stuck
  obtain ⟨fuel, hrun⟩ := asked.run_eq finishes
  rw [stuck.run_eq asked.lt fuel t] at hrun
  exact absurd hrun nofun

/-- A run that asks for a number whose answer is an error ends with this error. -/
theorem Asked.result_of_error {start : τ} {i : ℕ} {t : τ} (asked : Asked take n start i t)
    {e : ε} (error : take i t = .error e) {r : Except ε τ} {fuel : ℕ}
    (finishes : run take n fuel 0 start = some r) : r = .error e := by
  obtain ⟨fuel, hrun⟩ := asked.run_eq finishes
  cases fuel with
  | zero => exact absurd hrun nofun
  | succ fuel =>
      rw [run_of_error asked.lt error] at hrun
      exact (Option.some.inj hrun).symm

/-- If every answer brings a record or is an error, the run finishes: with such an error,
or behind the last record. -/
theorem run_total {start : τ} (Inv : ℕ → τ → Prop) (holds : Inv 0 start)
    (keeps : ∀ i t, Asked take n start i t → Inv i t → ∀ i' t', take i t = .ok (i', t') →
      i < i' ∧ Inv i' t') :
    ∃ r, (∃ enough, ∀ fuel ≥ enough, run take n fuel 0 start = some r) ∧
      (∀ e, r = .error e → ∃ i t, Asked take n start i t ∧ Inv i t ∧ take i t = .error e) ∧
      ∀ t, r = .ok t → ∃ i : ℕ, n ≤ i ∧ Inv i t := by
  have hfrom : ∀ (left i : ℕ) (t : τ), (n - i).toNat ≤ left →
      ((i : ℤ) < n → Asked take n start i t) → Inv i t →
      ∃ r, (∀ fuel ≥ left + 1, run take n fuel i t = some r) ∧
        (∀ e, r = .error e → ∃ i t, Asked take n start i t ∧ Inv i t ∧ take i t = .error e) ∧
        ∀ t, r = .ok t → ∃ i : ℕ, n ≤ i ∧ Inv i t := by
    intro left
    induction left with
    | zero =>
        intro i t hleft _ hinv
        have hover : n ≤ i := by omega
        refine ⟨.ok t, fun fuel hfuel => ?_, nofun, fun t' ht => ⟨i, hover, ?_⟩⟩
        · obtain ⟨fuel, rfl⟩ := Nat.exists_eq_add_of_le' hfuel
          exact run_of_le hover _ t
        · rw [← Except.ok.inj ht]
          exact hinv
    | succ left ih =>
        intro i t hleft hasked hinv
        by_cases hmore : (i : ℤ) < n
        · cases htake : take i t with
          | error e =>
              refine ⟨.error e, fun fuel hfuel => ?_, fun e' he => ?_, nofun⟩
              · obtain ⟨fuel, rfl⟩ := Nat.exists_eq_add_of_le' hfuel
                exact run_of_error hmore htake _
              · rw [← Except.error.inj he]
                exact ⟨i, t, hasked hmore, hinv, htake⟩
          | ok next =>
              obtain ⟨i', t'⟩ := next
              obtain ⟨hless, hinv'⟩ := keeps i t (hasked hmore) hinv i' t' htake
              obtain ⟨r, hrun, hends⟩ :=
                ih i' t' (by omega) (fun hmore' => (hasked hmore).next htake hmore') hinv'
              refine ⟨r, fun fuel hfuel => ?_, hends⟩
              obtain ⟨fuel, rfl⟩ := Nat.exists_eq_add_of_le' hfuel
              rw [← Nat.add_assoc, run_of_ok hmore htake]
              exact hrun _ (Nat.le_add_left _ _)
        · refine ⟨.ok t, fun fuel hfuel => ?_, nofun, fun t' ht => ⟨i, not_lt.mp hmore, ?_⟩⟩
          · obtain ⟨fuel, rfl⟩ := Nat.exists_eq_add_of_le' hfuel
            exact run_of_le (not_lt.mp hmore) _ t
          · rw [← Except.ok.inj ht]
            exact hinv
  obtain ⟨r, hrun, hends⟩ := hfrom (n - 0).toNat 0 start le_rfl .first holds
  exact ⟨r, ⟨_, hrun⟩, hends⟩

/-- What every answer keeps holds of the result. -/
theorem run_keeps {Inv : τ → Prop}
    (keeps : ∀ i t i' t', Inv t → take i t = .ok (i', t') → Inv t') {fuel i : ℕ} {t t' : τ}
    (holds : Inv t) (finishes : run take n fuel i t = some (.ok t')) : Inv t' := by
  induction fuel generalizing i t with
  | zero => exact absurd finishes nofun
  | succ fuel ih =>
      rw [run] at finishes
      split at finishes
      · cases htake : take i t with
        | error e =>
            rw [htake] at finishes
            cases finishes
        | ok r =>
            rw [htake] at finishes
            exact ih (keeps i t r.1 r.2 holds htake) finishes
      · cases finishes
        exact holds

/-- A table that is served in answers of some records each is read as it is. -/
theorem run_served {α : Type*} {take : ℕ → τ → Except ε (ℕ × τ)} {table : List α}
    (Inv : List α → τ → Prop)
    (serves : ∀ k t, k < table.length → Inv (table.take k) t → ∃ m t', 0 < m ∧
      take k t = .ok (k + ((table.drop k).take m).length, t') ∧ Inv (table.take (k + m)) t')
    {start : τ} (holds : Inv [] start) :
    ∃ t, Inv table t ∧
      ∃ enough, ∀ fuel ≥ enough, run take table.length fuel 0 start = some (.ok t) := by
  have hserves : ∀ k t, k < table.length → Inv (table.take k) t → ∃ k' t', k < k' ∧
      take k t = .ok (k', t') ∧ k' ≤ table.length ∧ Inv (table.take k') t' := by
    intro k t hk hinv
    obtain ⟨m, t', hm, htake, hinv'⟩ := serves k t hk hinv
    refine ⟨_, t', ?_, htake, ?_, ?_⟩
    · rw [List.length_take, List.length_drop]
      omega
    · rw [List.length_take, List.length_drop]
      omega
    · rwa [List.length_take, List.length_drop, ← Nat.add_min_add_left, Nat.add_sub_of_le hk.le,
        ← List.take_take, List.take_length]
  have hkeeps : ∀ k t, Asked take table.length start k t →
      (k ≤ table.length ∧ Inv (table.take k) t) → ∀ k' t', take k t = .ok (k', t') →
        k < k' ∧ k' ≤ table.length ∧ Inv (table.take k') t' := by
    rintro k t asked ⟨-, hinv⟩ k' t' htake
    obtain ⟨k₁, t₁, hless, htake₁, hle, hinv₁⟩ := hserves k t (by exact_mod_cast asked.lt) hinv
    obtain ⟨rfl, rfl⟩ := Prod.mk.inj (Except.ok.inj (htake₁.symm.trans htake))
    exact ⟨hless, hle, hinv₁⟩
  obtain ⟨r, ⟨enough, hrun⟩, herror, hok⟩ :=
    run_total (fun k t => k ≤ table.length ∧ Inv (table.take k) t) ⟨Nat.zero_le _, holds⟩ hkeeps
  cases r with
  | error e =>
      obtain ⟨k, t, asked, ⟨-, hinv⟩, htake⟩ := herror e rfl
      obtain ⟨k', t', -, htake', -⟩ := hserves k t (by exact_mod_cast asked.lt) hinv
      exact absurd (htake.symm.trans htake') nofun
  | ok t =>
      obtain ⟨k, hover, -, hinv⟩ := hok t rfl
      rw [List.take_of_length_le (by exact_mod_cast hover)] at hinv
      exact ⟨t, hinv, enough, hrun⟩

end Paging
