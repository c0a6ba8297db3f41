/-
# When discovery ends

A discovery loop ends well if it finishes after finitely many answers, either with every
number of the table registered or by saying what is wrong with the answers. It does so if
and only if every answer it asks for brings a record and the first record is whole: an
error status and an empty answer leave the number as it is and are asked for forever, or
read a variable that is never set, and a first record that is cut off leaves nothing for
its variables to keep.
-/

import Amester.Discovery.Tables

namespace Amester.Discovery

open BinaryFormat Parm

universe u

variable {τ : Type u}

/-! ## Ending well -/

/-- The loop finishes, with the whole table or by reporting a failure. -/
def Clean (discover : ℕ → Option (Except Failure τ)) (whole : τ → Prop) : Prop :=
  ∃ r, (∃ enough, ∀ fuel ≥ enough, discover fuel = some r) ∧
    (∀ e, r = .error e → e.Reported) ∧ ∀ t, r = .ok t → whole t

section Loop

variable {take : ℕ → τ → Except Failure (ℕ × τ)} {n : ℤ} {start : τ} {finish : τ → τ}
  {whole : τ → Prop} {answered : ℕ → Prop} {first : Prop}

/-- A loop that ends well asks for no number whose answer brings no record or makes the
loop read a variable that was never set. -/
theorem Clean.asked
    (clean : Clean (fun fuel => (Paging.run take n fuel 0 start).map fun r => r.map finish) whole)
    {i : ℕ} {t : τ} (asked : Paging.Asked take n start i t) :
    ¬ Paging.Stuck take i ∧ ∀ e, take i t = .error e → e.Reported := by
  obtain ⟨r, ⟨enough, hrun⟩, herror, -⟩ := clean
  obtain ⟨r', hfinishes, hmap⟩ := Option.map_eq_some_iff.mp (hrun enough le_rfl)
  refine ⟨asked.not_stuck hfinishes, fun e he => herror e ?_⟩
  rw [← hmap, asked.result_of_error he hfinishes]
  rfl

/-- The condition under which a discovery loop ends well. What an answer does is said by
`Inv`, which holds when a number is asked for: an unanswered number is asked for forever
or makes the loop read an unset variable, a first record that is not whole does the
latter, and every other answer brings a record or a reported failure. -/
theorem clean_iff (Inv : ℕ → τ → Prop) (holds : Inv 0 start)
    (unanswered : ∀ i, ¬ answered i →
      Paging.Stuck take i ∨ ∀ t, ∃ e, take i t = .error e ∧ ¬ e.Reported)
    (cut : answered 0 → ¬ first → ∃ e, take 0 start = .error e ∧ ¬ e.Reported)
    (brings : ∀ i t, answered i → (i = 0 → first) → Inv i t →
      (∀ i' t', take i t = .ok (i', t') → i < i' ∧ Inv i' t') ∧
        ∀ e, take i t = .error e → e.Reported)
    (complete : ∀ (i : ℕ) t, n ≤ i → Inv i t → whole (finish t)) :
    Clean (fun fuel => (Paging.run take n fuel 0 start).map fun r => r.map finish) whole ↔
      (∀ i t, Paging.Asked take n start i t → answered i) ∧ (0 < n → first) := by
  constructor
  · intro clean
    have hanswered : ∀ i t, Paging.Asked take n start i t → answered i := by
      intro i t asked
      by_contra hnot
      obtain ⟨hstuck, hreported⟩ := clean.asked asked
      rcases unanswered i hnot with stuck | unset
      · exact hstuck stuck
      · obtain ⟨e, he, hunset⟩ := unset t
        exact hunset (hreported e he)
    refine ⟨hanswered, fun more => ?_⟩
    by_contra hnot
    have asked : Paging.Asked take n start 0 start := .first more
    obtain ⟨e, he, hunset⟩ := cut (hanswered 0 start asked) hnot
    exact hunset ((clean.asked asked).2 e he)
  · rintro ⟨hanswered, hfirst⟩
    have hbrings : ∀ i t, Paging.Asked take n start i t → Inv i t →
        (∀ i' t', take i t = .ok (i', t') → i < i' ∧ Inv i' t') ∧
          ∀ e, take i t = .error e → e.Reported := by
      intro i t asked hinv
      have hlt := asked.lt
      exact brings i t (hanswered i t asked) (fun hzero => hfirst (by omega)) hinv
    obtain ⟨r, ⟨enough, hrun⟩, herror, hok⟩ := Paging.run_total Inv holds
      fun i t asked hinv => (hbrings i t asked hinv).1
    refine ⟨r.map finish, ⟨enough, fun fuel hfuel => ?_⟩, ?_, ?_⟩
    · simp only [hrun fuel hfuel, Option.map_some]
    · intro e he
      cases r with
      | error e' =>
          obtain ⟨i, t, asked, hinv, htake⟩ := herror e' rfl
          rw [← Except.error.inj he]
          exact (hbrings i t asked hinv).2 e' htake
      | ok t => exact absurd he nofun
    · intro t ht
      cases r with
      | error e' => exact absurd ht nofun
      | ok t' =>
          obtain ⟨i, hover, hinv⟩ := hok t' rfl
          rw [← Except.ok.inj ht]
          exact complete i t' hover hinv

end Loop

/-! ## One answer -/

/-- The answer to a request is a success with at least one byte. -/
def Answered (send : SendSync) (request : ℕ → Bytes) (i : ℕ) : Prop :=
  (send (request i)).1 = 0 ∧ (send (request i)).2 ≠ []

section Answer

variable {send : SendSync} {request : ℕ → Bytes} {failed : ℕ → τ → Except Failure (ℕ × τ)}
  {record : Bytes → ℕ → ℕ → τ → Except Failure (ℕ × τ)}

private theorem take_of_answered {i : ℕ} (answered : Answered send request i) (t : τ) :
    take send request failed record i t =
      Paging.records (record (send (request i)).2) (send (request i)).2.length
        (send (request i)).2.length 0 i t := by
  rw [take, if_pos answered.1]

/-- An answer without data brings no record. -/
theorem take_of_empty {i : ℕ} (success : (send (request i)).1 = 0)
    (empty : (send (request i)).2 = []) (t : τ) :
    take send request failed record i t = .ok (i, t) := by
  rw [take, if_pos success, empty]
  rfl

private theorem take_of_failed {i : ℕ} (error : (send (request i)).1 ≠ 0) (t : τ) :
    take send request failed record i t = failed i t := by
  rw [take, if_neg error]

/-- An unanswered number is asked for again if an error status changes nothing. -/
theorem take_stuck {i : ℕ} (unanswered : ¬ Answered send request i) (t : τ) :
    take send request (fun i t => .ok (i, t)) record i t = .ok (i, t) := by
  by_cases hsuccess : (send (request i)).1 = 0
  · apply take_of_empty hsuccess
    by_contra hdata
    exact unanswered ⟨hsuccess, hdata⟩
  · exact take_of_failed hsuccess t

/-- The error of the first record is the error of its answer. -/
theorem take_of_error {i : ℕ} (answered : Answered send request i) {t : τ} {e : Failure}
    (error : record (send (request i)).2 i 0 t = .error e) :
    take send request failed record i t = .error e := by
  have hlength : 0 < (send (request i)).2.length := List.length_pos_iff.mpr answered.2
  rw [take_of_answered answered]
  obtain ⟨fuel, hfuel⟩ := Nat.exists_eq_succ_of_ne_zero hlength.ne'
  have hrecords := Paging.records_of_error hlength error fuel
  rwa [← Nat.succ_eq_add_one, ← hfuel] at hrecords

/-- An answer brings a record, and what every record keeps it keeps. Only number 0 is
known to be at the front of its answer. -/
theorem take_brings {Inv : ℕ → τ → Prop} {i : ℕ}
    (reads : ∀ k j t, Inv k t → (k = 0 → i = 0 ∧ j = 0) →
      (∀ j' t', record (send (request i)).2 k j t = .ok (j', t') → Inv (k + 1) t') ∧
        ∀ e, record (send (request i)).2 k j t = .error e → e.Reported)
    {t : τ} (answered : Answered send request i) (holds : Inv i t) :
    (∀ i' t', take send request failed record i t = .ok (i', t') → i < i' ∧ Inv i' t') ∧
      ∀ e, take send request failed record i t = .error e → e.Reported := by
  have hlength : 0 < (send (request i)).2.length := List.length_pos_iff.mpr answered.2
  have hkeeps : ∀ k j t, (Inv k t ∧ (k = 0 → i = 0 ∧ j = 0)) →
      j < (send (request i)).2.length →
      ∀ j' t', record (send (request i)).2 k j t = .ok (j', t') →
        Inv (k + 1) t' ∧ (k + 1 = 0 → i = 0 ∧ j' = 0) := by
    intro k j t hinv _ j' t' hrecord
    exact ⟨(reads k j t hinv.1 hinv.2).1 j' t' hrecord, nofun⟩
  rw [take_of_answered answered]
  constructor
  · intro i' t' hrecords
    obtain ⟨⟨_, hinv, -⟩, -, hless⟩ :=
      Paging.records_keeps hkeeps ⟨holds, fun h => ⟨h, rfl⟩⟩ hrecords
    exact ⟨hless hlength hlength, hinv⟩
  · intro e hrecords
    obtain ⟨k, j, t', hinv, -, hrecord⟩ :=
      Paging.records_error hkeeps ⟨holds, fun h => ⟨h, rfl⟩⟩ hrecords
    exact (reads k j t' hinv.1 hinv.2).2 e hrecord

end Answer

/-! ## Scanned fields -/

theorem readVar_some {α : Type u} (name : String) (a : α) : readVar name (some a) = .ok a := rfl

/-- What follows the reading of a variable ends with an unset variable if it does so for
every value. -/
theorem readVar_bind_unset {α β : Type u} (name : String) (o : Option α)
    {next : α → Except Failure β} (rest : ∀ a, ∃ e, next a = .error e ∧ ¬ e.Reported) :
    ∃ e, (readVar name o >>= next) = .error e ∧ ¬ e.Reported := by
  cases o with
  | none => exact ⟨_, rfl, id⟩
  | some a => exact rest a

/-- A variable that is set stays set. -/
theorem scanned_isSome {α : Type u} (value : Value → Option α) (values : List Value) (k : ℕ)
    {old : Option α} (set : old.isSome) : (scanned value values k old).isSome := by
  rw [scanned, Option.isSome_or, set, Bool.or_true]

/-! ## Sensors -/

private theorem scan_freq_scale {bytes : Bytes} (enough : 8 ≤ bytes.length) :
    scan [.bytes 4, .bytes 4] bytes = [.bytes (bytes.take 4), .bytes ((bytes.drop 4).take 4)] := by
  simp only [scan, Field.size, Field.convert, List.length_drop]
  rw [if_neg (by omega), if_neg (by omega)]

/-- A scale factor that is cut off is not scanned. -/
theorem scan_freq_cut {bytes : Bytes} (cut : bytes.length < 8) :
    (scan [.bytes 4, .bytes 4] bytes)[1]? = none := by
  simp only [scan, Field.size, Field.convert, List.length_drop]
  split
  · rfl
  · rw [if_pos (by omega)]
    rfl

/-- A sensor is entered everywhere under its number and its name. -/
def Sensors.register (sensornum : ℕ) (s : Name) (unit freq scale : Bytes) (t : Sensors) :
    Sensors where
  sensorobjsAll := t.sensorobjsAll ++ [s]
  sensorListAll := appendNew t.sensorListAll sensornum
  sensorListAllName := appendNew t.sensorListAllName s
  sensornum2obj := Function.update t.sensornum2obj sensornum (some s)
  objects := Function.update t.objects s (some ⟨s, sensornum, stripped unit, freq, scale⟩)
  dataFreq := some freq
  dataScale := some scale

section Sensor

variable {make : Maker} {databytes : Bytes} {i j : ℕ} {t : Sensors}

/-- What a record does that is read. -/
theorem sensorRecord_of_set (makes : make t.sensorobjsAll (translate (scannedName databytes j)))
    {freq scale : Bytes}
    (hfreq : scanned bytesValue
      (scan [.bytes 4, .bytes 4] (databytes.drop (unitEnd databytes j + 1))) 0 t.dataFreq
        = some freq)
    (hscale : scanned bytesValue
      (scan [.bytes 4, .bytes 4] (databytes.drop (unitEnd databytes j + 1))) 1 t.dataScale
        = some scale) :
    sensorRecord make databytes i j t = .ok (unitEnd databytes j + 9,
      t.register i (translate (scannedName databytes j)) (scannedUnit databytes j) freq scale) := by
  simp only [sensorRecord, createSensor, makes, if_true, hfreq, hscale, readVar_some]
  simp [Sensors.register, scaleCallback, freqCallback, unitsCallback, configure]

private theorem sensorRecord_of_not_make
    (fails : ¬ make t.sensorobjsAll (translate (scannedName databytes j))) :
    sensorRecord make databytes i j t = .error (.noObject i) := by
  simp only [sensorRecord, createSensor, if_neg fails]

/-- The record is there up to its scale factor. -/
def SensorWhole (databytes : Bytes) (j : ℕ) : Prop := unitEnd databytes j + 9 ≤ databytes.length

/-- A whole record sets both variables. -/
theorem scanned_of_whole (whole : SensorWhole databytes j) (old old' : Option Bytes) :
    let bytes := databytes.drop (unitEnd databytes j + 1)
    scanned bytesValue (scan [.bytes 4, .bytes 4] bytes) 0 old = some (bytes.take 4) ∧
      scanned bytesValue (scan [.bytes 4, .bytes 4] bytes) 1 old' =
        some ((bytes.drop 4).take 4) := by
  intro bytes
  have henough : 8 ≤ bytes.length := by
    unfold SensorWhole at whole
    simp only [bytes, List.length_drop]
    omega
  rw [scan_freq_scale henough]
  exact ⟨rfl, rfl⟩

/-- A record is read, or its object cannot be made, if its variables are set before or
behind its scan. -/
theorem sensorRecord_reads
    (set : (t.dataFreq.isSome ∧ t.dataScale.isSome) ∨ SensorWhole databytes j ∨
      ¬ make t.sensorobjsAll (translate (scannedName databytes j))) :
    (∃ unit freq scale, sensorRecord make databytes i j t = .ok (unitEnd databytes j + 9,
      t.register i (translate (scannedName databytes j)) unit freq scale)) ∨
      sensorRecord make databytes i j t = .error (.noObject i) := by
  by_cases hmake : make t.sensorobjsAll (translate (scannedName databytes j)) = true
  · left
    obtain ⟨hfreq, hscale⟩ | whole | fails := set
    · obtain ⟨freq, hfreq⟩ := Option.isSome_iff_exists.mp (scanned_isSome bytesValue
        (scan [.bytes 4, .bytes 4] (databytes.drop (unitEnd databytes j + 1))) 0 hfreq)
      obtain ⟨scale, hscale⟩ := Option.isSome_iff_exists.mp (scanned_isSome bytesValue
        (scan [.bytes 4, .bytes 4] (databytes.drop (unitEnd databytes j + 1))) 1 hscale)
      exact ⟨_, freq, scale, sensorRecord_of_set hmake hfreq hscale⟩
    · obtain ⟨hfreq, hscale⟩ := scanned_of_whole whole t.dataFreq t.dataScale
      exact ⟨_, _, _, sensorRecord_of_set hmake hfreq hscale⟩
    · exact absurd hmake fails
  · exact .inr (sensorRecord_of_not_make hmake)

/-- A first record that is cut off reads a variable that was never set, if its object can
be made. -/
theorem sensorRecord_of_cut (cut : ¬ SensorWhole databytes j)
    (makes : make t.sensorobjsAll (translate (scannedName databytes j)))
    (freqUnset : t.dataFreq = none) (scaleUnset : t.dataScale = none) :
    ∃ e, sensorRecord make databytes i j t = .error e ∧ ¬ e.Reported := by
  have hshort : (databytes.drop (unitEnd databytes j + 1)).length < 8 := by
    unfold SensorWhole at cut
    rw [List.length_drop]
    omega
  simp only [sensorRecord, createSensor, makes, if_true, freqUnset, scaleUnset]
  cases hfreq : scanned bytesValue
      (scan [.bytes 4, .bytes 4] (databytes.drop (unitEnd databytes j + 1))) 0 none with
  | none => exact ⟨_, rfl, id⟩
  | some freq =>
      rw [scanned, scan_freq_cut hshort]
      exact ⟨_, rfl, id⟩

end Sensor

private theorem mem_appendNew {α : Type u} [DecidableEq α] {list : List α} {a b : α} :
    b ∈ appendNew list a ↔ b ∈ list ∨ b = a := by
  unfold appendNew
  split
  · constructor
    · exact .inl
    · rintro (h | rfl)
      · exact h
      · assumption
  · rw [List.mem_append, List.mem_singleton]

/-- All numbers below the one that is asked for are registered, and the variables are set
behind the first record. -/
structure SensorInv (i : ℕ) (t : Sensors) : Prop where
  registered : ∀ k < i, k ∈ t.sensorListAll ∧ (t.sensornum2obj k).isSome
  fresh : i = 0 → t.sensorobjsAll = []
  set : 0 < i → t.dataFreq.isSome ∧ t.dataScale.isSome

theorem SensorInv.register {i : ℕ} {t : Sensors} (inv : SensorInv i t) (s : Name)
    (unit freq scale : Bytes) : SensorInv (i + 1) (t.register i s unit freq scale) where
  registered := by
    intro k hk
    simp only [Sensors.register, mem_appendNew, Function.update_apply]
    by_cases hki : k = i
    · exact ⟨.inr hki, by rw [if_pos hki]; rfl⟩
    · obtain ⟨hmem, hsome⟩ := inv.registered k (by omega)
      exact ⟨.inl hmem, by rwa [if_neg hki]⟩
  fresh := nofun
  set := fun _ => ⟨rfl, rfl⟩

/-- The first record of the sensor table is whole, or its object cannot be made. -/
def SensorFirst (send : SendSync) (make : Maker) : Prop :=
  let databytes := (send (sensorRequest 0)).2
  SensorWhole databytes 0 ∨ ¬ make [] (translate (scannedName databytes 0))

/-- Every number is in the list and has its object. -/
def SensorsWhole (numsensors : ℕ) (t : Sensors) : Prop :=
  ∀ k < numsensors, k ∈ t.sensorListAll ∧ (t.sensornum2obj k).isSome

theorem takeSensors_brings (send : SendSync) (make : Maker) (i : ℕ) (t : Sensors)
    (answered : Answered send sensorRequest i) (first : i = 0 → SensorFirst send make)
    (inv : SensorInv i t) :
    (∀ i' t', takeSensors send make i t = .ok (i', t') → i < i' ∧ SensorInv i' t') ∧
      ∀ e, takeSensors send make i t = .error e → e.Reported := by
  refine take_brings (fun k j t hinv hfront => ?_) answered inv
  have hset : (t.dataFreq.isSome ∧ t.dataScale.isSome) ∨
      SensorWhole (send (sensorRequest i)).2 j ∨
      ¬ make t.sensorobjsAll (translate (scannedName (send (sensorRequest i)).2 j)) := by
    rcases Nat.eq_zero_or_pos k with hzero | hpos
    · obtain ⟨rfl, rfl⟩ := hfront hzero
      rw [hinv.fresh hzero]
      exact .inr (first rfl)
    · exact .inl (hinv.set hpos)
  rcases sensorRecord_reads (i := k) hset with ⟨unit, freq, scale, hrecord⟩ | hrecord
  · rw [hrecord]
    refine ⟨fun j' t' h => ?_, nofun⟩
    obtain ⟨-, rfl⟩ := Prod.mk.inj (Except.ok.inj h)
    exact hinv.register _ unit freq scale
  · rw [hrecord]
    refine ⟨nofun, fun e h => ?_⟩
    rw [← Except.error.inj h]
    trivial

theorem initSensors_clean_iff (send : SendSync) (make : Maker) (numsensors : ℕ) :
    Clean (initSensors send make numsensors) (SensorsWhole numsensors) ↔
      (∀ i t, Paging.Asked (takeSensors send make) numsensors {} i t →
        Answered send sensorRequest i) ∧ ((0 : ℤ) < numsensors → SensorFirst send make) := by
  refine clean_iff SensorInv ⟨nofun, fun _ => rfl, nofun⟩ (fun i hnot => ?_)
    (fun answered cut => ?_) (takeSensors_brings send make) (fun i t hover hinv k hk => ?_)
  · by_cases hsuccess : (send (sensorRequest i)).1 = 0
    · left
      intro t
      refine ⟨t, take_of_empty hsuccess ?_ t⟩
      by_contra hdata
      exact hnot ⟨hsuccess, hdata⟩
    · exact .inr fun t => ⟨_, take_of_failed hsuccess t, id⟩
  · obtain ⟨hcut, hmakes⟩ := not_or.mp cut
    obtain ⟨e, he, hunset⟩ := sensorRecord_of_cut (i := 0) (t := {}) hcut
      (not_not.mp hmakes) rfl rfl
    exact ⟨e, take_of_error answered he, hunset⟩
  · exact hinv.registered k (by omega)

/-! ## Trace buffers -/

/-- Variables that are all scanned, or were set before, are set. -/
theorem scanned_ints (widths : List ℕ) {bytes : Bytes} {k : ℕ} (hk : k < widths.length)
    {old : Option ℤ} (set : old.isSome ∨ widths.sum ≤ bytes.length) :
    ∃ n, scanned intValue (scan (widths.map .int) bytes) k old = some n := by
  apply Option.isSome_iff_exists.mp
  rcases set with set | enough
  · exact scanned_isSome _ _ _ set
  · obtain ⟨ns, hlength, hscan⟩ := scan_ints_whole widths enough
    have hfound : (ns.map Value.int)[k]? = some (.int ns[k]) := by
      rw [List.getElem?_map, List.getElem?_eq_getElem (hlength ▸ hk), Option.map_some]
    rw [hscan, scanned, hfound]
    rfl

/-- The last variable of a scan that is cut off keeps its value. -/
theorem scanned_ints_cut (widths : List ℕ) {bytes : Bytes} (cut : bytes.length < widths.sum)
    {k : ℕ} (last : widths.length = k + 1) (old : Option ℤ) :
    scanned intValue (scan (widths.map .int) bytes) k old = old := by
  have hlength := scan_ints_cut widths cut
  rw [scanned, List.getElem?_eq_none (by omega), Option.bind_none, Option.none_or]

/-- The variables of `trace_init` are set. -/
def Traces.Set (t : Traces) : Prop :=
  t.m1.isSome ∧ t.m2.isSome ∧ t.m3.isSome ∧ t.e.isSome ∧ t.hasScom.isSome

/-- The record is there up to its last fixed field. -/
def TraceWhole (databytes : Bytes) (j : ℕ) : Prop := stringEnd databytes j + 6 ≤ databytes.length

section Trace

variable {make : Maker} {databytes : Bytes} {i j : ℕ} {t : Traces}

/-- A record is read, or its object cannot be made, if its variables are set before or
behind its scan. -/
theorem traceRecord_reads (set : t.Set ∨ TraceWhole databytes j) :
    (∃ obj t', traceRecord make databytes i j t = .ok (stringEnd databytes j + 6, t') ∧
      obj.tracenum = i ∧ t'.traceobjsAll = t.traceobjsAll ++ [obj] ∧ t'.Set) ∨
      traceRecord make databytes i j t = .error (.cantMake i) := by
  have hset : ∀ {old : Option ℤ}, (t.Set → old.isSome) → old.isSome ∨
      [1, 1, 1, 1, 1].sum ≤ (databytes.drop (stringEnd databytes j + 1)).length := by
    intro old hold
    rcases set with set | whole
    · exact .inl (hold set)
    · right
      unfold TraceWhole at whole
      rw [List.length_drop, List.sum_cons]
      simp
      omega
  obtain ⟨m1, h1⟩ := scanned_ints [1, 1, 1, 1, 1] (k := 0) (by decide) (hset fun s => s.1)
  obtain ⟨m2, h2⟩ := scanned_ints [1, 1, 1, 1, 1] (k := 1) (by decide) (hset fun s => s.2.1)
  obtain ⟨m3, h3⟩ := scanned_ints [1, 1, 1, 1, 1] (k := 2) (by decide) (hset fun s => s.2.2.1)
  obtain ⟨e, h4⟩ := scanned_ints [1, 1, 1, 1, 1] (k := 3) (by decide) (hset fun s => s.2.2.2.1)
  obtain ⟨hasScom, h5⟩ :=
    scanned_ints [1, 1, 1, 1, 1] (k := 4) (by decide) (hset fun s => s.2.2.2.2)
  simp only [List.map_cons, List.map_nil] at h1 h2 h3 h4 h5
  simp only [traceRecord, h1, h2, h3, h4, h5, readVar_some, bind, Except.bind]
  split
  · exact .inl ⟨_, _, rfl, rfl, rfl, rfl, rfl, rfl, rfl, rfl⟩
  · exact .inr rfl

/-- A first record that is cut off reads a variable that was never set. -/
theorem traceRecord_of_cut (cut : ¬ TraceWhole databytes j) :
    ∃ e, traceRecord make databytes i j {} = .error e ∧ ¬ e.Reported := by
  have hshort : (databytes.drop (stringEnd databytes j + 1)).length < [1, 1, 1, 1, 1].sum := by
    unfold TraceWhole at cut
    rw [List.length_drop]
    simp
    omega
  have hlast := scanned_ints_cut [1, 1, 1, 1, 1] hshort (k := 4) rfl none
  simp only [List.map_cons, List.map_nil] at hlast
  unfold traceRecord
  -- Any of the variables may be the unset one, and the last one is.
  refine readVar_bind_unset _ _ fun _ => readVar_bind_unset _ _ fun _ =>
    readVar_bind_unset _ _ fun _ => readVar_bind_unset _ _ fun _ =>
      ⟨.noVariable "has_scom", ?_, id⟩
  rw [hlast]
  rfl

end Trace

/-- All numbers below the one that is asked for are registered, and the variables are set
behind the first record. -/
structure TraceInv (i : ℕ) (t : Traces) : Prop where
  registered : ∀ k < i, ∃ obj ∈ t.traceobjsAll, obj.tracenum = k
  set : 0 < i → t.Set

/-- Every number has its object. -/
def TracesWhole (traceCount : ℤ) (t : Traces) : Prop :=
  ∀ k : ℕ, k < traceCount → ∃ obj ∈ t.traceobjsAll, obj.tracenum = k

/-- A list that has an object for every number below `i` and gets one for `i`. -/
theorem registered_succ {α : Type u} {num : α → ℕ} {objs : List α} {i : ℕ}
    (registered : ∀ k < i, ∃ obj ∈ objs, num obj = k) {obj : α} (hnum : num obj = i) :
    ∀ k < i + 1, ∃ obj' ∈ objs ++ [obj], num obj' = k := by
  intro k hk
  by_cases hki : k = i
  · exact ⟨obj, List.mem_append_right _ (List.mem_singleton_self obj), hnum.trans hki.symm⟩
  · obtain ⟨obj', hmem, hobj⟩ := registered k (by omega)
    exact ⟨obj', List.mem_append_left _ hmem, hobj⟩

theorem takeTraces_brings (send : SendSync) (make : Maker) (i : ℕ) (t : Traces)
    (answered : Answered send traceRequest i)
    (first : i = 0 → TraceWhole (send (traceRequest 0)).2 0) (inv : TraceInv i t) :
    (∀ i' t', takeTraces send make i t = .ok (i', t') → i < i' ∧ TraceInv i' t') ∧
      ∀ e, takeTraces send make i t = .error e → e.Reported := by
  refine take_brings (fun k j t hinv hfront => ?_) answered inv
  have hset : t.Set ∨ TraceWhole (send (traceRequest i)).2 j := by
    rcases Nat.eq_zero_or_pos k with hzero | hpos
    · obtain ⟨rfl, rfl⟩ := hfront hzero
      exact .inr (first rfl)
    · exact .inl (hinv.set hpos)
  rcases traceRecord_reads (i := k) hset with ⟨obj, t', hrecord, hnum, hobjs, hset'⟩ | hrecord
  · rw [hrecord]
    refine ⟨fun j' t'' h => ?_, nofun⟩
    obtain ⟨-, rfl⟩ := Prod.mk.inj (Except.ok.inj h)
    refine ⟨?_, fun _ => hset'⟩
    rw [hobjs]
    exact registered_succ hinv.registered hnum
  · rw [hrecord]
    refine ⟨nofun, fun e h => ?_⟩
    rw [← Except.error.inj h]
    trivial

theorem traceInit_clean_iff (send : SendSync) (make : Maker) (traceCount : ℤ) :
    Clean (traceInit send make traceCount) (TracesWhole traceCount) ↔
      (∀ i t, Paging.Asked (takeTraces send make) traceCount {} i t →
        Answered send traceRequest i) ∧
        (0 < traceCount → TraceWhole (send (traceRequest 0)).2 0) := by
  refine clean_iff TraceInv ⟨nofun, nofun⟩ (fun i hnot => ?_)
    (fun answered cut => ?_) (takeTraces_brings send make) (fun i t hover hinv k hk => ?_)
  · exact .inl fun t => ⟨t, take_stuck hnot t⟩
  · have hrecord : ∃ e, traceRecord make _ 0 0 {} = .error e ∧ ¬ e.Reported :=
      traceRecord_of_cut cut
    obtain ⟨e, he, hunset⟩ := hrecord
    exact ⟨e, take_of_error answered he, hunset⟩
  · exact hinv.registered k (by omega)

/-! ## Parameters -/

/-- The variables of `init` are set. -/
def Parms.Set (t : Parms) : Prop :=
  t.typenum.isSome ∧ t.mode.isSome ∧ t.vectorlength.isSome

/-- The record is there up to its last field of fixed width. -/
def ParmWhole (databytes : Bytes) (j : ℕ) : Prop := stringEnd databytes j + 7 ≤ databytes.length

section Parm

variable {make : Maker} {databytes : Bytes} {i j : ℕ} {t : Parms}

/-- A record is read, or its type is unknown, or its object cannot be made, if its
variables are set before or behind its scan. -/
theorem parmRecord_reads (set : t.Set ∨ ParmWhole databytes j) :
    (∃ j' obj t', parmRecord make databytes i j t = .ok (j', t') ∧ obj.2.number = i ∧
      t'.parmobjsAll = t.parmobjsAll ++ [obj] ∧ t'.Set) ∨
      ∃ e, parmRecord make databytes i j t = .error e ∧ e.Reported := by
  have hset : ∀ {old : Option ℤ}, (t.Set → old.isSome) → old.isSome ∨
      [1, 1, 4].sum ≤ (databytes.drop (stringEnd databytes j + 1)).length := by
    intro old hold
    rcases set with set | whole
    · exact .inl (hold set)
    · right
      unfold ParmWhole at whole
      rw [List.length_drop, List.sum_cons]
      simp
      omega
  obtain ⟨typenum, h1⟩ := scanned_ints [1, 1, 4] (k := 0) (by decide) (hset fun s => s.1)
  obtain ⟨mode, h2⟩ := scanned_ints [1, 1, 4] (k := 1) (by decide) (hset fun s => s.2.1)
  obtain ⟨vectorlength, h3⟩ := scanned_ints [1, 1, 4] (k := 2) (by decide) (hset fun s => s.2.2)
  simp only [List.map_cons, List.map_nil] at h1 h2 h3
  simp only [parmRecord, h1, h2, h3, readVar_some, bind, Except.bind]
  split
  · exact .inr ⟨_, rfl, trivial⟩
  · split
    · exact .inl ⟨_, _, _, rfl, rfl, rfl, rfl, rfl, rfl⟩
    · exact .inr ⟨_, rfl, trivial⟩

/-- A first record that is cut off reads a variable that was never set. -/
theorem parmRecord_of_cut (cut : ¬ ParmWhole databytes j) :
    ∃ e, parmRecord make databytes i j {} = .error e ∧ ¬ e.Reported := by
  have hshort : (databytes.drop (stringEnd databytes j + 1)).length < [1, 1, 4].sum := by
    unfold ParmWhole at cut
    rw [List.length_drop]
    simp
    omega
  have hlast := scanned_ints_cut [1, 1, 4] hshort (k := 2) rfl none
  simp only [List.map_cons, List.map_nil] at hlast
  unfold parmRecord
  refine readVar_bind_unset _ _ fun _ => readVar_bind_unset _ _ fun _ =>
    ⟨.noVariable "vectorlength", ?_, id⟩
  rw [hlast]
  rfl

end Parm

/-- All numbers below the one that is asked for are registered, and the variables are set
behind the first record. -/
structure ParmInv (i : ℕ) (t : Parms) : Prop where
  registered : ∀ k < i, ∃ obj ∈ t.parmobjsAll, obj.2.number = k
  set : 0 < i → t.Set

/-- Every number has its object. -/
def ParmsWhole (numparms : ℤ) (t : Parms) : Prop :=
  ∀ k : ℕ, k < numparms → ∃ obj ∈ t.parmobjsAll, obj.2.number = k

theorem takeParms_brings (send : SendSync) (make : Maker) (i : ℕ) (t : Parms)
    (answered : Answered send parmRequest i)
    (first : i = 0 → ParmWhole (send (parmRequest 0)).2 0) (inv : ParmInv i t) :
    (∀ i' t', takeParms send make i t = .ok (i', t') → i < i' ∧ ParmInv i' t') ∧
      ∀ e, takeParms send make i t = .error e → e.Reported := by
  have hopened : ParmInv i { t with length := 0 } :=
    ⟨inv.registered, inv.set⟩
  refine take_brings (fun k j t hinv hfront => ?_) answered hopened
  have hset : t.Set ∨ ParmWhole (send (parmRequest i)).2 j := by
    rcases Nat.eq_zero_or_pos k with hzero | hpos
    · obtain ⟨rfl, rfl⟩ := hfront hzero
      exact .inr (first rfl)
    · exact .inl (hinv.set hpos)
  rcases parmRecord_reads (i := k) hset with
    ⟨j₁, obj, t', hrecord, hnum, hobjs, hset'⟩ | ⟨e₁, hrecord, hreported⟩
  · rw [hrecord]
    refine ⟨fun j' t'' h => ?_, nofun⟩
    obtain ⟨-, rfl⟩ := Prod.mk.inj (Except.ok.inj h)
    refine ⟨?_, fun _ => hset'⟩
    rw [hobjs]
    exact registered_succ hinv.registered hnum
  · rw [hrecord]
    refine ⟨nofun, fun e h => ?_⟩
    rwa [← Except.error.inj h]

theorem parmLoop_clean_iff (send : SendSync) (make : Maker) (numparms : ℤ) :
    Clean (parmLoop send make numparms) (ParmsWhole numparms) ↔
      (∀ i t, Paging.Asked (takeParms send make) numparms {} i t →
        Answered send parmRequest i) ∧
        (0 < numparms → ParmWhole (send (parmRequest 0)).2 0) := by
  refine clean_iff ParmInv ⟨nofun, nofun⟩ (fun i hnot => ?_)
    (fun answered cut => ?_) (takeParms_brings send make) (fun i t hover hinv k hk => ?_)
  · exact .inl fun t => ⟨_, take_stuck hnot _⟩
  · have hrecord : ∃ e, parmRecord make _ 0 0 {} = .error e ∧ ¬ e.Reported :=
      parmRecord_of_cut cut
    obtain ⟨e, he, hunset⟩ := hrecord
    exact ⟨e, take_of_error answered he, hunset⟩
  · exact hinv.registered k (by omega)

/-- `init` is over at once if the number of parameters cannot be had. -/
theorem parmInit_clean_iff (send : SendSync) (make : Maker) (numparms : ℤ) :
    Clean (parmInit send make numparms)
        (fun t => ∀ n, askNumparms send numparms = .ok n → ParmsWhole n t) ↔
      ∀ n, askNumparms send numparms = .ok n → Clean (parmLoop send make n) (ParmsWhole n) := by
  unfold parmInit
  cases hask : askNumparms send numparms with
  | error e =>
      have hreported : e.Reported := by
        unfold askNumparms at hask
        split at hask
        · dsimp only at hask
          split at hask
          · rw [← Except.error.inj hask]
            trivial
          · split at hask
            · exact absurd hask nofun
            · rw [← Except.error.inj hask]
              trivial
        · exact absurd hask nofun
      refine ⟨fun _ => nofun, fun _ => ⟨.error e, ⟨0, fun _ _ => rfl⟩, fun e' he => ?_, nofun⟩⟩
      rwa [← Except.error.inj he]
  | ok n => simp only [Except.ok.injEq, forall_eq']

/-! ## The three loops -/

/-- Every answer that `init_sensors` asks for is a success with at least one byte, and the
first record is whole or its object cannot be made. -/
def SensorsServed (send : SendSync) (make : Maker) (numsensors : ℕ) : Prop :=
  (∀ i t, Paging.Asked (takeSensors send make) numsensors {} i t →
    Answered send sensorRequest i) ∧ ((0 : ℤ) < numsensors → SensorFirst send make)

/-- Every answer that `trace_init` asks for is a success with at least one byte, and the
first record is whole. -/
def TracesServed (send : SendSync) (make : Maker) (traceCount : ℤ) : Prop :=
  (∀ i t, Paging.Asked (takeTraces send make) traceCount {} i t →
    Answered send traceRequest i) ∧ (0 < traceCount → TraceWhole (send (traceRequest 0)).2 0)

/-- If there is a number of parameters, every answer that the loop asks for is a success
with at least one byte, and the first record is whole up to its vector length. -/
def ParmsServed (send : SendSync) (make : Maker) (numparms : ℤ) : Prop :=
  ∀ n, askNumparms send numparms = .ok n →
    (∀ i t, Paging.Asked (takeParms send make) n {} i t → Answered send parmRequest i) ∧
      (0 < n → ParmWhole (send (parmRequest 0)).2 0)

/-- Each of the three loops finishes, with the whole table or reporting a failure, and
without reading a variable that was never set, if and only if its answers serve it. -/
theorem discovery_clean_iff (send : SendSync) (makeSensor makeTrace makeParm : Maker)
    (numsensors : ℕ) (traceCount numparms : ℤ) :
    (Clean (initSensors send makeSensor numsensors) (SensorsWhole numsensors) ↔
      SensorsServed send makeSensor numsensors) ∧
    (Clean (traceInit send makeTrace traceCount) (TracesWhole traceCount) ↔
      TracesServed send makeTrace traceCount) ∧
    (Clean (parmInit send makeParm numparms)
        (fun t => ∀ n, askNumparms send numparms = .ok n → ParmsWhole n t) ↔
      ParmsServed send makeParm numparms) := by
  refine ⟨initSensors_clean_iff send makeSensor numsensors,
    traceInit_clean_iff send makeTrace traceCount, ?_⟩
  rw [parmInit_clean_iff]
  exact forall₂_congr fun n _ => parmLoop_clean_iff send makeParm n

/-- A firmware that answers every request with an error status. -/
def refuses : SendSync := fun _ => (1, [])

/-- Against a firmware that refuses every request none of the loops ends well: the first
reads an unset variable, the others ask forever. -/
theorem refused_discovery_not_clean :
    ¬ Clean (initSensors refuses (fun _ _ => true) 1) (SensorsWhole 1) ∧
    ¬ Clean (traceInit refuses (fun _ _ => true) 1) (TracesWhole 1) ∧
    ¬ Clean (parmInit refuses (fun _ _ => true) 1)
      (fun t => ∀ n, askNumparms refuses 1 = .ok n → ParmsWhole n t) := by
  refine ⟨fun clean => ?_, fun clean => ?_, fun clean => ?_⟩
  · have asked : Paging.Asked (takeSensors refuses fun _ _ => true) 1 {} 0 {} := .first one_pos
    exact (clean.asked asked).2 (.noVariable "_start_sensor") rfl
  · have asked : Paging.Asked (takeTraces refuses fun _ _ => true) 1 {} 0 {} := .first one_pos
    exact (clean.asked asked).1 fun t => ⟨t, rfl⟩
  · have hloop := (parmInit_clean_iff refuses _ 1).mp clean 1 rfl
    have asked : Paging.Asked (takeParms refuses fun _ _ => true) 1 {} 0 {} := .first one_pos
    exact (hloop.asked asked).1 fun t => ⟨_, rfl⟩

end Amester.Discovery
