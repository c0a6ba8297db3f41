/-
# A rejected configuration

A configuration remembers the selected sockets before it looks the names up and before the
firmware is asked, and the lists of fields only when all of that has gone well. When it is
rejected in between, the trace buffer decodes the fields of the old configuration for the
sockets of the new one.

The width of an entry depends on the sockets through its SCOMs, so the mixture shows where
SCOMs are recorded and the two configurations select different sockets.
-/

import Amester.Trace.Walk

namespace Amester.Trace

open BinaryFormat Parm

universe u

variable {β : Type u}

/-- A rejected configuration has at most selected its sockets. -/
theorem setConfig_rejected {env : Env β} {sensorFieldList : List (List String)}
    {parmList : List String} {scomList : List (List String)} {sockets : List ℕ}
    {tb : TraceBuffer β}
    (rejected : (setConfig env sensorFieldList parmList scomList sockets tb).2 ≠ none) :
    (setConfig env sensorFieldList parmList scomList sockets tb).1 =
      if scomList ≠ [] ∧ tb.hasScom = false then tb else tb.selectSockets sockets := by
  unfold setConfig at rejected ⊢
  split_ifs at rejected ⊢ with hscom
  · rfl
  · cases hsensors : requests (sensorRequest env) sensorFieldList with
    | error e => rfl
    | ok sensors =>
        cases hparms : requests (parmRequest env) parmList with
        | error e => rfl
        | ok parms =>
            cases hscoms : requests (scomRequest env) scomList with
            | error e => rfl
            | ok scoms =>
                simp only [hsensors, hparms, hscoms] at rejected ⊢
                split at rejected
                · rfl
                · split_ifs at rejected ⊢ with herr
                  · rfl
                  · cases hconfig : getConfig env (tb.selectSockets sockets) with
                    | error e => rfl
                    | ok tb' => simp [hconfig] at rejected

/-- A trace buffer with a single entry of zeros. -/
def oneEntry (n chipsMax : ℕ) : Loaded :=
  ⟨1, 1, 0, chipsMax, List.replicate n 0⟩

theorem flatten_zeros (layout : List (EntryField β)) :
    (layout.map fun field => List.replicate field.width (0 : UInt8)).flatten =
      List.replicate (entryWidth layout) 0 := by
  rw [List.eq_replicate_iff]
  constructor
  · exact (laidOut_zeros layout).length_flatten
  · intro byte hbyte
    obtain ⟨piece, hpiece, hmem⟩ := List.mem_flatten.mp hbyte
    obtain ⟨field, _, rfl⟩ := List.mem_map.mp hpiece
    exact List.eq_of_mem_replicate hmem

section Decode

variable [NatCast β] [Mul β]

/-- The single entry has one value for each field. -/
theorem parse_oneEntry (env : Env β) (tb : TraceBuffer β) {n chipsMax : ℕ}
    (long : entryWidth (tb.load (oneEntry n chipsMax)).layout ≤ n) :
    ∃ entry, (outcome (parse env (tb.load (oneEntry n chipsMax)))).1 = [entry] ∧
      entry.length = (tb.load (oneEntry n chipsMax)).layout.length := by
  let tb' := tb.load (oneEntry n chipsMax)
  have hbytes : tb'.tbBytes.drop 0 =
      (tb'.layout.map fun field => List.replicate field.width (0 : UInt8)).flatten ++
        List.replicate (n - entryWidth tb'.layout) 0 := by
    rw [flatten_zeros, List.replicate_append_replicate, Nat.add_sub_cancel' long]
    rfl
  obtain ⟨w, hentry, _, hvalue⟩ := parseEntry_reads_layout env tb'
    { ptr := 0, entry := [] } _ _ hbytes (laidOut_zeros tb'.layout)
  refine ⟨w.entry, ?_, ?_⟩
  · have hround : parse env tb' = parseEntries env tb' 1 1 { ptr := 0 } [] := rfl
    change (parse env tb').1.tbEntries = _
    rw [hround, parseEntries]
    simp only [Nat.cast_zero, zero_lt_one, ↓reduceIte, hentry]
    split_ifs <;> rfl
  · rw [hvalue, List.nil_append]
    exact length_decodeEntry (laidOut_zeros tb'.layout)

end Decode

/-- The number of fields: those of the sensors and parameters, and one for every SCOM and
socket. -/
theorem length_layout (tb : TraceBuffer β) :
    tb.layout.length = tb.tbSensorList.length + tb.tbParmList.length +
      tb.tbScomList.length * sockCount tb := by
  rw [TraceBuffer.layout, List.length_append, List.length_append, List.length_map,
    List.length_map, List.length_flatMap]
  simp

/-- Another selection of sockets leaves the fields as they are when no SCOM is recorded or
the same of the 32 sockets are selected. -/
theorem layout_selectSockets {tb : TraceBuffer β} {sockets : List ℕ}
    (keeps : tb.tbScomList = [] ∨
      (socketBitmap sockets % 2 ^ 32).toNat = tb.tbUserSocketsBitmap % 2 ^ 32) (d : Loaded) :
    ((tb.selectSockets sockets).load d).layout = (tb.load d).layout := by
  cases keeps with
  | inl hscoms => simp [TraceBuffer.layout, TraceBuffer.load, TraceBuffer.selectSockets, hscoms]
  | inr hbitmap =>
      have hcount : sockCount ((tb.selectSockets sockets).load d) = sockCount (tb.load d) := by
        rw [sockCount_testBit, sockCount_testBit]
        congr 1
        apply List.filter_congr
        intro i hi
        have hbit : (tb.tbUserSocketsBitmap % 2 ^ 32).testBit i =
            tb.tbUserSocketsBitmap.testBit i := by
          rw [Nat.testBit_mod_two_pow]
          simp [List.mem_range.mp hi]
        have hselected : (tb.selectSockets sockets).tbUserSocketsBitmap.testBit i =
            tb.tbUserSocketsBitmap.testBit i := by
          rw [← hbit, ← hbitmap]
          rfl
        change decide (i < d.chipsMax ∧
          (tb.selectSockets sockets).tbUserSocketsBitmap.testBit i = true) = _
        rw [hselected]
        rfl
      rw [TraceBuffer.layout, TraceBuffer.layout, hcount]
      rfl

/-- The configuration that is rejected does not show: SCOMs are asked for where there are
none, which is found out first, or none is recorded, or the same sockets are selected. -/
def KeepsSockets (scomList : List (List String)) (sockets : List ℕ) (tb : TraceBuffer β) :
    Prop :=
  (scomList ≠ [] ∧ tb.hasScom = false) ∨ tb.tbScomList = [] ∨
    (socketBitmap sockets % 2 ^ 32).toNat = tb.tbUserSocketsBitmap % 2 ^ 32

/-- Where every download decodes to as many fields, the same sockets are selected. -/
theorem bitmap_eq_of_counts {tb : TraceBuffer β} {sockets : List ℕ}
    (counts : ∀ d, sockCount ((tb.selectSockets sockets).load d) = sockCount (tb.load d)) :
    (socketBitmap sockets % 2 ^ 32).toNat = tb.tbUserSocketsBitmap % 2 ^ 32 := by
  have hbits (i : ℕ) (hi : i < 32) : (socketBitmap sockets % 2 ^ 32).toNat.testBit i =
      tb.tbUserSocketsBitmap.testBit i := by
    apply Bitmap.testBit_eq_of_counts _ hi
    intro chipsMax
    have hcounts := counts (oneEntry 0 chipsMax)
    rwa [sockCount_testBit, sockCount_testBit] at hcounts
  have hsmall : (socketBitmap sockets % 2 ^ 32).toNat < 2 ^ 32 := by omega
  apply Nat.eq_of_testBit_eq
  intro i
  rw [Nat.testBit_mod_two_pow]
  by_cases hi : i < 32
  · rw [hbits i hi]
    simp [hi]
  · rw [Nat.testBit_lt_two_pow (hsmall.trans_le (Nat.pow_le_pow_right Nat.two_pos (by omega)))]
    simp [hi]

variable [NatCast β] [Mul β]

/-- After a rejected configuration every download is decoded as before it exactly when the
rejected configuration does not show in the selected sockets. -/
theorem decodesAsBefore_iff {env : Env β} {sensorFieldList : List (List String)}
    {parmList : List String} {scomList : List (List String)} {sockets : List ℕ}
    {tb : TraceBuffer β}
    (rejected : (setConfig env sensorFieldList parmList scomList sockets tb).2 ≠ none) :
    (∀ d, outcome (parse env
        ((setConfig env sensorFieldList parmList scomList sockets tb).1.load d)) =
      outcome (parse env (tb.load d))) ↔ KeepsSockets scomList sockets tb := by
  rw [setConfig_rejected rejected, KeepsSockets]
  by_cases hfirst : scomList ≠ [] ∧ tb.hasScom = false
  · simp [hfirst]
  · rw [if_neg hfirst]
    constructor
    · intro same
      by_cases hscoms : tb.tbScomList = []
      · exact .inr (.inl hscoms)
      · refine .inr (.inr (bitmap_eq_of_counts fun d => ?_))
        let before := tb.load (oneEntry 0 d.chipsMax)
        let after := (tb.selectSockets sockets).load (oneEntry 0 d.chipsMax)
        let n := entryWidth before.layout + entryWidth after.layout
        have hbefore : entryWidth (tb.load (oneEntry n d.chipsMax)).layout ≤ n :=
          Nat.le_add_right _ _
        have hafter : entryWidth ((tb.selectSockets sockets).load
            (oneEntry n d.chipsMax)).layout ≤ n := Nat.le_add_left _ _
        obtain ⟨entry, hentry, hlength⟩ := parse_oneEntry env tb hbefore
        obtain ⟨entry', hentry', hlength'⟩ := parse_oneEntry env (tb.selectSockets sockets) hafter
        rw [same, hentry] at hentry'
        obtain rfl := List.singleton_inj.mp hentry'
        have hfields := hlength'.symm.trans hlength
        rw [length_layout, length_layout] at hfields
        exact Nat.eq_of_mul_eq_mul_left (List.length_pos_iff.mpr hscoms)
          (Nat.add_left_cancel hfields)
    · intro keeps d
      have hlayout := layout_selectSockets (keeps.resolve_left hfirst) d
      exact parse_congr env hlayout rfl rfl rfl rfl

/-- A configuration of two SCOMs on sockets 0 and 2 that are there, and one that is
rejected for its sensor's name and selects socket 0. -/
theorem decodesAsBefore_fails :
    (setConfig sampleEnv [["NOPE"]] [] [] [0] sampleDownloaded).2 ≠ none ∧
      outcome (parse sampleEnv (setConfig sampleEnv [["NOPE"]] [] [] [0] sampleDownloaded).1) ≠
        outcome (parse sampleEnv sampleDownloaded) := by
  constructor
  · intro accepted
    have herror : (setConfig sampleEnv [["NOPE"]] [] [] [0] sampleDownloaded).2.isNone = false :=
      by decide +kernel
    rw [accepted] at herror
    cases herror
  · intro same
    have hbefore : (outcome (parse sampleEnv sampleDownloaded)).1.map List.length = [7, 7] := by
      decide +kernel
    have hafter : (outcome (parse sampleEnv
        (setConfig sampleEnv [["NOPE"]] [] [] [0] sampleDownloaded).1)).1.map List.length =
          [5] := by
      decide +kernel
    rw [same, hbefore] at hafter
    cases hafter

theorem decodesAsBefore_sample :
    (∀ d, outcome (parse sampleEnv
        ((setConfig sampleEnv [["NOPE"]] [] [] [0, 2, 5] sampleDownloaded).1.load d)) =
      outcome (parse sampleEnv (sampleDownloaded.load d))) ↔
      KeepsSockets [] [0, 2, 5] sampleDownloaded := by
  have hrejected : (setConfig sampleEnv [["NOPE"]] [] [] [0, 2, 5] sampleDownloaded).2 ≠ none := by
    intro accepted
    have herror : (setConfig sampleEnv [["NOPE"]] [] [] [0, 2, 5]
        sampleDownloaded).2.isNone = false := by decide +kernel
    rw [accepted] at herror
    cases herror
  exact decodesAsBefore_iff hrejected

end Amester.Trace
