/-
# Vectors of elements of one size

Bytes that hold a vector are cut into its elements, and joined again. An element may be
an integer, or a text that ends with a zero byte unless it fills the element.
-/

import Amester.Lib.ByteReader

namespace BinaryFormat

/-! ## Cutting and joining -/

/-- So many elements of a size. -/
def elements (size : ℕ) : ℕ → Bytes → List Bytes
  | 0, _ => []
  | count + 1, bytes => bytes.take size :: elements size count (bytes.drop size)

@[simp]
theorem length_elements (size count : ℕ) (bytes : Bytes) :
    (elements size count bytes).length = count := by
  induction count generalizing bytes with
  | zero => rfl
  | succ count ih => rw [elements, List.length_cons, ih]

theorem length_of_mem_elements {size count : ℕ} {bytes : Bytes}
    (length : bytes.length = count * size) : ∀ c ∈ elements size count bytes, c.length = size := by
  induction count generalizing bytes with
  | zero => exact fun c hc => absurd hc List.not_mem_nil
  | succ count ih =>
      rw [Nat.succ_mul] at length
      intro c hc
      obtain rfl | hc := List.mem_cons.mp hc
      · rw [List.length_take]
        omega
      · exact ih (by rw [List.length_drop]; omega) c hc

theorem flatten_elements {size count : ℕ} {bytes : Bytes}
    (length : bytes.length = count * size) : (elements size count bytes).flatten = bytes := by
  induction count generalizing bytes with
  | zero =>
      rw [Nat.zero_mul, List.length_eq_zero_iff] at length
      rw [length]
      rfl
  | succ count ih =>
      rw [Nat.succ_mul] at length
      rw [elements, List.flatten_cons, ih (by rw [List.length_drop]; omega),
        List.take_append_drop]

theorem length_flatten_of_sizes {size : ℕ} {cs : List Bytes}
    (sizes : ∀ c ∈ cs, c.length = size) : cs.flatten.length = cs.length * size := by
  induction cs with
  | nil => simp
  | cons c cs ih =>
      rw [List.flatten_cons, List.length_append, sizes c List.mem_cons_self,
        ih fun c hc => sizes c (List.mem_cons_of_mem _ hc), List.length_cons, Nat.succ_mul,
        Nat.add_comm]

/-- An element is found at its place. -/
theorem take_drop_flatten {size : ℕ} {cs : List Bytes} (sizes : ∀ c ∈ cs, c.length = size) {i : ℕ}
    {c : Bytes} (get : cs[i]? = some c) : (cs.flatten.drop (size * i)).take size = c := by
  induction cs generalizing i with
  | nil => simp at get
  | cons c' cs ih =>
      have hlength := sizes c' List.mem_cons_self
      cases i with
      | zero =>
          rw [List.getElem?_cons_zero] at get
          rw [Nat.mul_zero, List.drop_zero, List.flatten_cons, List.take_left' hlength]
          exact Option.some.inj get
      | succ i =>
          rw [List.getElem?_cons_succ] at get
          rw [Nat.mul_succ, Nat.add_comm, ← List.drop_drop, List.flatten_cons,
            List.drop_left' hlength]
          exact ih (fun c hc => sizes c (List.mem_cons_of_mem _ hc)) get

/-! ## Integers -/

theorem scanInts_append {width : ℕ} (pos : 0 < width) {taken : Bytes}
    (length : taken.length = width) (remaining : Bytes) :
    scanInts width (taken ++ remaining) = signed taken :: scanInts width remaining := by
  have hcount : (taken ++ remaining).length / width = remaining.length / width + 1 := by
    rw [List.length_append, length, Nat.add_comm, Nat.add_div_right _ pos]
  rw [scanInts, hcount, List.range_succ_eq_map, List.map_cons, List.map_map, scanInts]
  congr 1
  · rw [Nat.zero_mul, List.drop_zero, List.take_left' length]
  · refine List.map_congr_left fun i _ => ?_
    rw [Function.comp_apply, Nat.succ_mul, Nat.add_comm, ← List.drop_drop,
      List.drop_left' length]

/-- The integers of joined elements. -/
theorem scanInts_flatten {width : ℕ} (pos : 0 < width) {cs : List Bytes}
    (sizes : ∀ c ∈ cs, c.length = width) : scanInts width cs.flatten = cs.map signed := by
  induction cs with
  | nil => simp [scanInts]
  | cons c cs ih =>
      rw [List.flatten_cons, scanInts_append pos (sizes c List.mem_cons_self),
        ih fun c hc => sizes c (List.mem_cons_of_mem _ hc), List.map_cons]

/-- Integers that were written are read as the signed values of their low bytes. -/
theorem scanInts_flatMap_bigEndian {width : ℕ} (pos : 0 < width) (ns : List ℤ) :
    scanInts width (ns.flatMap (bigEndian width)) =
      ns.map fun n => Int.bmod n (256 ^ width) := by
  rw [List.flatMap_def, scanInts_flatten pos, List.map_map]
  · refine List.map_congr_left fun n _ => ?_
    exact signed_bigEndian width n
  · intro c hc
    obtain ⟨n, -, rfl⟩ := List.mem_map.mp hc
    exact length_bigEndian width n

/-- Integers that were read are written back, whether or not they were made unsigned. -/
theorem flatMap_bigEndian_scanInts {width count : ℕ} (pos : 0 < width) {bytes : Bytes}
    (length : bytes.length = count * width) {unsign : ℤ → ℤ}
    (congr : ∀ n, unsign n ≡ n [ZMOD 256 ^ width]) :
    ((scanInts width bytes).map unsign).flatMap (bigEndian width) = bytes := by
  have hsizes := length_of_mem_elements length
  have hback : ∀ c ∈ elements width count bytes, bigEndian width (unsign (signed c)) = c := by
    intro c hc
    rw [bigEndian_congr (congr _), ← hsizes c hc]
    exact bigEndian_signed c
  calc ((scanInts width bytes).map unsign).flatMap (bigEndian width)
      = ((elements width count bytes).map fun c =>
          bigEndian width (unsign (signed c))).flatten := by
        rw [← flatten_elements length, scanInts_flatten pos hsizes, flatten_elements length,
          List.flatMap_def, List.map_map, List.map_map]
        rfl
    _ = (elements width count bytes).flatten := by
        rw [List.map_congr_left hback, List.map_id']
    _ = bytes := flatten_elements length

/-! ## Texts -/

/-- `binary format a<count>`: so many characters, missing ones zero. -/
def formatA (count : ℕ) (word : Bytes) : Bytes :=
  word.take count ++ List.replicate (count - word.length) 0

/-- The characters in front of the first zero. -/
def untilZero (bytes : Bytes) : Bytes := bytes.takeWhile (· ≠ 0)

@[simp]
theorem length_formatA (count : ℕ) (word : Bytes) : (formatA count word).length = count := by
  rw [formatA, List.length_append, List.length_take, List.length_replicate]
  omega

theorem formatA_of_le {count : ℕ} {word : Bytes} (fits : word.length ≤ count) :
    formatA count word = word ++ List.replicate (count - word.length) 0 := by
  rw [formatA, List.take_of_length_le fits]

/-- Where there is a zero, what follows makes no difference. -/
theorem untilZero_append_of_mem {bytes : Bytes} (zero : 0 ∈ bytes) (rest : Bytes) :
    untilZero (bytes ++ rest) = untilZero bytes := by
  induction bytes with
  | nil => exact absurd zero List.not_mem_nil
  | cons b bytes ih =>
      rw [untilZero, List.cons_append]
      by_cases hb : b = 0
      · rw [List.takeWhile_cons_of_neg (by simpa using hb), untilZero,
          List.takeWhile_cons_of_neg (by simpa using hb)]
      · have hmem : 0 ∈ bytes := by
          obtain rfl | hmem := List.mem_cons.mp zero
          · exact absurd rfl hb
          · exact hmem
        rw [List.takeWhile_cons_of_pos (by simpa using hb), untilZero,
          List.takeWhile_cons_of_pos (by simpa using hb)]
        exact congrArg _ (ih hmem)

theorem untilZero_append_of_zeroFree {bytes : Bytes} (zeroFree : 0 ∉ bytes) (rest : Bytes) :
    untilZero (bytes ++ rest) = bytes ++ untilZero rest := by
  have hall : ∀ b ∈ bytes, decide (b ≠ 0) = true := by
    intro b hb
    rw [decide_eq_true_eq]
    rintro rfl
    exact zeroFree hb
  rw [untilZero, List.takeWhile_append_of_pos hall]
  rfl

theorem untilZero_eq_self {word : Bytes} (zeroFree : 0 ∉ word) : untilZero word = word := by
  have happend := untilZero_append_of_zeroFree zeroFree []
  rw [List.append_nil] at happend
  exact happend.trans (List.append_nil word)

/-- A text without zeros that fits is what its element holds. -/
theorem untilZero_formatA {count : ℕ} {word : Bytes} (fits : word.length ≤ count)
    (zeroFree : 0 ∉ word) : untilZero (formatA count word) = word := by
  rw [formatA_of_le fits, untilZero_append_of_zeroFree zeroFree]
  cases hrest : count - word.length with
  | zero => exact List.append_nil word
  | succ n =>
      rw [List.replicate_succ, untilZero, List.takeWhile_cons_of_neg (by simp), List.append_nil]

theorem zero_mem_formatA_iff {count : ℕ} {word : Bytes} (fits : word.length ≤ count)
    (zeroFree : 0 ∉ word) : 0 ∈ formatA count word ↔ word.length < count := by
  rw [formatA_of_le fits, List.mem_append, List.mem_replicate]
  constructor
  · rintro (hmem | hmem)
    · exact absurd hmem zeroFree
    · omega
  · intro hlt
    exact Or.inr ⟨by omega, rfl⟩

/-- The texts of elements where each text goes on to the next zero, wherever that is. -/
def runOn : List Bytes → List Bytes
  | [] => []
  | c :: cs => untilZero (c ++ cs.flatten) :: runOn cs

theorem untilZero_append_eq_nil_iff {bytes : Bytes} (nonempty : bytes ≠ []) (rest : Bytes) :
    untilZero (bytes ++ rest) = [] ↔ untilZero bytes = [] := by
  cases bytes with
  | nil => exact absurd rfl nonempty
  | cons b bytes =>
      by_cases hb : b = 0
      · simp [untilZero, hb]
      · simp [untilZero, hb]

/-- Texts that go on keep to their elements if a text that fills its element is followed
by an empty one. -/
theorem runOn_eq_iff {cs : List Bytes} (nonempty : ∀ c ∈ cs, c ≠ []) :
    runOn cs = cs.map untilZero ↔
      cs.IsChain fun c next => 0 ∉ c → untilZero next = [] := by
  induction cs with
  | nil => simp [runOn]
  | cons c cs ih =>
      rw [runOn, List.map_cons, List.cons.injEq,
        ih fun c hc => nonempty c (List.mem_cons_of_mem _ hc)]
      have hhead : untilZero (c ++ cs.flatten) = untilZero c ↔
          (0 ∉ c → untilZero cs.flatten = []) := by
        by_cases hzero : 0 ∈ c
        · simp [untilZero_append_of_mem hzero, hzero]
        · rw [untilZero_append_of_zeroFree hzero, untilZero_eq_self hzero]
          simp [hzero]
      rw [hhead]
      cases cs with
      | nil => simp [untilZero]
      | cons next cs =>
          have hnext : next ≠ [] := nonempty next (by simp)
          rw [List.flatten_cons, untilZero_append_eq_nil_iff hnext, List.isChain_cons_cons]

/-- An element is what its text makes, up to what follows the first zero. -/
theorem formatA_untilZero_append {count : ℕ} {c : Bytes} (length : c.length = count)
    (rest : Bytes) : formatA count (untilZero (c ++ rest)) = formatA count (untilZero c) := by
  by_cases hzero : 0 ∈ c
  · rw [untilZero_append_of_mem hzero]
  · rw [untilZero_append_of_zeroFree hzero, untilZero_eq_self hzero, formatA, formatA,
      List.take_left' length, List.take_of_length_le length.le, List.length_append,
      Nat.sub_eq_zero_of_le (by omega), Nat.sub_eq_zero_of_le (by omega)]

/-- Joining texts that go on gives the elements, up to what follows a first zero. -/
theorem flatMap_formatA_runOn {count : ℕ} {cs : List Bytes}
    (sizes : ∀ c ∈ cs, c.length = count) :
    (runOn cs).flatMap (formatA count) = cs.flatMap fun c => formatA count (untilZero c) := by
  induction cs with
  | nil => rfl
  | cons c cs ih =>
      rw [runOn, List.flatMap_cons, List.flatMap_cons,
        formatA_untilZero_append (sizes c List.mem_cons_self),
        ih fun c hc => sizes c (List.mem_cons_of_mem _ hc)]

end BinaryFormat
