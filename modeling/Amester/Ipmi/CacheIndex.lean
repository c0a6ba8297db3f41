/-
# What an index of the response cache determines

The parts of an index follow each other with nothing between. Behind a known machine
part the index still determines the command, because the two tags that one host's
objects use do not begin alike: the versions begin with a digit or a sign, and the tag
before them begins with a letter.
-/

import Amester.Ipmi.Cache

namespace Amester.Cache

open BinaryFormat

/-! ## Bytes of hexadecimal digits -/

theorem byte_injective {a b : Hex2} (h : a.byte = b.byte) : a = b := by
  have hvalue : a.value = b.value := by rw [← Hex2.byte_toNat, ← Hex2.byte_toNat, h]
  obtain ⟨ahi, alo⟩ := a
  obtain ⟨bhi, blo⟩ := b
  simp only [Hex2.value] at hvalue
  have hhi : ahi = bhi := Fin.ext (by omega)
  have hlo : alo = blo := Fin.ext (by omega)
  rw [hhi, hlo]

/-- The end of an index, which names the command. -/
theorem HostKind.route_same {kind : HostKind} {q q' : Query}
    (h : kind.route q ++ q.data = kind.route q' ++ q'.data) : q.Same q' := by
  cases kind
  case blade =>
    simp only [route, List.cons_append, List.nil_append, List.cons.injEq] at h
    exact ⟨byte_injective h.2.2.2.1, byte_injective h.2.2.2.2.1, h.2.2.2.2.2⟩
  all_goals
    simp only [route, List.cons_append, List.nil_append, List.cons.injEq] at h
    exact ⟨byte_injective h.2.1, byte_injective h.2.2.1, h.2.2.2⟩

/-! ## Tags -/

/-- A number in a tag begins with a digit or a sign. -/
theorem text_signed (b : UInt8) :
    ∃ first rest, text (toString (signed [b])) = first :: rest ∧ first ≠ 117 := by
  have hall : ∀ k : Fin 256,
      (text (toString (signed [UInt8.ofNat k.val]))).head?.any (· ≠ 117) := by
    decide +kernel
  have hb := hall ⟨b.toNat, b.toNat_lt⟩
  rw [UInt8.ofNat_toNat] at hb
  cases htext : text (toString (signed [b])) with
  | nil =>
      rw [htext] at hb
      exact absurd hb (by decide)
  | cons first rest =>
      rw [htext] at hb
      exact ⟨first, rest, rfl, by simpa using hb⟩

theorem unknownTag_head : ∃ rest, unknownTag = 117 :: rest :=
  ⟨text "nknown unknown", by decide +kernel⟩

theorem versionTag_head (b : UInt8) (verMinor apiMajor apiMinor : ℤ) :
    ∃ first rest, versionTag (signed [b]) verMinor apiMajor apiMinor = first :: rest ∧
      first ≠ 117 := by
  obtain ⟨first, rest, htext, hfirst⟩ := text_signed b
  rw [versionTag, htext]
  exact ⟨first, _, rfl, hfirst⟩

/-- What is scanned in front of other fields is the first byte. -/
theorem scan_byte_eq {fields : List Field} {bytes : Bytes} {value : Value} {values : List Value}
    (h : scan (.int 1 :: fields) bytes = value :: values) :
    ∃ b remaining, bytes = b :: remaining ∧ value = .int (signed [b]) ∧
      scan fields remaining = values := by
  cases bytes with
  | nil => simp [scan, Field.size] at h
  | cons b remaining =>
      rw [scan_int_byte, List.cons.injEq] at h
      exact ⟨b, remaining, rfl, h.1.symm, h.2⟩

/-- A response leaves every tag as it is, or makes every tag the same one. -/
theorem initVersion_cases (response : Response) :
    (∀ tag, initVersion response tag = tag) ∨
      ∃ first rest, first ≠ 117 ∧ ∀ tag, initVersion response tag = first :: rest := by
  by_cases hstatus : response.1 = 0
  · by_cases hfields : ∃ apiMajor apiMinor verMajor verMinor a b c,
        scan [.int 1, .int 1, .int 1, .int 1, .bytes 4, .bytes 2, .int 1] response.2 =
          [.int apiMajor, .int apiMinor, .int verMajor, .int verMinor, a, b, c]
    · right
      obtain ⟨apiMajor, apiMinor, verMajor, verMinor, a, b, c, hscan⟩ := hfields
      obtain ⟨_, bytes₁, -, -, h₁⟩ := scan_byte_eq hscan
      obtain ⟨_, bytes₂, -, -, h₂⟩ := scan_byte_eq h₁
      obtain ⟨byte, _, -, hvalue, -⟩ := scan_byte_eq h₂
      obtain rfl : verMajor = signed [byte] := by simpa using hvalue
      obtain ⟨first, rest, htag, hfirst⟩ := versionTag_head byte verMinor apiMajor apiMinor
      refine ⟨first, rest, hfirst, fun tag => ?_⟩
      rw [initVersion, if_pos hstatus, hscan]
      exact htag
    · left
      intro tag
      rw [initVersion, if_pos hstatus]
      split
      · next hscan => exact absurd ⟨_, _, _, _, _, _, _, hscan⟩ hfields
      · rfl
  · left
    intro tag
    rw [initVersion, if_neg hstatus]

/-- The tag of an object that has seen the versions in this response, or not yet. -/
def TagOf (response : Response) (tag : Bytes) : Prop :=
  tag = unknownTag ∨ tag = initVersion response unknownTag

/-- A further look at the versions keeps the tag among the two. -/
theorem TagOf.initVersion {response : Response} {tag : Bytes} (h : TagOf response tag) :
    TagOf response (initVersion response tag) := by
  obtain hkeeps | ⟨_, _, -, hsets⟩ := initVersion_cases response
  · rw [hkeeps]
    exact h
  · right
    rw [hsets, hsets]

/-- The two tags of a host do not begin alike, unless they are the same. -/
theorem TagOf.unambiguous {response : Response} {tag tag' rest rest' : Bytes}
    (h : TagOf response tag) (h' : TagOf response tag') (eq : tag ++ rest = tag' ++ rest') :
    rest = rest' := by
  obtain hkeeps | ⟨first, versions, hfirst, hsets⟩ := initVersion_cases response
  · have htag : tag = unknownTag := by
      obtain rfl | rfl := h
      · rfl
      · exact hkeeps _
    have htag' : tag' = unknownTag := by
      obtain rfl | rfl := h'
      · rfl
      · exact hkeeps _
    rw [htag, htag'] at eq
    exact List.append_cancel_left eq
  · obtain ⟨letters, hunknown⟩ := unknownTag_head
    rw [TagOf, hsets, hunknown] at h h'
    obtain rfl | rfl := h <;> obtain rfl | rfl := h'
    · exact List.append_cancel_left eq
    · exact absurd (List.cons.inj eq).1.symm hfirst
    · exact absurd (List.cons.inj eq).1 hfirst
    · exact List.append_cancel_left eq

/-- Hosts with machine parts of one length: the index determines the machine part and,
if both objects have a tag of one response, the command. -/
theorem HostKind.index_determines {kind : HostKind} {host host' : Host} {tag tag' : Bytes}
    {q q' : Query} (length : (kind.machine host).length = (kind.machine host').length)
    (eq : kind.index host tag q = kind.index host' tag' q') :
    kind.machine host = kind.machine host' ∧
      ∀ response, TagOf response tag → TagOf response tag' → q.Same q' := by
  simp only [index, List.append_assoc] at eq
  obtain ⟨hmachine, hrest⟩ := List.append_inj eq length
  exact ⟨hmachine, fun _ h h' => route_same (h.unambiguous h' hrest)⟩

end Amester.Cache
