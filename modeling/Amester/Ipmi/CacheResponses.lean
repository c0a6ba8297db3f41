/-
# The responses of an object's own firmware

Hosts of the same machine type and firmware level answer alike, so a response that one
of them caused to be kept is what another would have obtained. Whether the cache gives
an object such a response depends on the entry that it finds: while every entry that is
found is of use to the object that finds it, all that objects obtain is what their own
firmware answers.
-/

import Amester.Ipmi.CacheIndex

namespace Amester.Cache

open BinaryFormat EventMachine

universe u v x

variable {C : Type u} {H : Type v} {L : Type x}

/-- Hosts of the same machine type and firmware level answer alike, and so do the OCCs
of a host. -/
structure AnswersAlike (w : World C H) (level : H → L) : Prop where
  firmware : ∀ g h, (w.host g).machineType = (w.host h).machineType → level g = level h →
    ∀ q, w.answer g q = w.answer h q
  occs : ∀ h q q', q.Same q' → w.answer h q = w.answer h q'

/-- What the cache has under the index of the next command of an object. -/
def found (w : World C H) (s : State C) (c : C) (data : Bytes) : Option (Entry C) :=
  s.ipmiCache (w.kind.index (w.host (w.hostOf c)) (s.tag c) (w.query c data))

/-- An entry is of use to an object: the object's host would have kept it, it answers
the same command, and it comes from a host of the same machine type and level. -/
structure Fits (w : World C H) (level : H → L) (c : C) (data : Bytes) (entry : Entry C) :
    Prop where
  enabled : w.kind.sends (w.host (w.hostOf c)).ipmiCacheEnable false = true
  same : entry.query.Same (w.query c data)
  machineType : (w.host (w.hostOf entry.sender)).machineType =
    (w.host (w.hostOf c)).machineType
  level : level (w.hostOf entry.sender) = level (w.hostOf c)

/-- When a step keeps the hosts apart: an entry that is there is of use. -/
def Condition (w : World C H) (level : H → L) (s : State C) : Event C → Prop
  | .call c => ∀ data entry, w.script c (s.obtained c) = some data →
      found w s c data = some entry → Fits w level c data entry
  | .response _ => True

instance [DecidableEq L] (w : World C H) (level : H → L) (c : C) (data : Bytes)
    (entry : Entry C) : Decidable (Fits w level c data entry) :=
  decidable_of_iff
    (w.kind.sends (w.host (w.hostOf c)).ipmiCacheEnable false = true ∧
      entry.query.Same (w.query c data) ∧
      (w.host (w.hostOf entry.sender)).machineType = (w.host (w.hostOf c)).machineType ∧
      level (w.hostOf entry.sender) = level (w.hostOf c))
    ⟨fun ⟨h₁, h₂, h₃, h₄⟩ => ⟨h₁, h₂, h₃, h₄⟩, fun ⟨h₁, h₂, h₃, h₄⟩ => ⟨h₁, h₂, h₃, h₄⟩⟩

instance [DecidableEq L] (w : World C H) (level : H → L) (s : State C) :
    DecidablePred (Condition w level s)
  | .call c => decidable_of_iff
      (∀ data ∈ w.script c (s.obtained c), ∀ entry ∈ found w s c data,
        Fits w level c data entry)
      ⟨fun h data entry hasked hfound => h data hasked entry hfound,
        fun h data hasked entry hfound => h data entry hasked hfound⟩
  | .response _ => inferInstanceAs (Decidable True)

/-! ## What the firmware answers -/

/-- The first responses that an object obtains if all come from its own host. -/
def own (w : World C H) (c : C) : ℕ → List Response
  | 0 => []
  | n + 1 =>
    match w.script c (own w c n) with
    | none => own w c n
    | some data => own w c n ++ [w.answer (w.hostOf c) (w.query c data)]

theorem own_prefix_succ (w : World C H) (c : C) (n : ℕ) : own w c n <+: own w c (n + 1) := by
  rw [own]
  cases w.script c (own w c n) with
  | none => exact List.prefix_rfl
  | some data => exact List.prefix_append _ _

theorem own_prefix_of_le (w : World C H) (c : C) {m n : ℕ} (le : m ≤ n) :
    own w c m <+: own w c n := by
  induction n, le using Nat.le_induction with
  | base => exact List.prefix_rfl
  | succ n _ ih => exact ih.trans (own_prefix_succ w c n)

/-- Lists of own responses are never in conflict. -/
theorem own_comparable (w : World C H) (c : C) (m n : ℕ) :
    own w c m <+: own w c n ∨ own w c n <+: own w c m := by
  obtain hle | hle := Nat.le_total m n
  · exact Or.inl (own_prefix_of_le w c hle)
  · exact Or.inr (own_prefix_of_le w c hle)

/-- The invariant: all responses are the objects' own. -/
structure Inv (w : World C H) (s : State C) : Prop where
  own : ∀ c, s.obtained c = own w c (s.obtained c).length
  entries : ∀ i entry, s.ipmiCache i = some entry →
    entry.response = w.answer (w.hostOf entry.sender) entry.query
  waiting : ∀ c i q, s.waiting c = some (i, q) →
    ∃ data, w.script c (s.obtained c) = some data ∧ q = w.query c data
  enabled : ∀ c, s.obtained c ≠ [] ∨ s.waiting c ≠ none →
    w.kind.sends (w.host (w.hostOf c)).ipmiCacheEnable false = true

theorem fresh_inv (w : World C H) : Inv w {} where
  own _ := rfl
  entries _ _ h := by simp at h
  waiting _ _ _ h := by simp at h
  enabled _ h := by simp at h

/-- An entry that makes a host send its command makes no difference if it is absent. -/
theorem HostKind.sends_absent {kind : HostKind} {enable present : Bool}
    (h : kind.sends enable present = true) : kind.sends enable false = true := by
  revert h
  cases kind <;> cases enable <;> cases present <;> decide

/-! ## What one command does -/

@[simp]
theorem obtain_obtained [DecidableEq C] (s : State C) (c : C) (q : Query) (response : Response) :
    (s.obtain c q response).obtained c = s.obtained c ++ [response] :=
  Function.update_self _ _ _

@[simp]
theorem obtain_waiting [DecidableEq C] (s : State C) (c : C) (q : Query) (response : Response) :
    (s.obtain c q response).waiting c = none :=
  Function.update_self _ _ _

/-- The command is sent, and the object waits. -/
theorem ipmiSendSyncCache_sent [DecidableEq C] {w : World C H} {c : C} {q : Query} {s : State C}
    (sent : w.kind.sends (w.host (w.hostOf c)).ipmiCacheEnable
      (s.ipmiCache (w.kind.index (w.host (w.hostOf c)) (s.tag c) q)).isSome = true) :
    ipmiSendSyncCache w c q s =
      { s with
        waiting := Function.update s.waiting c
          (some (w.kind.index (w.host (w.hostOf c)) (s.tag c) q, q)) } := by
  rw [ipmiSendSyncCache, if_pos sent]

/-- The cache is read, and has a response. -/
theorem ipmiSendSyncCache_found [DecidableEq C] {w : World C H} {c : C} {q : Query} {s : State C}
    {entry : Entry C}
    (hfound : s.ipmiCache (w.kind.index (w.host (w.hostOf c)) (s.tag c) q) = some entry)
    (read : w.kind.sends (w.host (w.hostOf c)).ipmiCacheEnable true ≠ true) :
    ipmiSendSyncCache w c q s = s.obtain c q entry.response := by
  rw [ipmiSendSyncCache]
  simp only [hfound, Option.isSome_some]
  exact if_neg read

/-- The cache is read, and has none. -/
theorem ipmiSendSyncCache_absent [DecidableEq C] {w : World C H} {c : C} {q : Query} {s : State C}
    (hfound : s.ipmiCache (w.kind.index (w.host (w.hostOf c)) (s.tag c) q) = none)
    (read : w.kind.sends (w.host (w.hostOf c)).ipmiCacheEnable false ≠ true) :
    ipmiSendSyncCache w c q s = s := by
  rw [ipmiSendSyncCache]
  simp only [hfound, Option.isSome_none]
  exact if_neg read

/-- What the cache holds after a response. -/
def kept [DecidableEq C] (w : World C H) (c : C) (index : Bytes) (q : Query) (s : State C) :
    State C :=
  if w.kind.keeps then
    { s with ipmiCache :=
        Function.update s.ipmiCache index (some ⟨w.answer (w.hostOf c) q, c, q⟩) }
  else s

theorem ipmiSendSyncReturn_eq [DecidableEq C] (w : World C H) (c : C) (index : Bytes) (q : Query)
    (s : State C) :
    ipmiSendSyncReturn w c index q s =
      (kept w c index q s).obtain c q (w.answer (w.hostOf c) q) := rfl

/-- Keeping a response changes the cache only, and there one entry. -/
theorem kept_cases [DecidableEq C] (w : World C H) (c : C) (index : Bytes) (q : Query)
    (s : State C) :
    (kept w c index q s).tag = s.tag ∧ (kept w c index q s).obtained = s.obtained ∧
      (kept w c index q s).waiting = s.waiting ∧
      ∀ i entry, (kept w c index q s).ipmiCache i = some entry →
        s.ipmiCache i = some entry ∨ (i = index ∧ entry = ⟨w.answer (w.hostOf c) q, c, q⟩) := by
  rw [kept]
  by_cases hkeeps : w.kind.keeps = true
  · rw [if_pos hkeeps]
    refine ⟨rfl, rfl, rfl, ?_⟩
    intro i entry hentry
    by_cases hi : i = index
    · subst hi
      simp only [Function.update_self, Option.some.injEq] at hentry
      exact Or.inr ⟨rfl, hentry.symm⟩
    · simp only [Function.update_of_ne hi] at hentry
      exact Or.inl hentry
  · rw [if_neg hkeeps]
    exact ⟨rfl, rfl, rfl, fun _ _ hentry => Or.inl hentry⟩

/-! ## The invariant of a step -/

/-- A response of the object's own firmware keeps the invariant. -/
theorem obtain_inv [DecidableEq C] {w : World C H} {s : State C} (h : Inv w s) {c : C}
    {data : Bytes} (asked : w.script c (s.obtained c) = some data)
    (enabled : w.kind.sends (w.host (w.hostOf c)).ipmiCacheEnable false = true) :
    Inv w (s.obtain c (w.query c data) (w.answer (w.hostOf c) (w.query c data))) := by
  refine ⟨?_, h.entries, ?_, ?_⟩
  · intro d
    by_cases hd : d = c
    · subst hd
      have hown := h.own d
      rw [obtain_obtained, List.length_append, List.length_singleton, Cache.own, ← hown, asked]
    · simp only [State.obtain, Function.update_of_ne hd]
      exact h.own d
  · intro d i q hwaiting
    by_cases hd : d = c
    · subst hd
      rw [obtain_waiting] at hwaiting
      exact absurd hwaiting (by simp)
    · simp only [State.obtain, Function.update_of_ne hd] at hwaiting ⊢
      exact h.waiting d i q hwaiting
  · intro d hactive
    by_cases hd : d = c
    · subst hd
      exact enabled
    · simp only [State.obtain, Function.update_of_ne hd] at hactive
      exact h.enabled d hactive

/-- An entry that is of use holds what the object's own firmware answers. -/
theorem Fits.response {w : World C H} {level : H → L} (alike : AnswersAlike w level)
    {s : State C} (h : Inv w s) {c : C} {data : Bytes} {entry : Entry C}
    (fits : Fits w level c data entry) (hfound : found w s c data = some entry) :
    entry.response = w.answer (w.hostOf c) (w.query c data) := by
  rw [h.entries _ entry hfound, alike.firmware _ _ fits.machineType fits.level]
  exact alike.occs _ _ _ fits.same

/-- A command that reads the cache obtains its own response if the entry is of use. -/
theorem call_inv [DecidableEq C] {w : World C H} {level : H → L} (alike : AnswersAlike w level)
    {s : State C} (h : Inv w s) {c : C} {data : Bytes}
    (asked : w.script c (s.obtained c) = some data)
    (fits : ∀ entry, found w s c data = some entry → Fits w level c data entry) :
    Inv w (ipmiSendSyncCache w c (w.query c data) s) := by
  by_cases hsent : w.kind.sends (w.host (w.hostOf c)).ipmiCacheEnable
      (s.ipmiCache (w.kind.index (w.host (w.hostOf c)) (s.tag c) (w.query c data))).isSome = true
  · rw [ipmiSendSyncCache_sent hsent]
    refine ⟨h.own, h.entries, ?_, ?_⟩
    · intro d i q hwaiting
      by_cases hd : d = c
      · subst hd
        simp only [Function.update_self, Option.some.injEq, Prod.mk.injEq] at hwaiting
        exact ⟨data, asked, hwaiting.2.symm⟩
      · simp only [Function.update_of_ne hd] at hwaiting
        exact h.waiting d i q hwaiting
    · intro d hactive
      by_cases hd : d = c
      · subst hd
        exact HostKind.sends_absent hsent
      · simp only [Function.update_of_ne hd] at hactive
        exact h.enabled d hactive
  · cases hfound : s.ipmiCache (w.kind.index (w.host (w.hostOf c)) (s.tag c) (w.query c data)) with
    | none =>
        rw [hfound] at hsent
        rw [ipmiSendSyncCache_absent hfound hsent]
        exact h
    | some entry =>
        rw [hfound] at hsent
        have hfits := fits entry hfound
        rw [ipmiSendSyncCache_found hfound hsent, hfits.response alike h hfound]
        exact obtain_inv h asked hfits.enabled

/-- A response that was waited for is the object's own. -/
theorem return_inv [DecidableEq C] {w : World C H} {s : State C} (h : Inv w s) {c : C}
    {index : Bytes} {q : Query} (waiting : s.waiting c = some (index, q)) :
    Inv w (ipmiSendSyncReturn w c index q s) := by
  obtain ⟨data, hasked, rfl⟩ := h.waiting c index q waiting
  have henabled := h.enabled c (Or.inr (by rw [waiting]; simp))
  obtain ⟨-, hobtained, hwaiting, hentries⟩ := kept_cases w c index (w.query c data) s
  have hkept : Inv w (kept w c index (w.query c data) s) := by
    refine ⟨?_, ?_, ?_, ?_⟩
    · rw [hobtained]
      exact h.own
    · intro i entry hentry
      obtain hold | ⟨-, rfl⟩ := hentries i entry hentry
      · exact h.entries i entry hold
      · rfl
    · rw [hobtained, hwaiting]
      exact h.waiting
    · rw [hobtained, hwaiting]
      exact h.enabled
  rw [ipmiSendSyncReturn_eq]
  exact obtain_inv hkept (by rw [hobtained]; exact hasked) henabled

/-- A step that satisfies the condition keeps the invariant. -/
theorem step_inv [DecidableEq C] {w : World C H} {level : H → L} (alike : AnswersAlike w level)
    (s : State C) (event : Event C) (h : Inv w s) (condition : Condition w level s event) :
    Inv w (step w s event) := by
  cases event with
  | call c =>
      rw [step]
      cases hasked : w.script c (s.obtained c) with
      | none => exact h
      | some data => exact call_inv alike h hasked fun entry => condition data entry hasked
  | response c =>
      rw [step]
      cases hwaiting : s.waiting c with
      | none => exact h
      | some pending => exact return_inv h hwaiting

end Amester.Cache
