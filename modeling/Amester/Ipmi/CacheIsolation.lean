/-
# What a host obtains from the shared cache

Sharing responses among hosts should not be seen: each AME object should obtain what it
would obtain if its host were the only one. It does as long as an index never stands for
two commands that are answered differently. It can: the first command is sent while the
versions are unknown, so its index does not name the firmware level; some host types
know nothing of the machine; and the parts of an index are written one behind the other
with nothing between.

An object that is alone with those of its own host always obtains what the firmware
answers, and the result here follows from a comparison with that.
-/

import Amester.Ipmi.CacheResponses

namespace Amester.Cache

open BinaryFormat EventMachine

universe u v x

variable {C : Type u} {H : Type v} {L : Type x} [DecidableEq C]

/-- The object obtains what it obtains without other hosts: no run of its host alone
says otherwise, and one run of its host alone obtains the same. -/
structure IsolatedObject (w : World C H) (s : State C) (c : C) : Prop where
  agrees : ∀ alone, (machine w).Admits {} alone → Alone w (w.hostOf c) alone →
    s.obtained c <+: ((machine w).run {} alone).obtained c ∨
      ((machine w).run {} alone).obtained c <+: s.obtained c
  reached : ∃ alone, (machine w).Admits {} alone ∧ Alone w (w.hostOf c) alone ∧
    ((machine w).run {} alone).obtained c = s.obtained c

def Isolated (w : World C H) (s : State C) : Prop := ∀ c, IsolatedObject w s c

/-! ## Hosts whose indices do not meet -/

/-- What is known of the machines tells these hosts apart. -/
structure Separated (w : World C H) (level : H → L) (among : H → Prop) : Prop where
  length : ∀ g h, among g → among h →
    (w.kind.machine (w.host g)).length = (w.kind.machine (w.host h)).length
  machineType : ∀ g h, among g → among h →
    w.kind.machine (w.host g) = w.kind.machine (w.host h) →
      (w.host g).machineType = (w.host h).machineType
  level : ∀ g h, among g → among h →
    w.kind.machine (w.host g) = w.kind.machine (w.host h) → level g = level h
  enabled : ∀ g h, among g → among h →
    (w.host g).ipmiCacheEnable = (w.host h).ipmiCacheEnable

omit [DecidableEq C] in
private theorem separated_single (w : World C H) (level : H → L) (h : H) :
    Separated w level (· = h) where
  length := by
    rintro g h' rfl rfl
    rfl
  machineType := by
    rintro g h' rfl rfl -
    rfl
  level := by
    rintro g h' rfl rfl -
    rfl
  enabled := by
    rintro g h' rfl rfl
    rfl

/-- What an object's host answers when it is asked for the versions. -/
def World.versions (w : World C H) (c : C) : Response :=
  w.answer (w.hostOf c) (w.query c versionCommand)

/-- An index under which an object of these hosts sends a command. -/
structure Placed (w : World C H) (among : H → Prop) (c : C) (i : Bytes) (q : Query) : Prop where
  among : among (w.hostOf c)
  enabled : w.kind.sends (w.host (w.hostOf c)).ipmiCacheEnable false = true
  index : ∃ tag, TagOf (w.versions c) tag ∧ i = w.kind.index (w.host (w.hostOf c)) tag q

/-- Only these hosts have sent commands, and the tags are their own. -/
structure Tidy (w : World C H) (among : H → Prop) (s : State C) : Prop where
  tags : ∀ c, TagOf (w.versions c) (s.tag c)
  entries : ∀ i entry, s.ipmiCache i = some entry → Placed w among entry.sender i entry.query
  waiting : ∀ c i q, s.waiting c = some (i, q) → Placed w among c i q

omit [DecidableEq C] in
theorem fresh_tidy (w : World C H) (among : H → Prop) : Tidy w among {} where
  tags _ := Or.inl rfl
  entries _ _ h := by simp at h
  waiting _ _ _ h := by simp at h

omit [DecidableEq C] in
/-- Hosts that answer alike name the same versions. -/
theorem AnswersAlike.versions {w : World C H} {level : H → L} (alike : AnswersAlike w level)
    {c d : C}
    (machineType : (w.host (w.hostOf c)).machineType = (w.host (w.hostOf d)).machineType)
    (sameLevel : level (w.hostOf c) = level (w.hostOf d)) : w.versions c = w.versions d := by
  rw [World.versions, alike.firmware _ _ machineType sameLevel]
  exact alike.occs _ _ _ ⟨rfl, rfl, rfl⟩

omit [DecidableEq C] in
/-- Among separated hosts every entry that an object finds is of use to it. -/
theorem Separated.fits {w : World C H} {level : H → L} {among : H → Prop}
    (separated : Separated w level among) (alike : AnswersAlike w level) {s : State C}
    (tidy : Tidy w among s) {c : C} (here : among (w.hostOf c)) {data : Bytes} {entry : Entry C}
    (hfound : found w s c data = some entry) : Fits w level c data entry := by
  obtain ⟨hamong, henabled, tag, htag, hindex⟩ := tidy.entries _ entry hfound
  obtain ⟨hmachine, hsame⟩ :=
    HostKind.index_determines (separated.length _ _ hamong here) hindex.symm
  have hmachineType := separated.machineType _ _ hamong here hmachine
  have hlevel := separated.level _ _ hamong here hmachine
  refine ⟨?_, ?_, hmachineType, hlevel⟩
  · rw [← separated.enabled _ _ hamong here]
    exact henabled
  · apply hsame (w.versions entry.sender) htag
    rw [alike.versions hmachineType hlevel]
    exact tidy.tags c

/-- A response of the object's own firmware leaves its tag among the two. -/
theorem obtain_tidy {w : World C H} {among : H → Prop} {s : State C} (tidy : Tidy w among s)
    (c : C) (data : Bytes) :
    Tidy w among (s.obtain c (w.query c data) (w.answer (w.hostOf c) (w.query c data))) := by
  refine ⟨?_, tidy.entries, ?_⟩
  · intro d
    by_cases hd : d = c
    · subst hd
      simp only [State.obtain, Function.update_self]
      split_ifs with hdata
      · have hversion : data = versionCommand := hdata
        subst hversion
        exact (tidy.tags d).initVersion
      · exact tidy.tags d
    · simp only [State.obtain, Function.update_of_ne hd]
      exact tidy.tags d
  · intro d i q hwaiting
    by_cases hd : d = c
    · subst hd
      rw [obtain_waiting] at hwaiting
      exact absurd hwaiting (by simp)
    · simp only [State.obtain, Function.update_of_ne hd] at hwaiting
      exact tidy.waiting d i q hwaiting

omit [DecidableEq C] in
/-- A step of an object of separated hosts meets the condition. -/
theorem Separated.condition {w : World C H} {level : H → L} {among : H → Prop}
    (separated : Separated w level among) (alike : AnswersAlike w level) {s : State C}
    (tidy : Tidy w among s) (event : Event C) (here : among (w.hostOf event.object)) :
    Condition w level s event := by
  cases event with
  | call c =>
      intro data entry _ hfound
      exact separated.fits alike tidy here hfound
  | response c => trivial

theorem Separated.call_tidy {w : World C H} {level : H → L} {among : H → Prop}
    (separated : Separated w level among) (alike : AnswersAlike w level) {s : State C}
    (h : Inv w s) (tidy : Tidy w among s) {c : C} (here : among (w.hostOf c)) (data : Bytes) :
    Tidy w among (ipmiSendSyncCache w c (w.query c data) s) := by
  by_cases hsent : w.kind.sends (w.host (w.hostOf c)).ipmiCacheEnable
      (s.ipmiCache (w.kind.index (w.host (w.hostOf c)) (s.tag c) (w.query c data))).isSome = true
  · rw [ipmiSendSyncCache_sent hsent]
    refine ⟨tidy.tags, tidy.entries, ?_⟩
    intro d i q hwaiting
    by_cases hd : d = c
    · subst hd
      simp only [Function.update_self, Option.some.injEq, Prod.mk.injEq] at hwaiting
      obtain ⟨rfl, rfl⟩ := hwaiting
      exact ⟨here, HostKind.sends_absent hsent, s.tag d, tidy.tags d, rfl⟩
    · simp only [Function.update_of_ne hd] at hwaiting
      exact tidy.waiting d i q hwaiting
  · cases hfound : s.ipmiCache (w.kind.index (w.host (w.hostOf c)) (s.tag c) (w.query c data)) with
    | none =>
        rw [hfound] at hsent
        rw [ipmiSendSyncCache_absent hfound hsent]
        exact tidy
    | some entry =>
        rw [hfound] at hsent
        have hfits := separated.fits alike tidy here hfound
        rw [ipmiSendSyncCache_found hfound hsent, hfits.response alike h hfound]
        exact obtain_tidy tidy c data

private theorem return_tidy {w : World C H} {among : H → Prop} {s : State C} (h : Inv w s)
    (tidy : Tidy w among s) {c : C} {index : Bytes} {q : Query}
    (waiting : s.waiting c = some (index, q)) :
    Tidy w among (ipmiSendSyncReturn w c index q s) := by
  obtain ⟨data, -, rfl⟩ := h.waiting c index q waiting
  obtain ⟨htag, -, hwaiting, hentries⟩ := kept_cases w c index (w.query c data) s
  have hkept : Tidy w among (kept w c index (w.query c data) s) := by
    refine ⟨?_, ?_, ?_⟩
    · rw [htag]
      exact tidy.tags
    · intro i entry hentry
      obtain hold | ⟨rfl, rfl⟩ := hentries i entry hentry
      · exact tidy.entries i entry hold
      · exact tidy.waiting c i _ waiting
    · rw [hwaiting]
      exact tidy.waiting
  rw [ipmiSendSyncReturn_eq]
  exact obtain_tidy hkept c data

theorem Separated.step_tidy {w : World C H} {level : H → L} {among : H → Prop}
    (separated : Separated w level among) (alike : AnswersAlike w level) {s : State C}
    (h : Inv w s) (tidy : Tidy w among s) (event : Event C)
    (here : among (w.hostOf event.object)) : Tidy w among (step w s event) := by
  cases event with
  | call c =>
      rw [step]
      cases hasked : w.script c (s.obtained c) with
      | none => exact tidy
      | some data => exact separated.call_tidy alike h tidy here data
  | response c =>
      rw [step]
      cases hwaiting : s.waiting c with
      | none => exact tidy
      | some pending => exact return_tidy h tidy hwaiting

/-- Both invariants hold as long as only objects of separated hosts take turns. -/
theorem Separated.run {w : World C H} {level : H → L} {among : H → Prop}
    (separated : Separated w level among) (alike : AnswersAlike w level) {s : State C}
    (h : Inv w s) (tidy : Tidy w among s) (events : List (Event C))
    (here : ∀ e ∈ events, among (w.hostOf e.object)) :
    Inv w ((machine w).run s events) ∧ Tidy w among ((machine w).run s events) := by
  induction events generalizing s with
  | nil => exact ⟨h, tidy⟩
  | cons e events ih =>
      have hhere := here e (List.mem_cons_self ..)
      have hcondition := separated.condition alike tidy e hhere
      rw [Machine.run_cons]
      exact ih (step_inv alike s e h hcondition) (separated.step_tidy alike h tidy e hhere)
        fun e' he' => here e' (List.mem_cons_of_mem _ he')

/-! ## A host alone -/

omit [DecidableEq C] in
private theorem alone_nil {w : World C H} {h : H} : Alone w h [] := List.forall_mem_nil _

omit [DecidableEq C] in
private theorem alone_cons {w : World C H} {h : H} {e : Event C} {events : List (Event C)} :
    Alone w h (e :: events) ↔ w.hostOf e.object = h ∧ Alone w h events := List.forall_mem_cons

private theorem alone_run {w : World C H} {level : H → L} (alike : AnswersAlike w level) {h : H}
    {alone : List (Event C)} (turns : Alone w h alone) :
    Inv w ((machine w).run {} alone) ∧ Tidy w (· = h) ((machine w).run {} alone) :=
  (separated_single w level h).run alike (fresh_inv w) (fresh_tidy w _) alone turns

/-- An object that does not wait can obtain its next response by its own turns. -/
theorem turn {w : World C H} {level : H → L} (alike : AnswersAlike w level) {s : State C}
    (h : Inv w s) {c : C} (tidy : Tidy w (· = w.hostOf c) s) (idle : s.waiting c = none)
    {data : Bytes} (asked : w.script c (s.obtained c) = some data)
    (enabled : w.kind.sends (w.host (w.hostOf c)).ipmiCacheEnable false = true) :
    ∃ events, (machine w).Admits s events ∧ Alone w (w.hostOf c) events ∧
      ((machine w).run s events).waiting c = none ∧
      ((machine w).run s events).obtained c =
        s.obtained c ++ [w.answer (w.hostOf c) (w.query c data)] := by
  have hcall : step w s (.call c) = ipmiSendSyncCache w c (w.query c data) s := by
    rw [step, asked]
  have hadmissible : admissible w s (.call c) := ⟨idle, by rw [asked]; rfl⟩
  by_cases hsent : w.kind.sends (w.host (w.hostOf c)).ipmiCacheEnable
      (s.ipmiCache (w.kind.index (w.host (w.hostOf c)) (s.tag c) (w.query c data))).isSome = true
  · rw [ipmiSendSyncCache_sent hsent] at hcall
    have hwaiting : (step w s (.call c)).waiting c =
        some (w.kind.index (w.host (w.hostOf c)) (s.tag c) (w.query c data), w.query c data) := by
      rw [hcall]
      exact Function.update_self _ _ _
    have hreturn : step w (step w s (.call c)) (.response c) =
        ipmiSendSyncReturn w c (w.kind.index (w.host (w.hostOf c)) (s.tag c) (w.query c data))
          (w.query c data) (step w s (.call c)) := by
      rw [step.eq_2, hwaiting]
    obtain ⟨-, hobtained, -, -⟩ := kept_cases w c
      (w.kind.index (w.host (w.hostOf c)) (s.tag c) (w.query c data)) (w.query c data)
      (step w s (.call c))
    refine ⟨[.call c, .response c], ⟨hadmissible, ?_, trivial⟩, ?_, ?_, ?_⟩
    · show ((step w s (.call c)).waiting c).isSome = true
      rw [hwaiting]
      rfl
    · exact alone_cons.2 ⟨rfl, alone_cons.2 ⟨rfl, alone_nil⟩⟩
    · show (step w (step w s (.call c)) (.response c)).waiting c = none
      rw [hreturn, ipmiSendSyncReturn_eq, obtain_waiting]
    · show (step w (step w s (.call c)) (.response c)).obtained c = _
      rw [hreturn, ipmiSendSyncReturn_eq, obtain_obtained, hobtained, hcall]
  · cases hfound : s.ipmiCache (w.kind.index (w.host (w.hostOf c)) (s.tag c) (w.query c data)) with
    | none =>
        rw [hfound] at hsent
        exact absurd enabled hsent
    | some entry =>
        rw [hfound] at hsent
        have hfits := (separated_single w level (w.hostOf c)).fits alike tidy rfl hfound
        rw [ipmiSendSyncCache_found hfound hsent, hfits.response alike h hfound] at hcall
        refine ⟨[.call c], ⟨hadmissible, trivial⟩, ?_, ?_, ?_⟩
        · exact alone_cons.2 ⟨rfl, alone_nil⟩
        · show (step w s (.call c)).waiting c = none
          rw [hcall, obtain_waiting]
        · show (step w s (.call c)).obtained c = _
          rw [hcall, obtain_obtained]

/-- By its own turns an object obtains all that its firmware answers. -/
theorem alone_reaches {w : World C H} {level : H → L} (alike : AnswersAlike w level) {c : C}
    (enabled : w.kind.sends (w.host (w.hostOf c)).ipmiCacheEnable false = true) (n : ℕ) :
    ∃ alone, (machine w).Admits {} alone ∧ Alone w (w.hostOf c) alone ∧
      ((machine w).run {} alone).waiting c = none ∧
      ((machine w).run {} alone).obtained c = own w c n := by
  induction n with
  | zero => exact ⟨[], trivial, alone_nil, rfl, rfl⟩
  | succ n ih =>
      obtain ⟨alone, hadmits, halone, hidle, hobtained⟩ := ih
      cases hasked : w.script c (own w c n) with
      | none =>
          refine ⟨alone, hadmits, halone, hidle, ?_⟩
          rw [hobtained, own, hasked]
      | some data =>
          obtain ⟨hinv, htidy⟩ := alone_run alike halone
          obtain ⟨events, hadmits', halone', hidle', hobtained'⟩ :=
            turn alike hinv htidy hidle (by rw [hobtained]; exact hasked) enabled
          refine ⟨alone ++ events, ?_, ?_, ?_, ?_⟩
          · exact (machine w).eachStep_append.2 ⟨hadmits, hadmits'⟩
          · exact List.forall_mem_append.2 ⟨halone, halone'⟩
          · rw [Machine.run_append]
            exact hidle'
          · rw [Machine.run_append, hobtained', hobtained, own, hasked]

/-- If all responses are the objects' own, each object is isolated. -/
theorem Inv.isolated {w : World C H} {level : H → L} (alike : AnswersAlike w level) {s : State C}
    (h : Inv w s) : Isolated w s := by
  intro c
  refine ⟨?_, ?_⟩
  · intro alone _ halone
    obtain ⟨hinv, -⟩ := alone_run alike halone
    rw [h.own c, hinv.own c]
    exact own_comparable w c _ _
  · by_cases hempty : s.obtained c = []
    · refine ⟨[], trivial, alone_nil, ?_⟩
      rw [hempty]
      rfl
    · obtain ⟨alone, hadmits, halone, -, hobtained⟩ :=
        alone_reaches alike (h.enabled c (Or.inl hempty)) (s.obtained c).length
      refine ⟨alone, hadmits, halone, ?_⟩
      rw [hobtained, ← h.own c]

/-! ## All hosts together -/

/-- Hosts that are told apart by what is known of their machines are isolated, in every
order in which their objects take turns. -/
theorem Separated.isolated {w : World C H} {level : H → L} {among : H → Prop}
    (separated : Separated w level among) (alike : AnswersAlike w level)
    (events : List (Event C)) (here : ∀ e ∈ events, among (w.hostOf e.object)) :
    Isolated w ((machine w).run {} events) :=
  (separated.run alike (fresh_inv w) (fresh_tidy w among) events here).1.isolated alike

/-- While every entry that is found is of use to the object that finds it, each object
obtains what it would obtain if its host were the only one. -/
theorem cache_isolated {w : World C H} {level : H → L} (alike : AnswersAlike w level)
    (events : List (Event C)) (admits : (machine w).Admits {} events)
    (condition : (machine w).EachStep (Condition w level) {} events) :
    (machine w).Always (Isolated w) {} events :=
  ((machine w).always_of_invariant
    (fun s e h _ hcondition => step_inv alike s e h hcondition)
    (fresh_inv w) admits condition).mono fun _ h => h.isolated alike

/-- Two hosts, at `::1` and `::2`, with one AME object each, which asks for the versions
and then for the parameter table. -/
def twoHosts (kind : HostKind) (machineType : Bool → Bytes) (level : Bool → UInt8) :
    World Bool Bool where
  kind := kind
  host h := { machineType := machineType h, addr := bif h then [58, 58, 50] else [58, 58, 49] }
  answer h q :=
    if q.data = versionCommand then (0, [1, 0, 2, level h, 7, 220, 6, 1, 0, 5, 3])
    else (0, level h :: machineType h)
  hostOf c := c
  rssa _ := ⟨2, 0⟩
  lun _ := ⟨0, 0⟩
  script _
    | [] => some versionCommand
    | [_] => some [0x40]
    | _ => none

theorem twoHosts_alike (kind : HostKind) (machineType : Bool → Bytes) (level : Bool → UInt8) :
    AnswersAlike (twoHosts kind machineType level) level where
  firmware g h hmachineType hlevel q := by
    have htype : machineType g = machineType h := hmachineType
    simp only [twoHosts, htype, hlevel]
  occs h q q' same := by
    simp only [twoHosts, same.2.2]

theorem cache_isolated_sample :
    (machine (twoHosts .netc (fun _ => [56, 50, 56, 54]) fun _ => 28)).Always
      (Isolated (twoHosts .netc (fun _ => [56, 50, 56, 54]) fun _ => 28)) {}
      [.call false, .response false, .call true, .call true, .response true, .call false] :=
  cache_isolated (twoHosts_alike _ _ _) _ (by decide +kernel) (by decide +kernel)

/-- Two levels of firmware on machines of one type, 8286. -/
def twoLevels (h : Bool) : UInt8 := bif h then 29 else 28

def twoLevelHosts : World Bool Bool := twoHosts .netc (fun _ => [56, 50, 56, 54]) twoLevels

/-- Two types of machines, 8335 and 9006, with firmware of one level. -/
def twoTypes (h : Bool) : Bytes := bif h then [57, 48, 48, 54] else [56, 51, 51, 53]

def twoTypeHosts : World Bool Bool := twoHosts .openbmc twoTypes fun _ => 28

/-- Hosts that answer alike share too much: at another level of firmware the second host
gets the versions of the first, and where the machine type is not known it gets the
parameter table of the first. -/
theorem cache_shares_too_much :
    (AnswersAlike twoLevelHosts twoLevels ∧
      ¬∀ events, (machine twoLevelHosts).Admits {} events →
        Isolated twoLevelHosts ((machine twoLevelHosts).run {} events)) ∧
    AnswersAlike twoTypeHosts (fun _ => (28 : UInt8)) ∧
      ¬∀ events, (machine twoTypeHosts).Admits {} events →
        Isolated twoTypeHosts ((machine twoTypeHosts).run {} events) := by
  refine ⟨⟨twoHosts_alike _ _ _, ?_⟩, twoHosts_alike _ _ _, ?_⟩
  · intro isolated
    have hagrees := (isolated [.call false, .response false, .call true] (by decide +kernel)
      true).agrees [.call true, .response true] (by decide +kernel) (by decide +kernel)
    exact absurd hagrees (by decide +kernel)
  · intro isolated
    have hagrees := (isolated [.call false, .response false, .call false, .response false,
      .call true, .call true] (by decide +kernel) true).agrees
      [.call true, .response true, .call true, .response true] (by decide +kernel)
      (by decide +kernel)
    exact absurd hagrees (by decide +kernel)

end Amester.Cache
