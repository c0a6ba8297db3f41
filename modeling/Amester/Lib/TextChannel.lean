/-
# Text channels that do not block

What the other side writes arrives in pieces, and at some time its end. A line is read from
what has come: a whole line if there is one, and at the end what is left. Without either the
read finds nothing and leaves everything in the channel. The end is noticed only by a read that
gets there, so behind a last newline it takes another read, which finds nothing.

The end of a line is a newline, a carriage return or both in this order, and is read as a
newline. A channel remembers a carriage return, since the newline that belongs to it may come
in the next piece.
-/

import Mathlib.Data.List.ReduceOption
import Amester.Lib.EventMachine
import Amester.Lib.Lines

namespace TextChannel

open EventMachine Lines

/-! ## Channels -/

abbrev Text := List Char

/-- The text with its line ends read as newlines. The flag says whether a carriage return came
last. -/
def auto : Bool → Text → Text
  | _, [] => []
  | cr, c :: text =>
    if c = '\r' then '\n' :: auto true text
    else if c = '\n' ∧ cr = true then auto false text
    else c :: auto false text

/-- Whether a carriage return comes last behind the text. -/
def endsCr (cr : Bool) (text : Text) : Bool :=
  match text.getLast? with
  | none => cr
  | some c => c = '\r'

theorem endsCr_cons (cr : Bool) (c : Char) (text : Text) :
    endsCr cr (c :: text) = endsCr (c = '\r') text := by
  cases text with
  | nil => rfl
  | cons d text => rfl

/-- Pieces are translated one after the other. -/
theorem auto_append (cr : Bool) (first second : Text) :
    auto cr (first ++ second) = auto cr first ++ auto (endsCr cr first) second := by
  induction first generalizing cr with
  | nil => rfl
  | cons c first ih =>
      rw [List.cons_append, auto, auto, endsCr_cons]
      by_cases hcr : c = '\r'
      · rw [if_pos hcr, if_pos hcr, ih, List.cons_append, decide_eq_true hcr]
      · rw [if_neg hcr, if_neg hcr, decide_eq_false hcr]
        split
        · exact ih false
        · rw [ih, List.cons_append]

/-- Nothing stands behind the last line end of a translated text exactly if it is empty or
ends in a line end. -/
theorem closed_auto_iff (text : Text) :
    Closed '\n' (auto false text) ↔ ∀ c ∈ text.getLast?, c = '\n' ∨ c = '\r' := by
  obtain rfl | ⟨front, c, rfl⟩ := List.eq_nil_or_concat text
  · simp [Closed, auto]
  · rw [List.concat_eq_append, auto_append, List.getLast?_concat]
    by_cases hcr : c = '\r'
    · simp [Closed, auto, hcr]
    · by_cases hnl : c = '\n'
      · subst hnl
        cases hends : endsCr false front with
        | false => simp [Closed, auto]
        | true =>
            -- the newline belongs to the carriage return before it
            have hlast : front.getLast? = some '\r' := by
              unfold endsCr at hends
              split at hends
              · exact absurd hends Bool.false_ne_true
              · rename_i c hc
                rw [hc, of_decide_eq_true hends]
            obtain ⟨before, rfl⟩ := List.getLast?_eq_some_iff.mp hlast
            simp [Closed, auto_append, auto]
      · simp [Closed, auto, hcr, hnl]

/-- A channel as the reader has it. -/
structure Channel where
  /-- What has come and has not been read. -/
  unread : Text := []
  /-- A carriage return came last. -/
  cr : Bool := false
  /-- The end has come. -/
  ended : Bool := false
  /-- The last read got to the end. -/
  eof : Bool := false
  deriving DecidableEq

inductive Event
  | arrives (piece : Text)
  | ends
  /-- The reader is told that it can read. -/
  | readable
  deriving DecidableEq

namespace Channel

variable (c : Channel)

/-- Read a line; none is found if no whole line has come, and at the end if nothing is left. -/
def gets : Option Text × Channel :=
  match cut '\n' c.unread with
  | some (line, rest) => (some line, { c with unread := rest, eof := false })
  | none =>
    if c.ended then
      (if c.unread = [] then none else some c.unread, { c with unread := [], eof := true })
    else (none, { c with eof := false })

/-- The channel is closed by the reader when it is told so after the end was noticed. -/
def step : Event → Channel
  | .arrives piece =>
    { c with unread := c.unread ++ auto c.cr piece, cr := endsCr c.cr piece }
  | .ends => { c with ended := true }
  | .readable => if c.eof then c else c.gets.2

/-- What is read. -/
def result : Event → Option (Option Text)
  | .arrives _ | .ends => none
  | .readable => if c.eof then none else some c.gets.1

/-- Nothing comes behind the end. -/
def admissible : Event → Prop
  | .arrives _ | .ends => c.ended = false
  | .readable => True

instance : DecidablePred c.admissible
  | .arrives _ | .ends => inferInstanceAs (Decidable (c.ended = false))
  | .readable => isTrue trivial

/-- A read comes when a whole line or the end is there. -/
def Timely : Event → Prop
  | .arrives _ | .ends => True
  | .readable => c.eof = true ∨ c.ended = true ∨ '\n' ∈ c.unread

instance : DecidablePred c.Timely
  | .arrives _ | .ends => isTrue trivial
  | .readable => inferInstanceAs (Decidable (c.eof = true ∨ c.ended = true ∨ '\n' ∈ c.unread))

end Channel

def machine : Machine Channel Event := ⟨Channel.admissible, Channel.step⟩

/-- What the reads of a run find. -/
def results : Channel → List Event → List (Option Text)
  | _, [] => []
  | c, event :: events => (c.result event).toList ++ results (c.step event) events

/-- What arrives in a run. -/
def written : List Event → Text
  | [] => []
  | .arrives piece :: events => piece ++ written events
  | .ends :: events | .readable :: events => written events

/-- What is still to be read: what has come, and what is to arrive. -/
def Channel.remaining (c : Channel) (events : List Event) : Text :=
  c.unread ++ auto c.cr (written events)

/-! ## Runs to the end -/

theorem gets_line {c : Channel} {line rest : Text} (unread : c.unread = line ++ '\n' :: rest)
    (absent : '\n' ∉ line) : c.gets = (some line, { c with unread := rest, eof := false }) := by
  obtain ⟨⟨line', rest'⟩, hcut⟩ : ∃ parts, cut '\n' c.unread = some parts := by
    refine Option.ne_none_iff_exists'.mp fun hnone => cut_eq_none_iff.mp hnone ?_
    rw [unread]
    exact List.mem_append_right _ List.mem_cons_self
  obtain ⟨hparts, habsent⟩ := cut_eq_some hcut
  have hlines := lines_append_sep absent rest
  have hagain := lines_append_sep habsent rest'
  obtain ⟨rfl, rfl⟩ : line = line' ∧ rest = rest' := by
    rw [← hparts, unread, hlines, List.cons.injEq] at hagain
    obtain ⟨rfl, -⟩ := hagain
    rw [unread, List.append_cancel_left_eq, List.cons.injEq] at hparts
    exact ⟨rfl, hparts.2⟩
  rw [Channel.gets, hcut]

/-- At the end what is left is read, if something is. -/
theorem gets_last {c : Channel} (absent : '\n' ∉ c.unread) (ended : c.ended = true) :
    c.gets =
      (if c.unread = [] then none else some c.unread, { c with unread := [], eof := true }) := by
  rw [Channel.gets, cut_eq_none_iff.mpr absent]
  simp only [ended, if_true]

theorem gets_nothing {c : Channel} (absent : '\n' ∉ c.unread) (ended : c.ended = false)
    (reading : c.eof = false) : c.gets = (none, c) := by
  obtain ⟨unread, cr, isEnded, eof⟩ := c
  simp only at ended reading absent
  subst ended reading
  rw [Channel.gets, cut_eq_none_iff.mpr absent]
  rfl

theorem step_readable {c : Channel} (reading : c.eof = false) :
    machine.step c .readable = c.gets.2 := by
  show (if c.eof then c else c.gets.2) = _
  rw [if_neg (by simp [reading])]

/-- After the end has been noticed nothing comes and nothing is read. -/
theorem finished {c : Channel} {events : List Event} (admits : machine.Admits c events)
    (ended : c.ended = true) (noticed : c.eof = true) :
    written events = [] ∧ results c events = [] ∧ machine.EachStep Channel.Timely c events := by
  induction events with
  | nil => exact ⟨rfl, rfl, trivial⟩
  | cons event events ih =>
      obtain ⟨hadmits, hrest⟩ := admits
      cases event with
      | arrives piece => exact absurd (hadmits.symm.trans ended) Bool.false_ne_true
      | ends => exact absurd (hadmits.symm.trans ended) Bool.false_ne_true
      | readable =>
          have hstep : c.step .readable = c := by rw [Channel.step, if_pos noticed]
          have hsame : machine.step c .readable = c := hstep
          rw [hsame] at hrest
          obtain ⟨hwritten, hresults, htimely⟩ := ih hrest
          refine ⟨hwritten, ?_, Or.inl noticed, ?_⟩
          · rw [results, Channel.result, if_pos noticed, hstep, hresults]
            rfl
          · rw [hsame]
            exact htimely

/-- Induction over the runs that get to the end: a piece or the end arrives, a line is read,
the last one is read or found missing, or nothing is found before the end has come. -/
theorem reading_induction {P : Channel → List Event → Prop}
    (arrives : ∀ c piece events, P (c.step (.arrives piece)) events →
      P c (.arrives piece :: events))
    (ends : ∀ c events, P (c.step .ends) events → P c (.ends :: events))
    (line : ∀ (c : Channel) line rest events, c.eof = false →
      c.unread = line ++ '\n' :: rest → '\n' ∉ line →
        P { c with unread := rest, eof := false } events → P c (.readable :: events))
    (last : ∀ (c : Channel) events, c.eof = false → c.ended = true → '\n' ∉ c.unread →
      written events = [] → results { c with unread := [], eof := true } events = [] →
        machine.EachStep Channel.Timely { c with unread := [], eof := true } events →
          P c (.readable :: events))
    (nothing : ∀ (c : Channel) events, c.eof = false → c.ended = false → '\n' ∉ c.unread →
      P c events → P c (.readable :: events))
    {c : Channel} {events : List Event} (admits : machine.Admits c events)
    (reading : c.eof = false) (noticed : (machine.run c events).eof = true) : P c events := by
  induction events generalizing c with
  | nil => exact absurd (reading.symm.trans noticed) Bool.false_ne_true
  | cons event events ih =>
      obtain ⟨-, hrest⟩ := admits
      rw [Machine.run_cons] at noticed
      cases event with
      | arrives piece => exact arrives c piece events (ih hrest reading noticed)
      | ends => exact ends c events (ih hrest reading noticed)
      | readable =>
          rw [step_readable reading] at hrest noticed
          by_cases habsent : '\n' ∈ c.unread
          · obtain ⟨⟨front, rest⟩, hcut⟩ := Option.ne_none_iff_exists'.mp
              fun hnone => cut_eq_none_iff.mp hnone habsent
            obtain ⟨hunread, hfront⟩ := cut_eq_some hcut
            rw [gets_line hunread hfront] at hrest noticed
            exact line c front rest events reading hunread hfront (ih hrest rfl noticed)
          · cases hended : c.ended with
            | false =>
                rw [gets_nothing habsent hended reading] at hrest noticed
                exact nothing c events reading hended habsent (ih hrest reading noticed)
            | true =>
                rw [gets_last habsent hended] at hrest
                obtain ⟨hwritten, hresults, htimely⟩ := finished hrest hended rfl
                exact last c events reading hended habsent hwritten hresults htimely

/-! ## What the reads find -/

theorem remaining_arrives (c : Channel) (piece : Text) (events : List Event) :
    c.remaining (.arrives piece :: events) = (c.step (.arrives piece)).remaining events := by
  simp only [Channel.remaining, written, Channel.step, auto_append, List.append_assoc]

theorem results_readable {c : Channel} (reading : c.eof = false) (events : List Event) :
    results c (.readable :: events) = c.gets.1 :: results c.gets.2 events := by
  have hnot : ¬ c.eof = true := by simp [reading]
  rw [results, Channel.result, Channel.step, if_neg hnot, if_neg hnot]
  rfl

theorem remaining_line {c : Channel} {line rest : Text} (unread : c.unread = line ++ '\n' :: rest)
    (events : List Event) :
    c.remaining (.readable :: events) =
      line ++ '\n' :: Channel.remaining { c with unread := rest, eof := false } events := by
  simp only [Channel.remaining, written, unread, List.append_assoc, List.cons_append]

theorem remaining_last {c : Channel} {events : List Event} (nothing : written events = []) :
    c.remaining (.readable :: events) = c.unread := by
  rw [Channel.remaining, written, nothing]
  exact List.append_nil _

section

variable {c : Channel} {events : List Event}

/-- The lines that are found are those of the text, in order. -/
theorem reduceOption_results (admits : machine.Admits c events) (reading : c.eof = false)
    (noticed : (machine.run c events).eof = true) :
    (results c events).reduceOption = lines '\n' (c.remaining events) := by
  refine reading_induction
    (P := fun c events => (results c events).reduceOption = lines '\n' (c.remaining events))
    ?_ ?_ ?_ ?_ ?_ admits reading noticed
  · intro c piece events ih
    rw [remaining_arrives]
    exact ih
  · intro c events ih
    exact ih
  · intro c line rest events hreading hunread habsent ih
    rw [results_readable hreading, gets_line hunread habsent, remaining_line hunread,
      lines_append_sep habsent, List.reduceOption_cons_of_some, ih]
  · intro c events hreading hended habsent hover hnone _
    rw [results_readable hreading, gets_last habsent hended, hnone, remaining_last hover]
    by_cases hempty : c.unread = []
    · rw [if_pos hempty, hempty]
      rfl
    · rw [if_neg hempty, lines_of_not_mem habsent hempty]
      rfl
  · intro c events hreading hended habsent ih
    rw [results_readable hreading, gets_nothing habsent hended hreading]
    exact ih

/-- What is found has no newline in it. -/
theorem newline_not_mem_results (admits : machine.Admits c events) (reading : c.eof = false)
    (noticed : (machine.run c events).eof = true) :
    ∀ r ∈ results c events, '\n' ∉ r.getD [] := by
  refine reading_induction
    (P := fun c events => ∀ r ∈ results c events, '\n' ∉ r.getD [])
    ?_ ?_ ?_ ?_ ?_ admits reading noticed
  · exact fun c piece events ih => ih
  · exact fun c events ih => ih
  · intro c line rest events hreading hunread habsent ih
    rw [results_readable hreading, gets_line hunread habsent, List.forall_mem_cons]
    exact ⟨habsent, ih⟩
  · intro c events hreading hended habsent hover hnone _
    rw [results_readable hreading, gets_last habsent hended, hnone, List.forall_mem_singleton]
    split
    · exact List.not_mem_nil
    · exact habsent
  · intro c events hreading hended habsent ih
    rw [results_readable hreading, gets_nothing habsent hended hreading, List.forall_mem_cons]
    exact ⟨List.not_mem_nil, ih⟩

/-- Some read finds nothing exactly if nothing stands behind the last newline, or a read comes
before a whole line or the end is there. -/
theorem none_mem_results_iff (admits : machine.Admits c events) (reading : c.eof = false)
    (noticed : (machine.run c events).eof = true) :
    none ∈ results c events ↔
      Closed '\n' (c.remaining events) ∨ ¬ machine.EachStep Channel.Timely c events := by
  refine reading_induction
    (P := fun c events => none ∈ results c events ↔
      Closed '\n' (c.remaining events) ∨ ¬ machine.EachStep Channel.Timely c events)
    ?_ ?_ ?_ ?_ ?_ admits reading noticed
  · intro c piece events ih
    have htimely : c.Timely (.arrives piece) := trivial
    rw [remaining_arrives, Machine.eachStep_cons]
    simp only [htimely, true_and]
    exact ih
  · intro c events ih
    have htimely : c.Timely .ends := trivial
    rw [Machine.eachStep_cons]
    simp only [htimely, true_and]
    exact ih
  · intro c line rest events hreading hunread habsent ih
    have htimely : c.Timely .readable := by
      refine Or.inr (Or.inr ?_)
      rw [hunread]
      exact List.mem_append_right _ List.mem_cons_self
    rw [results_readable hreading, gets_line hunread habsent, remaining_line hunread,
      closed_append_sep, Machine.eachStep_cons, step_readable hreading,
      gets_line hunread habsent, List.mem_cons]
    simp only [reduceCtorEq, false_or, htimely, true_and]
    exact ih
  · intro c events hreading hended habsent hover hnone hrest
    have htimely : c.Timely .readable := Or.inr (Or.inl hended)
    rw [results_readable hreading, gets_last habsent hended, hnone, remaining_last hover,
      closed_of_not_mem habsent, Machine.eachStep_cons, step_readable hreading,
      gets_last habsent hended, List.mem_singleton]
    simp only [htimely, hrest, true_and, not_true_eq_false, or_false]
    by_cases hempty : c.unread = []
    · simp [hempty]
    · simp [hempty]
  · intro c events hreading hended habsent ih
    have huntimely : ¬ c.Timely .readable := by
      simp [Channel.Timely, hreading, hended, habsent]
    rw [results_readable hreading, gets_nothing habsent hended hreading, Machine.eachStep_cons]
    simp only [List.mem_cons_self, huntimely, false_and, not_false_eq_true, or_true]

theorem map_getD_eq_reduceOption {found : List (Option Text)} (all : none ∉ found) :
    found.map (fun r => r.getD []) = found.reduceOption := by
  induction found with
  | nil => rfl
  | cons r found ih =>
      rw [List.mem_cons, not_or] at all
      cases r with
      | none => exact absurd rfl all.1
      | some line =>
          rw [List.map_cons, List.reduceOption_cons_of_some, ih all.2]
          rfl

/-- The reads find the lines of the text and nothing else exactly if something stands behind the
last newline and every read comes when a whole line or the end is there. -/
theorem results_exact_iff (admits : machine.Admits c events) (reading : c.eof = false)
    (noticed : (machine.run c events).eof = true) :
    (results c events).map (fun r => r.getD []) = lines '\n' (c.remaining events) ↔
      ¬ Closed '\n' (c.remaining events) ∧ machine.EachStep Channel.Timely c events := by
  have hnone := none_mem_results_iff admits reading noticed
  have hlines := reduceOption_results admits reading noticed
  have hfound : none ∉ results c events ↔
      ¬ Closed '\n' (c.remaining events) ∧ machine.EachStep Channel.Timely c events := by
    rw [hnone, not_or, not_not]
  rw [← hfound, ← hlines]
  constructor
  · intro hsame hmem
    have hlength := congrArg List.length hsame
    rw [List.length_map, eq_comm, List.reduceOption_length_eq_iff] at hlength
    exact absurd (hlength none hmem) Bool.false_ne_true
  · exact map_getD_eq_reduceOption

end

end TextChannel
