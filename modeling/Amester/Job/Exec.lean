/-
# The output of a job_exec

A `job_exec` runs a program and reads what it prints line by line, from a channel that does not
block: `process_line` is called whenever the channel can be read. It asks for the end of the
channel and then reads, and takes what it has read for a line also if the read has found
nothing. The output gets an empty line for every such read, and so do the line callbacks.

One read finds nothing if the text ends in a newline, because the end is noticed only behind
it. A read also finds nothing while a part of a line has come and its end has not. Other texts
and deliveries have their lines captured.

The callbacks are names of single commands: a callback of several words is quoted as one word
when it is added, and there is no command of this name. A line callback returns before the next
event, and its errors are caught. The channel does not raise when it is read, and closing it does
not report how the program ended.
-/

import Amester.Ipmi.Request
import Amester.Job.Queue
import Amester.Lib.TextChannel

namespace Amester.JobExec

open EventMachine Lines TextChannel

universe u

/-! ## The job -/

/-- What the job does to the outside. -/
inductive Effect (κ : Type u)
  /-- A line callback is called with a line. -/
  | passed (call : κ) (line : Text)
  | isdone (call : κ)
  deriving DecidableEq

/-- The line callback and its line, if the effect is that. -/
def Effect.passed? {κ : Type u} : Effect κ → Option (κ × Text)
  | .passed call line => some (call, line)
  | .isdone _ => none

structure State (κ : Type u) where
  name : String := "j1"
  command : String := ""
  status : Job.Status := .initialized
  isdoneCallback : List κ := []
  output : Text := []
  lineCallback : List κ := []
  /-- The channel of the program's output. -/
  fd : Channel := {}
  jobwait : Bool := false
  effects : List (Effect κ) := []

variable {κ : Type u}

/-- The calls of line callbacks, in order. -/
def State.passed (s : State κ) : List (κ × Text) := s.effects.filterMap Effect.passed?

/-- `job::run`. -/
def jobRun (s : State κ) : Outcome (State κ) :=
  match s.status with
  | .running => .raise s (s.name ++ " is already running")
  | .done => .raise s (s.name ++ " is already done")
  | .initialized => .ok { s with status := .running }

/-- Start the program. With `-sync` the event loop is run from here until `jobwait` is set. -/
def run (openError : Option String) (s : State κ) : Outcome (State κ) :=
  (jobRun s).andThen fun s =>
    match openError with
    | none => .ok { s with fd := {} }
    | some result =>
      .raise s (s.name ++ " died with error result=" ++ result ++ " \nwhile running command=" ++
        s.command)

/-- `job::done`. -/
def done (s : State κ) : Outcome (State κ) :=
  if s.status = .done then .raise s (s.name ++ " has already finished")
  else .ok { s with status := .done, effects := s.effects ++ s.isdoneCallback.map .isdone }

/-- Append a line to the output and pass it to the line callbacks. -/
def State.takeLine (line : Text) (s : State κ) : State κ :=
  { s with
    output := s.output ++ (line ++ ['\n'])
    effects := s.effects ++ s.lineCallback.map fun call => .passed call line }

/-- Read a line, unless the last read got to the end. A read that finds nothing leaves the
variable of the line empty. -/
def processLine (s : State κ) : Outcome (State κ) :=
  if s.fd.eof then (done s).andThen fun s => .ok { s with jobwait := true }
  else .ok ({ s with fd := s.fd.gets.2 }.takeLine (s.fd.gets.1.getD []))

/-! ## Runs -/

def State.step (s : State κ) : Event → State κ
  | .arrives piece => { s with fd := s.fd.step (.arrives piece) }
  | .ends => { s with fd := s.fd.step .ends }
  | .readable => (processLine s).state

/-- The channel is not read any more when the job is done. -/
def State.admissible (s : State κ) (event : Event) : Prop :=
  s.fd.admissible event ∧ (event = .readable → s.status = .running)

instance (s : State κ) : DecidablePred s.admissible := fun event =>
  inferInstanceAs (Decidable (s.fd.admissible event ∧ (event = .readable → s.status = .running)))

/-- The job and the program it runs. -/
def machine (κ : Type u) : Machine (State κ) Event := ⟨State.admissible, State.step⟩

instance (s : State κ) : DecidablePred ((machine κ).admissible s) :=
  inferInstanceAs (DecidablePred s.admissible)

/-- The lines of a text, whose ends may be newlines, carriage returns or both. -/
def textLines (text : Text) : List Text := lines '\n' (auto false text)

/-- The output is the lines of the text with a newline behind each, and every line callback has
had each line once, in order. -/
structure Captured (s : State κ) (text : Text) : Prop where
  output : s.output = unlines '\n' (textLines text)
  passed : s.passed =
    (textLines text).flatMap fun line => s.lineCallback.map fun call => (call, line)

instance [DecidableEq κ] (s : State κ) (text : Text) : Decidable (Captured s text) :=
  decidable_of_iff
    (s.output = unlines '\n' (textLines text) ∧
      s.passed = (textLines text).flatMap fun line => s.lineCallback.map fun call => (call, line))
    ⟨fun h => ⟨h.1, h.2⟩, fun h => ⟨h.output, h.passed⟩⟩

/-- The text is not empty and does not end with the end of a line. -/
def Unterminated (text : Text) : Prop := ∃ c ∈ text.getLast?, c ≠ '\n' ∧ c ≠ '\r'

/-- A read comes when a whole line or the end is there. -/
def Timely (s : State κ) (event : Event) : Prop := s.fd.Timely event

instance (s : State κ) : DecidablePred (Timely s) :=
  inferInstanceAs (DecidablePred s.fd.Timely)

/-- A job as it is created, with its callbacks. -/
structure State.Fresh (s : State κ) : Prop where
  status : s.status = .initialized
  output : s.output = []
  effects : s.effects = []

/-- A job whose program has been started and has printed nothing. -/
structure State.Started (s : State κ) : Prop where
  status : s.status = .running
  fd : s.fd = {}
  output : s.output = []
  passed : s.passed = []

theorem State.Fresh.run {s : State κ} (h : s.Fresh) : (run none s).state.Started := by
  have hrun : (JobExec.run none s).state = { s with status := .running, fd := {} } := by
    rw [JobExec.run, jobRun, h.status]
    rfl
  rw [hrun]
  exact ⟨rfl, rfl, h.output, by simp [State.passed, h.effects]⟩

/-! ## What a run captures -/

theorem processLine_of_eof {s : State κ} (noticed : s.fd.eof = true) :
    (processLine s).state.fd = s.fd ∧ (processLine s).state.output = s.output ∧
      (processLine s).state.passed = s.passed ∧
      (processLine s).state.lineCallback = s.lineCallback := by
  rw [processLine, if_pos noticed, done]
  split
  · exact ⟨rfl, rfl, rfl, rfl⟩
  · refine ⟨rfl, rfl, ?_, rfl⟩
    have hnone : (s.isdoneCallback.map Effect.isdone).filterMap Effect.passed? = [] := by
      rw [List.filterMap_map, List.filterMap_eq_nil_iff]
      exact fun _ _ => rfl
    show (s.effects ++ s.isdoneCallback.map Effect.isdone).filterMap Effect.passed? = _
    rw [List.filterMap_append, hnone, List.append_nil]
    rfl

theorem takeLine_passed (line : Text) (s : State κ) :
    (s.takeLine line).passed = s.passed ++ s.lineCallback.map fun call => (call, line) := by
  have hcalls : (s.lineCallback.map fun call => Effect.passed call line).filterMap Effect.passed? =
      s.lineCallback.map fun call => (call, line) := by
    rw [List.filterMap_map, ← List.filterMap_eq_map]
    rfl
  show (s.effects ++ s.lineCallback.map fun call => Effect.passed call line).filterMap _ = _
  rw [List.filterMap_append, hcalls]
  rfl

/-- The channel of the job takes the steps of a channel. -/
theorem step_fd (s : State κ) (event : Event) : (s.step event).fd = s.fd.step event := by
  cases event with
  | arrives piece => rfl
  | ends => rfl
  | readable =>
      by_cases noticed : s.fd.eof = true
      · rw [Channel.step, if_pos noticed]
        exact (processLine_of_eof noticed).1
      · rw [Channel.step, if_neg noticed]
        show (processLine s).state.fd = _
        rw [processLine, if_neg noticed]
        rfl

/-- A step appends what it reads to the output and passes it to the callbacks. -/
theorem step_captures (s : State κ) (event : Event) :
    (s.step event).lineCallback = s.lineCallback ∧
      (s.step event).output =
        s.output ++ unlines '\n' ((s.fd.result event).toList.map fun r => r.getD []) ∧
      (s.step event).passed = s.passed ++
        ((s.fd.result event).toList.map fun r => r.getD []).flatMap fun line =>
          s.lineCallback.map fun call => (call, line) := by
  cases event with
  | arrives piece => exact ⟨rfl, (List.append_nil _).symm, (List.append_nil _).symm⟩
  | ends => exact ⟨rfl, (List.append_nil _).symm, (List.append_nil _).symm⟩
  | readable =>
      by_cases noticed : s.fd.eof = true
      · obtain ⟨-, houtput, hpassed, hcallback⟩ := processLine_of_eof noticed
        rw [Channel.result, if_pos noticed]
        exact ⟨hcallback, houtput.trans (List.append_nil _).symm,
          hpassed.trans (List.append_nil _).symm⟩
      · have hstep : s.step .readable =
            { s with fd := s.fd.gets.2 }.takeLine (s.fd.gets.1.getD []) := by
          show (processLine s).state = _
          rw [processLine, if_neg noticed]
          rfl
        rw [Channel.result, if_neg noticed, hstep, takeLine_passed]
        simp [unlines, State.takeLine, State.passed]

/-- A run appends what its reads find. -/
theorem run_captures (s : State κ) (events : List Event) :
    ((machine κ).run s events).lineCallback = s.lineCallback ∧
      ((machine κ).run s events).output =
        s.output ++ unlines '\n' ((results s.fd events).map fun r => r.getD []) ∧
      ((machine κ).run s events).passed = s.passed ++
        ((results s.fd events).map fun r => r.getD []).flatMap fun line =>
          s.lineCallback.map fun call => (call, line) := by
  induction events generalizing s with
  | nil => exact ⟨rfl, (List.append_nil _).symm, (List.append_nil _).symm⟩
  | cons event events ih =>
      obtain ⟨hcallback, houtput, hpassed⟩ := step_captures s event
      obtain ⟨hcallbacks, houtputs, hpasses⟩ := ih (s.step event)
      rw [step_fd, hcallback] at hpasses
      rw [step_fd] at houtputs
      rw [Machine.run_cons, results, List.map_append]
      refine ⟨hcallbacks.trans hcallback, ?_, ?_⟩
      · show ((machine κ).run (s.step event) events).output = _
        rw [houtputs, houtput, unlines, unlines, unlines, List.flatMap_append, List.append_assoc]
      · show ((machine κ).run (s.step event) events).passed = _
        rw [hpasses, hpassed, List.flatMap_append, List.append_assoc]

/-- A job is done only after the end was noticed. -/
theorem run_done {s : State κ} (events : List Event)
    (before : s.status = .done → s.fd.eof = true)
    (isDone : ((machine κ).run s events).status = .done) :
    ((machine κ).run s events).fd.eof = true := by
  induction events generalizing s with
  | nil => exact before isDone
  | cons event events ih =>
      refine ih (s := s.step event) ?_ isDone
      intro hdone
      cases event with
      | arrives piece => exact before hdone
      | ends => exact before hdone
      | readable =>
          rw [step_fd, Channel.step]
          by_cases noticed : s.fd.eof = true
          · rw [if_pos noticed]
            exact noticed
          · refine absurd (before ?_) noticed
            have hsame : (s.step .readable).status = s.status := by
              show (processLine s).state.status = s.status
              rw [processLine, if_neg noticed]
              rfl
            exact hsame.symm.trans hdone

theorem not_closed_iff (text : Text) : ¬ Closed '\n' (auto false text) ↔ Unterminated text := by
  rw [closed_auto_iff]
  simp only [Unterminated, not_forall, not_or, exists_prop]

section

variable {s : State κ} {events : List Event}

/-- The channel of a job that has been started, until the job is done. -/
theorem State.Started.channel (h : s.Started) (admits : (machine κ).Admits s events)
    (isDone : ((machine κ).run s events).status = .done) :
    TextChannel.machine.Admits {} events ∧ (TextChannel.machine.run {} events).eof = true ∧
      ((machine κ).EachStep Timely s events ↔
        TextChannel.machine.EachStep Channel.Timely {} events) := by
  have htimely : (machine κ).EachStep (fun s event => s.fd.Timely event) s events ↔
      TextChannel.machine.EachStep Channel.Timely s.fd events :=
    (machine κ).eachStep_part step_fd
  rw [← h.fd]
  refine ⟨?_, ?_, htimely⟩
  · exact ((machine κ).eachStep_part step_fd).mp (Machine.EachStep.mono (fun _ _ h => h.1) admits)
  · rw [← (machine κ).run_part step_fd]
    exact run_done events (by simp [h.status]) isDone

/-- The text is captured exactly if the reads find its lines. -/
theorem State.Started.captured_iff (h : s.Started) (admits : (machine κ).Admits s events)
    (isDone : ((machine κ).run s events).status = .done) :
    Captured ((machine κ).run s events) (written events) ↔
      (results {} events).map (fun r => r.getD []) = textLines (written events) := by
  obtain ⟨hadmits, hnoticed, -⟩ := h.channel admits isDone
  obtain ⟨hcallback, houtput, hpassed⟩ := run_captures s events
  rw [h.output, h.fd, List.nil_append] at houtput
  rw [h.passed, h.fd, List.nil_append] at hpassed
  constructor
  · intro hcaptured
    have hsame := houtput.symm.trans hcaptured.output
    refine (unlines_inj ?_ fun line => sep_not_mem_of_mem_lines).mp hsame
    intro line hline
    obtain ⟨r, hr, rfl⟩ := List.mem_map.mp hline
    exact newline_not_mem_results hadmits rfl hnoticed r hr
  · intro hlines
    rw [hlines] at houtput hpassed
    exact ⟨houtput, by rw [hpassed, hcallback]⟩

end

/-- What a job has captured when it is done: the lines of the text exactly if the text does not
end with the end of a line and every read comes when a whole line or the end is there. -/
theorem output_captured_iff {s : State κ} (fresh : s.Fresh) {events : List Event}
    (admits : (machine κ).Admits (run none s).state events)
    (isDone : ((machine κ).run (run none s).state events).status = .done) :
    Captured ((machine κ).run (run none s).state events) (written events) ↔
      Unterminated (written events) ∧
        (machine κ).EachStep Timely (run none s).state events := by
  have hstarted := fresh.run
  obtain ⟨hadmits, hnoticed, htimely⟩ := hstarted.channel admits isDone
  have hexact := results_exact_iff hadmits rfl hnoticed
  have hremaining : Channel.remaining {} events = auto false (written events) := rfl
  rw [hremaining, not_closed_iff] at hexact
  rw [hstarted.captured_iff admits isDone, htimely]
  exact hexact

/-- A job with two line callbacks and one for its end. -/
def sampleJob : State ℕ := { isdoneCallback := [3], lineCallback := [1, 2] }

/-- Two lines, of which the second has no end, in two pieces. -/
def timelyRun : List Event :=
  [.arrives ['a', '\r', '\n'], .readable, .arrives ['b'], .ends, .readable, .readable]

theorem captured_timely :
    Captured ((machine ℕ).run (run none sampleJob).state timelyRun) ['a', '\r', '\n', 'b'] := by
  have hfresh : sampleJob.Fresh := ⟨rfl, rfl, rfl⟩
  have hadmits : (machine ℕ).Admits (run none sampleJob).state timelyRun := by decide
  have hdone : ((machine ℕ).run (run none sampleJob).state timelyRun).status = .done := by decide
  exact (output_captured_iff hfresh hadmits hdone).mpr ⟨⟨'b', by decide⟩, by decide⟩

/-- One line, with its end. -/
def terminatedRun : List Event :=
  [.arrives ['a', '\n'], .ends, .readable, .readable, .readable]

/-- One line in two pieces, without its end. -/
def partialRun : List Event :=
  [.arrives ['a'], .readable, .arrives ['b'], .ends, .readable, .readable]

/-- An empty line is added to a text that ends with a newline, and to one of which a part comes
first. -/
theorem empty_lines_added :
    ((machine ℕ).Admits (run none sampleJob).state terminatedRun ∧
        ((machine ℕ).run (run none sampleJob).state terminatedRun).status = .done ∧
        ((machine ℕ).run (run none sampleJob).state terminatedRun).output = ['a', '\n', '\n'] ∧
        ((machine ℕ).run (run none sampleJob).state terminatedRun).passed =
          [(1, ['a']), (2, ['a']), (1, []), (2, [])] ∧
        ¬ Captured ((machine ℕ).run (run none sampleJob).state terminatedRun)
          (written terminatedRun)) ∧
      (machine ℕ).Admits (run none sampleJob).state partialRun ∧
        ((machine ℕ).run (run none sampleJob).state partialRun).status = .done ∧
        ((machine ℕ).run (run none sampleJob).state partialRun).output = ['\n', 'a', 'b', '\n'] ∧
        ¬ Captured ((machine ℕ).run (run none sampleJob).state partialRun)
          (written partialRun) := by
  decide

end Amester.JobExec
