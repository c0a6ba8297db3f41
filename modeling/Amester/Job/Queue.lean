/-
# The job queue

A queue has a pool of hosts and runs at most one job on each. `process` takes
the first job and the first free host, tells the job to call `jobdone` with the
host when it is done, and runs it; `jobdone` puts the host back. A `job_tcl` is
done before its `run` returns. A `job_exec` starts a program and is done when the
program ends, and with `-sync` it waits for that in the event loop.

The call of `jobdone` is a scoped command of four words. `add_isdone_callback`
quotes it as one word of a list, and `job::done` evaluates this word as the name
of a command. There is none of this name, so it is left to the `unknown` of the
interpreter. Up to Tcl 8.5 that takes the word `namespace inscope` apart and
evaluates it, and `process` is entered again from `jobdone` inside its own loop.
In Tcl 8.6.5, which is built here, it raises; `job::done` catches the error.

`run` raises when the job was run before and when the program cannot be
started. The error ends the loop of `process` and goes up to the callback that
has entered it, where `job::done` catches it, or out to the event loop.

Commands of jobs and callbacks of the application can call the queue, or let the
event loop go on. The model lets any event occur wherever a call has not
returned. What a job's own completion callbacks do besides the queue's is left
out.
-/

import Mathlib.Data.List.DropRight
import Mathlib.Logic.Function.Basic
import Amester.Lib.CallChain

namespace Amester.Job

open EventMachine

universe u v

inductive Status
  | initialized
  | running
  | done
  deriving DecidableEq

/-- The class of a job. -/
inductive JobClass
  | tcl
  | exec (sync : Bool)
  deriving DecidableEq

/-- A job as the queue sees it. -/
structure JobState (η : Type v) where
  hosts : Option η := none
  /-- The hosts of the calls of `jobdone` among the callbacks. -/
  isdoneCallback : List η := []
  status : Status := .initialized

/-- What has been scheduled with `after`. -/
inductive Timer
  | periodic
  | run
  deriving DecidableEq

/-- A queue as it is configured, and the jobs there are. -/
structure Setup (J : Type u) (η : Type v) where
  pool : List η
  distinct : pool.Nodup
  runPeriod : ℕ := 5000
  jobClass : J → JobClass := fun _ => .exec false
  /-- The program of the job can be started. -/
  opens : J → Bool := fun _ => true
  /-- `unknown` evaluates the name of a command that is a scoped command. -/
  unknownInscope : Bool := false

structure State (J : Type u) (η : Type v) where
  running : Bool := true
  freelist : List η
  joblist : List J := []
  runAfter : Option Timer := none
  jobs : J → JobState η
  /-- The jobs that were enqueued, in order, less those that were cleared. -/
  enqueued : List J := []
  /-- The jobs that were started by the queue, in order, with their hosts. -/
  launches : List (J × η) := []

/-- What is left of a call. -/
inductive Piece (J : Type u) (η : Type v)
  /-- The loop of `process`, at its test. -/
  | loop
  /-- `job_tcl::run` when the command has returned. -/
  | command (job : J)
  /-- `vwait` in `job_exec::run`. -/
  | vwait (job : J)
  /-- The loop over the callbacks in `job::done`, with those it has not called. -/
  | callbacks (rest : List η)
  /-- `jobdone` when `job_callback` has returned. -/
  | jobCallback
  | isdoneCallback
  | isemptyCallback

/-- A state and the pieces to run; an error is raised when there is no list. -/
abbrev Result (J : Type u) (η : Type v) := State J η × Option (List (Piece J η))

section

variable {J : Type u} {η : Type v} [DecidableEq J] (q : Setup J η)

/-- Write a job object. -/
def State.setJob (s : State J η) (job : J) (f : JobState η → JobState η) : State J η :=
  { s with jobs := Function.update s.jobs job (f (s.jobs job)) }

/-! ## Jobs -/

/-- The status check of `job::run`. -/
def jobRun (job : J) (s : State J η) : State J η × Bool :=
  match (s.jobs job).status with
  | .initialized => (s.setJob job fun j => { j with status := .running }, true)
  | .running | .done => (s, false)

/-- `run` of the job's class, up to its command or its wait. -/
def run (job : J) (s : State J η) : Result J η :=
  match jobRun job s with
  | (s, false) => (s, none)
  | (s, true) =>
    match q.jobClass job with
    | .tcl => (s, some [.command job])
    | .exec sync =>
      if q.opens job then (s, some (if sync then [.vwait job] else [])) else (s, none)

/-- `jobdone` up to `job_callback`. -/
def jobdone (host : η) (s : State J η) : Result J η :=
  ({ s with freelist := s.freelist ++ [host] }, some [.jobCallback])

/-- Call the next callback of a job that is done, or log that there is no such command. -/
def callNext (calls : List η) (s : State J η) : Result J η :=
  match calls with
  | [] => (s, some [])
  | host :: rest =>
    if q.unknownInscope then
      let (s, pieces) := jobdone host s
      (s, pieces.map fun pieces => pieces ++ [.callbacks rest])
    else (s, some [.callbacks rest])

/-- `job::done`. -/
def done (job : J) (s : State J η) : Result J η :=
  if (s.jobs job).status = .done then (s, none)
  else
    callNext q (s.jobs job).isdoneCallback (s.setJob job fun j => { j with status := .done })

/-! ## The queue -/

def enque (jobs : List J) (s : State J η) : State J η :=
  jobs.foldl (fun s j =>
    if j ∈ s.joblist then s
    else { s with joblist := s.joblist ++ [j], enqueued := s.enqueued ++ [j] }) s

/-- Jobs that wait when the queue is cleared are taken back. -/
def clear (s : State J η) : State J η :=
  { s with joblist := [], enqueued := s.enqueued.rdrop s.joblist.length }

/-- A new timer, in place of the old one. -/
def schedule (timer : Timer) : Option Timer := if q.runPeriod ≠ 0 then some timer else none

def process (s : State J η) : Result J η := (s, some (if s.running then [.loop] else []))

/-- `jobq::run`. -/
def start (s : State J η) : State J η :=
  { s with running := true, runAfter := schedule q .periodic }

def stop (s : State J η) : State J η := { s with running := false, runAfter := none }

def periodic (s : State J η) : Result J η :=
  let s := { s with runAfter := schedule q .run }
  if q.runPeriod ≠ 0 then process s else (s, some [])

/-- The job gets its host and the callback of the queue. -/
def assign (job : J) (host : η) (s : State J η) : State J η :=
  s.setJob job fun j =>
    { j with hosts := some host, isdoneCallback := j.isdoneCallback ++ [host] }

/-- Take a job and a host from the lists and run the job. -/
def launch (job : J) (joblist : List J) (host : η) (freelist : List η) (s : State J η) :
    Result J η :=
  match run q job (assign job host { s with joblist, freelist }) with
  | (s, some pieces) =>
    ({ s with launches := s.launches ++ [(job, host)] }, some (pieces ++ [.loop]))
  | (s, none) => (s, none)

/-- The loop of `process`, up to the first call in its body. -/
def loop (s : State J η) : Result J η :=
  match s.joblist, s.freelist with
  | job :: joblist, host :: freelist => launch q job joblist host freelist s
  | _, _ => (s, some [])

/-- The rest of `jobdone`. -/
def afterJobCallback (s : State J η) : Result J η :=
  if s.joblist ≠ [] then process s
  else if s.freelist.length = q.pool.length then (s, some [.isdoneCallback])
  else (s, some [.isemptyCallback])

/-! ## Runs -/

inductive Event (J : Type u)
  | enque (jobs : List J)
  | clear
  | stop
  | run
  | tick
  /-- The program of the job has ended. -/
  | finishes (job : J)

def Event.admissible (s : State J η) : Event J → Prop
  | .enque _ | .clear | .stop | .run => True
  | .tick => s.runAfter ≠ none
  | .finishes job => q.jobClass job ≠ .tcl ∧ (s.jobs job).status = .running

instance (s : State J η) : DecidablePred (Event.admissible q s)
  | .enque _ | .clear | .stop | .run => isTrue trivial
  | .tick => inferInstanceAs (Decidable (s.runAfter ≠ none))
  | .finishes job =>
    inferInstanceAs (Decidable (q.jobClass job ≠ .tcl ∧ (s.jobs job).status = .running))

def handle (s : State J η) : Event J → Result J η
  | .enque jobs => (enque jobs s, some [])
  | .clear => (clear s, some [])
  | .stop => (stop s, some [])
  | .run => (start q s, some [])
  | .tick =>
    match s.runAfter with
    | none => (s, some [])
    | some .run => (start q s, some [])
    | some .periodic => periodic q s
  | .finishes job => done q job s

def execute : Piece J η → State J η → Result J η
  | .loop, s => loop q s
  | .command job, s => done q job s
  | .vwait job, s =>
    (s, some (if (s.jobs job).status = .done then [] else [.vwait job]))
  | .callbacks rest, s => callNext q rest s
  | .jobCallback, s => afterJobCallback q s
  | .isdoneCallback, s | .isemptyCallback, s => (s, some [])

/-- Errors of callbacks are caught by `job::done`. -/
def Piece.catches : Piece J η → Bool
  | .callbacks _ => true
  | .loop | .command _ | .vwait _ | .jobCallback | .isdoneCallback | .isemptyCallback => false

/-- The queue under the event loop. -/
def jobq : CallChain (State J η) (Event J) (Piece J η) where
  admissible := Event.admissible q
  handle := handle q
  execute := execute q
  catches := Piece.catches

instance (s : State J η) : DecidablePred ((jobq q).admissible s) :=
  inferInstanceAs (DecidablePred (Event.admissible q s))

/-- A new queue, next to jobs that it has not seen yet. -/
def fresh (hosts : J → Option η) (status : J → Status) : State J η :=
  start q
    { freelist := q.pool, jobs := fun job => { hosts := hosts job, status := status job } }

end

end Amester.Job
