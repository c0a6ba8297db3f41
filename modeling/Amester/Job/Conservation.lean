/-
# Where the hosts of a job queue are

While every job that `process` takes from the queue can be run, and none of them
ends, the free hosts and the hosts of the running jobs make up the pool. A job
that ends loses its host, because no `jobdone` is called. So does a job that
cannot be run: the host has left the free list before `run` raises. That is the
case of a job that has run before and is enqueued again, and of a program that
cannot be started.

An interpreter that finds the call of `jobdone` brings the hosts of jobs that end
back; those of the others are lost there too.
-/

import Mathlib.Data.List.Nodup
import Mathlib.Data.List.Perm.Basic
import Amester.Job.Queue

namespace Amester.Job

open EventMachine

universe u v

variable {J : Type u} {η : Type v}

/-- The host is assigned to a running job that the queue has started. -/
def State.Assigned (s : State J η) (host : η) (job : J) : Prop :=
  (job, host) ∈ s.launches ∧ (s.jobs job).status = .running ∧
    (s.jobs job).hosts = some host

/-- The started jobs that still run, with their hosts. -/
def State.busy (s : State J η) : List (J × η) :=
  s.launches.filter fun l => (s.jobs l.1).status = .running

/-- Every host is free or has one running job, no job is started twice, no more
jobs run than there are hosts, and jobs are started in the order in which they
were enqueued. -/
structure Conserved [DecidableEq η] (q : Setup J η) (s : State J η) : Prop where
  hosts : ∀ host ∈ q.pool,
    (s.freelist.count host = 1 ∧ ∀ job, ¬s.Assigned host job) ∨
      (s.freelist.count host = 0 ∧ ∃! job, s.Assigned host job)
  once : (s.launches.map Prod.fst).Nodup
  atMost : s.busy.length ≤ q.pool.length
  order : s.launches.map Prod.fst ++ s.joblist = s.enqueued

/-- The job was not run before, and can be started. -/
def Startable (q : Setup J η) (s : State J η) (job : J) : Prop :=
  (s.jobs job).status = .initialized ∧ (q.jobClass job = .tcl ∨ q.opens job = true)

instance (q : Setup J η) (s : State J η) (job : J) : Decidable (Startable q s job) :=
  inferInstanceAs (Decidable (_ ∧ _))

/-- No host of the queue is lost when the job ends. -/
def MayEnd [DecidableEq J] (q : Setup J η) (s : State J η) (job : J) : Prop :=
  q.unknownInscope = true ∨ job ∉ s.busy.map Prod.fst

instance [DecidableEq J] (q : Setup J η) (s : State J η) (job : J) : Decidable (MayEnd q s job) :=
  inferInstanceAs (Decidable (_ ∨ _))

/-- When the loop of `process` is at its test and takes a job, the job can be run; and a
command that returns is not that of a job of the queue. -/
def TakesStartable [DecidableEq J] (q : Setup J η) (s : State J η) : Piece J η → Prop
  | .loop => s.freelist ≠ [] → ∀ job ∈ s.joblist.head?, Startable q s job
  | .command job => MayEnd q s job
  | .vwait _ | .callbacks _ | .jobCallback | .isdoneCallback | .isemptyCallback => True

instance [DecidableEq J] (q : Setup J η) (s : State J η) : DecidablePred (TakesStartable q s)
  | .loop =>
    inferInstanceAs (Decidable (s.freelist ≠ [] → ∀ job ∈ s.joblist.head?, Startable q s job))
  | .command job => inferInstanceAs (Decidable (MayEnd q s job))
  | .vwait _ | .callbacks _ | .jobCallback | .isdoneCallback | .isemptyCallback => isTrue trivial

/-- A program that ends is not that of a job of the queue. -/
def EndsOther [DecidableEq J] (q : Setup J η) (s : State J η) : Event J → Prop
  | .finishes job => MayEnd q s job
  | .enque _ | .clear | .stop | .run | .tick => True

instance [DecidableEq J] (q : Setup J η) (s : State J η) : DecidablePred (EndsOther q s)
  | .finishes job => inferInstanceAs (Decidable (MayEnd q s job))
  | .enque _ | .clear | .stop | .run | .tick => isTrue trivial

/-! ## The invariant -/

/-- The hosts are all there, and a job has the callback of the queue exactly when
the queue has started it. -/
structure Kept [DecidableEq J] (q : Setup J η) (s : State J η) : Prop where
  hosts : (s.freelist ++ s.busy.map Prod.snd).Perm q.pool
  once : (s.launches.map Prod.fst).Nodup
  order : s.launches.map Prod.fst ++ s.joblist = s.enqueued
  launched : ∀ l ∈ s.launches,
    (s.jobs l.1).status ≠ .initialized ∧ (s.jobs l.1).hosts = some l.2
  callbacks : ∀ job, (s.jobs job).isdoneCallback =
    (s.launches.filter fun l => l.1 = job).map Prod.snd

/-- No callback of the queue is left to call. -/
def Piece.Settled : Piece J η → Prop
  | .callbacks rest => rest = []
  | .loop | .command _ | .vwait _ | .jobCallback | .isdoneCallback | .isemptyCallback => True

/-- What a result must be for a run to go on: the invariant, and settled pieces. -/
def KeptResult [DecidableEq J] (q : Setup J η) (r : Result J η) : Prop :=
  Kept q r.1 ∧ ∀ pieces ∈ r.2, ∀ p ∈ pieces, p.Settled

theorem KeptResult.of_some [DecidableEq J] {q : Setup J η} {s : State J η}
    {pieces : List (Piece J η)} (kept : Kept q s) (settled : ∀ p ∈ pieces, p.Settled) :
    KeptResult q (s, some pieces) := by
  refine ⟨kept, ?_⟩
  intro _ same
  obtain rfl := Option.mem_some.mp same
  exact settled

private theorem mem_busy {s : State J η} {l : J × η} :
    l ∈ s.busy ↔ l ∈ s.launches ∧ (s.jobs l.1).status = .running := by
  simp [State.busy]

/-- The entry of a job in a list that has each job once. -/
theorem filter_fst_eq [DecidableEq J] {launches : List (J × η)} {job : J} {host : η}
    (nodup : (launches.map Prod.fst).Nodup) (mem : (job, host) ∈ launches) :
    launches.filter (fun l => l.1 = job) = [(job, host)] := by
  obtain ⟨before, after, rfl⟩ := List.append_of_mem mem
  rw [List.map_append, List.map_cons, List.nodup_middle, List.nodup_cons,
    ← List.map_append] at nodup
  have absent : ∀ l ∈ before ++ after, l.1 ≠ job := by
    intro l hl heq
    have again : l.1 ∈ (before ++ after).map Prod.fst := List.mem_map_of_mem hl
    exact nodup.1 (heq ▸ again)
  have before_nil : before.filter (fun l => l.1 = job) = [] := by
    rw [List.filter_eq_nil_iff]
    intro l hl
    simpa using absent l (List.mem_append_left _ hl)
  have after_nil : after.filter (fun l => l.1 = job) = [] := by
    rw [List.filter_eq_nil_iff]
    intro l hl
    simpa using absent l (List.mem_append_right _ hl)
  simp [before_nil, after_nil]

section

variable [DecidableEq J] {q : Setup J η} {s : State J η}

private theorem setJob_self (job : J) (f : JobState η → JobState η) :
    (s.setJob job f).jobs job = f (s.jobs job) := by
  simp [State.setJob]

private theorem setJob_of_ne {job other : J} (f : JobState η → JobState η) (ne : other ≠ job) :
    (s.setJob job f).jobs other = s.jobs other := by
  simp [State.setJob, ne]

/-- A job that the queue has not started is not in its lists. -/
theorem busy_setJob {job : J} (f : JobState η → JobState η)
    (absent : job ∉ s.launches.map Prod.fst) : (s.setJob job f).busy = s.busy := by
  apply List.filter_congr
  intro l hl
  have ne : l.1 ≠ job := by
    rintro rfl
    exact absent (List.mem_map_of_mem hl)
  rw [setJob_of_ne f ne]

/-- `run` of a job that can be run. -/
theorem run_of_startable {job : J} (startable : Startable q s job) :
    ∃ pieces : List (Piece J η), (∀ p ∈ pieces, p.Settled) ∧
      run q job s = (s.setJob job fun j => { j with status := .running }, some pieces) := by
  obtain ⟨initialized, starts⟩ := startable
  simp only [run, jobRun, initialized]
  cases jobClass : q.jobClass job with
  | tcl => exact ⟨[.command job], by simp [Piece.Settled], rfl⟩
  | exec sync =>
      have opens : q.opens job = true := by simpa [jobClass] using starts
      refine ⟨if sync then [.vwait job] else [], ?_, by simp [opens]⟩
      intro p hp
      split at hp
      · rw [List.mem_singleton.mp hp]
        trivial
      · simp at hp

/-- `run` of a job that cannot be run raises, and changes at most the status of a
job whose program cannot be started. -/
theorem run_of_not_startable {job : J} (startable : ¬Startable q s job) :
    (run q job s).2 = none ∧ ((run q job s).1 = s ∨
      (s.jobs job).status = .initialized ∧
        (run q job s).1 = s.setJob job fun j => { j with status := .running }) := by
  unfold run jobRun
  cases status : (s.jobs job).status with
  | initialized =>
      cases jobClass : q.jobClass job with
      | tcl => exact absurd ⟨status, Or.inl jobClass⟩ startable
      | exec sync =>
          have closed : q.opens job ≠ true := fun opens =>
            startable ⟨status, Or.inr opens⟩
          simp [closed]
  | running => simp
  | done => simp

theorem Startable.assign {job : J} {joblist : List J} {freelist : List η}
    (startable : Startable q s job) (host : η) :
    Startable q (assign job host { s with joblist, freelist }) job := by
  simpa [Startable, Job.assign, State.setJob] using startable

/-- What is left when a job cannot be run: its host is off the free list. -/
theorem launch_of_not_startable {job : J} (joblist : List J) (host : η) (freelist : List η)
    (startable : ¬Startable q s job) :
    (launch q job joblist host freelist s).1.freelist = freelist ∧
      (launch q job joblist host freelist s).1.launches = s.launches ∧
      ∀ other, (s.jobs other).status ≠ .initialized →
        ((launch q job joblist host freelist s).1.jobs other).status = .running →
        (s.jobs other).status = .running := by
  have assigned : ¬Startable q (assign job host { s with joblist, freelist }) job := by
    simpa [Startable, assign, State.setJob] using startable
  have statuses : ∀ other, ((assign job host { s with joblist, freelist }).jobs other).status =
      (s.jobs other).status := by
    intro other
    by_cases same : other = job
    · simp [assign, State.setJob, same]
    · simp [assign, State.setJob, same]
  obtain ⟨raised, after⟩ := run_of_not_startable assigned
  have result : launch q job joblist host freelist s =
      ((run q job (assign job host { s with joblist, freelist })).1, none) := by
    unfold launch
    generalize run q job (assign job host { s with joblist, freelist }) = r at raised
    obtain ⟨t, _ | pieces⟩ := r
    · rfl
    · simp at raised
  rw [result]
  dsimp only
  rcases after with same | ⟨initialized, opened⟩
  · rw [same]
    refine ⟨rfl, rfl, ?_⟩
    intro other _ running
    rw [← statuses other]
    exact running
  · rw [opened]
    refine ⟨rfl, rfl, ?_⟩
    intro other notInitialized running
    by_cases same : other = job
    · rw [same, ← statuses job] at notInitialized
      exact absurd initialized notInitialized
    · rw [setJob_of_ne _ same, statuses other] at running
      exact running

namespace Kept

variable (h : Kept q s)

include h

/-- A job that is initialized was not started by the queue. -/
theorem absent {job : J} (status : (s.jobs job).status = .initialized) :
    job ∉ s.launches.map Prod.fst := by
  intro mem
  obtain ⟨l, hl, rfl⟩ := List.mem_map.mp mem
  exact (h.launched l hl).1 status

private theorem callbacks_of_absent {job : J} (absent : job ∉ s.launches.map Prod.fst) :
    (s.jobs job).isdoneCallback = [] := by
  rw [h.callbacks, List.map_eq_nil_iff, List.filter_eq_nil_iff]
  intro l hl
  have ne : l.1 ≠ job := by
    rintro rfl
    exact absent (List.mem_map_of_mem hl)
  simpa using ne

private theorem callbacks_of_mem {job : J} {host : η} (mem : (job, host) ∈ s.launches) :
    (s.jobs job).isdoneCallback = [host] := by
  rw [h.callbacks, filter_fst_eq h.once mem, List.map_singleton]

theorem nodup : (s.freelist ++ s.busy.map Prod.snd).Nodup :=
  h.hosts.nodup_iff.mpr q.distinct

private theorem busy_once : (s.busy.map Prod.fst).Nodup :=
  (List.filter_sublist.map Prod.fst).nodup h.once

/-- What is assigned is what runs. -/
theorem assigned_iff {host : η} {job : J} : s.Assigned host job ↔ (job, host) ∈ s.busy := by
  rw [mem_busy]
  constructor
  · rintro ⟨mem, status, -⟩
    exact ⟨mem, status⟩
  · rintro ⟨mem, status⟩
    exact ⟨mem, status, (h.launched _ mem).2⟩

theorem conserved [DecidableEq η] : Conserved q s := by
  obtain ⟨freeNodup, busyNodup, disjoint⟩ := List.nodup_append.mp h.nodup
  constructor
  · intro host hpool
    rcases List.mem_append.mp (h.hosts.mem_iff.mpr hpool) with free | busy
    · left
      constructor
      · exact List.count_eq_one_of_mem freeNodup free
      · intro job assigned
        have mem := List.mem_map_of_mem (f := Prod.snd) (h.assigned_iff.mp assigned)
        exact disjoint host free host mem rfl
    · right
      constructor
      · rw [List.count_eq_zero]
        intro free
        exact disjoint host free host busy rfl
      · obtain ⟨⟨job, _⟩, mem, rfl⟩ := List.mem_map.mp busy
        refine ⟨job, h.assigned_iff.mpr mem, ?_⟩
        intro other assigned
        have same := List.inj_on_of_nodup_map busyNodup (h.assigned_iff.mp assigned) mem rfl
        exact congrArg Prod.fst same
  · exact h.once
  · have total := h.hosts.length_eq
    rw [List.length_append, List.length_map] at total
    exact total ▸ Nat.le_add_left _ _
  · exact h.order

/-! ## One step -/

/-- The lists and the jobs stay, and the waiting jobs are as they were enqueued. -/
theorem requeue {t : State J η} (freelist : t.freelist = s.freelist) (jobs : t.jobs = s.jobs)
    (launches : t.launches = s.launches)
    (order : t.launches.map Prod.fst ++ t.joblist = t.enqueued) : Kept q t := by
  have busy : t.busy = s.busy := by
    unfold State.busy
    rw [jobs, launches]
  constructor
  · rw [freelist, busy]
    exact h.hosts
  · rw [launches]
    exact h.once
  · exact order
  · rw [launches, jobs]
    exact h.launched
  · rw [launches, jobs]
    exact h.callbacks

theorem enque_kept (jobs : List J) : Kept q (enque jobs s) := by
  unfold enque
  induction jobs generalizing s with
  | nil => exact h
  | cons j jobs ih =>
      rw [List.foldl_cons]
      apply ih
      split
      · exact h
      · refine h.requeue rfl rfl rfl ?_
        rw [← List.append_assoc, h.order]

theorem clear_kept : Kept q (clear s) := by
  refine h.requeue rfl rfl rfl ?_
  simp only [clear, List.append_nil]
  rw [← h.order, List.rdrop_append_length]

/-- A job that the queue has not started can change its status and its hosts. -/
theorem setJob_absent {job : J} {f : JobState η → JobState η}
    (absent : job ∉ s.launches.map Prod.fst)
    (callbacks : (f (s.jobs job)).isdoneCallback = (s.jobs job).isdoneCallback) :
    Kept q (s.setJob job f) := by
  constructor
  · rw [busy_setJob f absent]
    exact h.hosts
  · exact h.once
  · exact h.order
  · intro l hl
    have ne : l.1 ≠ job := by
      rintro rfl
      exact absent (List.mem_map_of_mem hl)
    rw [setJob_of_ne f ne]
    exact h.launched l hl
  · intro other
    by_cases same : other = job
    · rw [same, setJob_self, callbacks]
      exact h.callbacks job
    · rw [setJob_of_ne f same]
      exact h.callbacks other

/-- The host of a job that runs moves from the busy ones to the free ones. -/
theorem giveBack {job : J} {host : η} (mem : (job, host) ∈ s.busy) :
    Kept q { s.setJob job (fun j => { j with status := .done }) with
      freelist := s.freelist ++ [host] } := by
  obtain ⟨launch, status⟩ := mem_busy.mp mem
  have left : (s.setJob job fun j => { j with status := .done }).busy =
      s.busy.filter fun l => ¬l.1 = job := by
    unfold State.busy
    rw [List.filter_filter]
    apply List.filter_congr
    intro l _
    by_cases same : l.1 = job
    · simp [same, setJob_self]
    · simp [same, setJob_of_ne]
  have split : ([(job, host)] ++ s.busy.filter fun l => ¬l.1 = job).Perm s.busy := by
    rw [← filter_fst_eq h.busy_once mem]
    simpa using List.filter_append_perm (fun l => decide (l.1 = job)) s.busy
  constructor
  · have moved := ((split.map Prod.snd).append_left s.freelist).trans h.hosts
    rw [List.map_append, List.map_singleton, ← List.append_assoc, ← left] at moved
    exact moved
  · exact h.once
  · exact h.order
  · intro l hl
    by_cases same : l.1 = job
    · have launched := h.launched l hl
      rw [same] at launched
      simp [same, State.setJob, launched.2]
    · have launched := h.launched l hl
      simpa [State.setJob, same] using launched
  · intro other
    by_cases same : other = job
    · have callbacks := h.callbacks job
      simpa [same, State.setJob] using callbacks
    · have callbacks := h.callbacks other
      simpa [State.setJob, same] using callbacks

/-- A job of the queue that is done gives its host back, if `jobdone` is called. -/
theorem done_kept {job : J} (mayEnd : MayEnd q s job) : KeptResult q (done q job s) := by
  unfold done
  split
  · exact ⟨h, by simp⟩
  · rename_i notDone
    by_cases mem : job ∈ s.launches.map Prod.fst
    · obtain ⟨host, launch⟩ : ∃ host, (job, host) ∈ s.launches := by simpa using mem
      have running : (s.jobs job).status = .running := by
        have started := (h.launched _ launch).1
        cases status : (s.jobs job).status with
        | initialized => exact absurd status started
        | running => rfl
        | done => exact absurd status notDone
      have busy : (job, host) ∈ s.busy := mem_busy.mpr ⟨launch, running⟩
      have calls : q.unknownInscope = true :=
        mayEnd.resolve_right fun absent => absent (List.mem_map_of_mem busy)
      rw [h.callbacks_of_mem launch]
      constructor
      · rw [callNext, if_pos calls]
        exact h.giveBack busy
      · simp [callNext, calls, jobdone, Piece.Settled]
    · rw [h.callbacks_of_absent mem]
      constructor
      · exact h.setJob_absent (f := fun j => { j with status := .done }) mem rfl
      · simp [callNext]

/-- Otherwise the host is lost. -/
theorem done_lost [DecidableEq η] {job : J} (mayEnd : ¬MayEnd q s job) :
    ¬Conserved q (done q job s).1 := by
  obtain ⟨calls, mem⟩ := not_or.mp mayEnd
  obtain ⟨⟨ended, host⟩, busy, same⟩ := List.mem_map.mp (not_not.mp mem)
  obtain rfl : ended = job := same
  obtain ⟨launch, running⟩ := mem_busy.mp busy
  obtain ⟨-, busyNodup, disjoint⟩ := List.nodup_append.mp h.nodup
  have pool : host ∈ q.pool :=
    h.hosts.mem_iff.mp (List.mem_append_right _ (List.mem_map_of_mem (f := Prod.snd) busy))
  have after : (done q ended s).1 = s.setJob ended fun j => { j with status := .done } := by
    rw [done, if_neg (by simp [running]), h.callbacks_of_mem launch, callNext, if_neg calls]
  intro conserved
  rw [after] at conserved
  rcases conserved.hosts host pool with ⟨once, -⟩ | ⟨-, other, ⟨launched, status, -⟩, -⟩
  · have free : host ∈ s.freelist := List.one_le_count_iff.mp once.ge
    exact disjoint host free host (List.mem_map_of_mem (f := Prod.snd) busy) rfl
  · by_cases same : other = ended
    · rw [same, setJob_self] at status
      exact absurd status (by simp)
    · rw [setJob_of_ne _ same] at status
      have twice := List.inj_on_of_nodup_map busyNodup (mem_busy.mpr ⟨launched, status⟩) busy rfl
      exact same (congrArg Prod.fst twice)

/-- A job that the queue has not started yet runs on a free host. -/
theorem takeHost {t : State J η} {job : J} {host : η} (absent : job ∉ s.launches.map Prod.fst)
    (waiting : s.joblist = job :: t.joblist) (free : s.freelist = host :: t.freelist)
    (enqueued : t.enqueued = s.enqueued) (launches : t.launches = s.launches ++ [(job, host)])
    (others : ∀ other ≠ job, t.jobs other = s.jobs other)
    (assigned : t.jobs job =
      ⟨some host, (s.jobs job).isdoneCallback ++ [host], .running⟩) : Kept q t := by
  have other_of_mem : ∀ l ∈ s.launches, l.1 ≠ job := by
    rintro l hl rfl
    exact absent (List.mem_map_of_mem hl)
  have busy : t.busy = s.busy ++ [(job, host)] := by
    unfold State.busy
    rw [launches, List.filter_append]
    congr 1
    · apply List.filter_congr
      intro l hl
      rw [others _ (other_of_mem l hl)]
    · simp [assigned]
  constructor
  · have moved : (t.freelist ++ t.busy.map Prod.snd).Perm
        (s.freelist ++ s.busy.map Prod.snd) := by
      rw [busy, free, List.map_append, ← List.append_assoc, List.cons_append]
      exact List.perm_append_singleton host _
    exact moved.trans h.hosts
  · rw [launches, List.map_append, List.nodup_append]
    refine ⟨h.once, List.nodup_singleton _, ?_⟩
    rintro _ before _ new rfl
    obtain rfl : _ = job := by simpa using new
    exact absent before
  · rw [launches, enqueued, ← h.order, waiting, List.map_append, List.append_assoc]
    rfl
  · intro l hl
    rw [launches] at hl
    rcases List.mem_append.mp hl with before | new
    · rw [others _ (other_of_mem l before)]
      exact h.launched l before
    · rw [List.mem_singleton.mp new, assigned]
      exact ⟨nofun, rfl⟩
  · intro other
    rw [launches, List.filter_append, List.map_append]
    by_cases same : other = job
    · subst same
      rw [assigned, h.callbacks]
      simp
    · rw [others other same, h.callbacks]
      simp [Ne.symm same]

/-- A job that can be run keeps the host that it gets. -/
theorem launch_kept {job : J} {joblist : List J} {host : η} {freelist : List η}
    (waiting : s.joblist = job :: joblist) (free : s.freelist = host :: freelist)
    (startable : Startable q s job) : KeptResult q (launch q job joblist host freelist s) := by
  obtain ⟨pieces, settled, result⟩ := run_of_startable (q := q)
    (s := assign job host { s with joblist, freelist }) (startable.assign host)
  rw [launch, result]
  apply KeptResult.of_some
  · refine h.takeHost (h.absent startable.1) waiting free rfl rfl ?_ ?_
    · intro other ne
      simp [assign, State.setJob, ne]
    · simp [assign, State.setJob]
  · intro p hp
    rcases List.mem_append.mp hp with new | last
    · exact settled p new
    · rw [List.mem_singleton.mp last]
      trivial

/-- The host that was taken for a job that cannot be run is lost. -/
theorem launch_lost [DecidableEq η] {job : J} {joblist : List J} {host : η}
    {freelist : List η} (free : s.freelist = host :: freelist)
    (startable : ¬Startable q s job) :
    ¬Conserved q (launch q job joblist host freelist s).1 := by
  intro conserved
  obtain ⟨sameFree, sameLaunches, stillRuns⟩ :=
    launch_of_not_startable joblist host freelist startable
  have nodup := h.nodup
  rw [free, List.cons_append, List.nodup_cons, List.mem_append, not_or] at nodup
  have mem : host ∈ q.pool := by
    rw [← h.hosts.mem_iff, free]
    exact List.mem_cons_self
  rcases conserved.hosts host mem with ⟨once, -⟩ | ⟨-, other, ⟨launched, status, -⟩, -⟩
  · rw [sameFree, List.count_eq_zero_of_not_mem nodup.1.1] at once
    exact absurd once (by decide)
  · rw [sameLaunches] at launched
    have busy : (other, host) ∈ s.busy :=
      mem_busy.mpr ⟨launched, stillRuns other (h.launched _ launched).1 status⟩
    exact nodup.1.2 (List.mem_map_of_mem (f := Prod.snd) busy)

theorem process_kept : KeptResult q (process s) := by
  apply KeptResult.of_some h
  intro p hp
  split at hp
  · rw [List.mem_singleton.mp hp]
    trivial
  · simp at hp

theorem loop_kept (takes : TakesStartable q s .loop) : KeptResult q (loop q s) := by
  unfold loop
  split
  · rename_i job joblist host freelist waiting free
    apply h.launch_kept waiting free
    apply takes
    · simp [free]
    · simp [waiting]
  · exact ⟨h, by simp⟩

theorem execute_kept (p : Piece J η) (settled : p.Settled) (takes : TakesStartable q s p) :
    KeptResult q (execute q p s) := by
  cases p with
  | loop => exact h.loop_kept takes
  | command job => exact h.done_kept takes
  | vwait job =>
      apply KeptResult.of_some h
      intro p hp
      split at hp
      · simp at hp
      · rw [List.mem_singleton.mp hp]
        trivial
  | callbacks rest =>
      obtain rfl : rest = [] := settled
      exact ⟨h, by simp [execute, callNext]⟩
  | jobCallback =>
      simp only [execute, afterJobCallback]
      split
      · exact h.process_kept
      · split
        · exact ⟨h, by simp [Piece.Settled]⟩
        · exact ⟨h, by simp [Piece.Settled]⟩
  | isdoneCallback => exact ⟨h, by simp [execute]⟩
  | isemptyCallback => exact ⟨h, by simp [execute]⟩

theorem handle_kept {event : Event J} (ends : EndsOther q s event) :
    KeptResult q (handle q s event) := by
  cases event with
  | enque jobs => exact ⟨h.enque_kept jobs, by simp [handle]⟩
  | clear => exact ⟨h.clear_kept, by simp [handle]⟩
  | stop => exact ⟨h.requeue rfl rfl rfl h.order, by simp [handle]⟩
  | run => exact ⟨h.requeue rfl rfl rfl h.order, by simp [handle]⟩
  | tick =>
      simp only [handle]
      split
      · exact ⟨h, by simp⟩
      · exact ⟨h.requeue rfl rfl rfl h.order, by simp⟩
      · have scheduled : Kept q { s with runAfter := schedule q .run } :=
          h.requeue rfl rfl rfl h.order
        unfold periodic
        split
        · exact scheduled.process_kept
        · exact ⟨scheduled, by simp⟩
  | finishes job => exact h.done_kept ends

end Kept

/-- A new queue has started nothing. -/
theorem fresh_kept (q : Setup J η) (hosts : J → Option η) (status : J → Status) :
    Kept q (fresh q hosts status) := by
  constructor
  · simp [fresh, start, State.busy]
  · exact List.nodup_nil
  · rfl
  · simp [fresh, start]
  · intro job
    rfl

/-- A host is lost as soon as `process` takes a job that cannot be run, or a job ends. -/
theorem execute_breaks [DecidableEq η] (q : Setup J η) (p : Piece J η) (s : State J η)
    (h : Kept q s) (takes : ¬TakesStartable q s p) : ¬Conserved q (execute q p s).1 := by
  cases p with
  | loop =>
      simp only [TakesStartable, Classical.not_imp, not_forall] at takes
      obtain ⟨free, job, waiting, startable⟩ := takes
      obtain ⟨joblist, waiting⟩ := List.head?_eq_some_iff.mp waiting
      obtain ⟨host, freelist, free⟩ := List.exists_cons_of_ne_nil free
      simp only [execute, loop, waiting, free]
      exact h.launch_lost free startable
  | command job => exact h.done_lost takes
  | vwait _ | callbacks _ | jobCallback | isdoneCallback | isemptyCallback =>
      exact absurd trivial takes

/-- So it is when its program ends. -/
theorem handle_loses [DecidableEq η] (q : Setup J η) (event : Event J) (s : State J η)
    (h : Kept q s) (ends : ¬EndsOther q s event) : ¬Conserved q (handle q s event).1 := by
  cases event with
  | finishes job => exact h.done_lost ends
  | enque _ | clear | stop | run | tick => exact absurd trivial ends

/-- In a run of the queue, whatever waits and calls back in it, the hosts and the
jobs are conserved in every state exactly when every job that `process` takes can
be run and none of them ends; with an interpreter that finds the callback of the
queue, exactly when every job that `process` takes can be run. -/
theorem conserved_iff [DecidableEq η] (q : Setup J η) (hosts : J → Option η)
    (status : J → Status) (happenings : List (Happening (Event J)))
    (admits : (jobq q).machine.Admits ⟨fresh q hosts status, []⟩ happenings) :
    (jobq q).machine.Always (fun s => Conserved q s.state) ⟨fresh q hosts status, []⟩
        happenings ↔
      (jobq q).machine.EachStep (CallChain.Meets (EndsOther q) (TakesStartable q))
        ⟨fresh q hosts status, []⟩ happenings := by
  refine (jobq q).always_iff (I := Kept q) (G := Piece.Settled) ?_ ?_ ?_ ?_ ?_
    (fresh_kept q hosts status) admits
  · intro s event h _ ends
    exact h.handle_kept ends
  · intro p s h settled takes
    exact h.execute_kept p settled takes
  · intro s h
    exact h.conserved
  · intro s event h _ ends
    exact handle_loses q event s h ends
  · intro p s h _ takes
    exact execute_breaks q p s h takes

end

/-! ## A job that ends -/

/-- One host, and jobs by number that are programs. -/
def oneHost : Setup ℕ ℕ where
  pool := [0]
  distinct := List.nodup_singleton 0

/-- The queue of one host, when no job has run. -/
def oneHostFresh : Suspended (State ℕ ℕ) (List (Piece ℕ ℕ)) :=
  ⟨fresh oneHost (fun _ => none) fun _ => .initialized, []⟩

/-- Of two jobs that are enqueued the first one is taken by `process`. -/
def startsOne : List (Happening (Event ℕ)) :=
  [.occurs (.enque [1, 2]), .occurs .tick, .returns, .returns]

/-- Its program ends, and the timer fires twice. -/
def runsToEnd : List (Happening (Event ℕ)) :=
  startsOne ++ [.occurs (.finishes 1), .returns, .occurs .tick, .occurs .tick, .returns]

theorem startsOne_conserved :
    (jobq oneHost).machine.Always (fun s => Conserved oneHost s.state) oneHostFresh startsOne :=
  (conserved_iff oneHost (fun _ => none) (fun _ => .initialized) startsOne (by decide)).mpr
    (by decide)

/-- The only host is gone, and the second job waits. -/
theorem runsToEnd_loses :
    (jobq oneHost).machine.Admits oneHostFresh runsToEnd ∧
      ((jobq oneHost).machine.run oneHostFresh runsToEnd).state.joblist = [2] ∧
      ¬(jobq oneHost).machine.Always (fun s => Conserved oneHost s.state) oneHostFresh
        runsToEnd := by
  refine ⟨by decide, by decide, ?_⟩
  intro always
  have free : ((jobq oneHost).machine.run oneHostFresh runsToEnd).state.freelist = [] := by
    decide
  have launches : ((jobq oneHost).machine.run oneHostFresh runsToEnd).state.launches =
      [(1, 0)] := by
    decide
  have status : (((jobq oneHost).machine.run oneHostFresh runsToEnd).state.jobs 1).status =
      .done := by
    decide
  rcases always.last.hosts 0 List.mem_cons_self with ⟨once, -⟩ | ⟨-, job, assigned, -⟩
  · rw [free] at once
    exact absurd once (by decide)
  · obtain ⟨launched, running, -⟩ := assigned
    rw [launches, List.mem_singleton] at launched
    obtain rfl : job = 1 := congrArg Prod.fst launched
    rw [status] at running
    exact absurd running (by decide)

end Amester.Job
