/-
# Matching answers with requests in the openbmc session

The session matches a completed post with the message in progress by position
only, and it looks at nothing but the token when it closes. So three things can
go wrong: a post completes after its message has left the slot, a close finds a
message in progress and no token, and a message that cannot be sent interrupts
the dequeue between clearing a slot and running its callback. The result here
is that nothing else can go wrong: the runs in which every step matches are
exactly the runs that avoid these three.

Requests are told apart by what they carry; a callback may hold whatever
identifies its request.
-/

import Amester.Lib.EventMachine
import Amester.OpenBmc.Books

namespace Amester.OpenBmc

open BinaryFormat PriorityQueue EventMachine

universe u

variable {κ : Type u}

/-! ## Runs

The environment queues requests, lets timers fire, logs in, and completes posts
in any order, each once, with any reply. -/

/-- A session together with the requests it has accepted. -/
structure World (κ : Type u) where
  session : State κ := {}
  accepted : List (Item κ) := []

/-- What the event loop can call next. -/
inductive Event (κ : Type u)
  | ipmiQueue (r : Request κ) (result : SendResult)
  | ipmiDequeue (result : SendResult)
  | openbmcProcess (token : ℕ) (reply : HttpReply) (result : SendResult)
  | openbmcTimeout (connected : Bool)
  | openbmcClose
  | openbmcOpen (connected : Bool)
  | ipmiHealth (result : SendResult) (connected : Bool)
  | network (on : Bool)
  | configure (timeout : ℤ)

/-- The library forgets a post that has completed. -/
def State.completed (s : State κ) (token : ℕ) : State κ :=
  { s with http := s.http.filter fun post => post.1 ≠ token }

/-- A close posts nothing, so how a post would end does not matter there. -/
def World.step (w : World κ) (event : Event κ) : World κ :=
  if w.session.exited then w
  else
    match event with
    | .ipmiQueue r result =>
      ⟨(ipmiQueue result r .back w.session).state, r.item "0" w.session.timeout :: w.accepted⟩
    | .ipmiDequeue result => { w with session := (ipmiDequeue result w.session).state }
    | .openbmcProcess token reply result =>
      match w.session.http.lookup token with
      | none => w
      | some origin =>
        { w with
          session := (openbmcProcess result origin reply (w.session.completed token)).state }
    | .openbmcTimeout connected =>
      { w with session := (openbmcTimeout .failed connected w.session).state }
    | .openbmcClose => { w with session := (openbmcClose .failed w.session).state }
    | .openbmcOpen connected => { w with session := openbmcOpen connected w.session }
    | .ipmiHealth result connected =>
      { w with session := (ipmiHealth result connected w.session).state }
    | .network on => { w with session := { w.session with network := on } }
    | .configure timeout => { w with session := { w.session with timeout := timeout } }

/-- A new post has a token of its own. -/
def SendResult.Fresh (s : State κ) : SendResult → Prop
  | .started token => token ≠ 0 ∧ token ∉ s.http.map Prod.fst
  | .failed => True

/-- Timeouts are positive, tokens are new, and only a post completes. -/
def World.admissible (w : World κ) : Event κ → Prop
  | .ipmiQueue r result => 0 < r.timeout.getD w.session.timeout ∧ result.Fresh w.session
  | .ipmiDequeue result | .ipmiHealth result _ => result.Fresh w.session
  | .openbmcProcess token _ result =>
    token ∈ w.session.http.map Prod.fst ∧ result.Fresh w.session
  | .openbmcTimeout _ | .openbmcClose | .openbmcOpen _ | .network _ | .configure _ => True

instance (s : State κ) : DecidablePred (SendResult.Fresh s)
  | .started token => inferInstanceAs (Decidable (token ≠ 0 ∧ token ∉ s.http.map Prod.fst))
  | .failed => isTrue trivial

instance (w : World κ) : DecidablePred w.admissible
  | .ipmiQueue r result =>
    inferInstanceAs (Decidable (0 < r.timeout.getD w.session.timeout ∧
      result.Fresh w.session))
  | .ipmiDequeue result | .ipmiHealth result _ =>
    inferInstanceAs (Decidable (result.Fresh w.session))
  | .openbmcProcess token _ result =>
    inferInstanceAs (Decidable (token ∈ w.session.http.map Prod.fst ∧
      result.Fresh w.session))
  | .openbmcTimeout _ | .openbmcClose | .openbmcOpen _ | .network _ | .configure _ => isTrue trivial

def machine (κ : Type u) : Machine (World κ) (Event κ) := ⟨World.admissible, World.step⟩

instance (w : World κ) : DecidablePred ((machine κ).admissible w) :=
  inferInstanceAs (DecidablePred w.admissible)

/-- The event closes the session. -/
def Event.Closes (s : State κ) : Event κ → Prop
  | .openbmcTimeout _ | .openbmcClose => True
  | .ipmiHealth _ _ =>
    s.ipmiHealthPeriod ≠ 0 ∧ (s.openbmcStatus = .timeout ∨ s.openbmcStatus = .error)
  | _ => False

/-- What a step should do. -/
structure Matched (w : World κ) (event : Event κ) : Prop where
  /-- Every answer comes from the post of the message it is given to. -/
  own : (w.step event).session.OwnAnswers
  /-- The accepted requests are waiting, in progress or answered, each once. -/
  conserved : (w.step event).accepted.Perm (w.step event).session.places
  /-- A post that completes while its message is not in progress changes nothing. -/
  late : ∀ token reply result origin, event = .openbmcProcess token reply result →
    w.session.http.lookup token = some origin →
    (∀ e ∈ w.session.inprogress, e.toItem ≠ origin) →
    w.step event = { w with session := w.session.completed token }
  /-- A close leaves nothing in progress. -/
  closed : event.Closes w.session →
    (w.step event).session.inprogress = [] ∧ (w.step event).session.inprogressQ = []

/-- The event looks at the queue of a session whose slot may be empty. -/
def Event.Dequeues (s : State κ) : Event κ → Prop
  | .ipmiDequeue _ => True
  | .ipmiHealth _ _ => s.ipmiHealthPeriod ≠ 0 ∧ s.openbmcStatus = .connected
  | _ => False

/-- When a step does it. -/
structure Condition (w : World κ) (event : Event κ) : Prop where
  /-- A dequeue does not answer a message on the spot ahead of one that cannot be
  sent. -/
  dequeues : event.Dequeues w.session → w.session.lost = []
  /-- A completed post is harmless. -/
  completes : ∀ token reply result origin, event = .openbmcProcess token reply result →
    w.session.http.lookup token = some origin → w.session.Harmless origin reply
  /-- A close finds a token or an empty slot. -/
  closes : event.Closes w.session → w.session.openbmcSock = 0 → w.session.inprogress = []

/-! ## The steps -/

theorem Inv.completed {accepted : List (Item κ)} {s : State κ} (h : Inv accepted [] s)
    (token : ℕ) : Inv accepted [] (s.completed token) :=
  h.congr rfl rfl rfl rfl

/-- A step that satisfies the condition keeps the invariant. -/
theorem step_inv (w : World κ) (event : Event κ) (h : Inv w.accepted [] w.session)
    (admissible : w.admissible event) (condition : Condition w event) :
    Inv (w.step event).accepted [] (w.step event).session := by
  unfold World.step
  rw [if_neg (by simp [h.running])]
  cases event with
  | ipmiQueue r result => exact ipmiQueue_inv h admissible.1 result .back
  | ipmiDequeue result => exact ipmiDequeue_inv h (condition.dequeues trivial) result
  | openbmcProcess token reply result =>
      simp only
      cases hlookup : w.session.http.lookup token with
      | none => exact h
      | some origin =>
          have hharmless := condition.completes token reply result origin rfl hlookup
          exact openbmcProcess_inv (h.completed token) hharmless result
  | openbmcTimeout connected => exact openbmcTimeout_inv h .failed connected
  | openbmcClose => exact openbmcClose_inv h .failed
  | openbmcOpen connected => exact openbmcOpen_inv h connected
  | ipmiHealth result connected =>
      exact ipmiHealth_inv h (fun hconnected => condition.dequeues hconnected) result connected
  | network on => exact h.congr rfl rfl rfl rfl
  | configure timeout => exact h.congr rfl rfl rfl rfl

/-- The slot after an event that closes is empty exactly when the close finds a
token or an empty slot. -/
theorem closes_iff (w : World κ) (event : Event κ) (h : Inv w.accepted [] w.session)
    (closes : event.Closes w.session) :
    ((w.step event).session.inprogress = [] ∧ (w.step event).session.inprogressQ = []) ↔
      (w.session.openbmcSock = 0 → w.session.inprogress = []) := by
  unfold World.step
  rw [if_neg (by simp [h.running])]
  cases event with
  | openbmcTimeout connected =>
      obtain ⟨htable, htags⟩ := openbmcTimeout_slot h .failed connected
      simp only [htable, htags]
      exact openbmcClose_clears h .failed
  | openbmcClose => exact openbmcClose_clears h .failed
  | ipmiHealth result connected =>
      simp only [ipmiHealth_closes closes.1 closes.2]
      exact openbmcClose_clears h.restartHealth result
  | ipmiQueue r result => exact absurd closes id
  | ipmiDequeue result => exact absurd closes id
  | openbmcProcess token reply result => exact absurd closes id
  | openbmcOpen connected => exact absurd closes id
  | network on => exact absurd closes id
  | configure timeout => exact absurd closes id

/-- An event that dequeues keeps the books exactly when it loses no answer. -/
theorem dequeues_iff (w : World κ) (event : Event κ) (h : Inv w.accepted [] w.session)
    (dequeues : event.Dequeues w.session) :
    (w.step event).accepted.Perm (w.step event).session.places ↔ w.session.lost = [] := by
  unfold World.step
  rw [if_neg (by simp [h.running])]
  cases event with
  | ipmiDequeue result => exact (ipmiDequeue_spec h result).1.perm_iff
  | ipmiHealth result connected =>
      have hdequeue : ipmiHealth result connected w.session =
          ipmiDequeue result w.session.restartHealth := by
        simp [ipmiHealth, dequeues.1, dequeues.2]
      simp only [hdequeue]
      exact (ipmiDequeue_spec h.restartHealth result).1.perm_iff
  | ipmiQueue r result => exact absurd dequeues id
  | openbmcProcess token reply result => exact absurd dequeues id
  | openbmcTimeout connected => exact absurd dequeues id
  | openbmcClose => exact absurd dequeues id
  | openbmcOpen connected => exact absurd dequeues id
  | network on => exact absurd dequeues id
  | configure timeout => exact absurd dequeues id

/-- The step of a completed post. -/
theorem step_openbmcProcess {w : World κ} (h : Inv w.accepted [] w.session) {token : ℕ}
    {origin : Item κ} (post : w.session.http.lookup token = some origin) (reply : HttpReply)
    (result : SendResult) :
    w.step (.openbmcProcess token reply result) =
      { w with
        session := (openbmcProcess result origin reply (w.session.completed token)).state } := by
  unfold World.step
  rw [if_neg (by simp [h.running])]
  simp only [post]

/-- Under the invariant a step matches exactly when it satisfies the condition. -/
theorem matched_iff (w : World κ) (event : Event κ) (h : Inv w.accepted [] w.session)
    (admissible : w.admissible event) : Matched w event ↔ Condition w event := by
  constructor
  · intro hmatched
    refine ⟨fun hdequeues => (dequeues_iff w event h hdequeues).mp hmatched.conserved, ?_,
      fun hcloses => (closes_iff w event h hcloses).mp (hmatched.closed hcloses)⟩
    rintro token reply result origin rfl hpost
    have hstep := step_openbmcProcess h hpost reply result
    have hown := hmatched.own
    have hconserved := hmatched.conserved
    rw [hstep] at hown hconserved
    refine harmless_of_openbmcProcess (h.completed token) hown hconserved fun hlate => ?_
    have hsame := hmatched.late token reply result origin rfl hpost hlate
    rw [hstep] at hsame
    exact congrArg World.session hsame
  · intro hcondition
    have hinv := step_inv w event h admissible hcondition
    refine ⟨hinv.own, hinv.perm_iff.mpr rfl, ?_,
      fun hcloses => (closes_iff w event h hcloses).mpr (hcondition.closes hcloses)⟩
    rintro token reply result origin rfl hpost hlate
    have hharmless := hcondition.completes token reply result origin rfl hpost
    rw [step_openbmcProcess h hpost reply result,
      openbmcProcess_late (h.completed token) hharmless hlate result]

/-- A session as it is created, with any configuration. -/
structure State.Fresh (s : State κ) : Prop where
  queue : s.toMessageQueue = {}
  inprogressQ : s.inprogressQ = []
  effects : s.effects = []
  exited : s.exited = false

theorem fresh_inv {s : State κ} (fresh : s.Fresh) : Inv [] [] s := by
  have hanswered : s.answered = [] := by simp [State.answered, fresh.effects]
  refine ⟨?_, ?_, ?_, ?_, fresh.exited⟩
  · rw [fresh.queue, hanswered]
    exact Books.empty Timed
  · simp [fresh.queue, fresh.inprogressQ]
  · simp [fresh.queue]
  · simp [State.OwnAnswers, fresh.effects]

/-- The runs of a fresh session in which every step matches answers with their
requests are exactly the runs whose steps satisfy the condition. -/
theorem matched_run_iff {s : State κ} (fresh : s.Fresh) (events : List (Event κ))
    (admits : (machine κ).Admits ⟨s, []⟩ events) :
    (machine κ).EachStep Matched ⟨s, []⟩ events ↔
      (machine κ).EachStep Condition ⟨s, []⟩ events := by
  have keeps : ∀ (w : World κ) (event : Event κ), Inv w.accepted [] w.session →
      w.admissible event → Condition w event →
      Inv (w.step event).accepted [] (w.step event).session := step_inv
  have exactly : ∀ (w : World κ) (event : Event κ), Inv w.accepted [] w.session →
      w.admissible event → (Matched w event ↔ Condition w event) := matched_iff
  exact (machine κ).eachStep_iff_of_invariant keeps exactly (fresh_inv fresh) admits

/-- A request for an OCC. -/
def sampleRequest : Request ℕ :=
  ⟨⟨0, 0⟩, ⟨0, 0⟩, ⟨0, 1⟩, ⟨3, 10⟩, ⟨3, 12⟩, [1, 2], some 5, 1, none⟩

/-- A reply with status 0 and one data byte. -/
def sampleReply : HttpReply := ⟨true, some [0, 0, 0, 0, 8, 7, 1, 2]⟩

/-- A request times out, is posted again, and is answered from its first post. -/
def repostedRun : List (Event ℕ) :=
  [.openbmcOpen true, .ipmiQueue sampleRequest (.started 1), .openbmcTimeout true,
    .ipmiDequeue (.started 2), .openbmcProcess 1 sampleReply .failed]

/-- Queueing a request is never a problem. -/
theorem Condition.ipmiQueue (w : World κ) (r : Request κ) (result : SendResult) :
    Condition w (.ipmiQueue r result) where
  dequeues := nofun
  completes _ _ _ _ hevent := nomatch hevent
  closes := nofun

/-- Neither is logging in. -/
theorem Condition.openbmcOpen (w : World κ) (connected : Bool) :
    Condition w (.openbmcOpen connected) where
  dequeues := nofun
  completes _ _ _ _ hevent := nomatch hevent
  closes := nofun

theorem Condition.ipmiDequeue {w : World κ} (keeps : w.session.lost = [])
    (result : SendResult) : Condition w (.ipmiDequeue result) where
  dequeues _ := keeps
  completes _ _ _ _ hevent := nomatch hevent
  closes := nofun

theorem Condition.openbmcTimeout {w : World κ} (token : w.session.openbmcSock ≠ 0)
    (connected : Bool) : Condition w (.openbmcTimeout connected) where
  dequeues := nofun
  completes _ _ _ _ hevent := nomatch hevent
  closes _ hsock := absurd hsock token

/-- A message in progress may be answered from its own post. -/
theorem Condition.openbmcProcess {w : World κ} {e : InProgress κ} {token : ℕ}
    (inprogress : w.session.inprogress = [e])
    (post : w.session.http.lookup token = some e.toItem) (flows : ¬ w.session.WouldStall)
    (reply : HttpReply) (result : SendResult) :
    Condition w (.openbmcProcess token reply result) := by
  refine ⟨nofun, ?_, nofun⟩
  rintro _ _ _ origin ⟨⟩ hpost
  exact Or.inr ⟨e, inprogress, fun _ => ⟨Option.some.inj (hpost.symm.trans post), flows⟩⟩

theorem matched_run_iff_reposted :
    (machine ℕ).EachStep Matched ⟨{}, []⟩ repostedRun := by
  have admits : (machine ℕ).Admits ⟨{}, []⟩ repostedRun := by decide +kernel
  refine (matched_run_iff ⟨rfl, rfl, rfl, rfl⟩ repostedRun admits).mpr ?_
  have hentry : ((machine ℕ).run ⟨{}, []⟩ (repostedRun.take 4)).session.inprogress =
      [{ sampleRequest.item "0" 120000 with after := some 2 }] := by decide +kernel
  exact ⟨.openbmcOpen _ _, .ipmiQueue _ _ _, .openbmcTimeout (by decide +kernel) _,
    .ipmiDequeue (by decide +kernel) _,
    .openbmcProcess hentry (by decide +kernel) (by decide +kernel) _ _, trivial⟩

/-- The second post of the request then completes too: with nothing in progress
the program exits. -/
theorem late_post_exits :
    (machine ℕ).Admits ⟨{}, []⟩
        (repostedRun ++ [.openbmcProcess 2 sampleReply .failed]) ∧
      ¬ (machine ℕ).EachStep Matched ⟨{}, []⟩
        (repostedRun ++ [.openbmcProcess 2 sampleReply .failed]) := by
  refine ⟨by decide +kernel, fun hmatched => ?_⟩
  obtain ⟨-, -, -, -, -, hlast, -⟩ := hmatched
  have hsame := hlast.late 2 sampleReply .failed (sampleRequest.item "0" 120000) rfl
    (by decide +kernel) (by decide +kernel)
  have hexited := congrArg (fun w => w.session.exited) hsame
  revert hexited
  decide +kernel

end Amester.OpenBmc
