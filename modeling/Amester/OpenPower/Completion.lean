/-
# What becomes of the requests handed to the openpower worker

A request leaves the in-progress slot when the object takes the worker's result
for it. Two things go wrong on the way. The worker sends nothing when its tool
cannot be started, so the slot stays taken. The object frees the slot before it
reads the result, so a result that cannot be read costs the request its
callback. The result here is that these are the only two: the runs in which
every step keeps the requests are exactly those in which every tool starts and
every result that is taken is empty or readable.
-/

import Amester.Lib.EventMachine
import Amester.OpenPower.Worker

namespace Amester.OpenPower

open BinaryFormat PriorityQueue EventMachine
open ListFormat (joined)

universe u

variable {κ : Type u}

/-! ## Runs

The environment queues requests, lets the worker run its tool and lets the
object take the results, in any order. -/

/-- A session together with the requests it has accepted. -/
structure World (κ : Type u) where
  session : State κ := {}
  accepted : List (Item κ) := []

/-- What the two event loops can call next. -/
inductive Event (κ : Type u)
  | ipmiQueue (r : Request κ)
  | ipmiHealth
  | ipmi (run : ToolRun)
  | ipmiProcess
  | network (on : Bool)
  | configure (timeout : ℤ)

/-- The object takes the oldest result. -/
def takeResult (interp : Interp) (s : State κ) : Outcome (State κ) :=
  match s.results with
  | [] => .ok s
  | (tag, result) :: results => ipmiProcess interp tag result { s with results := results }

def World.step (interp : Interp) (w : World κ) : Event κ → World κ
  | .ipmiQueue r =>
    ⟨ipmiQueue r .back w.session, r.item w.session.name w.session.timeout :: w.accepted⟩
  | .ipmiHealth => { w with session := ipmiHealth w.session }
  | .ipmi run => { w with session := ipmi interp run w.session }
  | .ipmiProcess => { w with session := (takeResult interp w.session).state }
  | .network on => { w with session := { w.session with network := on } }
  | .configure timeout => { w with session := { w.session with timeout := timeout } }

/-- The worker needs a job and the object a result. -/
def World.admissible (w : World κ) : Event κ → Prop
  | .ipmi _ => w.session.worker ≠ []
  | .ipmiProcess => w.session.results ≠ []
  | .ipmiQueue _ | .ipmiHealth | .network _ | .configure _ => True

instance (w : World κ) : DecidablePred w.admissible
  | .ipmi _ => inferInstanceAs (Decidable (w.session.worker ≠ []))
  | .ipmiProcess => inferInstanceAs (Decidable (w.session.results ≠ []))
  | .ipmiQueue _ | .ipmiHealth | .network _ | .configure _ => isTrue trivial

def machine (interp : Interp) (κ : Type u) : Machine (World κ) (Event κ) :=
  ⟨World.admissible, World.step interp⟩

instance (interp : Interp) (w : World κ) : DecidablePred ((machine interp κ).admissible w) :=
  inferInstanceAs (DecidablePred w.admissible)

/-- Where the accepted requests are: waiting, in progress, answered. -/
def State.accounts (s : State κ) : List (Item κ) := s.places s.answered

/-- The object takes this result for this message in progress. -/
def Event.Completes (s : State κ) (e : InProgress κ) (result : Text) : Event κ → Prop
  | .ipmiProcess => e ∈ s.inprogress ∧ s.results.head? = some (e.tag, result)
  | _ => False

/-- What a step should do. -/
structure Kept (interp : Interp) (w : World κ) (event : Event κ) : Prop where
  /-- The accepted requests are waiting, in progress or answered, each once. -/
  conserved : (w.step interp event).accepted.Perm (w.step interp event).session.accounts
  /-- Once the worker is done and its results are taken, nothing is in progress. -/
  settled : (w.step interp event).session.worker = [] →
    (w.step interp event).session.results = [] →
    (w.step interp event).session.inprogress = []
  /-- A message with an empty result is back on the queue as it was, or already
  handed on again. -/
  reposted : ∀ e, event.Completes w.session e [] →
    (w.step interp event).session.answered = w.session.answered ∧
      e.toItem ∈ (w.step interp event).session.ipmiMsgq ++
        (w.step interp event).session.inprogress.map InProgress.toItem
  /-- A message with any other result has its callback run, with a status and
  data. -/
  completed : ∀ e result, event.Completes w.session e result → result ≠ [] →
    ∃ status databytes, .answered e.toItem status databytes ∈
        (w.step interp event).session.effects ∧
      (w.step interp event).session.answered = w.session.answered ++ [e.toItem]
  /-- The callback of a request runs once at most. -/
  once : (w.step interp event).accepted.Nodup → (w.step interp event).session.answered.Nodup

/-- When a step does it. -/
structure Condition (interp : Interp) (w : World κ) (event : Event κ) : Prop where
  /-- The tool can be started. -/
  starts : event ≠ .ipmi .cannotStart
  /-- The result that is taken is empty or can be read. -/
  reads : ∀ e result, event.Completes w.session e result → result ≠ [] →
    (interp.decode result).isSome

/-- The message in progress is with the worker, or its result is on the way. -/
inductive InFlight (s : State κ) : Prop
  | idle (inprogress : s.inprogress = []) (worker : s.worker = []) (results : s.results = [])
  | working (e : InProgress κ) (inprogress : s.inprogress = [e])
    (worker : s.worker = [jobOf e.toItem]) (results : s.results = [])
  | returning (e : InProgress κ) (result : Text) (inprogress : s.inprogress = [e])
    (worker : s.worker = []) (results : s.results = [(e.tag, result)])

theorem InFlight.congr {s t : State κ} (h : InFlight s) (inprogress : t.inprogress = s.inprogress)
    (worker : t.worker = s.worker) (results : t.results = s.results) : InFlight t := by
  cases h with
  | idle hempty hworker hresults =>
      exact .idle (inprogress.trans hempty) (worker.trans hworker) (results.trans hresults)
  | working e htable hworker hresults =>
      exact .working e (inprogress.trans htable) (worker.trans hworker) (results.trans hresults)
  | returning e result htable hworker hresults =>
      exact .returning e result (inprogress.trans htable) (worker.trans hworker)
        (results.trans hresults)

/-- The invariant of the runs that satisfy the condition. -/
structure Inv (w : World κ) : Prop where
  books : Books (fun item => item.tag = w.session.name) w.accepted w.session.answered
    w.session.toMessageQueue
  flight : InFlight w.session

/-! ## The steps -/

theorem sendToWorker_answered (s : State κ) (item : Item κ) (rest : List (Item κ)) :
    (s.sendToWorker item rest).answered = s.answered := by
  simp [State.answered, State.sendToWorker, State.emit, Effect.answered?]

/-- A dequeue changes no answer. -/
theorem ipmiDequeue_answered (s : State κ) : (ipmiDequeue s).answered = s.answered := by
  unfold ipmiDequeue
  split
  · rfl
  · split
    · rfl
    · split
      · rfl
      · exact sendToWorker_answered s _ _

/-- With the slot empty and nothing in flight, a dequeue keeps the invariant. -/
theorem ipmiDequeue_inv {w : World κ} (h : Inv w) :
    Inv { w with session := ipmiDequeue w.session } := by
  unfold ipmiDequeue
  split
  · exact h
  · split
    · exact h
    · rename_i item rest hmsgq
      split
      · exact h
      · rename_i hnone
        have hname : item.tag = w.session.name := h.books.waiting item (by simp [hmsgq])
        obtain ⟨hempty, hworker, hresults⟩ : w.session.inprogress = [] ∧
            w.session.worker = [] ∧ w.session.results = [] := by
          cases h.flight with
          | idle hempty hworker hresults => exact ⟨hempty, hworker, hresults⟩
          | working e htable | returning e result htable =>
              have htag : e.tag = w.session.name := h.books.pending e (by simp [htable])
              refine absurd ?_ hnone
              simp [lookupTag, htable, htag, hname]
        refine ⟨?_, ?_⟩
        · have hanswered := sendToWorker_answered w.session item rest
          simp only [hanswered]
          exact h.books.dispatch (e := { item with after := none }) hmsgq hempty
        · refine .working { item with after := none } ?_ ?_ hresults
          · simp [State.sendToWorker, State.emit, MessageQueue.dispatch, hempty]
          · simp [State.sendToWorker, State.emit, hworker]

theorem ipmiQueue_inv {w : World κ} (h : Inv w) {r : Request κ} {item : Item κ}
    (hitem : r.item w.session.name w.session.timeout = item) (position : Position) :
    Inv ⟨ipmiQueue r position w.session, item :: w.accepted⟩ := by
  subst hitem
  have hqueued : Inv (⟨w.session.enqueueMessage position
      (r.item w.session.name w.session.timeout),
      r.item w.session.name w.session.timeout :: w.accepted⟩ : World κ) := by
    exact ⟨h.books.insertMessage rfl position, h.flight.congr rfl rfl rfl⟩
  unfold ipmiQueue
  split
  · exact ipmiDequeue_inv hqueued
  · exact hqueued

theorem Inv.of_perm {s : State κ} {accepted accepted' : List (Item κ)}
    (h : Inv (⟨s, accepted⟩ : World κ)) (perm : accepted.Perm accepted') :
    Inv (⟨s, accepted'⟩ : World κ) :=
  ⟨{ h.books with conserved := perm.symm.trans h.books.conserved }, h.flight⟩

theorem emit_answered (s : State κ) (item : Item κ) (status : Text) (databytes : Bytes) :
    (s.emit (.answered item status databytes)).answered = s.answered ++ [item] := by
  simp [State.answered, State.emit, Effect.answered?]

/-- Running the callback of a message that is in no other place. -/
theorem Inv.emit {s : State κ} {accepted : List (Item κ)} (h : Inv (⟨s, accepted⟩ : World κ))
    (item : Item κ) (status : Text) (databytes : Bytes) :
    Inv (⟨s.emit (.answered item status databytes), item :: accepted⟩ : World κ) := by
  refine ⟨{ h.books with conserved := ?_ }, h.flight.congr rfl rfl rfl⟩
  have hanswered := emit_answered s item status databytes
  simp only [hanswered]
  refine (h.books.conserved.cons item).trans ?_
  simp only [MessageQueue.places, ← List.append_assoc]
  exact (List.perm_append_singleton item _).symm

/-- The session after its only result has been taken and the slot freed. -/
def State.freed (s : State κ) : State κ :=
  { s with toMessageQueue := ⟨s.ipmiMsgq, []⟩, results := [] }

/-- Freeing the slot takes the message in progress out of the books. -/
theorem freed_inv {w : World κ} (h : Inv w) {e : InProgress κ}
    (inprogress : w.session.inprogress = [e]) (worker : w.session.worker = []) :
    Inv ⟨w.session.freed, w.session.freed.accounts⟩ ∧
      (e.toItem :: w.session.freed.accounts).Perm w.accepted := by
  refine ⟨⟨⟨List.Perm.refl _, Or.inl rfl, h.books.waiting, nofun, h.books.sorted⟩, ?_⟩, ?_⟩
  · exact .idle rfl worker rfl
  · refine List.Perm.trans ?_ h.books.conserved.symm
    simp only [State.accounts, MessageQueue.places, State.freed, inprogress,
      List.map_nil, List.map_cons, List.append_nil, List.append_assoc, List.cons_append,
      List.nil_append]
    exact List.perm_middle.symm

/-- What taking the result of the message in progress comes to. -/
theorem takeResult_eq (interp : Interp) {s : State κ} {e : InProgress κ} {result : Text}
    (inprogress : s.inprogress = [e]) (results : s.results = [(e.tag, result)]) :
    takeResult interp s =
      if result = [] then .ok (ipmiQueue e.repost .back s.freed)
      else
        match interp.decode result with
        | some (status, databytes) =>
          .ok ((ipmiDequeue s.freed).emit (.answered e.toItem status databytes))
        | none => .raise (ipmiDequeue s.freed) "result cannot be read" := by
  have hlookup : lookupTag e.tag s.inprogress = some e := by simp [lookupTag, inprogress]
  have hfreed : ({ s with results := [] } : State κ).unsetInprogress e.tag = s.freed := by
    simp [State.unsetInprogress, MessageQueue.remove, unsetTag, inprogress, State.freed]
  by_cases hempty : result = []
  · simp [takeResult, results, ipmiProcess, hlookup, hfreed, hempty]
  · cases hdecode : interp.decode result with
    | none => simp [takeResult, results, ipmiProcess, hlookup, hfreed, hempty, hdecode]
    | some read => simp [takeResult, results, ipmiProcess, hlookup, hfreed, hempty, hdecode]

theorem takeResult_of_empty (interp : Interp) {s : State κ} {e : InProgress κ}
    (inprogress : s.inprogress = [e]) (results : s.results = [(e.tag, [])]) :
    (takeResult interp s).state = ipmiQueue e.repost .back s.freed := by
  rw [takeResult_eq interp inprogress results, if_pos rfl]
  rfl

theorem takeResult_of_read {interp : Interp} {s : State κ} {e : InProgress κ} {result : Text}
    (inprogress : s.inprogress = [e]) (results : s.results = [(e.tag, result)])
    (nonempty : result ≠ []) {status : Text} {databytes : Bytes}
    (decode : interp.decode result = some (status, databytes)) :
    (takeResult interp s).state =
      (ipmiDequeue s.freed).emit (.answered e.toItem status databytes) := by
  rw [takeResult_eq interp inprogress results, if_neg nonempty, decode]
  rfl

theorem takeResult_of_unread {interp : Interp} {s : State κ} {e : InProgress κ} {result : Text}
    (inprogress : s.inprogress = [e]) (results : s.results = [(e.tag, result)])
    (nonempty : result ≠ []) (decode : interp.decode result = none) :
    (takeResult interp s).state = ipmiDequeue s.freed := by
  rw [takeResult_eq interp inprogress results, if_neg nonempty, decode]
  rfl

/-- Reposting the message in progress rebuilds its item. -/
theorem Inv.repost_item {w : World κ} (h : Inv w) {e : InProgress κ}
    (inprogress : w.session.inprogress = [e]) :
    e.repost.item w.session.name w.session.timeout = e.toItem := by
  have hname : e.tag = w.session.name := h.books.pending e (by simp [inprogress])
  rw [← hname]
  exact InProgress.repost_item e w.session.timeout

/-- The message in progress and the result that completes it. -/
theorem completes_iff {w : World κ} {e e' : InProgress κ} {result result' : Text}
    (inprogress : w.session.inprogress = [e]) (results : w.session.results = [(e.tag, result)]) :
    Event.Completes w.session e' result' .ipmiProcess ↔ e' = e ∧ result' = result := by
  simp only [Event.Completes, inprogress, results, List.mem_singleton, List.head?_cons,
    Option.some.injEq, Prod.mk.injEq]
  constructor
  · rintro ⟨rfl, -, hresult⟩
    exact ⟨rfl, hresult.symm⟩
  · rintro ⟨rfl, rfl⟩
    exact ⟨rfl, rfl, rfl⟩

/-- A result can be taken only when the message in progress has come back. -/
theorem Inv.returning {w : World κ} (h : Inv w) (results : w.session.results ≠ []) :
    ∃ e result, w.session.inprogress = [e] ∧ w.session.worker = [] ∧
      w.session.results = [(e.tag, result)] := by
  cases h.flight with
  | idle hempty hworker hresults => exact absurd hresults results
  | working e htable hworker hresults => exact absurd hresults results
  | returning e result htable hworker hresults => exact ⟨e, result, htable, hworker, hresults⟩

/-- The worker can run only for the message in progress. -/
theorem Inv.working {w : World κ} (h : Inv w) (worker : w.session.worker ≠ []) :
    ∃ e, w.session.inprogress = [e] ∧ w.session.worker = [jobOf e.toItem] ∧
      w.session.results = [] := by
  cases h.flight with
  | idle hempty hworker hresults => exact absurd hworker worker
  | working e htable hworker hresults => exact ⟨e, htable, hworker, hresults⟩
  | returning e result htable hworker hresults => exact absurd hworker worker

/-- A tool that starts always has a result sent back. -/
theorem doipmi_isSome (longBits : ℕ) (run : ToolRun) :
    (doipmi longBits run).isSome ↔ run ≠ .cannotStart := by
  cases run with
  | cannotStart => simp [doipmi]
  | ran lines closeresult => simp [doipmi]

/-- A step that satisfies the condition keeps the invariant. -/
theorem step_inv (interp : Interp) (w : World κ) (event : Event κ) (h : Inv w)
    (admissible : w.admissible event) (condition : Condition interp w event) :
    Inv (w.step interp event) := by
  cases event with
  | ipmiQueue r => exact ipmiQueue_inv h rfl .back
  | ipmiHealth => exact ipmiDequeue_inv h
  | ipmi run =>
      obtain ⟨e, htable, hworker, hresults⟩ := h.working admissible
      have hstarts : run ≠ .cannotStart := by
        rintro rfl
        exact condition.starts rfl
      obtain ⟨result, hresult⟩ :=
        Option.isSome_iff_exists.mp ((doipmi_isSome interp.longBits run).mpr hstarts)
      have hipmi : ipmi interp run w.session =
          { w.session with worker := [], results := [(e.tag, result)] } := by
        simp [ipmi, hworker, hresult, hresults, jobOf]
      have hstep : w.step interp (.ipmi run) =
          { w with session := { w.session with worker := [], results := [(e.tag, result)] } } :=
        congrArg (fun s => ({ w with session := s } : World κ)) hipmi
      rw [hstep]
      exact ⟨h.books, .returning e result htable rfl rfl⟩
  | ipmiProcess =>
      obtain ⟨e, result, htable, hworker, hresults⟩ := h.returning admissible
      obtain ⟨hfreed, hperm⟩ := freed_inv h htable hworker
      change Inv ⟨(takeResult interp w.session).state, w.accepted⟩
      by_cases hempty : result = []
      · subst hempty
        rw [takeResult_of_empty interp htable hresults]
        exact (ipmiQueue_inv hfreed (h.repost_item htable) .back).of_perm hperm
      · have hreads := condition.reads e result ((completes_iff htable hresults).mpr ⟨rfl, rfl⟩)
          hempty
        obtain ⟨⟨status, databytes⟩, hdecode⟩ := Option.isSome_iff_exists.mp hreads
        rw [takeResult_of_read htable hresults hempty hdecode]
        exact ((ipmiDequeue_inv hfreed).emit e.toItem status databytes).of_perm hperm
  | network on => exact ⟨h.books, h.flight.congr rfl rfl rfl⟩
  | configure timeout => exact ⟨h.books, h.flight.congr rfl rfl rfl⟩

/-- Under the invariant nothing is in progress once the worker is done. -/
theorem Inv.settled {w : World κ} (h : Inv w) (worker : w.session.worker = [])
    (results : w.session.results = []) : w.session.inprogress = [] := by
  cases h.flight with
  | idle hempty hworker hresults => exact hempty
  | working e htable hworker hresults => simp [worker] at hworker
  | returning e result htable hworker hresults => simp [results] at hresults

/-- Only the taking of a result completes a message. -/
theorem completes_ipmiProcess {s : State κ} {e : InProgress κ} {result : Text}
    {event : Event κ} (completes : event.Completes s e result) : event = .ipmiProcess := by
  cases event with
  | ipmiProcess => rfl
  | ipmiQueue r => exact absurd completes id
  | ipmiHealth => exact absurd completes id
  | ipmi run => exact absurd completes id
  | network on => exact absurd completes id
  | configure timeout => exact absurd completes id

/-- A queued message waits or is in progress afterwards. -/
theorem ipmiQueue_mem {w : World κ} (h : Inv w) {r : Request κ} {item : Item κ}
    (hitem : r.item w.session.name w.session.timeout = item) (position : Position) :
    (ipmiQueue r position w.session).answered = w.session.answered ∧
      item ∈ (ipmiQueue r position w.session).ipmiMsgq ++
        (ipmiQueue r position w.session).inprogress.map InProgress.toItem := by
  have hanswered : (ipmiQueue r position w.session).answered = w.session.answered := by
    unfold ipmiQueue
    split
    · exact ipmiDequeue_answered _
    · rfl
  refine ⟨hanswered, ?_⟩
  have hafter := (ipmiQueue_inv h hitem position).books.conserved
  have hbefore := h.books.conserved
  simp only [hanswered, MessageQueue.places] at hafter
  simp only [MessageQueue.places] at hbefore
  have hwithout : (item :: (w.session.ipmiMsgq ++
      w.session.inprogress.map InProgress.toItem)).Perm
      ((ipmiQueue r position w.session).ipmiMsgq ++
        (ipmiQueue r position w.session).inprogress.map InProgress.toItem) :=
    (List.perm_append_right_iff w.session.answered).mp
      ((hbefore.symm.cons item).trans hafter)
  exact hwithout.subset List.mem_cons_self

/-- Under the invariant a step keeps the requests exactly when it satisfies the
condition. -/
theorem kept_iff (interp : Interp) (w : World κ) (event : Event κ) (h : Inv w)
    (admissible : w.admissible event) : Kept interp w event ↔ Condition interp w event := by
  constructor
  · intro hkept
    refine ⟨?_, ?_⟩
    · rintro rfl
      obtain ⟨e, htable, hworker, hresults⟩ := h.working admissible
      have hipmi : ipmi interp .cannotStart w.session = { w.session with worker := [] } := by
        simp [ipmi, hworker, doipmi]
      have hsettled := hkept.settled (congrArg State.worker hipmi)
        ((congrArg State.results hipmi).trans hresults)
      have hslot : (ipmi interp .cannotStart w.session).inprogress = [e] := by
        rw [hipmi]
        exact htable
      exact List.cons_ne_nil e [] (hslot.symm.trans hsettled)
    · intro e result hcompletes hresult
      obtain ⟨status, databytes, -, hanswered⟩ := hkept.completed e result hcompletes hresult
      obtain rfl := completes_ipmiProcess hcompletes
      obtain ⟨e', result', htable, hworker, hresults⟩ := h.returning admissible
      obtain ⟨rfl, rfl⟩ := (completes_iff htable hresults).mp hcompletes
      by_contra hunread
      have hdecode : interp.decode result = none := by simpa using hunread
      have hlost : (takeResult interp w.session).state.answered = w.session.answered := by
        rw [takeResult_of_unread htable hresults hresult hdecode]
        exact ipmiDequeue_answered w.session.freed
      have hsame : w.session.answered ++ [e.toItem] = w.session.answered :=
        hanswered.symm.trans hlost
      simp at hsame
  · intro hcondition
    have hinv := step_inv interp w event h admissible hcondition
    refine ⟨hinv.books.conserved, hinv.settled, ?_, ?_, ?_⟩
    · intro e hcompletes
      obtain rfl := completes_ipmiProcess hcompletes
      obtain ⟨e', result', htable, hworker, hresults⟩ := h.returning admissible
      obtain ⟨rfl, rfl⟩ := (completes_iff htable hresults).mp hcompletes
      obtain ⟨hfreed, -⟩ := freed_inv h htable hworker
      change (takeResult interp w.session).state.answered = w.session.answered ∧
        e.toItem ∈ (takeResult interp w.session).state.ipmiMsgq ++
          (takeResult interp w.session).state.inprogress.map InProgress.toItem
      rw [takeResult_of_empty interp htable hresults]
      exact ipmiQueue_mem hfreed (h.repost_item htable) .back
    · intro e result hcompletes hresult
      have hreads := hcondition.reads e result hcompletes hresult
      obtain rfl := completes_ipmiProcess hcompletes
      obtain ⟨e', result', htable, hworker, hresults⟩ := h.returning admissible
      obtain ⟨rfl, rfl⟩ := (completes_iff htable hresults).mp hcompletes
      obtain ⟨⟨status, databytes⟩, hdecode⟩ := Option.isSome_iff_exists.mp hreads
      have htake := takeResult_of_read htable hresults hresult hdecode
      refine ⟨status, databytes, ?_, ?_⟩
      · change _ ∈ (takeResult interp w.session).state.effects
        rw [htake]
        simp [State.emit]
      · change (takeResult interp w.session).state.answered = _
        rw [htake, emit_answered, ipmiDequeue_answered]
        rfl
    · intro hdistinct
      have hnodup := hinv.books.nodup hdistinct
      exact (List.nodup_append.mp hnodup).2.1

/-- A session as it is created, with any configuration. -/
structure State.Fresh (s : State κ) : Prop where
  queue : s.toMessageQueue = {}
  worker : s.worker = []
  results : s.results = []
  effects : s.effects = []

theorem fresh_inv {s : State κ} (fresh : s.Fresh) : Inv (⟨s, []⟩ : World κ) := by
  have hanswered : s.answered = [] := by simp [State.answered, fresh.effects]
  refine ⟨?_, .idle (by simp [fresh.queue]) fresh.worker fresh.results⟩
  simp only [hanswered, fresh.queue]
  exact Books.empty _

/-- The runs of a fresh session in which every step keeps the requests are exactly
the runs in which every tool starts and every result that is taken is empty or
can be read. -/
theorem tool_run_kept_iff (interp : Interp) {s : State κ} (fresh : s.Fresh)
    (events : List (Event κ)) (admits : (machine interp κ).Admits ⟨s, []⟩ events) :
    (machine interp κ).EachStep (Kept interp) ⟨s, []⟩ events ↔
      (machine interp κ).EachStep (Condition interp) ⟨s, []⟩ events :=
  (machine interp κ).eachStep_iff_of_invariant (step_inv interp) (kept_iff interp)
    (fresh_inv fresh) admits

/-- Queueing a request is never a problem. -/
theorem Condition.ipmiQueue (interp : Interp) (w : World κ) (r : Request κ) :
    Condition interp w (.ipmiQueue r) := ⟨nofun, fun _ _ => nofun⟩

/-- A tool that prints something may run. -/
theorem Condition.ipmi (interp : Interp) (w : World κ) (lines : List Text)
    (closeresult : Option Text) : Condition interp w (.ipmi (.ran lines closeresult)) :=
  ⟨nofun, fun _ _ => nofun⟩

/-- Bytes that the tool has printed may be taken. -/
theorem Condition.ipmiProcess (interp : Interp) {w : World κ} (tag : String) (bytes : Bytes)
    (results : w.session.results = [(tag, joined (bytes.map byteWord))]) :
    Condition interp w .ipmiProcess := by
  refine ⟨nofun, fun e result hcompletes hresult => ?_⟩
  obtain ⟨-, hhead⟩ := hcompletes
  simp only [results, List.head?_cons, Option.some.injEq, Prod.mk.injEq] at hhead
  obtain ⟨-, rfl⟩ := hhead
  cases bytes with
  | nil => exact absurd rfl hresult
  | cons b bytes => rw [interp.decode_bytes, Option.isSome_some]

def sampleRequest : Request ℕ :=
  ⟨⟨2, 0⟩, ⟨0, 0⟩, ⟨0, 0⟩, ⟨3, 10⟩, ⟨0, 13⟩, [0x41, 0x3c], some 5, 1, none⟩

/-- A tool prints nothing for a request, and then two bytes. -/
def repostedRun : List (Event ℕ) :=
  [.ipmiQueue sampleRequest, .ipmi (.ran [[]] none), .ipmiProcess,
    .ipmi (.ran [' ' :: joined ([0x41, 0x07].map hexPair), []] none), .ipmiProcess]

theorem tool_run_kept_iff_reposted :
    (machine hexInterp ℕ).EachStep (Kept hexInterp) ⟨{}, []⟩ repostedRun := by
  have admits : (machine hexInterp ℕ).Admits ⟨{}, []⟩ repostedRun := by decide +kernel
  refine (tool_run_kept_iff hexInterp ⟨rfl, rfl, rfl, rfl⟩ repostedRun admits).mpr ?_
  exact ⟨.ipmiQueue _ _ _, .ipmi _ _ _ _, .ipmiProcess _ "myopenpower" [] rfl, .ipmi _ _ _ _,
    .ipmiProcess _ "myopenpower" [0x41, 0x07] (by decide +kernel), trivial⟩

/-- The tool of a request cannot be started. -/
def unstartedRun : List (Event ℕ) := [.ipmiQueue sampleRequest, .ipmi .cannotStart]

/-- The tool of a request prints a word that is no number. -/
def unreadRun : List (Event ℕ) :=
  [.ipmiQueue sampleRequest, .ipmi (.ran [['E', 'r', 'r', 'o', 'r'], []] none), .ipmiProcess]

/-- A request stays in the slot when its tool cannot be started, and misses its
callback when its result cannot be read. -/
theorem failed_tools_lose_requests :
    ((machine hexInterp ℕ).Admits ⟨{}, []⟩ unstartedRun ∧
        ¬ (machine hexInterp ℕ).EachStep (Kept hexInterp) ⟨{}, []⟩ unstartedRun) ∧
      (machine hexInterp ℕ).Admits ⟨{}, []⟩ unreadRun ∧
        ¬ (machine hexInterp ℕ).EachStep (Kept hexInterp) ⟨{}, []⟩ unreadRun := by
  refine ⟨⟨by decide +kernel, fun hkept => ?_⟩, by decide +kernel, fun hkept => ?_⟩
  · obtain ⟨-, hlast, -⟩ := hkept
    have hsettled := hlast.settled (by decide +kernel) (by decide +kernel)
    revert hsettled
    decide +kernel
  · obtain ⟨-, -, hlast, -⟩ := hkept
    have hconserved := hlast.conserved.length_eq
    revert hconserved
    decide +kernel

end Amester.OpenPower
