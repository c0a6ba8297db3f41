/-
# When a priority queue is sorted

A queue can be sorted when an entry is put on it, or when an entry is taken off it.
The two schemes keep different lists: the lazy one keeps the entries as they were
inserted, at either end, since the last time something was taken. They take the same
entries off, because a stable sort keeps the order within each priority and all else
that it does is determined by the priorities.

What both of them do is described by one list for each priority: an entry is inserted
at an end of the list of its priority, and the first entry of the first list that is
not empty is taken off.

A host is known by its queue and by the functions that change it. Between two calls of
them the rest of its state may change in any way. A host that takes entries as one of the
schemes does follows the discipline in every run, and two such hosts take the entries that
they were given together at the same time.
-/

import Amester.Lib.PriorityQueue
import Mathlib.Logic.Function.Basic

namespace PriorityQueue

universe u v w

variable {α : Type u} {κ : Type v} [LinearOrder κ] (priority : α → κ)

/-! ## Sorted lists are determined by their priorities -/

theorem insertAt_filter (keep : α → Bool) (position : Position) (x : α) (queue : List α) :
    (insertAt position x queue).filter keep =
      if keep x then insertAt position x (queue.filter keep) else queue.filter keep := by
  cases position with
  | front =>
      rw [insertAt, List.filter_cons]
      rfl
  | back =>
      rw [insertAt, List.filter_append, List.filter_singleton]
      cases keep x with
      | true => rfl
      | false => exact List.append_nil _

/-- Two sorted lists with the same entries of each priority in the same order are the
same list. -/
theorem sorted_ext {first second : List α} (hfirst : Sorted priority first)
    (hsecond : Sorted priority second)
    (same : ∀ p, first.filter (fun y => priority y = p) =
      second.filter fun y => priority y = p) : first = second := by
  induction first generalizing second with
  | nil =>
      cases second with
      | nil => rfl
      | cons y second =>
          have hsame := same (priority y)
          simp at hsame
  | cons x first ih =>
      cases second with
      | nil =>
          have hsame := same (priority x)
          simp at hsame
      | cons y second =>
          have hle : ∀ {x y : α} {first second : List α}, Sorted priority (y :: second) →
              (x :: first).filter (fun z => priority z = priority x) =
                (y :: second).filter (fun z => priority z = priority x) →
              priority y ≤ priority x := by
            intro x y first second hsorted hsame
            have hmem : x ∈ (y :: second).filter fun z => priority z = priority x := by
              rw [← hsame]
              simp
            obtain rfl | hmem := List.mem_cons.mp (List.mem_filter.mp hmem).1
            · exact le_refl _
            · exact List.rel_of_pairwise_cons hsorted hmem
          have hpriority : priority x = priority y :=
            le_antisymm (hle hfirst (same (priority y)).symm) (hle hsecond (same (priority x)))
          have hhead := same (priority x)
          rw [List.filter_cons_of_pos (by simp), List.filter_cons_of_pos (by simp [hpriority]),
            List.cons.injEq] at hhead
          obtain rfl := hhead.1
          congr 1
          refine ih hfirst.of_cons hsecond.of_cons fun p => ?_
          have hsame := same p
          rw [List.filter_cons, List.filter_cons] at hsame
          split at hsame
          · exact (List.cons.inj hsame).2
          · exact hsame

/-- Sorting before an insertion makes no difference after it. -/
theorem enqueue_sort (position : Position) (x : α) (queue : List α) :
    enqueue priority position x (sort priority queue) =
      sort priority (insertAt position x queue) := by
  refine sorted_ext priority (enqueue_sorted priority _ _ _) (sort_sorted priority _) fun p => ?_
  rw [enqueue, sort_filter, sort_filter, insertAt_filter, insertAt_filter, sort_filter]

theorem length_sort (queue : List α) : (sort priority queue).length = queue.length :=
  (sort_perm priority queue).length_eq

/-! ## The schemes -/

/-- What is done to the list when an entry is put on it, and before one is taken off. -/
structure Scheme (α : Type u) where
  insert : Position → α → List α → List α
  look : List α → List α

/-- Insert, and sort before an entry is taken off. -/
def lazyScheme : Scheme α := ⟨insertAt, sort priority⟩

/-- Insert and sort. -/
def eagerScheme : Scheme α := ⟨enqueue priority, id⟩

/-- The lists that a scheme keeps. They sort as if all was only inserted, and they are looked
at sorted. -/
structure Scheme.Keeps (scheme : Scheme α) (kept : List α → Prop) : Prop where
  empty : kept []
  insert : ∀ position x queue, kept queue → kept (scheme.insert position x queue)
  sorted : ∀ queue, Sorted priority queue → kept queue
  look : ∀ queue, kept queue → scheme.look queue = sort priority queue
  sort_insert : ∀ position x queue,
    sort priority (scheme.insert position x queue) = sort priority (insertAt position x queue)

theorem lazyScheme_keeps : (lazyScheme priority).Keeps priority fun _ => True where
  empty := trivial
  insert _ _ _ _ := trivial
  sorted _ _ := trivial
  look _ _ := rfl
  sort_insert _ _ _ := rfl

theorem eagerScheme_keeps : (eagerScheme priority).Keeps priority (Sorted priority) where
  empty := List.Pairwise.nil
  insert position x queue _ := enqueue_sorted priority position x queue
  sorted _ h := h
  look _ h := (sort_eq_self priority h).symm
  sort_insert _ _ _ := sort_eq_self priority (sort_sorted priority _)

/-- How a dequeue leaves a queue. A host that is not ready for the first entry takes nothing.
One that is takes this entry, and if it is answered on the spot, perhaps others behind it. -/
inductive Scheme.Dequeued (scheme : Scheme α) (ready : α → Prop) (spot : α → Bool)
    (before after : List α) : Prop
  | nothing (empty : before = []) (same : after = [])
  | blocked {x : α} {rest : List α} (queue : scheme.look before = x :: rest)
    (notReady : ¬ready x) (same : after = before ∨ after = x :: rest)
  | took {x : α} {more : List α} (queue : scheme.look before = x :: (more ++ after))
    (isReady : ready x) (single : spot x = false → more = [])

/-- It takes just the first entry. -/
theorem Scheme.Dequeued.single {scheme : Scheme α} {ready : α → Prop} {spot : α → Bool}
    {before after : List α} {x : α} (queue : scheme.look before = x :: after)
    (isReady : ready x) : scheme.Dequeued ready spot before after := by
  have hlook : scheme.look before = x :: ([] ++ after) := queue
  exact .took hlook isReady fun _ => rfl

/-- What happens to an entry. -/
inductive QueueEvent (α : Type u)
  | inserted (position : Position) (x : α)
  | taken (x : α)
  deriving DecidableEq

def QueueEvent.map {β : Type v} (f : α → β) : QueueEvent α → QueueEvent β
  | .inserted position x => .inserted position (f x)
  | .taken x => .taken (f x)

/-! ## One list for each priority -/

/-- The waiting entries of each priority. -/
abbrev Classes (α : Type u) (κ : Type v) := κ → List α

/-- The entries of each priority of a list. -/
def classes (queue : List α) : Classes α κ := fun p => queue.filter fun y => priority y = p

/-- An entry is inserted at an end of its class. -/
def Classes.insert (position : Position) (x : α) (c : Classes α κ) : Classes α κ :=
  Function.update c (priority x) (insertAt position x (c (priority x)))

/-- The first entry of the first class that is not empty is taken. -/
structure Classes.Takes (c : Classes α κ) (x : α) (c' : Classes α κ) : Prop where
  head : c (priority x) = x :: c' (priority x)
  first : ∀ p < priority x, c p = []
  others : ∀ p, p ≠ priority x → c' p = c p

/-- The events follow the discipline and end with these classes. -/
def Follows : Classes α κ → List (QueueEvent α) → Classes α κ → Prop
  | c, [], c' => c = c'
  | c, .inserted position x :: events, c' => Follows (c.insert priority position x) events c'
  | c, .taken x :: events, c' => ∃ d, c.Takes priority x d ∧ Follows d events c'

theorem Follows.append {c d c' : Classes α κ} {first second : List (QueueEvent α)}
    (hfirst : Follows priority c first d) (hsecond : Follows priority d second c') :
    Follows priority c (first ++ second) c' := by
  induction first generalizing c with
  | nil =>
      obtain rfl : c = d := hfirst
      exact hsecond
  | cons event first ih =>
      cases event with
      | inserted position x => exact ih hfirst
      | taken x =>
          obtain ⟨e, htakes, hrest⟩ := hfirst
          exact ⟨e, htakes, ih hrest⟩

theorem classes_insertAt (position : Position) (x : α) (queue : List α) :
    classes priority (insertAt position x queue) =
      (classes priority queue).insert priority position x := by
  funext p
  rw [classes, insertAt_filter]
  by_cases hp : priority x = p
  · subst hp
    simp [Classes.insert, classes]
  · simp [Classes.insert, classes, hp, Function.update_of_ne (Ne.symm hp)]

theorem classes_sort (queue : List α) :
    classes priority (sort priority queue) = classes priority queue := by
  funext p
  exact sort_filter priority p queue

/-- The head of a sorted list is what the discipline takes. -/
theorem takes_of_sorted {x : α} {rest : List α} (sorted : Sorted priority (x :: rest)) :
    (classes priority (x :: rest)).Takes priority x (classes priority rest) where
  head := by simp [classes]
  first p hp := by
    rw [classes, List.filter_eq_nil_iff]
    intro y hy
    have hle : priority x ≤ priority y := by
      obtain rfl | hy := List.mem_cons.mp hy
      · exact le_refl _
      · exact List.rel_of_pairwise_cons sorted hy
    simpa using (hp.trans_le hle).ne'
  others p hp := by
    simp [classes, hp.symm]

/-- The first entries of a sorted list are taken one after the other. -/
theorem follows_taken {more rest : List α} (sorted : Sorted priority (more ++ rest)) :
    Follows priority (classes priority (more ++ rest)) (more.map .taken)
      (classes priority rest) := by
  induction more with
  | nil => rfl
  | cons x more ih => exact ⟨_, takes_of_sorted priority sorted, ih sorted.of_cons⟩

/-! ## Two histories -/

section Together

variable {β : Type w} {priority} {priority' : β → κ}

/-- What two hosts can have in common: an entry of this priority is inserted here, or one is
taken. -/
def QueueEvent.shape (priority : α → κ) : QueueEvent α → Option (Position × κ)
  | .inserted position x => some (position, priority x)
  | .taken _ => none

/-- Two histories are one history of pairs, which follows the discipline: what is inserted at
the same time is taken at the same time. -/
def Together (priority : α → κ) (first : List (QueueEvent α)) (second : List (QueueEvent β)) :
    Prop :=
  ∃ (pairs : List (QueueEvent (α × β))) (c : Classes (α × β) κ),
    Follows (fun pair => priority pair.1) (fun _ => []) pairs c ∧
      pairs.map (QueueEvent.map Prod.fst) = first ∧ pairs.map (QueueEvent.map Prod.snd) = second

/-- The classes of two hosts whose waiting entries are paired. -/
structure Paired (c : Classes (α × β) κ) (first : Classes α κ) (second : Classes β κ) : Prop where
  first : ∀ p, first p = (c p).map Prod.fst
  second : ∀ p, second p = (c p).map Prod.snd

theorem insertAt_map {γ : Type w} (f : α → γ) (position : Position) (x : α) (queue : List α) :
    (insertAt position x queue).map f = insertAt position (f x) (queue.map f) := by
  cases position with
  | front => rfl
  | back => exact List.map_append

theorem Paired.insert {c : Classes (α × β) κ} {first : Classes α κ} {second : Classes β κ}
    (h : Paired c first second) (position : Position) {x : α} {y : β}
    (same : priority' y = priority x) :
    Paired (c.insert (fun pair => priority pair.1) position (x, y))
      (first.insert priority position x) (second.insert priority' position y) where
  first p := by
    by_cases hp : p = priority x
    · subst hp
      simp [Classes.insert, insertAt_map, h.first]
    · simp [Classes.insert, Function.update_of_ne hp, h.first]
  second p := by
    by_cases hp : p = priority x
    · subst hp
      simp [Classes.insert, insertAt_map, h.second, same]
    · have hp' : p ≠ priority' y := same ▸ hp
      simp [Classes.insert, Function.update_of_ne hp, Function.update_of_ne hp', h.second]

/-- What the two take is a pair. -/
theorem Paired.takes {c : Classes (α × β) κ} {first first' : Classes α κ}
    {second second' : Classes β κ} (h : Paired c first second) {x : α} {y : β}
    (hx : first.Takes priority x first') (hy : second.Takes priority' y second') :
    ∃ c', c.Takes (fun pair => priority pair.1) (x, y) c' ∧ Paired c' first' second' := by
  have hempty : ∀ p, first p = [] ↔ second p = [] := fun p => by
    rw [h.first, h.second, List.map_eq_nil_iff, List.map_eq_nil_iff]
  -- Both take from the first class with a waiting pair.
  have hnonempty : first (priority x) ≠ [] ∧ second (priority' y) ≠ [] := by
    rw [hx.head, hy.head]
    exact ⟨List.cons_ne_nil _ _, List.cons_ne_nil _ _⟩
  have hsame : priority x = priority' y := by
    refine le_antisymm (not_lt.mp fun hlt => ?_) (not_lt.mp fun hlt => ?_)
    · exact hnonempty.2 ((hempty _).mp (hx.first _ hlt))
    · exact hnonempty.1 ((hempty _).mpr (hy.first _ hlt))
  obtain ⟨pair, rest, hc⟩ := List.exists_cons_of_ne_nil
    (fun hnil => hnonempty.1 (by rw [h.first, hnil, List.map_nil]) : c (priority x) ≠ [])
  have hfirst := h.first (priority x)
  have hsecond := h.second (priority x)
  rw [hc, List.map_cons, hx.head, List.cons.injEq] at hfirst
  rw [hc, List.map_cons, hsame, hy.head, List.cons.injEq] at hsecond
  obtain rfl : pair = (x, y) := Prod.ext hfirst.1.symm hsecond.1.symm
  refine ⟨Function.update c (priority x) rest, ⟨by simpa using hc, fun p hp => ?_, fun p hp => ?_⟩,
    fun p => ?_, fun p => ?_⟩
  · have hnil := hx.first p hp
    rw [h.first] at hnil
    exact List.map_eq_nil_iff.mp hnil
  · exact Function.update_of_ne hp _ _
  · by_cases hp : p = priority x
    · rw [hp, Function.update_self]
      exact hfirst.2
    · rw [Function.update_of_ne hp, hx.others p hp]
      exact h.first p
  · by_cases hp : p = priority x
    · rw [hp, Function.update_self, hsame]
      exact hsecond.2
    · rw [Function.update_of_ne hp, hy.others p (hsame ▸ hp)]
      exact h.second p

/-- Histories of the same shape that follow the discipline have their entries in common. -/
theorem Follows.together {first : List (QueueEvent α)} {second : List (QueueEvent β)}
    {c₁ : Classes α κ} {c₂ : Classes β κ}
    (hfirst : Follows priority (fun _ => []) first c₁)
    (hsecond : Follows priority' (fun _ => []) second c₂)
    (same : first.map (QueueEvent.shape priority) = second.map (QueueEvent.shape priority')) :
    Together priority first second := by
  have hgeneral : ∀ {c : Classes (α × β) κ} {d₁ : Classes α κ} {d₂ : Classes β κ},
      Paired c d₁ d₂ → Follows priority d₁ first c₁ → Follows priority' d₂ second c₂ →
      ∃ (pairs : List (QueueEvent (α × β))) (c' : Classes (α × β) κ),
        Follows (fun pair => priority pair.1) c pairs c' ∧
          pairs.map (QueueEvent.map Prod.fst) = first ∧
          pairs.map (QueueEvent.map Prod.snd) = second := by
    clear hfirst hsecond
    induction first generalizing second with
    | nil =>
        intro c d₁ d₂ _ _ _
        rw [List.map_nil, eq_comm, List.map_eq_nil_iff] at same
        exact ⟨[], c, rfl, rfl, same.symm⟩
    | cons event first ih =>
        cases second with
        | nil => exact absurd same (List.cons_ne_nil _ _)
        | cons event' second =>
            rw [List.map_cons, List.map_cons, List.cons.injEq] at same
            obtain ⟨hevent, hrest⟩ := same
            intro c d₁ d₂ paired hfirst hsecond
            cases event with
            | inserted position x =>
                cases event' with
                | taken y => exact absurd hevent (Option.some_ne_none _)
                | inserted position' y =>
                    rw [QueueEvent.shape, QueueEvent.shape, Option.some.injEq,
                      Prod.mk.injEq] at hevent
                    obtain ⟨rfl, hpriority⟩ := hevent
                    obtain ⟨pairs, c', hpairs, rfl, rfl⟩ :=
                      ih hrest (paired.insert position hpriority.symm) hfirst hsecond
                    exact ⟨.inserted position (x, y) :: pairs, c', hpairs, rfl, rfl⟩
            | taken x =>
                cases event' with
                | inserted position y => exact absurd hevent.symm (Option.some_ne_none _)
                | taken y =>
                    obtain ⟨d₁', hx, hfirst⟩ := hfirst
                    obtain ⟨d₂', hy, hsecond⟩ := hsecond
                    obtain ⟨d, htakes, paired⟩ := paired.takes hx hy
                    obtain ⟨pairs, c', hpairs, rfl, rfl⟩ := ih hrest paired hfirst hsecond
                    exact ⟨.taken (x, y) :: pairs, c', ⟨d, htakes, hpairs⟩, rfl, rfl⟩
  exact hgeneral ⟨fun _ => rfl, fun _ => rfl⟩ hfirst hsecond

end Together

/-! ## Hosts -/

/-- A host's queue, its functions, and what they are gated by. Requests become entries. -/
structure QueueHost where
  State : Type u
  Request : Type u
  Entry : Type u
  priority : Entry → ℤ
  queue : State → List Entry
  entry : Request → State → Entry
  /-- Putting a request on the queue at this position can end in this state. -/
  enqueues : Position → Request → State → State → Prop
  dequeues : State → State → Prop
  /-- The host would take this entry if it were the first one. -/
  ready : State → Entry → Prop
  /-- The host answers this entry itself. -/
  spot : Entry → Bool

namespace QueueHost

/-- The functions treat the queue as the scheme does. A request that is alone on the queue is
taken off at once if the host is ready. -/
structure Obeys (host : QueueHost.{u}) (scheme : Scheme host.Entry) : Prop where
  dequeue : ∀ s t, host.dequeues s t →
    scheme.Dequeued (host.ready s) host.spot (host.queue s) (host.queue t)
  enqueue : ∀ position r s t, host.enqueues position r s t →
    if (scheme.insert position (host.entry r s) (host.queue s)).length = 1 then
      scheme.Dequeued (host.ready s) host.spot
        (scheme.insert position (host.entry r s) (host.queue s)) (host.queue t)
    else host.queue t = scheme.insert position (host.entry r s) (host.queue s)

/-- The entries that have left a queue, in the order in which it is sorted. -/
def left (host : QueueHost.{u}) (before after : List host.Entry) :
    List (QueueEvent host.Entry) :=
  ((sort host.priority before).take (before.length - after.length)).map .taken

/-- An operation, with whether the host is ready for the entry that is then the first. -/
inductive Operation
  | enqueue (position : Position) (priority : ℤ) (ready : Bool)
  | dequeue (ready : Bool)
  deriving DecidableEq

/-- What is said about the first entry of a queue. -/
def FirstReady (host : QueueHost.{u}) (s : host.State) (queue : List host.Entry)
    (ready : Bool) : Prop :=
  ∀ x ∈ (sort host.priority queue).head?, (ready = true ↔ host.ready s x)

/-- Runs of these operations in which this happens to the entries. Between the operations all
but the queue may change. -/
inductive Run (host : QueueHost.{u}) :
    host.State → List Operation → List (QueueEvent host.Entry) → host.State → Prop
  | done (s : host.State) : Run host s [] [] s
  | other {s t u : host.State} {operations : List Operation}
    {events : List (QueueEvent host.Entry)} (same : host.queue t = host.queue s)
    (run : Run host t operations events u) : Run host s operations events u
  | enqueue {s t u : host.State} {operations : List Operation}
    {events : List (QueueEvent host.Entry)} {position : Position} {r : host.Request}
    {ready : Bool} (step : host.enqueues position r s t)
    (first : host.FirstReady s (insertAt position (host.entry r s) (host.queue s)) ready)
    (run : Run host t operations events u) :
    Run host s (.enqueue position (host.priority (host.entry r s)) ready :: operations)
      (.inserted position (host.entry r s) ::
        (host.left (insertAt position (host.entry r s) (host.queue s)) (host.queue t) ++ events))
      u
  | dequeue {s t u : host.State} {operations : List Operation}
    {events : List (QueueEvent host.Entry)} {ready : Bool} (step : host.dequeues s t)
    (first : host.FirstReady s (host.queue s) ready) (run : Run host t operations events u) :
    Run host s (.dequeue ready :: operations)
      (host.left (host.queue s) (host.queue t) ++ events) u

/-! ## Runs follow the discipline -/

variable {host : QueueHost.{u}} {scheme : Scheme host.Entry} {kept : List host.Entry → Prop}

/-- The entries that have left are the first ones, if the others are still there. -/
theorem left_of_sort {before taken after : List host.Entry}
    (sorted : sort host.priority before = taken ++ sort host.priority after) :
    host.left before after = taken.map .taken := by
  have hlength := length_sort host.priority before
  rw [sorted, List.length_append, length_sort] at hlength
  have htake : before.length - after.length = taken.length := by omega
  rw [left, sorted, htake, List.take_left]

/-- What has left a queue only depends on what it sorts to. -/
theorem left_congr {first second after : List host.Entry}
    (same : sort host.priority first = sort host.priority second) :
    host.left first after = host.left second after := by
  rw [left, left, same, ← length_sort host.priority first, same, length_sort]

section Dequeued

variable {ready : host.Entry → Prop} {before after : List host.Entry}

/-- A dequeue takes the first entries off the sorted queue. -/
theorem Dequeued.sort_eq (keeps : scheme.Keeps host.priority kept) (hkept : kept before)
    (h : scheme.Dequeued ready host.spot before after) :
    kept after ∧
      ∃ taken, sort host.priority before = taken ++ sort host.priority after := by
  have hlook := keeps.look before hkept
  cases h with
  | nothing empty same =>
      rw [same, empty]
      exact ⟨keeps.empty, [], rfl⟩
  | blocked queue notReady same =>
      obtain rfl | rfl := same
      · exact ⟨hkept, [], rfl⟩
      · rw [← queue, hlook]
        refine ⟨keeps.sorted _ (sort_sorted _ _), [], ?_⟩
        exact (sort_eq_self _ (sort_sorted host.priority before)).symm
  | @took x more queue isReady single =>
      have hsort : sort host.priority before = (x :: more) ++ after := hlook.symm.trans queue
      have hsorted : Sorted host.priority after := by
        have hall := sort_sorted host.priority before
        rw [hsort] at hall
        exact (List.pairwise_append.mp hall).2.1
      refine ⟨keeps.sorted _ hsorted, x :: more, ?_⟩
      rw [hsort, sort_eq_self _ hsorted]

/-- It follows the discipline. -/
theorem Dequeued.follows (keeps : scheme.Keeps host.priority kept) (hkept : kept before)
    (h : scheme.Dequeued ready host.spot before after) :
    Follows host.priority (classes host.priority before) (host.left before after)
      (classes host.priority after) := by
  obtain ⟨-, taken, hsort⟩ := Dequeued.sort_eq keeps hkept h
  have hsorted := sort_sorted host.priority before
  rw [hsort] at hsorted
  have hfollows := follows_taken host.priority hsorted
  rw [← hsort, classes_sort, classes_sort] at hfollows
  rwa [left_of_sort hsort]

/-- A host that is ready takes just the first entry, unless it answers it itself. -/
theorem Dequeued.length_eq (keeps : scheme.Keeps host.priority kept) (hkept : kept before)
    (spotless : ∀ x ∈ before, host.spot x = false) {isReady : Bool}
    (first : ∀ x ∈ (sort host.priority before).head?, (isReady = true ↔ ready x))
    (h : scheme.Dequeued ready host.spot before after) :
    after.length = if 0 < before.length ∧ isReady then before.length - 1 else before.length := by
  have hlook := keeps.look before hkept
  have hlength := length_sort host.priority before
  cases h with
  | nothing empty same => simp [empty, same]
  | @blocked x rest queue notReady same =>
      have hfirst := first x (by rw [← hlook, queue]; rfl)
      rw [if_neg fun h => notReady (hfirst.mp h.2)]
      obtain rfl | rfl := same
      · rfl
      · rw [← queue, hlook, hlength]
  | @took x more queue isReady single =>
      have hfirst := first x (by rw [← hlook, queue]; rfl)
      have hspot : host.spot x = false := by
        refine spotless x ((sort_perm host.priority before).subset ?_)
        rw [← hlook, queue]
        exact List.mem_cons_self
      rw [← hlook, queue, single hspot, List.nil_append, List.length_cons] at hlength
      rw [if_pos ⟨by omega, hfirst.mpr isReady⟩]
      omega

end Dequeued

/-- What is put on a queue, before the host looks at it, and what it then is. -/
theorem Obeys.enqueue_cases (obeys : host.Obeys scheme) {position : Position} {r : host.Request}
    {s t : host.State} (step : host.enqueues position r s t) :
    (scheme.insert position (host.entry r s) (host.queue s)).length = 1 ∧
        scheme.Dequeued (host.ready s) host.spot
          (scheme.insert position (host.entry r s) (host.queue s)) (host.queue t) ∨
      (scheme.insert position (host.entry r s) (host.queue s)).length ≠ 1 ∧
        host.queue t = scheme.insert position (host.entry r s) (host.queue s) := by
  have h := obeys.enqueue position r s t step
  split at h
  · rename_i halone
    exact .inl ⟨halone, h⟩
  · rename_i hmore
    exact .inr ⟨hmore, h⟩

/-- An insertion, with what is taken at once, follows the discipline. -/
theorem Obeys.enqueue_follows (obeys : host.Obeys scheme)
    (keeps : scheme.Keeps host.priority kept) {position : Position} {r : host.Request}
    {s t : host.State} (hkept : kept (host.queue s)) (step : host.enqueues position r s t) :
    kept (host.queue t) ∧
      Follows host.priority (classes host.priority (host.queue s))
        (.inserted position (host.entry r s) ::
          host.left (insertAt position (host.entry r s) (host.queue s)) (host.queue t))
        (classes host.priority (host.queue t)) := by
  have hinserted := keeps.insert position (host.entry r s) _ hkept
  have hsort := keeps.sort_insert position (host.entry r s) (host.queue s)
  have hclasses : (classes host.priority (host.queue s)).insert host.priority position
      (host.entry r s) =
        classes host.priority (scheme.insert position (host.entry r s) (host.queue s)) := by
    rw [← classes_insertAt, ← classes_sort, ← hsort, classes_sort]
  rw [← left_congr hsort]
  show _ ∧ Follows host.priority (Classes.insert host.priority position _ _) _ _
  rw [hclasses]
  obtain ⟨-, hdequeued⟩ | ⟨-, hsame⟩ := obeys.enqueue_cases step
  · exact ⟨(Dequeued.sort_eq keeps hinserted hdequeued).1,
      Dequeued.follows keeps hinserted hdequeued⟩
  · have hsplit : sort host.priority (scheme.insert position (host.entry r s) (host.queue s)) =
        [] ++ sort host.priority (host.queue t) := by rw [hsame, List.nil_append]
    rw [left_of_sort hsplit]
    refine ⟨by rw [hsame]; exact hinserted, ?_⟩
    rw [hsame]
    rfl

/-- A dequeue of a host that is ready takes the first entry, and just this one unless the host
answers it itself. -/
theorem Obeys.takes_first (obeys : host.Obeys scheme) (keeps : scheme.Keeps host.priority kept)
    {s t : host.State} (hkept : kept (host.queue s)) (step : host.dequeues s t) {x : host.Entry}
    {rest : List host.Entry} (sorted : sort host.priority (host.queue s) = x :: rest) :
    (host.ready s x →
        ∃ more, rest = more ++ host.queue t ∧ (host.spot x = false → more = [])) ∧
      (¬host.ready s x → sort host.priority (host.queue t) = x :: rest) := by
  have hlook := (keeps.look _ hkept).trans sorted
  cases obeys.dequeue s t step with
  | nothing empty same =>
      rw [empty] at sorted
      exact absurd sorted.symm (List.cons_ne_nil x rest)
  | blocked queue notReady same =>
      rw [queue, List.cons.injEq] at hlook
      obtain ⟨rfl, rfl⟩ := hlook
      refine ⟨fun h => absurd h notReady, fun _ => ?_⟩
      obtain hsame | hsame := same
      · rw [hsame, sorted]
      · rw [hsame, ← sorted]
        exact sort_eq_self _ (sort_sorted _ _)
  | @took y more queue isReady single =>
      rw [queue, List.cons.injEq] at hlook
      obtain ⟨rfl, rfl⟩ := hlook
      exact ⟨fun _ => ⟨more, rfl, single⟩, fun h => absurd isReady h⟩

/-- The queue stays one that the scheme keeps. -/
theorem Run.keeps (obeys : host.Obeys scheme) (keeps : scheme.Keeps host.priority kept)
    {s t : host.State} {operations : List Operation} {events : List (QueueEvent host.Entry)}
    (run : host.Run s operations events t) (hkept : kept (host.queue s)) :
    kept (host.queue t) := by
  induction run with
  | done s => exact hkept
  | other same run ih => exact ih (same ▸ hkept)
  | enqueue step first run ih => exact ih (obeys.enqueue_follows keeps hkept step).1
  | dequeue step first run ih =>
      exact ih (Dequeued.sort_eq keeps hkept (obeys.dequeue _ _ step)).1

/-- Every run follows the discipline. -/
theorem Run.follows (obeys : host.Obeys scheme) (keeps : scheme.Keeps host.priority kept)
    {s t : host.State} {operations : List Operation} {events : List (QueueEvent host.Entry)}
    (run : host.Run s operations events t) (hkept : kept (host.queue s)) :
    Follows host.priority (classes host.priority (host.queue s)) events
      (classes host.priority (host.queue t)) := by
  induction run with
  | done s => rfl
  | other same run ih =>
      rw [← same] at hkept ⊢
      exact ih hkept
  | enqueue step first run ih =>
      obtain ⟨hkept', hfollows⟩ := obeys.enqueue_follows keeps hkept step
      exact hfollows.append host.priority (ih hkept')
  | dequeue step first run ih =>
      have hdequeued := obeys.dequeue _ _ step
      exact (Dequeued.follows keeps hkept hdequeued).append host.priority
        (ih (Dequeued.sort_eq keeps hkept hdequeued).1)

/-! ## What the operations determine -/

/-- What happens if as many requests wait and none is answered on the spot. -/
def Operation.shapes : ℕ → List Operation → List (Option (Position × ℤ))
  | _, [] => []
  | waiting, .enqueue position priority ready :: operations =>
    some (position, priority) ::
      if waiting = 0 ∧ ready then none :: shapes 0 operations
      else shapes (waiting + 1) operations
  | waiting, .dequeue ready :: operations =>
    if 0 < waiting ∧ ready then none :: shapes (waiting - 1) operations
    else shapes waiting operations

/-- The entries that have left a queue are as many as it has become shorter. -/
theorem left_shape (before after : List host.Entry) :
    (host.left before after).map (QueueEvent.shape host.priority) =
      List.replicate (before.length - after.length) none := by
  refine List.eq_replicate_iff.mpr ⟨?_, fun shape hshape => ?_⟩
  · rw [left, List.length_map, List.length_map, List.length_take, length_sort]
    omega
  · rw [left, List.map_map] at hshape
    obtain ⟨x, -, rfl⟩ := List.mem_map.mp hshape
    rfl

/-- The host answers none of these entries itself. -/
def Spotless (host : QueueHost.{u}) (entries : List host.Entry) : Prop :=
  ∀ x ∈ entries, host.spot x = false

/-- The entry that is put on the queue. -/
def inserted? {α : Type u} : QueueEvent α → Option α
  | .inserted _ x => some x
  | .taken _ => none

theorem filterMap_inserted?_left (before after : List host.Entry) :
    (host.left before after).filterMap inserted? = [] := by
  rw [left, List.filterMap_map]
  exact List.filterMap_eq_nil_iff.mpr fun _ _ => rfl

theorem Spotless.of_sort_eq {before taken after : List host.Entry} (h : host.Spotless before)
    (hsort : sort host.priority before = taken ++ sort host.priority after) :
    host.Spotless after := by
  intro x hx
  refine h x ((sort_perm host.priority before).subset ?_)
  rw [hsort]
  exact List.mem_append_right _ ((sort_perm host.priority after).symm.subset hx)

/-- What happens in a run, but for the entries themselves, is determined by the operations. -/
theorem Run.shapes (obeys : host.Obeys scheme) (keeps : scheme.Keeps host.priority kept)
    {s t : host.State} {operations : List Operation} {events : List (QueueEvent host.Entry)}
    (run : host.Run s operations events t) (hkept : kept (host.queue s))
    (waiting : host.Spotless (host.queue s))
    (spotless : host.Spotless (events.filterMap inserted?)) :
    events.map (QueueEvent.shape host.priority) =
      Operation.shapes (host.queue s).length operations := by
  induction run with
  | done s => rfl
  | other same run ih =>
      rw [← same] at hkept waiting ⊢
      exact ih hkept waiting spotless
  | @enqueue s t u operations events position r ready step first run ih =>
      rw [← List.singleton_append, List.filterMap_append, List.filterMap_append,
        filterMap_inserted?_left, List.nil_append] at spotless
      obtain ⟨hentry, hevents⟩ := List.forall_mem_cons.mp spotless
      have hsort := keeps.sort_insert position (host.entry r s) (host.queue s)
      have hinserted := keeps.insert position (host.entry r s) _ hkept
      have hperm : (scheme.insert position (host.entry r s) (host.queue s)).Perm
          (host.entry r s :: host.queue s) :=
        (sort_perm host.priority _).symm.trans <| (List.Perm.of_eq hsort).trans <|
          (sort_perm host.priority _).trans (insertAt_perm position _ _)
      have hwaiting : host.Spotless (scheme.insert position (host.entry r s) (host.queue s)) := by
        intro x hx
        obtain rfl | hx := List.mem_cons.mp (hperm.subset hx)
        · exact hentry
        · exact waiting x hx
      have hlength := hperm.length_eq
      rw [List.length_cons] at hlength
      have hkept' := (obeys.enqueue_follows keeps hkept step).1
      rw [List.map_cons, List.map_append, ← left_congr hsort, left_shape, Operation.shapes]
      refine congrArg (List.cons _) ?_
      obtain ⟨halone, hdequeued⟩ | ⟨hmore, hsame⟩ := obeys.enqueue_cases step
      · obtain ⟨-, taken, htaken⟩ := Dequeued.sort_eq keeps hinserted hdequeued
        have hfirst : ∀ x ∈ (sort host.priority
            (scheme.insert position (host.entry r s) (host.queue s))).head?,
              (ready = true ↔ host.ready s x) := by
          rw [hsort]
          exact first
        have hleft := Dequeued.length_eq keeps hinserted hwaiting hfirst hdequeued
        rw [ih hkept' (hwaiting.of_sort_eq htaken) hevents, hleft, halone]
        have hempty : (host.queue s).length = 0 := by omega
        rw [hempty]
        cases ready with
        | true => rfl
        | false => rfl
      · rw [ih hkept' (by rw [hsame]; exact hwaiting) hevents, hsame, Nat.sub_self, hlength,
          if_neg fun h => hmore (by omega)]
        rfl
  | @dequeue s t u operations events ready step first run ih =>
      rw [List.filterMap_append, filterMap_inserted?_left, List.nil_append] at spotless
      have hdequeued := obeys.dequeue _ _ step
      obtain ⟨hkept', taken, hsort⟩ := Dequeued.sort_eq keeps hkept hdequeued
      have hlength := Dequeued.length_eq keeps hkept waiting first hdequeued
      have hrest := ih hkept' (waiting.of_sort_eq hsort) spotless
      rw [List.map_append, left_shape, hrest, Operation.shapes, hlength]
      split
      · rename_i h
        have hone : (host.queue s).length - ((host.queue s).length - 1) = 1 := by omega
        rw [hone]
        rfl
      · rw [Nat.sub_self]
        rfl

end QueueHost

end PriorityQueue
