/-
# When handling a message raises

A command of the session that raises leaves the event loop with an error, and the
event loop then takes the handler off the channel. So it matters which messages
raise. Some can't be decoded. The others meet a session in which a message is
answered that has no timer, since cancelling a timer reads the entry that names it:
the message in progress, or one that waits and is answered on the spot as soon as
it is sent.

All of this can be told from the message and the session before it.
-/

import Amester.Netc.Conservation

namespace Amester.Netc

open BinaryFormat

universe u

variable {κ : Type u}

/-- A command that raises has an error. -/
theorem raise_error_ne {σ : Type u} (s : σ) (message : String) :
    (Outcome.raise s message).error ≠ none :=
  Option.some_ne_none message

/-! ## Sending -/

/-- The request for the device identifier, which is answered on the spot. -/
def isFaked (item : Item κ) : Bool := item.netfn.eqDigit 6 && item.cmd.eqDigit 1

/-- A message of this tag can be sent now. -/
structure State.CanSend (s : State κ) (tag : String) : Prop where
  network : s.network = true
  free : s.inprogressQ = []
  connected : s.netcStatus = .connected
  tag : lookupTag tag s.inprogress = none

/-- Sending from such a queue comes to a message that is answered on the spot and has
no timer. Those in front of it are answered, and leave the session as it was. -/
def DequeueRaises (s : State κ) : List (Item κ) → Prop
  | [] => False
  | item :: rest =>
    s.CanSend item.tag ∧ isFaked item = true ∧ (item.timeout = 0 ∨ DequeueRaises s rest)

/-- The two sessions send alike. -/
structure State.SendsAs (s t : State κ) : Prop where
  network : t.network = s.network
  inprogressQ : t.inprogressQ = s.inprogressQ
  netcStatus : t.netcStatus = s.netcStatus
  inprogress : t.inprogress = s.inprogress

theorem State.SendsAs.canSend_iff {s t : State κ} (same : s.SendsAs t) (tag : String) :
    t.CanSend tag ↔ s.CanSend tag := by
  constructor
  · rintro ⟨hnetwork, hfree, hconnected, htag⟩
    exact ⟨same.network ▸ hnetwork, same.inprogressQ ▸ hfree, same.netcStatus ▸ hconnected,
      same.inprogress ▸ htag⟩
  · rintro ⟨hnetwork, hfree, hconnected, htag⟩
    exact ⟨same.network.trans hnetwork, same.inprogressQ.trans hfree,
      same.netcStatus.trans hconnected, same.inprogress ▸ htag⟩

theorem State.SendsAs.dequeueRaises_iff {s t : State κ} (same : s.SendsAs t)
    (msgq : List (Item κ)) : DequeueRaises t msgq ↔ DequeueRaises s msgq := by
  induction msgq with
  | nil => exact Iff.rfl
  | cons item rest ih => simp only [DequeueRaises, same.canSend_iff, ih]

theorem State.SendsAs.emit (s : State κ) (e : Effect κ) : s.SendsAs (s.emit e) :=
  ⟨rfl, rfl, rfl, rfl⟩

private theorem lookupTag_append_of_none {tag : String} {table : List (InProgress κ)}
    (none : lookupTag tag table = none) {e : InProgress κ} (own : e.tag = tag) :
    lookupTag tag (table ++ [e]) = some e := by
  rw [lookupTag, List.find?_append]
  rw [lookupTag] at none
  simp [none, own]

private theorem unsetTag_append_of_none {tag : String} {table : List (InProgress κ)}
    (none : lookupTag tag table = none) {e : InProgress κ} (own : e.tag = tag) :
    unsetTag tag (table ++ [e]) = table := by
  rw [lookupTag, List.find?_eq_none] at none
  rw [unsetTag, List.filter_append, List.filter_eq_self.mpr (by simpa using none)]
  simp [own]

/-- A message that can be sent is entered under its tag, with a timer if it has a
timeout. -/
theorem State.CanSend.lookup {s : State κ} {item : Item κ} (can : s.CanSend item.tag)
    (rest : List (Item κ)) :
    (s.beginMessage item rest).inprogressQ = [item.tag] ∧
      ∃ e : InProgress κ, e.toItem = item ∧ (e.after = none ↔ item.timeout = 0) ∧
        (s.beginMessage item rest).inprogress = s.inprogress ++ [e] ∧
        lookupTag item.tag (s.beginMessage item rest).inprogress = some e := by
  have hq : s.inprogressQ ++ [item.tag] = [item.tag] := by rw [can.free, List.nil_append]
  have hafter : (item.entry s.nextAfter).after = none ↔ item.timeout = 0 := by simp [Item.entry]
  exact ⟨hq, item.entry s.nextAfter, rfl, hafter, rfl, lookupTag_append_of_none can.tag rfl⟩

/-- The answer on the spot leaves the session as it was before. -/
theorem State.CanSend.answered {s : State κ} {item : Item κ} (can : s.CanSend item.tag)
    (rest : List (Item κ)) {e : InProgress κ} (own : e.toItem = item)
    (entered : (s.beginMessage item rest).inprogress = s.inprogress ++ [e]) (timer : ℕ) :
    s.SendsAs ((s.beginMessage item rest).freeSlot e timer) where
  network := rfl
  inprogressQ := by
    change (s.beginMessage item rest).inprogressQ.drop 1 = s.inprogressQ
    rw [(can.lookup rest).1, can.free]
    rfl
  netcStatus := rfl
  inprogress := by
    change unsetTag e.tag (s.beginMessage item rest).inprogress = s.inprogress
    rw [entered]
    exact unsetTag_append_of_none (by rw [own]; exact can.tag) rfl

private theorem decodeIpmi_fakeDeviceId : decodeIpmi fakeDeviceId = .ok (some 0, [0xe4]) := by
  decide +kernel

private theorem runCallback_fakeDeviceId (item : Item κ) (s : State κ) :
    (runCallback item fakeDeviceId s).error = none ∧
      s.SendsAs (runCallback item fakeDeviceId s).state ∧
      (runCallback item fakeDeviceId s).state.ipmiMsgq = s.ipmiMsgq := by
  simp only [runCallback, decodeIpmi_fakeDeviceId]
  split
  · exact ⟨rfl, ⟨rfl, rfl, rfl, rfl⟩, rfl⟩
  · exact ⟨rfl, State.SendsAs.emit s _, rfl⟩

/-- Sending a message that is answered on the spot. -/
theorem ipmiDequeueFrom_faked {s : State κ} {item : Item κ} (rest : List (Item κ))
    (can : s.CanSend item.tag) (faked : isFaked item = true) :
    (item.timeout = 0 ∧ (ipmiDequeueFrom (item :: rest) s).error ≠ none) ∨
      item.timeout ≠ 0 ∧ ∃ t : State κ, s.SendsAs t ∧ t.ipmiMsgq = rest ∧
        ipmiDequeueFrom (item :: rest) s =
          (ipmiDequeueFrom rest t).andThen (runCallback item fakeDeviceId) := by
  have hdequeue : ipmiDequeueFrom (item :: rest) s =
      processIpmiWith (ipmiDequeueFrom rest) fakeDeviceId (s.beginMessage item rest) := by
    rw [isFaked] at faked
    rw [ipmiDequeueFrom, if_neg (by simp [can.network]), if_neg (by simp [can.free]),
      if_neg (by simp [can.connected]), if_neg (by simp [can.tag]), if_pos faked]
  obtain ⟨hq, e, hown, hafter, hentered, hlookup⟩ := can.lookup rest
  have hhead : (s.beginMessage item rest).inprogressQ.headD "" = item.tag := by
    rw [hq]
    rfl
  rw [hdequeue]
  simp only [processIpmiWith, hhead, hlookup]
  cases htimer : e.after with
  | none => exact .inl ⟨hafter.mp htimer, raise_error_ne _ _⟩
  | some timer =>
      have htimeout : item.timeout ≠ 0 := by
        rw [Ne, ← hafter, htimer]
        exact Option.some_ne_none timer
      refine .inr ⟨htimeout, (s.beginMessage item rest).freeSlot e timer,
        can.answered rest hown hentered timer, rfl, ?_⟩
      rw [← hown]

theorem not_canSend_iff {s : State κ} {tag : String} : ¬ s.CanSend tag ↔
    s.network = false ∨ s.inprogressQ ≠ [] ∨ s.netcStatus ≠ .connected ∨
      (lookupTag tag s.inprogress).isSome = true := by
  constructor
  · intro hnot
    by_contra hall
    simp only [not_or, ne_eq, not_not, Bool.not_eq_true, Bool.not_eq_false,
      Option.isSome_eq_false_iff, Option.isNone_iff_eq_none] at hall
    exact hnot ⟨hall.1, hall.2.1, hall.2.2.1, hall.2.2.2⟩
  · rintro (h | h | h | h) can
    · exact absurd can.network (by simp [h])
    · exact h can.free
    · exact h can.connected
    · exact absurd h (by simp [can.tag])

private theorem ipmiDequeueFrom_of_not_canSend {s : State κ} {item : Item κ}
    (cannot : ¬ s.CanSend item.tag) (rest : List (Item κ)) :
    ipmiDequeueFrom (item :: rest) s = .ok s := by
  rw [not_canSend_iff] at cannot
  rw [ipmiDequeueFrom]
  split_ifs with h₁ h₂ h₃ h₄ <;> first | rfl | exact absurd cannot (by simp [*])

private theorem ipmiDequeueFrom_of_sent {s : State κ} {item : Item κ} (can : s.CanSend item.tag)
    (written : isFaked item = false) (rest : List (Item κ)) :
    ipmiDequeueFrom (item :: rest) s = .ok ((s.beginMessage item rest).netcSend item) := by
  rw [isFaked] at written
  rw [ipmiDequeueFrom, if_neg (by simp [can.network]), if_neg (by simp [can.free]),
    if_neg (by simp [can.connected]), if_neg (by simp [can.tag]), if_neg (by simp [written])]

/-- Sending raises exactly then, and otherwise nothing is left that could raise. -/
theorem ipmiDequeueFrom_error_iff (msgq : List (Item κ)) (s : State κ)
    (own : s.ipmiMsgq = msgq) :
    ((ipmiDequeueFrom msgq s).error ≠ none ↔ DequeueRaises s msgq) ∧
      ((ipmiDequeueFrom msgq s).error = none →
        ¬ DequeueRaises (ipmiDequeueFrom msgq s).state
          (ipmiDequeueFrom msgq s).state.ipmiMsgq) := by
  induction msgq generalizing s with
  | nil =>
      refine ⟨iff_of_false (fun h => h rfl) id, fun _ => ?_⟩
      change ¬ DequeueRaises s s.ipmiMsgq
      rw [own]
      exact id
  | cons item rest ih =>
      by_cases hcan : s.CanSend item.tag
      swap
      · rw [ipmiDequeueFrom_of_not_canSend hcan]
        refine ⟨iff_of_false (fun h => h rfl) fun h => hcan h.1, fun _ => ?_⟩
        change ¬ DequeueRaises s s.ipmiMsgq
        rw [own]
        exact fun h => hcan h.1
      cases hfaked : isFaked item with
      | false =>
          rw [ipmiDequeueFrom_of_sent hcan hfaked]
          refine ⟨iff_of_false (fun h => h rfl) fun h => absurd h.2.1 (by simp [hfaked]),
            fun _ => ?_⟩
          -- the message that was sent is in progress
          have hbusy : ((s.beginMessage item rest).netcSend item).inprogressQ = [item.tag] :=
            (hcan.lookup rest).1
          intro hraises
          simp only [Outcome.ok_state] at hraises
          cases hmsgq : ((s.beginMessage item rest).netcSend item).ipmiMsgq with
          | nil =>
              rw [hmsgq] at hraises
              exact hraises
          | cons next later =>
              rw [hmsgq] at hraises
              exact absurd (hbusy.symm.trans hraises.1.free) nofun
      | true =>
          obtain ⟨htimeout, herror⟩ | ⟨htimeout, t, hsame, hmsgq, heq⟩ :=
            ipmiDequeueFrom_faked rest hcan hfaked
          · exact ⟨iff_of_true herror ⟨hcan, hfaked, .inl htimeout⟩, fun h => absurd h herror⟩
          obtain ⟨hiff, hsettled⟩ := ih t hmsgq
          rw [heq]
          have hraises : DequeueRaises s (item :: rest) ↔ DequeueRaises t rest := by
            rw [hsame.dequeueRaises_iff]
            simp [DequeueRaises, hcan, hfaked, htimeout]
          cases herror : (ipmiDequeueFrom rest t).error with
          | none =>
              rw [Outcome.andThen_of_ok herror]
              obtain ⟨hcallback, hstays, hqueue⟩ :=
                runCallback_fakeDeviceId item (ipmiDequeueFrom rest t).state
              refine ⟨iff_of_false (fun h => h hcallback) ?_, fun _ => ?_⟩
              · rw [hraises, ← hiff]
                exact fun h => h herror
              · rw [hstays.dequeueRaises_iff, hqueue]
                exact hsettled herror
          | some message =>
              have hne : (ipmiDequeueFrom rest t).error ≠ none := by simp [herror]
              rw [Outcome.andThen_of_raised hne]
              exact ⟨iff_of_true hne (hraises.mpr (hiff.mp hne)), fun h => absurd h hne⟩

theorem ipmiDequeue_error_iff (s : State κ) :
    (ipmiDequeue s).error ≠ none ↔ DequeueRaises s s.ipmiMsgq :=
  (ipmiDequeueFrom_error_iff s.ipmiMsgq s rfl).1

/-! ## Messages from the FSP -/

/-- Something raises in a computation. -/
def Fails {α : Type} (r : Except String α) : Prop := r.isOk = false

/-- The session in which the answered message has left its slot. -/
def State.answeredEntry (s : State κ) (e : InProgress κ) : State κ :=
  { s with
    toMessageQueue := s.remove e.tag
    inprogressQ := s.inprogressQ.drop 1 }

/-- Handling an answer to the message in progress raises. -/
def IpmiRaises (ncdata : Bytes) (s : State κ) : Prop :=
  match lookupTag (s.inprogressQ.headD "") s.inprogress with
  | none => DequeueRaises s s.ipmiMsgq
  | some e => e.after = none ∨ DequeueRaises (s.answeredEntry e) s.ipmiMsgq ∨
      Fails (decodeIpmi ncdata)

/-- Handling a message that does not close the connection raises. -/
def Raises (p : NetcPacket) (s : State κ) : Prop :=
  match p.funcop with
  | .version => Fails (decodeVersion p.ncdata) ∨ DequeueRaises s s.ipmiMsgq
  | .password => p.ncdata = [] ∨ DequeueRaises { s with netcStatus := .connected } s.ipmiMsgq
  | .ipmi => IpmiRaises p.ncdata s
  | .nodeConfig => Fails (processGetNodeConfig p.ncdata) ∨ DequeueRaises s s.ipmiMsgq
  | .pollingFrequency | .unknown => DequeueRaises s s.ipmiMsgq

/-- A sequence raises where one of its commands does. -/
theorem andThen_error_iff {σ : Type u} (o : Outcome σ) (next : σ → Outcome σ) :
    (o.andThen next).error ≠ none ↔
      o.error ≠ none ∨ o.error = none ∧ (next o.state).error ≠ none := by
  cases herror : o.error with
  | none =>
      rw [Outcome.andThen_of_ok herror]
      simp
  | some message =>
      have hne : o.error ≠ none := by simp [herror]
      rw [Outcome.andThen_of_raised hne, herror]
      simp

/-- A second look at the queue raises nothing that the first one did not. -/
theorem ipmiDequeue_twice (s : State κ) {t : State κ}
    (same : (ipmiDequeue s).state.SendsAs t) (msgq : t.ipmiMsgq = (ipmiDequeue s).state.ipmiMsgq)
    (returned : (ipmiDequeue s).error = none) : (ipmiDequeue t).error = none := by
  by_contra hraised
  have hraises := (ipmiDequeue_error_iff t).mp hraised
  rw [same.dequeueRaises_iff, msgq] at hraises
  exact (ipmiDequeueFrom_error_iff s.ipmiMsgq s rfl).2 returned hraises

theorem runCallback_error_iff (item : Item κ) (ncdata : Bytes) (s : State κ) :
    (runCallback item ncdata s).error ≠ none ↔ Fails (decodeIpmi ncdata) := by
  unfold runCallback Fails
  split
  · rename_i heq
    rw [heq]
    exact iff_of_true nofun rfl
  · rename_i heq
    rw [heq]
    refine iff_of_false ?_ nofun
    split
    · exact fun h => h rfl
    · exact fun h => h rfl

private theorem runCallback_sendsAs (item : Item κ) (ncdata : Bytes) (s : State κ) :
    s.SendsAs (runCallback item ncdata s).state ∧
      (runCallback item ncdata s).state.ipmiMsgq = s.ipmiMsgq := by
  unfold runCallback
  split
  · exact ⟨⟨rfl, rfl, rfl, rfl⟩, rfl⟩
  · split
    · exact ⟨⟨rfl, rfl, rfl, rfl⟩, rfl⟩
    · exact ⟨State.SendsAs.emit s _, rfl⟩

theorem ipmiRaises_iff (ncdata : Bytes) (s : State κ) :
    ((processIpmi ncdata s).andThen ipmiDequeue).error ≠ none ↔ IpmiRaises ncdata s := by
  unfold processIpmi processIpmiWith IpmiRaises
  cases lookupTag (s.inprogressQ.headD "") s.inprogress with
  | none => exact ipmiDequeue_error_iff s
  | some e =>
      cases hafter : e.after with
      | none =>
          simp only [hafter, true_or, iff_true]
          exact raise_error_ne _ _
      | some timer =>
          have hfree : (s.answeredEntry e).SendsAs (s.freeSlot e timer) := ⟨rfl, rfl, rfl, rfl⟩
          have hdequeue : (ipmiDequeue (s.freeSlot e timer)).error ≠ none ↔
              DequeueRaises (s.answeredEntry e) s.ipmiMsgq :=
            (ipmiDequeue_error_iff _).trans (hfree.dequeueRaises_iff _)
          simp only [hafter, reduceCtorEq, false_or]
          rw [andThen_error_iff, andThen_error_iff, hdequeue, runCallback_error_iff]
          constructor
          · rintro ((hraises | ⟨-, hfails⟩) | ⟨hnone, hraised⟩)
            · exact .inl hraises
            · exact .inr hfails
            · exfalso
              have hfirst : (ipmiDequeue (s.freeSlot e timer)).error = none := by
                by_contra hne
                rw [Outcome.andThen_of_raised hne] at hnone
                exact hne hnone
              rw [Outcome.andThen_of_ok hfirst] at hraised
              obtain ⟨hsame, hmsgq⟩ := runCallback_sendsAs e.toItem ncdata
                (ipmiDequeue (s.freeSlot e timer)).state
              exact hraised (ipmiDequeue_twice _ hsame hmsgq hfirst)
          · rintro (hraises | hfails)
            · exact .inl (.inl hraises)
            · by_cases hfirst : (ipmiDequeue (s.freeSlot e timer)).error = none
              · exact .inl (.inr ⟨hfirst, hfails⟩)
              · exact .inl (.inl (hdequeue.mp hfirst))

private theorem netcSurveillance_sendsAs (s : State κ) :
    s.SendsAs (netcSurveillance s) ∧ (netcSurveillance s).ipmiMsgq = s.ipmiMsgq := by
  obtain hstop | hstart := netcSurveillance_cases s
  · rw [hstop]
    exact ⟨⟨rfl, rfl, rfl, rfl⟩, rfl⟩
  · rw [hstart]
    unfold State.startSurveillance sendSetHMCPollingFrequency
    split_ifs <;> exact ⟨⟨rfl, rfl, rfl, rfl⟩, rfl⟩

/-- A step that may fail and leaves the queue alone, before a look at the queue. -/
theorem decoded_error_iff {α : Type} {r : Except String α} {s : State κ} {o : Outcome (State κ)}
    (error : o.error ≠ none ↔ Fails r) (same : s.SendsAs o.state)
    (msgq : o.state.ipmiMsgq = s.ipmiMsgq) :
    (o.andThen ipmiDequeue).error ≠ none ↔ Fails r ∨ DequeueRaises s s.ipmiMsgq := by
  rw [andThen_error_iff, error, ipmiDequeue_error_iff, same.dequeueRaises_iff, msgq]
  by_cases hfails : Fails r
  · exact iff_of_true (.inl hfails) (.inl hfails)
  · have hnone : o.error = none := by
      by_contra hne
      exact hfails (error.mp hne)
    simp [hfails, hnone]

/-- The messages that leave the connection open raise exactly then. -/
theorem netcDispatch_error_iff {p : NetcPacket} (s : State κ)
    (accepted : p.funcop = .version ∨ p.funcop = .password → p.success = true) :
    (netcDispatch p s).error ≠ none ↔ Raises p s := by
  unfold netcDispatch Raises
  cases hfuncop : p.funcop with
  | version =>
      simp only [accepted (.inl hfuncop), if_true]
      unfold versionReceived
      cases hdecode : decodeVersion p.ncdata with
      | error message => exact iff_of_true (raise_error_ne s message) (.inl rfl)
      | ok _ =>
          refine decoded_error_iff (iff_of_false (fun h => h rfl) nofun) ?_ ?_
          · simp only [Outcome.ok_state]
            split
            · exact State.SendsAs.emit s _
            · exact ⟨rfl, rfl, rfl, rfl⟩
          · simp only [Outcome.ok_state]
            split <;> rfl
  | password =>
      simp only [accepted (.inr hfuncop), if_true]
      unfold passwordAccepted
      by_cases hempty : p.ncdata = []
      · rw [if_pos hempty]
        exact iff_of_true (raise_error_ne _ _) (.inl hempty)
      · rw [if_neg hempty]
        simp only [hempty, false_or]
        obtain ⟨hsame, hmsgq⟩ := netcSurveillance_sendsAs
          { s.afterCancel s.netcOpenAfter with netcStatus := .connected }
        have hdequeue : (ipmiDequeue (netcSurveillance
            { s.afterCancel s.netcOpenAfter with netcStatus := .connected })).error ≠ none ↔
            DequeueRaises { s with netcStatus := .connected } s.ipmiMsgq := by
          rw [ipmiDequeue_error_iff, hsame.dequeueRaises_iff, hmsgq]
          have halike : State.SendsAs { s with netcStatus := .connected }
              { s.afterCancel s.netcOpenAfter with netcStatus := .connected } :=
            ⟨rfl, rfl, rfl, rfl⟩
          exact halike.dequeueRaises_iff _
        rw [andThen_error_iff, hdequeue]
        constructor
        · rintro (hraises | ⟨hnone, hraised⟩)
          · exact hraises
          · exact absurd (ipmiDequeue_twice _ ⟨rfl, rfl, rfl, rfl⟩ rfl hnone) hraised
        · exact .inl
  | ipmi => exact ipmiRaises_iff p.ncdata s
  | nodeConfig =>
      simp only
      unfold nodeConfigReceived
      cases hdecode : processGetNodeConfig p.ncdata with
      | error message => exact iff_of_true (raise_error_ne s message) (.inl rfl)
      | ok _ =>
          exact decoded_error_iff (iff_of_false (fun h => h rfl) nofun) ⟨rfl, rfl, rfl, rfl⟩ rfl
  | pollingFrequency => exact ipmiDequeue_error_iff s
  | unknown =>
      refine (ipmiDequeue_error_iff _).trans ?_
      exact (State.SendsAs.emit s .unknownMessage).dequeueRaises_iff _

end Amester.Netc
