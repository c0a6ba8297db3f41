/-
# The order of a blade center's messages

Whatever happens to the connection, and whatever the callbacks do while they run, the array holds
one message at most, and what has happened to the messages is what a courier does who carries one
at a time. So the messages of a priority are answered in the order in which they were sent, none
is answered twice, and each callback gets the reply to its own message.

A message is lost in one case only: its timer fires while the network is switched off. The close
takes it out of the array, and `net_send_msg` does not take it back.
-/

import Amester.BladeCenter.Session

namespace Amester.BladeCenter

open BinaryFormat PriorityQueue EventMachine

/-- The message in progress. -/
def Session.carried (s : Session) : Option Item := s.bcnetsockcallback.head?.map Pending.toItem

/-- Each callback got the reply to its own message. -/
def Session.Matched (s : Session) : Prop :=
  ∀ item status databytes owner, .ranCallback item status databytes owner ∈ s.effects →
    owner = some item

structure Inv (s : Session) : Prop where
  /-- There is one message in progress at most. -/
  table : s.bcnetsockcallback = [] ∨
    ∃ e, s.bcnetsockcallback = [e] ∧ e.sock = s.sock ∧ e.tag = s.name
  tags : ∀ item ∈ s.msgq, item.tag = s.name
  sock : s.bcnetsockcallback ≠ [] ∨ s.netStatus = .connected → s.sock ≠ 0
  status : s.netStatus ≠ .timeout ∧ s.netStatus ≠ .error
  owed : s.owed = [] ∨ s.owed = s.carried.toList
  matched : s.Matched
  replays : Courier.Stands Item.priority s.log s.carried s.msgq

/-! ## The session's steps -/

namespace Session

@[simp]
theorem log_emit (s : Session) (e : Effect) :
    (s.emit e).log = s.log ++ e.label?.toList := by
  rw [log, emit, List.filterMap_append]
  cases hlabel : e.label? with
  | none => simp [log, hlabel]
  | some label => simp [log, hlabel]

theorem Matched.append {s : Session} (h : s.Matched) (effects : List Effect)
    (new : ∀ item status databytes owner, .ranCallback item status databytes owner ∈ effects →
      owner = some item) {t : Session} (log : t.effects = s.effects ++ effects) : t.Matched := by
  intro item status databytes owner hmem
  rw [log] at hmem
  obtain hold | hnew := List.mem_append.mp hmem
  · exact h item status databytes owner hold
  · exact new item status databytes owner hnew

end Session

variable {s : Session}

/-- Changes to timers, switches and counters, and to the status as long as the socket stays. -/
theorem Inv.congr {t : Session} (h : Inv s) (name : t.name = s.name) (msgq : t.msgq = s.msgq)
    (table : t.bcnetsockcallback = s.bcnetsockcallback) (effects : t.effects = s.effects)
    (owed : t.owed = s.owed) (sock : t.sock = s.sock)
    (status : t.netStatus = s.netStatus) : Inv t where
  table := by
    rw [table, sock, name]
    exact h.table
  tags := by
    rw [msgq, name]
    exact h.tags
  sock := by
    rw [table, status, sock]
    exact h.sock
  status := by
    rw [status]
    exact h.status
  owed := by
    rw [owed, Session.carried, table]
    exact h.owed
  matched := by
    rw [Session.Matched, effects]
    exact h.matched
  replays := by
    rw [Session.log, effects, Session.carried, table, msgq]
    exact h.replays

theorem Inv.afterCancel (h : Inv s) (id : ℕ) : Inv (s.afterCancel id) :=
  h.congr rfl rfl rfl rfl rfl rfl rfl

theorem Inv.after (h : Inv s) (timer : Timer) : Inv (s.after timer) :=
  h.congr rfl rfl rfl rfl rfl rfl rfl

/-- The entry that is looked up is the only one. -/
theorem Inv.pending (h : Inv s) : s.pending s.name = s.bcnetsockcallback.head? := by
  obtain hnone | ⟨e, htable, hsock, htag⟩ := h.table
  · simp [Session.pending, hnone]
  · simp [Session.pending, htable, hsock, htag]

/-- A message is sent to the network or refused. -/
theorem Inv.refused (h : Inv s) (item : Item) : Inv (s.emit (.refused .back item)) where
  table := h.table
  tags := h.tags
  sock := h.sock
  status := h.status
  owed := h.owed
  matched := h.matched.append _ (by simp) rfl
  replays := by
    rw [Session.log_emit, Effect.label?, Option.toList_none, List.append_nil]
    exact h.replays

theorem Inv.post (h : Inv s) {item : Item} (tag : item.tag = s.name) :
    Inv (s.post .back item) where
  table := h.table
  tags other hother := by
    obtain hold | hnew := List.mem_append.mp hother
    · exact h.tags other hold
    · rw [List.mem_singleton.mp hnew]
      exact tag
  sock := h.sock
  status := h.status
  owed := h.owed
  matched := h.matched.append [.posted .back item] (by simp) rfl
  replays := by
    have hlog : (s.post .back item).log = s.log ++ [.accepted item] :=
      s.log_emit (.posted .back item)
    rw [hlog]
    exact h.replays.accepted item

theorem Inv.sortMsgq (h : Inv s) : Inv { s with msgq := sort Item.priority s.msgq } :=
  { h with
    tags := fun item hitem => h.tags item ((sort_perm _ _).mem_iff.mp hitem)
    replays := h.replays.sorted }

/-! ### Closing -/

theorem netWriteMsgWith_of_not_connected {close : Session → Session} {writes : Bool}
    (status : s.netStatus ≠ .connected) : netWriteMsgWith close writes s = s := by
  unfold netWriteMsgWith
  rw [if_pos status]
  split_ifs <;> rfl

/-- A message that comes back from a connection goes to the front of the queue, or is refused. -/
theorem netSendItemWith_front (close : Session → Session) (item : Item)
    (status : s.netStatus ≠ .connected) :
    netSendItemWith close false .front item s =
      if s.network = false then s.emit (.refused .front item) else s.post .front item := by
  unfold netSendItemWith
  split_ifs
  · rfl
  · exact netWriteMsgWith_of_not_connected status
  · rfl

theorem repostAll_single {e : Pending} (status : s.netStatus ≠ .connected)
    (table : s.bcnetsockcallback = [e]) (sock : e.sock = s.sock) :
    repostAll [e] s = { s with
      bcnetsockcallback := []
      msgq := if s.network = false then s.msgq else e.toItem :: s.msgq
      effects := s.effects ++
        [if s.network = false then .refused .front e.toItem else .posted .front e.toItem] } := by
  have hunset : s.unsetTag e.tag = { s with bcnetsockcallback := [] } := by
    simp [Session.unsetTag, table, sock]
  have hfront := netSendItemWith_front (s := { s with bcnetsockcallback := [] }) id e.toItem status
  rw [repostAll, hunset, hfront, repostAll]
  by_cases hnetwork : s.network = false
  · simp [hnetwork, Session.emit]
  · simp [hnetwork, Session.emit, Session.post, insertAt]

/-- What a close does: the message in progress is put back, or lost if the network is off. -/
theorem netClose_eq (h : Inv s) :
    ∃ fileevent, netClose s = { s with
      netStatus := .closed
      link := false
      sock := 0
      fileevent := fileevent
      owed := []
      afters := cancelAll Pending.after Prod.fst s.bcnetsockcallback s.afters
      bcnetsockcallback := []
      msgq := if s.network = false then s.msgq else s.carried.toList ++ s.msgq
      effects := s.effects ++ s.carried.toList.map fun item =>
        if s.network = false then .refused .front item else .posted .front item } := by
  unfold netClose
  by_cases hsock : s.sock = 0
  · have htable : s.bcnetsockcallback = [] := by
      by_contra hsome
      exact h.sock (.inl hsome) hsock
    have howed : s.owed = [] := by
      obtain howed | howed := h.owed
      · exact howed
      · simp [howed, Session.carried, htable]
    refine ⟨s.fileevent, ?_⟩
    rw [if_pos hsock]
    simp [Session.carried, htable, ← howed, ← hsock, cancelAll]
  · rw [if_neg hsock]
    obtain hnone | ⟨e, htable, hesock, hetag⟩ := h.table
    · refine ⟨false, ?_⟩
      simp [Session.carried, hnone, repostAll, Session.cancelAll, cancelAll]
    · have hfilter : s.bcnetsockcallback.filter (fun e => e.sock = s.sock) = [e] := by
        simp [htable, hesock]
      have hrepost := repostAll_single (e := e) (s := { s with
        netStatus := .closed, link := false, fileevent := false, owed := []
        afters := cancelAll Pending.after Prod.fst [e] s.afters }) (by simp) htable hesock
      refine ⟨false, ?_⟩
      dsimp only
      rw [hfilter, Session.cancelAll, hrepost]
      simp [Session.carried, htable]

theorem Inv.netClose (h : Inv s) : Inv (netClose s) := by
  obtain ⟨fileevent, hclose⟩ := netClose_eq h
  rw [hclose]
  cases hcarried : s.carried with
  | none =>
      have hreplays := h.replays
      rw [hcarried] at hreplays
      refine ⟨.inl rfl, ?_, by simp, by simp, .inl rfl, ?_, ?_⟩
      · simpa using h.tags
      · simpa [Session.Matched] using h.matched
      · simpa [Session.log, Session.carried] using hreplays
  | some item =>
      have hreplays := h.replays
      rw [hcarried] at hreplays
      have htag : item.tag = s.name := by
        obtain hnone | ⟨e, htable, -, htag⟩ := h.table
        · simp [Session.carried, hnone] at hcarried
        · obtain rfl : e.toItem = item := by simpa [Session.carried, htable] using hcarried
          exact htag
      by_cases hnetwork : s.network = false
      · simp only [hnetwork, if_true]
        refine ⟨.inl rfl, h.tags, by simp, by simp, .inl rfl, ?_, ?_⟩
        · exact h.matched.append [.refused .front item] (by simp) rfl
        · have hlog := hreplays.dropped
          simpa [Session.log, Session.carried, Effect.label?] using hlog
      · simp only [hnetwork]
        refine ⟨.inl rfl, ?_, by simp, by simp, .inl rfl, ?_, ?_⟩
        · simpa [htag] using h.tags
        · exact h.matched.append [.posted .front item] (by simp) rfl
        · have hlog := hreplays.returned
          simpa [Session.log, Session.carried, Effect.label?, insertAt] using hlog

/-! ### Writing -/

theorem Inv.carried_none (h : Inv s) (table : s.bcnetsockcallback = []) :
    s.carried = none ∧ s.owed = [] := by
  have hcarried : s.carried = none := by simp [Session.carried, table]
  refine ⟨hcarried, ?_⟩
  obtain howed | howed := h.owed
  · exact howed
  · rw [howed, hcarried]
    rfl

/-- Taking the first message off the queue. -/
theorem Inv.enter (h : Inv s) {item : Item} {rest : List Item}
    (table : s.bcnetsockcallback = []) (sock : s.sock ≠ 0)
    (next : sort Item.priority s.msgq = item :: rest) : Inv (s.enter item rest) := by
  have hmem : ∀ other ∈ item :: rest, other.tag = s.name := fun other hother =>
    h.tags other ((sort_perm _ _).mem_iff.mp (next ▸ hother))
  obtain ⟨hcarried, howed⟩ := h.carried_none table
  have hreplays := h.replays
  rw [hcarried] at hreplays
  refine ⟨.inr ⟨⟨item, s.sock, none⟩, ?_, rfl, hmem item List.mem_cons_self⟩,
    fun other hother => hmem other (List.mem_cons_of_mem _ hother), fun _ => sock, h.status,
    .inl howed, h.matched.append [.sent item] (by simp) rfl, ?_⟩
  · simp [Session.enter, table]
  · have hlog : (s.enter item rest).log = s.log ++ [.sent item] := s.log_emit (.sent item)
    have hitem : (s.enter item rest).carried = some item := by
      simp [Session.carried, Session.enter, table]
    rw [hlog, hitem]
    exact hreplays.sent next

/-- A written message is in progress, and the management module owes the reply to it. -/
theorem Inv.written (h : Inv s) {e : Pending} (table : s.bcnetsockcallback = [e])
    (owed : s.owed = []) : Inv (s.written e.toItem) := by
  obtain hnone | ⟨e', htable, hsock, htag⟩ := h.table
  · rw [table] at hnone
    exact absurd hnone (by simp)
  · obtain rfl : e = e' := by simpa [table] using htable
    unfold Session.written
    split_ifs
    · refine ⟨.inr ⟨{ e with after := some s.nextAfter }, ?_, hsock, htag⟩, h.tags, ?_, h.status,
        .inr ?_, h.matched, ?_⟩
      · simp [table, hsock]
      · exact fun _ => h.sock (.inl (by simp [table]))
      · simp [Session.after, Session.carried, table, owed, hsock]
      · have hreplays := h.replays
        simpa [Session.log, Session.after, Session.carried, table, hsock] using hreplays
    · exact ⟨h.table, h.tags, h.sock, h.status, .inr (by simp [Session.carried, table, owed]),
        h.matched, h.replays⟩

/-- `net_write_msg` gets as far as the queue. -/
def Session.Ready (s : Session) : Prop :=
  s.network = true ∧ s.msgq ≠ [] ∧ s.netStatus = .connected

/-- The session behind a queue that has been sorted and whose first message has been sent, or
could not be sent. -/
def Session.sendFirst (s : Session) (writes : Bool) (item : Item) (rest : List Item) : Session :=
  let entered := { s with msgq := sort Item.priority s.msgq }.enter item rest
  { (if writes then entered.written item else netClose entered) with netIdleCount := 0 }

/-- What a write does: nothing, or it sorts the queue, or it sends the first message. -/
theorem netWriteMsg_cases (h : Inv s) (writes : Bool) :
    (¬ s.Ready ∧ netWriteMsg writes s = s) ∨
      (s.bcnetsockcallback ≠ [] ∧
        netWriteMsg writes s = { s with msgq := sort Item.priority s.msgq }) ∨
      (s.Ready ∧ s.bcnetsockcallback = [] ∧
        ∃ item rest, sort Item.priority s.msgq = item :: rest ∧
          netWriteMsg writes s = s.sendFirst writes item rest) := by
  by_cases hready : s.Ready
  · obtain ⟨hnetwork, hmsgq, hstatus⟩ := hready
    right
    rw [netWriteMsg, netWriteMsgWith, if_neg (by simp [hnetwork]), if_neg hmsgq,
      if_neg (by simp [hstatus])]
    cases hsort : sort Item.priority s.msgq with
    | nil =>
        have hperm := sort_perm Item.priority s.msgq
        rw [hsort] at hperm
        exact absurd hperm.nil_eq.symm hmsgq
    | cons item rest =>
        have htag : item.tag = s.name :=
          h.tags item ((sort_perm _ _).mem_iff.mp (hsort ▸ List.mem_cons_self))
        have hpending : Session.pending { s with msgq := item :: rest } item.tag =
            s.bcnetsockcallback.head? := by
          rw [htag]
          exact h.pending
        rw [writeFirst, hpending]
        cases htable : s.bcnetsockcallback with
        | nil =>
            refine .inr ⟨⟨hnetwork, hmsgq, hstatus⟩, rfl, item, rest, rfl, ?_⟩
            rw [Session.sendFirst, hsort, htable]
            rfl
        | cons e table => exact .inl ⟨List.cons_ne_nil _ _, rfl⟩
  · refine .inl ⟨hready, ?_⟩
    unfold netWriteMsg netWriteMsgWith
    split_ifs with hnetwork hmsgq hstatus
    · rfl
    · rfl
    · rfl
    · exact absurd ⟨by simpa using hnetwork, hmsgq, by simpa using hstatus⟩ hready

/-- A message that is sent leaves the session in order. -/
theorem Inv.sendFirst (h : Inv s) (sock : s.sock ≠ 0) (table : s.bcnetsockcallback = [])
    {item : Item} {rest : List Item} (next : sort Item.priority s.msgq = item :: rest)
    (writes : Bool) : Inv (s.sendFirst writes item rest) := by
  have hsort : sort Item.priority (sort Item.priority s.msgq) = item :: rest := by
    rw [sort_eq_self _ (sort_sorted _ _), next]
  have henter : Inv ({ s with msgq := sort Item.priority s.msgq }.enter item rest) :=
    h.sortMsgq.enter table sock hsort
  have hentered : ({ s with msgq := sort Item.priority s.msgq }.enter item rest
      ).bcnetsockcallback = [{ item with sock := s.sock, after := none }] := by
    simp [Session.enter, table]
  cases writes with
  | true =>
      have hwritten := henter.written hentered (h.carried_none table).2
      exact hwritten.congr rfl rfl rfl rfl rfl rfl rfl
  | false => exact henter.netClose.congr rfl rfl rfl rfl rfl rfl rfl

theorem Inv.netWriteMsg (h : Inv s) (writes : Bool) : Inv (netWriteMsg writes s) := by
  obtain ⟨-, hwrite⟩ | ⟨-, hwrite⟩ | ⟨hready, htable, item, rest, hnext, hwrite⟩ :=
    netWriteMsg_cases h writes
  · rw [hwrite]
    exact h
  · rw [hwrite]
    exact h.sortMsgq
  · rw [hwrite]
    exact h.sendFirst (h.sock (.inr hready.2.2)) htable hnext writes

theorem Inv.netSendMsg (h : Inv s) (writes : Bool) (m : Message) :
    Inv (netSendMsg writes m s) := by
  unfold BladeCenter.netSendMsg netSendItemWith
  split_ifs
  · exact h.refused _
  · exact (h.post rfl).netWriteMsg writes
  · exact h.post rfl

theorem Inv.sendMsg (h : Inv s) (type : ℤ) (cmd : DotCmd) (databytes : Bytes)
    (callback : String) (priority : ℤ) (writes : Bool) :
    Inv (sendMsg type cmd databytes callback priority writes s) := by
  unfold BladeCenter.sendMsg
  split
  · exact h
  · exact h.netSendMsg writes _

/-! ### Receiving -/

/-- The message in progress is answered. -/
theorem Inv.answer (h : Inv s) {e : Pending} (pending : s.pending s.name = some e)
    (owed : s.owed = []) (status : ℤ) (databytes : Bytes) :
    Inv ((s.unsetTag s.name).emit (.ranCallback e.toItem status databytes (some e.toItem))) := by
  rw [h.pending] at pending
  obtain hnone | ⟨e', htable, hsock, htag⟩ := h.table
  · rw [hnone] at pending
    exact absurd pending (by simp)
  · obtain rfl : e' = e := by simpa [htable] using pending
    have hcarried : s.carried = some e'.toItem := by simp [Session.carried, htable]
    have hunset : s.unsetTag s.name = { s with bcnetsockcallback := [] } := by
      simp [Session.unsetTag, htable, hsock, htag]
    have hreplays := h.replays
    rw [hcarried] at hreplays
    rw [hunset]
    refine ⟨.inl rfl, h.tags, ?_, h.status, .inl owed, ?_, ?_⟩
    · rintro (hsome | hconnected)
      · exact absurd rfl hsome
      · exact h.sock (.inr hconnected)
    · refine h.matched.append [.ranCallback e'.toItem status databytes _] ?_ rfl
      intro item status databytes owner hmem
      simp only [List.mem_singleton, Effect.ranCallback.injEq] at hmem
      rw [hmem.2.2.2, hmem.1]
    · have hlog := hreplays.answered
      simpa [Session.log, Session.emit, Session.carried, Effect.label?] using hlog

/-- With nothing owed any more, a reply is processed as long as its owner is the message in
progress. -/
theorem Inv.processReply (h : Inv s) {header : Header} (databytes : Bytes) {owner : Option Item}
    (owed : header.isReply = true → s.owed = [])
    (own : header.isReply = true → s.carried ≠ none → owner = s.carried) (writes : Bool) :
    Inv (processReply header databytes owner writes s).1 := by
  unfold BladeCenter.processReply
  split_ifs with hraise htype hevent
  · exact h.congr rfl rfl rfl rfl rfl rfl rfl
  · exact h.netClose
  · exact h
  · cases hpending : s.pending s.name with
    | none => exact h.netWriteMsg writes
    | some e =>
        have hcarried : s.carried = some e.toItem := by
          rw [Session.carried, ← h.pending, hpending]
          rfl
        have hreply : header.isReply = true := by
          simp only [Header.isReply, Bool.or_eq_true, decide_eq_true_eq]
          omega
        obtain rfl : owner = some e.toItem := by
          rw [own hreply (by simp [hcarried]), hcarried]
        simp only
        cases e.after with
        | none => exact h.answer hpending (owed hreply) header.status databytes
        | some timer =>
            exact (h.afterCancel timer).answer (s := s.afterCancel timer) hpending (owed hreply)
              header.status databytes

/-- A reply is read off a connection on which one is owed, and then nothing is owed. -/
theorem Inv.received (h : Inv s) (header : Header) :
    Inv (s.received header) ∧ (header.isReply = true → (s.received header).owed = []) := by
  unfold Session.received
  split_ifs with hreply
  · have hnone : s.owed.drop 1 = [] := by
      obtain howed | howed := h.owed
      · simp [howed]
      · cases hcarried : s.carried with
        | none => simp [howed, hcarried]
        | some item => simp [howed, hcarried]
    exact ⟨{ h with owed := .inl hnone }, fun _ => hnone⟩
  · exact ⟨h, fun hcontra => absurd hcontra hreply⟩

/-- After a close there is no message in progress, and nothing is owed. -/
theorem netClose_carried (h : Inv s) :
    (netClose s).bcnetsockcallback = [] ∧ (netClose s).owed = [] ∧
      (netClose s).netStatus = .closed := by
  obtain ⟨fileevent, hclose⟩ := netClose_eq h
  rw [hclose]
  exact ⟨rfl, rfl, rfl⟩

theorem Inv.netProcessMsg (h : Inv s) (input : Input) (writes : Bool)
    (owes : input.reply?.isSome → s.owed ≠ []) : Inv (netProcessMsg input writes s).1 := by
  unfold BladeCenter.netProcessMsg
  split
  · exact h
  split
  · exact h
  split
  · exact h.netClose
  cases hline : input.line with
  | none => exact h.congr rfl rfl rfl rfl rfl rfl rfl
  | some line =>
      simp only
      cases hheader : scanHeader line with
      | none =>
          simp only
          by_cases hdata : input.databytes = none
          · rw [closeUnread, if_pos hdata]
            exact h.netClose.netClose
          · rw [closeUnread, if_neg hdata]
            exact h.netClose
      | some header =>
          obtain ⟨hreceived, hnone⟩ := h.received header
          simp only
          by_cases hdata : input.databytes = none
          · rw [closeUnread, if_pos hdata]
            obtain ⟨htable, howed, -⟩ := netClose_carried hreceived
            refine hreceived.netClose.processReply _ (fun _ => howed) (fun _ hsome => ?_) writes
            exact absurd (by simp [Session.carried, htable]) hsome
          · rw [closeUnread, if_neg hdata]
            refine hreceived.processReply _ hnone (fun hreply hsome => ?_) writes
            have hcarried : (s.received header).carried = s.carried := by
              unfold Session.received
              split
              · rfl
              · rfl
            have hreplies : input.reply?.isSome := by
              simp [Input.reply?, hline, hheader, hreply]
            obtain howed | howed := h.owed
            · exact absurd howed (owes hreplies)
            · rw [hcarried, howed]
              cases s.carried with
              | none => rfl
              | some item => rfl

/-! ### The connection and the events -/

theorem openResult_named {connect : Option Handshake} (named : ∀ c ∈ connect, c.sock ≠ 0)
    (sock : ℕ) (result : (openResult connect).sock? = some sock) : sock ≠ 0 := by
  rw [openResult_sock] at result
  obtain ⟨c, hc, rfl⟩ := Option.map_eq_some_iff.mp result
  exact named c hc

/-- A socket has been opened. -/
theorem Inv.opened (h : Inv s) (closed : s.sock = 0) {sock : ℕ} {status : Status}
    (named : sock ≠ 0) (opens : status = .opening ∨ status = .connected)
    (link fileevent : Bool) :
    Inv { s with sock := sock, netStatus := status, link := link, fileevent := fileevent } := by
  have htable : s.bcnetsockcallback = [] := by
    by_contra hsome
    exact h.sock (.inl hsome) closed
  refine ⟨.inl htable, h.tags, fun _ => named, ?_, h.owed, h.matched, h.replays⟩
  obtain rfl | rfl := opens
  · simp
  · simp

theorem Inv.netOpen (h : Inv s) (connect : Option Handshake) (writes : Bool)
    (named : ∀ c ∈ connect, c.sock ≠ 0) : Inv (netOpen connect writes s) := by
  unfold BladeCenter.netOpen
  split
  · exact h
  split
  · exact h
  rename_i hsock
  have hclosed : s.sock = 0 := by simpa using hsock
  have hnamed := openResult_named named
  cases hresult : openResult connect with
  | socketFailed => exact h
  | refused sock =>
      exact (h.opened hclosed (hnamed sock (by rw [hresult]; rfl)) (.inl rfl) _ _).netClose
  | raised sock => exact h.opened hclosed (hnamed sock (by rw [hresult]; rfl)) (.inl rfl) _ _
  | loggedIn sock =>
      have hconnected :=
        h.opened hclosed (hnamed sock (by rw [hresult]; rfl)) (.inr rfl) true true
      simp only
      split
      · exact hconnected.netWriteMsg writes
      · exact hconnected

theorem Inv.restartHealth (h : Inv s) : Inv s.restartHealth :=
  ((h.afterCancel s.netHealthAfter).after .netHealth).congr rfl rfl rfl rfl rfl rfl rfl

theorem Inv.netHealth (h : Inv s) (connect : Option Handshake) (writes : Bool)
    (named : ∀ c ∈ connect, c.sock ≠ 0) : Inv (netHealth connect writes s) := by
  have hidle : ∀ count, Inv { s.restartHealth with netIdleCount := count } := fun count =>
    h.restartHealth.congr rfl rfl rfl rfl rfl rfl rfl
  unfold BladeCenter.netHealth
  split
  · exact h.afterCancel s.netHealthAfter
  · simp only
    split
    · exact h.restartHealth.netOpen connect writes named
    · exact h.restartHealth.netOpen connect writes named
    · exact h.restartHealth
    · split
      · exact h.restartHealth.netWriteMsg writes
      · split
        · exact (hidle _).sendMsg 2 [15, 5, 11] [] "" 3 writes
        · exact hidle _
    · exact h.restartHealth.netClose
    · exact h.restartHealth.netClose

theorem Inv.handle (h : Inv s) {event : Event} (admits : admissible s event) :
    Inv (handle s event).1 := by
  cases event with
  | send type cmd databytes callback priority writes =>
      exact h.sendMsg type cmd databytes callback priority writes
  | readable input writes => exact h.netProcessMsg input writes admits.2
  | netMsgTimeout timer => exact (h.afterCancel timer).netClose
  | netHealth connect writes =>
      refine h.netHealth connect writes fun c hc => ?_
      obtain rfl := hc
      exact admits
  | network on => exact h.congr rfl rfl rfl rfl rfl rfl rfl
  | pause on => exact h.congr rfl rfl rfl rfl rfl rfl rfl

theorem Inv.resume (h : Inv s) (frame : Frame) : Inv (resume frame s).1 :=
  h.netWriteMsg frame.writes

/-! ## What is lost -/

/-- The messages that were taken out of the array and not put back. -/
def Session.lost (s : Session) : List Item := Courier.dropped s.log

@[simp]
theorem Session.lost_emit (s : Session) (e : Effect) :
    (s.emit e).lost = s.lost ++ Courier.dropped e.label?.toList := by
  rw [lost, log_emit, Courier.dropped_append]
  rfl

/-- The step loses a message: its timer fires while the network is off. -/
def Loses (s : Session) : Event → Prop
  | .netMsgTimeout _ => s.network = false ∧ s.bcnetsockcallback ≠ []
  | _ => False

instance decidableLoses (s : Session) : DecidablePred (Loses s)
  | .netMsgTimeout _ => inferInstanceAs (Decidable (s.network = false ∧ s.bcnetsockcallback ≠ []))
  | .send _ _ _ _ _ _ | .readable _ _ | .netHealth _ _ | .network _ | .pause _ =>
    isFalse not_false

theorem netClose_lost (h : Inv s) :
    (netClose s).lost = s.lost ++ if s.network = false then s.carried.toList else [] := by
  obtain ⟨fileevent, hclose⟩ := netClose_eq h
  rw [hclose]
  cases s.carried with
  | none => simp [Session.lost, Session.log]
  | some item =>
      by_cases hnetwork : s.network = false
      · simp [Session.lost, Session.log, hnetwork, Effect.label?, Courier.dropped]
      · simp [Session.lost, Session.log, hnetwork, Effect.label?, Courier.dropped]

/-- With the network on, a close loses nothing. -/
theorem netClose_lost_of_network (h : Inv s) (network : s.network = true) :
    (netClose s).lost = s.lost := by
  rw [netClose_lost h, if_neg (by simp [network]), List.append_nil]

theorem written_lost (item : Item) : (s.written item).lost = s.lost := by
  unfold Session.written
  split_ifs <;> rfl

theorem netWriteMsg_lost (h : Inv s) (writes : Bool) : (netWriteMsg writes s).lost = s.lost := by
  obtain ⟨-, hwrite⟩ | ⟨-, hwrite⟩ | ⟨hready, htable, item, rest, hnext, hwrite⟩ :=
    netWriteMsg_cases h writes
  · rw [hwrite]
  · rw [hwrite]
    rfl
  · have henter : Inv ({ s with msgq := sort Item.priority s.msgq }.enter item rest) := by
      refine h.sortMsgq.enter htable (h.sock (.inr hready.2.2)) ?_
      rw [sort_eq_self _ (sort_sorted _ _), hnext]
    have hentered : ({ s with msgq := sort Item.priority s.msgq }.enter item rest).lost =
        s.lost := by
      have hemit := s.lost_emit (.sent item)
      rwa [Effect.label?, Option.toList_some, Courier.dropped, List.filterMap_cons,
        List.filterMap_nil, List.append_nil] at hemit
    rw [hwrite, Session.sendFirst]
    cases writes with
    | true => exact (written_lost item).trans hentered
    | false => exact (netClose_lost_of_network henter hready.1).trans hentered

theorem sendMsg_lost (h : Inv s) (type : ℤ) (cmd : DotCmd) (databytes : Bytes)
    (callback : String) (priority : ℤ) (writes : Bool) :
    (sendMsg type cmd databytes callback priority writes s).lost = s.lost := by
  have hpost : ∀ item, (s.post .back item).lost = s.lost := fun item => by
    have hemit := s.lost_emit (.posted .back item)
    rwa [Effect.label?, Option.toList_some, Courier.dropped, List.filterMap_cons,
      List.filterMap_nil, List.append_nil] at hemit
  unfold sendMsg
  split
  · rfl
  · unfold netSendMsg netSendItemWith
    split_ifs
    · simp [Effect.label?, Courier.dropped]
    · exact (netWriteMsg_lost (h.post rfl) writes).trans (hpost _)
    · exact hpost _

theorem processReply_lost (h : Inv s) (network : s.network = true) (header : Header)
    (databytes : Bytes) (owner : Option Item) (writes : Bool) :
    (processReply header databytes owner writes s).1.lost = s.lost := by
  unfold processReply
  split_ifs
  · rfl
  · exact netClose_lost_of_network h network
  · rfl
  · split
    · exact netWriteMsg_lost h writes
    · rename_i e _
      simp only [Session.lost_emit, Effect.label?, Option.toList_some, Courier.dropped,
        List.filterMap_cons, List.filterMap_nil, List.append_nil]
      cases e.after with
      | none => rfl
      | some timer => rfl

/-- Closing because the data cannot be read loses nothing, with the network on. -/
theorem closeUnread_keeps (h : Inv s) (network : s.network = true) (input : Input) :
    Inv (closeUnread input s) ∧ (closeUnread input s).network = true ∧
      (closeUnread input s).lost = s.lost := by
  unfold closeUnread
  split_ifs
  · refine ⟨h.netClose, ?_, netClose_lost_of_network h network⟩
    obtain ⟨fileevent, hclose⟩ := netClose_eq h
    rw [hclose]
    exact network
  · exact ⟨h, network, rfl⟩

theorem netProcessMsg_lost (h : Inv s) (input : Input) (writes : Bool) :
    (netProcessMsg input writes s).1.lost = s.lost := by
  unfold netProcessMsg
  split
  · rfl
  split
  · rfl
  rename_i hnetwork
  have hon : s.network = true := by simpa using hnetwork
  split
  · exact netClose_lost_of_network h hon
  split
  · rfl
  split
  · obtain ⟨hinv, hkept, hlost⟩ := closeUnread_keeps h hon input
    exact (netClose_lost_of_network hinv hkept).trans hlost
  · rename_i header _
    have hreceived : (s.received header).network = true ∧ (s.received header).lost = s.lost := by
      unfold Session.received
      split
      · exact ⟨hon, rfl⟩
      · exact ⟨hon, rfl⟩
    obtain ⟨hinv, hkept, hlost⟩ := closeUnread_keeps (h.received header).1 hreceived.1 input
    exact (processReply_lost hinv hkept header _ _ writes).trans (hlost.trans hreceived.2)

theorem netOpen_lost (h : Inv s) (connect : Option Handshake) (writes : Bool)
    (named : ∀ c ∈ connect, c.sock ≠ 0) : (netOpen connect writes s).lost = s.lost := by
  unfold netOpen
  split
  · rfl
  rename_i hnetwork
  have hon : s.network = true := by simpa using hnetwork
  split
  · rfl
  rename_i hsock
  have hclosed : s.sock = 0 := by simpa using hsock
  have hnamed := openResult_named named
  cases hresult : openResult connect with
  | socketFailed => rfl
  | refused sock =>
      exact netClose_lost_of_network
        (h.opened hclosed (hnamed sock (by rw [hresult]; rfl)) (.inl rfl) s.link s.fileevent) hon
  | raised sock => rfl
  | loggedIn sock =>
      simp only
      split
      · exact netWriteMsg_lost
          (h.opened hclosed (hnamed sock (by rw [hresult]; rfl)) (.inr rfl) true true) writes
      · rfl

theorem netHealth_lost (h : Inv s) (connect : Option Handshake) (writes : Bool)
    (named : ∀ c ∈ connect, c.sock ≠ 0) : (netHealth connect writes s).lost = s.lost := by
  have hidle : ∀ count, Inv { s.restartHealth with netIdleCount := count } := fun count =>
    h.restartHealth.congr rfl rfl rfl rfl rfl rfl rfl
  unfold netHealth
  split
  · rfl
  · simp only
    split
    · exact netOpen_lost h.restartHealth connect writes named
    · exact netOpen_lost h.restartHealth connect writes named
    · rfl
    · split
      · exact netWriteMsg_lost h.restartHealth writes
      · split
        · exact sendMsg_lost (hidle _) 2 [15, 5, 11] [] "" 3 writes
        · rfl
    · rename_i hstatus
      exact absurd hstatus h.status.1
    · rename_i hstatus
      exact absurd hstatus h.status.2

/-- A step loses the message in progress, or nothing. -/
theorem handle_lost (h : Inv s) {event : Event} (admits : admissible s event) :
    (handle s event).1.lost = s.lost ++ if Loses s event then s.carried.toList else [] := by
  cases event with
  | send type cmd databytes callback priority writes =>
      simpa [handle, Loses] using sendMsg_lost h type cmd databytes callback priority writes
  | readable input writes => simpa [handle, Loses] using netProcessMsg_lost h input writes
  | netMsgTimeout timer =>
      have hclose := netClose_lost (h.afterCancel timer)
      refine hclose.trans ?_
      congr 1
      by_cases htable : s.bcnetsockcallback = []
      · have hcarried : (s.afterCancel timer).carried = none ∧ s.carried = none :=
          ⟨by simp [Session.carried, Session.afterCancel, htable], (h.carried_none htable).1⟩
        simp [hcarried.1, hcarried.2]
      · simp only [Loses, htable, not_false_eq_true, ne_eq, and_true]
        rfl
  | netHealth connect writes =>
      have hnamed : ∀ c ∈ connect, c.sock ≠ 0 := by
        rintro c rfl
        exact admits
      simpa [handle, Loses] using netHealth_lost h connect writes hnamed
  | network on => exact (List.append_nil _).symm
  | pause on => exact (List.append_nil _).symm

theorem resume_lost (h : Inv s) (frame : Frame) : (resume frame s).1.lost = s.lost :=
  netWriteMsg_lost h frame.writes

/-! ## Runs -/

/-- A blade center object that has not done anything yet. -/
structure Session.Fresh (s : Session) : Prop where
  msgq : s.msgq = []
  table : s.bcnetsockcallback = []
  status : s.netStatus = .disconnected
  sock : s.sock = 0
  owed : s.owed = []
  afters : s.afters = []
  effects : s.effects = []

theorem Session.Fresh.inv (h : s.Fresh) : Inv s where
  table := .inl h.table
  tags := by simp [h.msgq]
  sock := by simp [h.table, h.status]
  status := by simp [h.status]
  owed := .inl h.owed
  matched := by simp [Session.Matched, h.effects]
  replays := ⟨{}, by simp [Session.log, h.effects], by simp [Session.carried, h.table],
    by simp [h.msgq]⟩

/-- An object without calls that have not returned. -/
def started (s : Session) : Suspended Session Frame := ⟨s, []⟩

variable {happenings : List (Happening Event)}

theorem step_inv {s : Suspended Session Frame} {happening : Happening Event} (h : Inv s.state)
    (admits : reentrant.machine.admissible s happening) :
    Inv (reentrant.machine.step s happening).state :=
  reentrant.step_invariant (C := fun _ _ => True)
    (fun _ _ inv adm _ => inv.handle adm) (fun frame _ inv => inv.resume frame) s happening h
    admits fun _ _ => trivial

theorem step_lost {s : Suspended Session Frame} {happening : Happening Event} (h : Inv s.state)
    (admits : reentrant.machine.admissible s happening) :
    (reentrant.machine.step s happening).state.lost = s.state.lost ↔
      Reentrant.Meets (fun s e => ¬ Loses s e) s happening := by
  cases happening with
  | occurs event =>
      have hlost : (reentrant.machine.step s (.occurs event)).state.lost = _ :=
        handle_lost h admits
      rw [hlost]
      show _ ↔ ¬ Loses s.state event
      by_cases hloses : Loses s.state event
      · cases event with
        | netMsgTimeout timer =>
            obtain ⟨e, table, htable⟩ := List.exists_cons_of_ne_nil hloses.2
            simp [hloses, Session.carried, htable]
        | _ => exact absurd hloses id
      · simp [hloses]
  | returns =>
      obtain ⟨state, stack⟩ := s
      cases stack with
      | nil => exact absurd rfl admits
      | cons frame stack => exact iff_of_true (resume_lost h frame) trivial

/-- Within each priority, the messages are answered in the order in which they were sent, and
what was sent and not answered is in progress or waits, in that order too. -/
def Session.InOrder (s : Session) : Prop :=
  ∀ p, (Courier.accepted s.log).filter (fun item => item.priority = p) =
    (Courier.answered s.log ++ (s.carried.toList ++ sort Item.priority s.msgq)).filter
      fun item => item.priority = p

theorem Inv.inOrder_iff (h : Inv s) : s.InOrder ↔ s.lost = [] := h.replays.answered_iff

theorem run_inv (fresh : s.Fresh) (admits : reentrant.machine.Admits (started s) happenings) :
    Inv (reentrant.machine.run (started s) happenings).state := by
  have hkept : ∀ t happening, Inv t.state → reentrant.machine.admissible t happening →
      Inv (reentrant.machine.step t happening).state :=
    fun _ _ inv adm => step_inv inv adm
  exact reentrant.machine.invariant_run hkept fresh.inv admits

/-- A message that is sent is the oldest of its priority that is neither answered nor lost, and no
more urgent one is waiting. -/
def Session.SendsOldest (s : Session) : Prop :=
  ∀ before item after, s.log = before ++ .sent item :: after →
    (∃ later, (Courier.accepted before).filter (fun i => i.priority = item.priority) =
      (Courier.settled before).filter (fun i => i.priority = item.priority) ++ item :: later) ∧
      ∀ p < item.priority, (Courier.accepted before).filter (fun i => i.priority = p) =
        (Courier.settled before).filter fun i => i.priority = p

/-- In every run, each callback runs with the reply to its own message. -/
theorem run_matched (fresh : s.Fresh)
    (admits : reentrant.machine.Admits (started s) happenings) :
    (reentrant.machine.run (started s) happenings).state.Matched :=
  (run_inv fresh admits).matched

/-! ## A run -/

def sampleHandshake (sock : ℕ) : Handshake :=
  ⟨sock, some [7, 9], some [0x59, 0x4f, 0x55, 0x41, 0x52, 0x45, 0x49, 0x4e, 0]⟩

def sampleReply : Input := (Reply.mk 4 0 0 [2, 1] [20]).input

/-- Three messages are sent; the first is not answered before its timer fires, and the second is
more urgent. Its callback asks for something else. -/
def sampleRun : List (Happening Event) :=
  [.occurs (.netHealth (some (sampleHandshake 5)) true),
    .occurs (.send 2 [2, 5, 2, 1, 1] [] "first" 2 true),
    .occurs (.send 2 [2, 1, 5, 1] [] "second" 1 true),
    .occurs (.send 2 [15, 5, 11] [] "third" 2 true),
    .occurs (.netMsgTimeout 2),
    .occurs (.netHealth (some (sampleHandshake 6)) true),
    .occurs (.readable sampleReply true),
    .occurs (.send 2 [4, 5, 9] [] "fourth" 1 true),
    .returns]

theorem sampleRun_matched : (reentrant.machine.run (started {}) sampleRun).state.Matched :=
  run_matched ⟨rfl, rfl, rfl, rfl, rfl, rfl, rfl⟩ (by decide)

end Amester.BladeCenter
