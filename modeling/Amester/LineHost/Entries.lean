/-
# The entries of a line protocol session

Nothing ever takes an entry out of `sockcallback`, so for the name of a socket and a tag there is
one message at most, and a reply with this tag is taken for a reply to this message. Here is what
each method does to the entries and to the log, while messages are sent, connections come and go and
traffic is switched on and off.
-/

import Amester.LineHost.Conservation

namespace Amester.LineHost

open PriorityQueue EventMachine

universe u

variable {κ : Type u} {P : LineItem κ → Prop}

/-- The socket and the tag of an entry. -/
def LineEntry.key (e : LineEntry κ) : ℕ × String := (e.sock, e.tag)

/-- What every method keeps, when the messages that are sent have a property. -/
structure Session (P : LineItem κ → Prop) (s : State κ) : Prop where
  connected : s.status = .connected → s.sock ≠ 0
  idle : s.status = .disconnected ∨ s.status = .closed → s.sock = 0
  netsockcallback : s.netsockcallback = []
  keys : (s.sockcallback.map LineEntry.key).Nodup
  queued : ∀ item ∈ s.msgq, item.tag ≠ "" ∧ P item
  entered : ∀ e ∈ s.sockcallback, e.tag ≠ "" ∧ P e.toLineItem

/-- The entry stands for the message on a socket. -/
def State.Has (s : State κ) (sock : ℕ) (item : LineItem κ) : Prop :=
  ∃ e ∈ s.sockcallback, e.sock = sock ∧ e.toLineItem = item

theorem Session.congr {s t : State κ} (h : Session P s) (status : t.status = s.status)
    (sock : t.sock = s.sock) (net : t.netsockcallback = s.netsockcallback)
    (table : t.sockcallback = s.sockcallback) (msgq : t.msgq = s.msgq) : Session P t where
  connected := by
    rw [status, sock]
    exact h.connected
  idle := by
    rw [status, sock]
    exact h.idle
  netsockcallback := net.trans h.netsockcallback
  keys := by
    rw [table]
    exact h.keys
  queued := by
    rw [msgq]
    exact h.queued
  entered := by
    rw [table]
    exact h.entered

theorem Session.emit {s : State κ} (h : Session P s) (e : Effect κ) : Session P (s.emit e) :=
  h.congr rfl rfl rfl rfl rfl

theorem Session.afterCancel {s : State κ} (h : Session P s) (id : ℕ) :
    Session P (s.afterCancel id) :=
  h.congr rfl rfl rfl rfl rfl

/-- A method sends these messages, and may close the connection. -/
structure Advances (P : LineItem κ → Prop) (s t : State κ) (sent : List (LineItem κ)) : Prop where
  session : Session P t
  entries : ∀ sock item, s.Has sock item → t.Has sock item
  effects : t.effects = s.effects ++ sent.map .sent
  entered : ∀ item ∈ sent, t.Has s.sock item
  sock : t.sock = s.sock ∧ (sent ≠ [] → s.sock ≠ 0) ∨ t.sock = 0 ∧ sent = []

theorem Advances.refl {s : State κ} (h : Session P s) : Advances P s s [] where
  session := h
  entries _ _ has := has
  effects := by simp
  entered := by simp
  sock := .inl ⟨rfl, fun hne => absurd rfl hne⟩

/-- Nothing is sent by what leaves the entries, the socket and the log as they are. -/
theorem Advances.quiet {s t : State κ} (session : Session P t)
    (table : t.sockcallback = s.sockcallback) (effects : t.effects = s.effects)
    (sock : t.sock = s.sock) : Advances P s t [] where
  session := session
  entries _ _ has := by
    unfold State.Has
    rw [table]
    exact has
  effects := by simp [effects]
  entered := by simp
  sock := .inl ⟨sock, fun hne => absurd rfl hne⟩

/-- What does not touch the entries, the socket and the log may come first. -/
theorem Advances.after {s s' t : State κ} {sent : List (LineItem κ)} (h : Advances P s' t sent)
    (table : s'.sockcallback = s.sockcallback) (effects : s'.effects = s.effects)
    (sock : s'.sock = s.sock) : Advances P s t sent where
  session := h.session
  entries name item has := h.entries name item (by
    unfold State.Has
    rw [table]
    exact has)
  effects := effects ▸ h.effects
  entered := sock ▸ h.entered
  sock := sock ▸ h.sock

/-! ## Closing -/

/-- Nothing is in the array from which a close reposts. -/
theorem Session.closeSock_eq {s : State κ} (h : Session P s) (sock : s.sock ≠ 0) :
    ∃ afters, closeSock s = { s with status := .closed, sock := 0, afters := afters } := by
  have hnone : s.netsockcallback.filter (fun e => e.sock = s.sock) = [] := by
    simp [h.netsockcallback]
  exact ⟨_, by rw [LineHost.closeSock, if_neg sock, hnone, repostAll]; rfl⟩

theorem Session.closeSock {s : State κ} (h : Session P s) :
    Advances P s (closeSock s) [] ∧ (closeSock s).sock = 0 := by
  by_cases sock : s.sock = 0
  · rw [LineHost.closeSock, if_pos sock]
    have hsession : Session P s.markClosed :=
      { h with connected := by simp [State.markClosed], idle := fun _ => sock }
    exact ⟨.quiet hsession rfl rfl rfl, sock⟩
  · obtain ⟨afters, hclose⟩ := h.closeSock_eq sock
    rw [hclose]
    have hsession : Session P { s with status := .closed, sock := 0, afters := afters } :=
      { h with connected := by simp, idle := fun _ => rfl }
    exact ⟨⟨hsession, fun _ _ has => has, by simp, by simp, .inr ⟨rfl, rfl⟩⟩, rfl⟩

/-! ## Writing -/

theorem pending_isSome_iff (s : State κ) (tag : String) :
    (s.pending tag).isSome = true ↔ (s.sock, tag) ∈ s.sockcallback.map LineEntry.key := by
  simp [State.pending, LineEntry.key, Prod.mk.injEq]

private theorem startTimer_keys (s : State κ) (tag : String) :
    (s.startTimer tag).sockcallback.map LineEntry.key = s.sockcallback.map LineEntry.key := by
  rw [State.startTimer, List.map_map]
  refine List.map_congr_left fun e _ => ?_
  rw [Function.comp_apply]
  split_ifs <;> rfl

private theorem startTimer_has {s : State κ} {sock : ℕ} {item : LineItem κ} (has : s.Has sock item)
    (tag : String) : (s.startTimer tag).Has sock item := by
  obtain ⟨e, he, hsock, hitem⟩ := has
  refine ⟨_, List.mem_map_of_mem he, ?_, ?_⟩
  · split_ifs <;> exact hsock
  · split_ifs <;> exact hitem

theorem Session.startTimer {s : State κ} (h : Session P s) (tag : String) :
    Session P (s.startTimer tag) where
  connected := h.connected
  idle := h.idle
  netsockcallback := h.netsockcallback
  keys := by
    rw [startTimer_keys]
    exact h.keys
  queued := h.queued
  entered e he := by
    obtain ⟨e', he', rfl⟩ := List.mem_map.mp he
    have hfits := h.entered e' he'
    split_ifs <;> exact hfits

/-- A message is entered under a tag that the socket does not have. -/
theorem Session.enterMessage {s : State κ} (h : Session P s) {item : LineItem κ}
    {rest : List (LineItem κ)} (queue : (item :: rest).Perm s.msgq)
    (free : (s.pending item.tag).isSome = false) :
    Session P (s.enterMessage item rest) ∧ (s.enterMessage item rest).Has s.sock item ∧
      ∀ sock other, s.Has sock other → (s.enterMessage item rest).Has sock other := by
  have hmem : item ∈ s.msgq := queue.subset List.mem_cons_self
  refine ⟨⟨h.connected, h.idle, h.netsockcallback, ?_, ?_, ?_⟩, ?_, ?_⟩
  · have hkey : (s.sock, item.tag) ∉ s.sockcallback.map LineEntry.key := by
      rw [← pending_isSome_iff, free]
      exact Bool.false_ne_true
    rw [State.enterMessage, List.map_append, List.nodup_append]
    refine ⟨h.keys, by simp, ?_⟩
    rintro key hkeys other hother rfl
    obtain rfl := List.mem_singleton.mp hother
    exact hkey hkeys
  · exact fun other hother => h.queued other (queue.subset (List.mem_cons_of_mem item hother))
  · intro e he
    obtain hold | hnew := List.mem_append.mp he
    · exact h.entered e hold
    · obtain rfl := List.mem_singleton.mp hnew
      exact h.queued item hmem
  · exact ⟨_, List.mem_append_right _ (List.mem_singleton_self _), rfl, rfl⟩
  · rintro sock other ⟨e, he, hsame⟩
    exact ⟨e, List.mem_append_left _ he, hsame⟩

/-- The first message of the sorted queue is sent, unless its tag is taken. -/
theorem Session.writeFirst {s : State κ} (h : Session P s) (written : Bool)
    {queue : List (LineItem κ)} (perm : queue.Perm s.msgq) (sock : s.sock ≠ 0) :
    ∃ sent, Advances P s (writeFirst LineHost.closeSock written queue { s with msgq := queue })
      sent := by
  have hsession : Session P { s with msgq := queue } :=
    { h with queued := fun item hitem => h.queued item (perm.subset hitem) }
  cases queue with
  | nil => exact ⟨[], .quiet hsession rfl rfl rfl⟩
  | cons item rest =>
      rw [LineHost.writeFirst]
      split_ifs with hpending hwritten htimeout
      · exact ⟨[], .quiet hsession rfl rfl rfl⟩
      all_goals
        obtain ⟨hentered, hhas, hentries⟩ := hsession.enterMessage (List.Perm.refl _)
          (Bool.eq_false_iff.mpr hpending)
      · have hsent := hentered.emit (.sent item)
        refine ⟨[item], hsent.startTimer item.tag, ?_, rfl, ?_, .inl ⟨rfl, fun _ => sock⟩⟩
        · exact fun name other has => startTimer_has (hentries name other has) item.tag
        · intro other hother
          obtain rfl := List.mem_singleton.mp hother
          exact startTimer_has hhas other.tag
      · refine ⟨[item], hentered.emit (.sent item), ?_, rfl, ?_, .inl ⟨rfl, fun _ => sock⟩⟩
        · exact fun name other has => hentries name other has
        · intro other hother
          obtain rfl := List.mem_singleton.mp hother
          exact hhas
      · obtain ⟨hclose, hsock⟩ := hentered.closeSock
        refine ⟨[], hclose.session, ?_, hclose.effects, by simp, .inr ⟨hsock, rfl⟩⟩
        exact fun name other has => hclose.entries name other (hentries name other has)

theorem Session.writeMsg {s : State κ} (h : Session P s) (written : Bool) :
    ∃ sent, Advances P s (writeMsg written s) sent := by
  unfold LineHost.writeMsg writeMsgWith
  split_ifs with hnetwork hmsgq hstatus
  · exact ⟨[], .refl h⟩
  · exact ⟨[], .refl h⟩
  · exact ⟨[], .refl h⟩
  · exact h.writeFirst written (sort_perm LineItem.priority s.msgq)
      (h.connected (not_not.mp hstatus))

private theorem lineItem_tag (s : State κ) (r : LineRequest κ) : (s.lineItem r).tag ≠ "" := by
  by_cases htag : r.tag = ""
  · simp [State.lineItem, htag]
  · simp [State.lineItem, htag]

theorem Session.sendMsg {s : State κ} (h : Session P s) (written : Bool) {r : LineRequest κ}
    (fits : P (s.lineItem r)) : ∃ sent, Advances P s (sendMsg written r s) sent := by
  have hsession : Session P (s.enqueueMessage .back r) :=
    { h with
      queued := fun item hitem => by
        obtain hold | hnew := List.mem_append.mp hitem
        · exact h.queued item hold
        · obtain rfl := List.mem_singleton.mp hnew
          exact ⟨lineItem_tag s r, fits⟩ }
  unfold LineHost.sendMsg sendMsgWith
  split_ifs with hnetwork hlength
  · exact ⟨[], .refl h⟩
  · obtain ⟨sent, hsent⟩ := hsession.writeMsg written
    exact ⟨sent, hsent.after rfl rfl rfl⟩
  · exact ⟨[], .quiet hsession rfl rfl rfl⟩

/-! ## Replies

A callback may wait in the event loop, so that anything happens before it returns. -/

/-- `processMsg` up to the callback, with the tag of the message if there is one. -/
def readReply (c : LineClass) (input : Input) (written : Bool) (s : State κ) :
    State κ × Option String :=
  if s.pause then (s, none)
  else
    match input with
    | .failed => (closeSock s, none)
    | .malformed => (s, none)
    | .line tag reply =>
      if s.network = false then (s, none)
      else if tag = "#" then (writeMsg written s, none)
      else
        match s.pending tag with
        | none => (s, none)
        | some e => (s.reply c e reply, some tag)

/-- The rest of `processMsg`. -/
def afterCallback (tag : String) (written : Bool) (s : State κ) : State κ :=
  writeMsg written (s.unsetNet tag)

theorem processMsg_eq (c : LineClass) (input : Input) (written : Bool) (s : State κ) :
    processMsg c input written s =
      match readReply c input written s with
      | (t, none) => t
      | (t, some tag) => afterCallback tag written t := by
  unfold processMsg readReply
  by_cases hpause : s.pause = true
  · rw [if_pos hpause, if_pos hpause]
  · rw [if_neg hpause, if_neg hpause]
    cases input with
    | failed | malformed => rfl
    | line tag reply =>
        by_cases hnetwork : s.network = false
        · simp only [if_pos hnetwork]
        by_cases hcomment : tag = "#"
        · simp only [if_neg hnetwork, if_pos hcomment]
        · simp only [if_neg hnetwork, if_neg hcomment]
          cases s.pending tag with
          | none => rfl
          | some e => rfl

/-- The state in which the callback of a message runs. -/
structure Replies (P : LineItem κ → Prop) (s t : State κ) (item : LineItem κ)
    (arguments : List String) : Prop where
  session : Session P t
  table : t.sockcallback = s.sockcallback
  effects : t.effects = s.effects ++ [.replied item arguments]
  sock : t.sock = s.sock

theorem Session.reply {s : State κ} (h : Session P s) (c : LineClass) (e : LineEntry κ)
    (reply : String) :
    Replies P s (s.reply c e reply) e.toLineItem (if c.appendsReply then [reply] else []) := by
  unfold State.reply
  cases e.after with
  | none => exact ⟨h.emit _, rfl, rfl, rfl⟩
  | some timer => exact ⟨(h.afterCancel timer).emit _, rfl, rfl, rfl⟩

private theorem pending_eq_some {s : State κ} {tag : String} {e : LineEntry κ}
    (found : s.pending tag = some e) :
    e ∈ s.sockcallback ∧ e.sock = s.sock ∧ e.tag = tag := by
  refine ⟨List.mem_of_find?_eq_some found, ?_⟩
  have hfound := List.find?_some found
  simpa using hfound

/-- A reply is for the message that the socket has under its tag, and only a line is a reply. A
comment is none. -/
theorem Session.readReply {s : State κ} (h : Session P s) (c : LineClass) (input : Input)
    (written : Bool) :
    (∃ sent, Advances P s (readReply c input written s).1 sent) ∨
      ∃ tag reply item, input = .line tag reply ∧ tag ≠ "#" ∧ item.tag = tag ∧
        s.Has s.sock item ∧
        Replies P s (readReply c input written s).1 item
          (if c.appendsReply then [reply] else []) := by
  unfold LineHost.readReply
  by_cases hpause : s.pause = true
  · rw [if_pos hpause]
    exact .inl ⟨[], .refl h⟩
  · rw [if_neg hpause]
    cases input with
    | failed => exact .inl ⟨[], h.closeSock.1⟩
    | malformed => exact .inl ⟨[], .refl h⟩
    | line tag reply =>
        by_cases hnetwork : s.network = false
        · simp only [if_pos hnetwork]
          exact .inl ⟨[], .refl h⟩
        by_cases hcomment : tag = "#"
        · simp only [if_neg hnetwork, if_pos hcomment]
          exact .inl (h.writeMsg written)
        · simp only [if_neg hnetwork, if_neg hcomment]
          cases found : s.pending tag with
          | none => exact .inl ⟨[], .refl h⟩
          | some e =>
              obtain ⟨hmem, hsock, htag⟩ := pending_eq_some found
              exact .inr ⟨tag, reply, e.toLineItem, rfl, hcomment, htag, ⟨e, hmem, hsock, rfl⟩,
                h.reply c e reply⟩

theorem Session.afterCallback {s : State κ} (h : Session P s) (tag : String) (written : Bool) :
    ∃ sent, Advances P s (afterCallback tag written s) sent := by
  have hnet : (s.netsockcallback.filter fun e => ¬ (e.sock = s.sock ∧ e.tag = tag)) =
      s.netsockcallback := by
    simp [h.netsockcallback]
  have hunset : Session P (s.unsetNet tag) := h.congr rfl rfl hnet rfl rfl
  obtain ⟨sent, hsent⟩ := hunset.writeMsg written
  exact ⟨sent, hsent.after rfl rfl rfl⟩

/-- What cannot be read closes the connection. -/
theorem Session.processFailed {s : State κ} (h : Session P s) (c : LineClass) (written : Bool) :
    Advances P s (processMsg c .failed written s) [] := by
  unfold LineHost.processMsg
  by_cases hpause : s.pause = true
  · rw [if_pos hpause]
    exact .refl h
  · rw [if_neg hpause]
    exact h.closeSock.1

/-! ## The connection -/

theorem Session.msgTimeout {s : State κ} (h : Session P s) (tag : String) :
    Advances P s (msgTimeout tag s) [] := by
  unfold LineHost.msgTimeout
  split_ifs with hsock
  · cases s.pending tag with
    | none => exact .refl h
    | some e =>
        simp only
        split_ifs
        · exact h.closeSock.1
        · exact .refl h
  · exact h.closeSock.1

theorem Session.openCallback {s : State κ} (h : Session P s) (sock : s.sock ≠ 0)
    (connects written : Bool) :
    ∃ sent, Advances P s (openCallback connects written s) sent := by
  have hconnected : Session P { s.afterCancel s.afterTimeout with status := .connected } :=
    { h.afterCancel s.afterTimeout with connected := fun _ => sock, idle := nofun }
  unfold LineHost.openCallback
  split_ifs with hconnects hmsgq
  · obtain ⟨sent, hsent⟩ := hconnected.writeMsg written
    exact ⟨sent, hsent.after rfl rfl rfl⟩
  · exact ⟨[], .quiet hconnected rfl rfl rfl⟩
  · exact ⟨[], (h.afterCancel s.afterTimeout).closeSock.1.after rfl rfl rfl⟩

/-- A socket is opened only without one, and nothing is sent then. -/
structure Opens (P : LineItem κ → Prop) (s t : State κ) (sock : ℕ) : Prop where
  session : Session P t
  table : t.sockcallback = s.sockcallback
  effects : t.effects = s.effects
  closed : s.sock = 0
  sock : t.sock = sock

theorem Session.restartHealth {s : State κ} (h : Session P s) : Session P s.restartHealth :=
  h.congr rfl rfl rfl rfl rfl

theorem Session.openSock {s : State κ} (h : Session P s) (idle : s.sock = 0) {sock : Option ℕ}
    (named : sock ≠ some 0) :
    (∃ sent, Advances P s (openSock sock s) sent) ∨
      ∃ name, sock = some name ∧ Opens P s (openSock sock s) name := by
  cases sock with
  | none => exact .inl ⟨[], .refl h⟩
  | some name =>
      have hname : name ≠ 0 := fun hzero => named (congrArg some hzero)
      refine .inr ⟨name, rfl, ⟨?_, rfl, rfl, idle, rfl⟩⟩
      exact { h with connected := nofun, idle := nofun }

theorem Session.health {s : State κ} (h : Session P s) {sock : Option ℕ} (named : sock ≠ some 0)
    (written : Bool) :
    (∃ sent, Advances P s (health sock written s) sent) ∨
      ∃ name, sock = some name ∧ Opens P s (health sock written s) name := by
  have hrestart := h.restartHealth
  have hopens : s.sock = 0 →
      (∃ sent, Advances P s (LineHost.openSock sock s.restartHealth) sent) ∨
        ∃ name, sock = some name ∧ Opens P s (LineHost.openSock sock s.restartHealth) name := by
    intro hidle
    obtain ⟨sent, hsent⟩ | ⟨name, hname, hopen⟩ := hrestart.openSock hidle named
    · exact .inl ⟨sent, hsent.after rfl rfl rfl⟩
    · exact .inr ⟨name, hname, ⟨hopen.session, hopen.table, hopen.effects, hidle, hopen.sock⟩⟩
  unfold LineHost.health
  by_cases hperiod : s.healthPeriod = 0
  · rw [if_pos hperiod]
    exact .inl ⟨[], .quiet (h.afterCancel s.healthAfter) rfl rfl rfl⟩
  · rw [if_neg hperiod]
    cases hstatus : s.status with
    | disconnected => exact hopens (h.idle (.inl hstatus))
    | closed => exact hopens (h.idle (.inr hstatus))
    | opening => exact .inl ⟨[], .quiet hrestart rfl rfl rfl⟩
    | connected =>
        by_cases hmsgq : s.msgq ≠ []
        · simp only [if_pos hmsgq]
          obtain ⟨sent, hsent⟩ := hrestart.writeMsg written
          exact .inl ⟨sent, hsent.after rfl rfl rfl⟩
        · simp only [if_neg hmsgq]
          exact .inl ⟨[], .quiet hrestart rfl rfl rfl⟩
    | timeout | error => exact .inl ⟨[], hrestart.closeSock.1.after rfl rfl rfl⟩

end Amester.LineHost
