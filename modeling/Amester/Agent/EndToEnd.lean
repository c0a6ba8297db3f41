/-
# Each callback gets the result of its own message

The invariant that ties both parties together: what the agent has read from a connection and what is
on its way to it are the lines that the client sent on it, and each message that was sent still has
its entry under the tag that the answer will carry. The step lemmas follow the parties, and the last
theorem is about every run.
-/

import Amester.Agent.System
import Amester.Lib.Numeral

namespace Amester.Agent

open ListFormat Numeral EventMachine

universe u

variable {κ : Type u} {tcl : Tcl}

/-! ## What a step of the agent adds to its log -/

/-- The log grows by the lines that were read and by lines for connections that were accepted. -/
structure Grows (tcl : Tcl) (s t : Server) (read : ℕ → List Text) : Prop where
  accepted : s.accepted ⊆ t.accepted
  known : ∀ l, read l ≠ [] → l ∈ t.accepted
  effects : ∃ new, t.effects = s.effects ++ new ∧
    (∀ l, new.filterMap (Effect.read? l) = read l) ∧
    ∀ e ∈ new, ∀ l, (e.line? tcl l).isSome = true → l ∈ t.accepted

theorem Closes.grows {s t : Server} (h : Closes s t) : Grows tcl s t fun _ => [] := by
  obtain ⟨more, heffects, hmore⟩ := h.effects
  refine ⟨h.accepted ▸ List.Subset.refl _, by simp, more, heffects, fun l => ?_, ?_⟩
  · refine List.filterMap_eq_nil_iff.mpr fun e he => ?_
    obtain rfl | ⟨c, rfl⟩ := hmore e he <;> rfl
  · intro e he l hline
    obtain rfl | ⟨c, rfl⟩ := hmore e he <;> exact absurd hline Bool.false_ne_true

/-- Changes to the tables do not concern the log. -/
theorem Grows.tables {s t : Server} (accepted : s.accepted ⊆ t.accepted)
    (effects : t.effects = s.effects) : Grows tcl s t fun _ => [] :=
  ⟨accepted, by simp, [], by simp [effects], fun _ => rfl, by simp⟩

theorem Grows.trans {s t v : Server} {first second : ℕ → List Text} (h : Grows tcl s t first)
    (g : Grows tcl t v second) : Grows tcl s v fun l => first l ++ second l := by
  obtain ⟨new, heffects, hread, hline⟩ := h.effects
  obtain ⟨more, heffects', hread', hline'⟩ := g.effects
  refine ⟨List.Subset.trans h.accepted g.accepted, fun l hne => ?_, new ++ more, ?_,
    fun l => ?_, ?_⟩
  · by_cases hfirst : first l = []
    · exact g.known l fun hsecond => hne (by rw [hfirst, hsecond]; rfl)
    · exact g.accepted (h.known l hfirst)
  · rw [heffects', heffects, List.append_assoc]
  · rw [List.filterMap_append, hread, hread']
  · intro e he l hsome
    obtain hnew | hmore := List.mem_append.mp he
    · exact g.accepted (hline e hnew l hsome)
    · exact hline' e hmore l hsome

theorem Grows.emit_read {s : Server} {conn : ℕ} (known : conn ∈ s.accepted) (line : Text) :
    Grows tcl s (s.emit (.read conn line)) fun l => if conn = l then [line] else [] := by
  refine ⟨List.Subset.refl _, fun l hne => ?_, _, rfl, fun l => ?_, ?_⟩
  · obtain rfl : conn = l := by
      by_contra hconn
      exact hne (if_neg hconn)
    exact known
  · by_cases hconn : conn = l <;> simp [Effect.read?, hconn]
  · intro e he l hline
    obtain rfl := List.mem_singleton.mp he
    exact absurd hline Bool.false_ne_true

/-- A write puts at most one line on a connection that is open. -/
theorem Grows.serverWriteMsg {s : Server} (inv : Inv s) (sock : ℕ) {line : ℕ → Effect}
    (reads : ∀ conn l, (line conn).read? l = none)
    (lines : ∀ conn l, ((line conn).line? tcl l).isSome = true → l = conn) (written : Bool) :
    Grows tcl s (serverWriteMsg sock line written s) fun _ => [] := by
  obtain ⟨-, hcloses | ⟨c, hc, -, hwrite⟩⟩ := serverWriteMsg_cases inv sock line written
  · exact hcloses.grows
  · rw [hwrite]
    refine ⟨List.Subset.refl _, by simp, _, rfl, fun l => by simp [reads], ?_⟩
    intro e he l hline
    obtain rfl := List.mem_singleton.mp he
    rw [lines c.conn l hline]
    exact inv.known c hc

private theorem greeted_line {conn l : ℕ} (h : ((Effect.greeted conn).line? tcl l).isSome = true) :
    l = conn := by
  by_contra hne
  simp [Effect.line?, Ne.symm hne] at h

private theorem answered_line {call : Call} {result : Text} {conn l : ℕ}
    (h : ((Effect.answered call result conn).line? tcl l).isSome = true) : l = conn := by
  by_contra hne
  simp [Effect.line?, Ne.symm hne] at h

theorem Grows.readLine {s : Server} (inv : Inv s) {c : Channel} (mem : c ∈ s.channels)
    (line result : Text) (written : Bool) :
    Grows tcl s
      (serverRequest c result written (s.emit (.read c.conn line)) (tcl.request line)).1
      fun l => if c.conn = l then [line] else [] := by
  have hread : Grows tcl s (s.emit (.read c.conn line)) fun l =>
      if c.conn = l then [line] else [] := .emit_read (inv.known c mem) line
  have hsame : ∀ v, Grows tcl (s.emit (.read c.conn line)) v (fun _ => []) →
      Grows tcl s v fun l => if c.conn = l then [line] else [] := by
    intro v hv
    have hboth := hread.trans hv
    simpa using hboth
  cases tcl.request line with
  | malformed | sendData => exact hsame _ Closes.emit_raised.grows
  | incomplete => exact hread
  | quit => exact hsame _ (serverCloseSock_closes (inv.emit _) c.sock).1.grows
  | run background tag msg script =>
      refine hsame _ ⟨?_, by simp, [.started ⟨c.conn, c.sock, tag, msg, script⟩], ?_, ?_, ?_⟩
      · cases background <;> exact List.Subset.refl _
      · cases background <;> rfl
      · exact fun l => rfl
      · intro e he l hline
        obtain rfl := List.mem_singleton.mp he
        exact absurd hline Bool.false_ne_true

theorem step_grows {t : Suspended Server Frame} {happening : Happening Event} (inv : Inv t.state)
    (admits : (reentrant tcl).machine.admissible t happening) :
    Grows tcl t.state ((reentrant tcl).machine.step t happening).state
      fun l => taken t l happening := by
  cases happening with
  | occurs event =>
      cases event with
      | accept sock conn written =>
          have hinv := inv.accept admits.1 conn
          have htables : Grows tcl t.state
              { t.state with
                channels := t.state.channels ++ [⟨sock, conn⟩]
                addr := if sock ∈ t.state.addr then t.state.addr else t.state.addr ++ [sock]
                list := t.state.list ++ [sock]
                accepted := t.state.accepted ++ [conn] } fun _ => [] :=
            .tables (List.subset_append_left _ _) rfl
          exact htables.trans (.serverWriteMsg hinv sock (fun _ _ => rfl)
            (fun _ _ => greeted_line) written)
      | readable sock input result written =>
          cases found : t.state.channel? sock with
          | none => exact absurd found admits
          | some c =>
              cases input with
              | failed =>
                  have hclose : Grows tcl t.state (serverCloseSock sock t.state) fun _ => [] :=
                    (serverCloseSock_closes inv sock).1.grows
                  simpa only [Reentrant.machine, Reentrant.step, Reentrant.push, reentrant, handle,
                    serverProcess, found, taken] using hclose
              | line line =>
                  have hread := @Grows.readLine tcl _ inv _ (channel?_eq_some found).1 line
                    result written
                  simpa only [Reentrant.machine, Reentrant.step, Reentrant.push, reentrant, handle,
                    serverProcess, found, taken] using hread
      | done call result written =>
          have hinv : Inv { t.state with jobs := t.state.jobs.erase call } :=
            ⟨inv.names, inv.known, inv.list, inv.addr⟩
          have htables : Grows tcl t.state { t.state with jobs := t.state.jobs.erase call }
              fun _ => [] := .tables (List.Subset.refl _) rfl
          exact htables.trans (.serverWriteMsg hinv call.sock (fun _ _ => rfl)
            (fun _ _ => answered_line) written)
  | returns =>
      obtain ⟨state, stack⟩ := t
      cases stack with
      | nil => exact absurd rfl admits
      | cons frame stack =>
          exact .serverWriteMsg inv frame.call.sock (fun _ _ => rfl)
            (fun _ _ => answered_line) frame.written

/-! ## Lines -/

theorem Tcl.elements_nil : tcl.elements [] = some [] := tcl.elements_plain [] (by simp)

theorem Tcl.elements_welcome :
    tcl.elements welcome =
      some ["#".toList, "Welcome".toList, "to".toList, "AMEC".toList] :=
  tcl.elements_plain ["#".toList, "Welcome".toList, "to".toList, "AMEC".toList] (by decide)

theorem Tcl.input_welcome : tcl.input welcome = .line "#" "Welcome" := by
  rw [Tcl.input, Tcl.elements_welcome]
  rfl

theorem Tcl.input_answer (tag result : Text) :
    tcl.input (tcl.answer tag result) =
      .line (String.ofList tag) (String.ofList (oneLine result)) := by
  rw [Tcl.input, Tcl.answer, tcl.elements_list]
  rfl

theorem Tcl.command_message? {tag msg : Text} {found : Text × Text}
    (runs : (tcl.command tag msg).message? = some found) : found = (tag, msg) := by
  unfold Tcl.command at runs
  by_cases hquit : msg = "quit".toList
  · rw [if_pos hquit] at runs
    exact absurd runs nofun
  by_cases hsend : msg = "send_data".toList
  · rw [if_neg hquit, if_pos hsend] at runs
    exact absurd runs nofun
  rw [if_neg hquit, if_neg hsend] at runs
  cases hwords : tcl.elements msg with
  | none =>
      rw [hwords] at runs
      exact absurd runs nofun
  | some words =>
      simp only [hwords] at runs
      split_ifs at runs
      · exact (Option.some.inj runs).symm
      · exact absurd runs nofun
      · exact (Option.some.inj runs).symm
      · exact absurd runs nofun

/-- What comes of no whole line has an empty tag. -/
theorem Tcl.request_nil {found : Text × Text} (runs : (tcl.request []).message? = some found) :
    found.1 = [] := by
  rw [Tcl.request, Tcl.elements_nil] at runs
  rw [Tcl.command_message? runs]
  rfl

theorem Tcl.request_line {item : LineHost.LineItem κ} {found : Text × Text}
    (runs : (tcl.request (tcl.line item)).message? = some found) :
    found = (item.tag.toList, item.msg.toList) := by
  rw [Tcl.request, Tcl.line, tcl.elements_list] at runs
  exact Tcl.command_message? runs

/-- A message and a tag of one line. -/
def OneLineItem (item : LineHost.LineItem κ) : Prop :=
  OneLine item.tag.toList ∧ OneLine item.msg.toList

theorem Tcl.oneLine_line {item : LineHost.LineItem κ} (lines : OneLineItem item) :
    OneLine (tcl.line item) := by
  refine tcl.oneLine_list fun word hword => ?_
  simp only [List.mem_cons, List.not_mem_nil, or_false] at hword
  obtain rfl | rfl := hword
  · exact lines.1
  · exact lines.2

/-- The numbered tags are of one line. -/
theorem oneLine_lineItem (s : LineHost.State κ) {r : LineHost.LineRequest κ}
    (tag : OneLine r.tag.toList) (msg : OneLine r.msg.toList) : OneLineItem (s.lineItem r) := by
  refine ⟨?_, msg⟩
  by_cases htag : r.tag = ""
  · intro c ends
    have hletters : OneLine "tag".toList := by decide
    have htagged : c ∉ "tag".toList ++ decimal s.tagid :=
      List.not_mem_append (hletters c ends) (not_mem_decimal (isDigit_lineEnd ends) _)
    simpa [LineHost.State.lineItem, htag, decimal] using htagged
  · simpa [LineHost.State.lineItem, htag] using tag

/-! ## The invariant -/

/-- What the agent has written to a connection. -/
def Server.writesTo (tcl : Tcl) (s : Server) (l : ℕ) : List Effect :=
  s.effects.filter fun e => (e.line? tcl l).isSome

private theorem answersOn_eq (tcl : Tcl) (sys : System κ) (l : ℕ) :
    sys.answersOn l = (sys.agent.state.writesTo tcl l).filterMap (answer? l) := by
  rw [System.answersOn, Server.writesTo, List.filterMap_filter]
  refine List.filterMap_congr fun e _ => ?_
  cases e with
  | answered call result c => by_cases hc : c = l <;> simp [Effect.line?, answer?, hc]
  | read _ _ | started _ | greeted _ | closed _ | raised => simp [answer?]

/-- What holds of both parties and of what is between them. -/
structure Sound (tcl : Tcl) (sys : System κ) : Prop where
  session : LineHost.Session OneLineItem sys.client
  kept : Kept tcl sys.agent
  owns : Owns sys.agent
  numbers : (sys.links.map Prod.fst).Nodup
  current : sys.client.sock ≠ 0 → (sys.link, sys.client.sock) ∈ sys.links
  /-- The entry of a message stays under the name of its socket. -/
  sent : ∀ l item, (l, item) ∈ sys.sent → ∃ sock, (l, sock) ∈ sys.links ∧ sys.client.Has sock item
  unlinked : ∀ l, l ∉ sys.links.map Prod.fst → sys.toAgent l = []
  unknown : ∀ l, l ∉ sys.agent.state.accepted →
    sys.agent.state.linesFrom l = [] ∧ sys.agent.state.writesTo tcl l = []
  /-- What was sent has been read or is on its way. -/
  carried : ∀ l ∈ sys.links.map Prod.fst,
    (sys.agent.state.linesFrom l).filter (· ≠ []) ++ sys.toAgent l = (sys.sentOn l).map tcl.line
  handled : ∀ l, (sys.handledOn l).Sublist (sys.answersOn l)
  /-- What was written has been read or is on its way. -/
  unread : sys.client.sock ≠ 0 → ∃ front,
    sys.agent.state.writesTo tcl sys.link = front ++ sys.toClient ∧
      (sys.handledOn sys.link).Sublist (front.filterMap (answer? sys.link))

variable {sys : System κ}

theorem Sound.sentOn_mem (h : Sound tcl sys) {l : ℕ} {item : LineHost.LineItem κ}
    (mem : item ∈ sys.sentOn l) :
    OneLineItem item ∧ ∃ sock, (l, sock) ∈ sys.links ∧ sys.client.Has sock item := by
  obtain ⟨⟨l', item'⟩, hentry, rfl⟩ := List.mem_map.mp mem
  obtain ⟨hsent, hl⟩ := List.mem_filter.mp hentry
  obtain rfl : l' = l := by simpa using hl
  obtain ⟨sock, hlink, e, he, hsock, hitem⟩ := h.sent _ _ hsent
  refine ⟨?_, sock, hlink, e, he, hsock, hitem⟩
  have hfits := (h.session.entered e he).2
  rw [hitem] at hfits
  exact hfits

/-- What is answered on the client's connection was sent on it, or came of no whole line. -/
theorem Sound.answered_cases (h : Sound tcl sys) (connected : sys.client.sock ≠ 0) {call : Call}
    {result : Text} (mem : .answered call result sys.link ∈ sys.agent.state.effects) :
    call.tag = [] ∨ ∃ item ∈ sys.sentOn sys.link,
      call.tag = item.tag.toList ∧ call.msg = item.msg.toList := by
  have hconn : sys.link = call.conn := h.owns.isolated call result sys.link mem
  have hstarted : call ∈ sys.agent.state.started := by
    have hanswered : call ∈ sys.agent.state.answered :=
      List.mem_filterMap.mpr ⟨_, mem, rfl⟩
    exact h.kept.books.answered.subset (List.mem_append_left _ hanswered)
  have hread : (call.tag, call.msg) ∈
      (sys.agent.state.linesFrom sys.link).filterMap fun line => (tcl.request line).message? := by
    rw [← h.kept.books.messages sys.link, hconn]
    exact List.mem_map_of_mem (List.mem_filter.mpr ⟨hstarted, by simp⟩)
  obtain ⟨line, hline, hruns⟩ := List.mem_filterMap.mp hread
  by_cases hempty : line = []
  · subst hempty
    exact .inl (Tcl.request_nil hruns)
  · have hsent : line ∈ (sys.sentOn sys.link).map tcl.line := by
      rw [← h.carried sys.link (List.mem_map_of_mem (h.current connected))]
      exact List.mem_append_left _ (List.mem_filter.mpr ⟨hline, by simpa using hempty⟩)
    obtain ⟨item, hitem, rfl⟩ := List.mem_map.mp hsent
    exact .inr ⟨item, hitem, Prod.mk.inj (Tcl.request_line hruns)⟩

/-- The entry that an answer finds is that of the message it answers. -/
theorem Sound.msg_eq (h : Sound tcl sys) (connected : sys.client.sock ≠ 0) {call : Call}
    {result : Text} (mem : .answered call result sys.link ∈ sys.agent.state.effects)
    {item : LineHost.LineItem κ} (has : sys.client.Has sys.client.sock item)
    (tag : item.tag.toList = call.tag) : item.msg.toList = call.msg := by
  obtain ⟨e, he, hsock, rfl⟩ := has
  obtain hempty | ⟨item, hitem, htag, hmsg⟩ := h.answered_cases connected mem
  · exact absurd (String.toList_eq_nil_iff.mp (tag.trans hempty)) (h.session.entered e he).1
  · obtain ⟨-, sock, hnamed, e', he', hsock', rfl⟩ := h.sentOn_mem hitem
    have hnumber : (sys.link, sock) = (sys.link, sys.client.sock) :=
      List.inj_on_of_nodup_map h.numbers hnamed (h.current connected) rfl
    have hkey : e = e' := by
      refine List.inj_on_of_nodup_map h.session.keys he he' ?_
      have hstring : e.tag = e'.tag := String.toList_inj.mp (tag.trans htag)
      rw [LineHost.LineEntry.key, LineHost.LineEntry.key, hsock, hsock', hstring,
        (Prod.mk.inj hnumber).2]
    rw [hkey, hmsg]

/-! ## The client goes on -/

private theorem filterMap_sentItem? (items : List (LineHost.LineItem κ)) :
    (items.map LineHost.Effect.sent).filterMap sentItem? = items := by
  induction items with
  | nil => rfl
  | cons item items ih =>
      rw [List.map_cons, List.filterMap_cons]
      exact congrArg (item :: ·) ih

private theorem filterMap_repliedItem? (items : List (LineHost.LineItem κ)) :
    (items.map LineHost.Effect.sent).filterMap repliedItem? = [] := by
  refine List.filterMap_eq_nil_iff.mpr fun e he => ?_
  obtain ⟨item, -, rfl⟩ := List.mem_map.mp he
  rfl

variable {t : LineHost.State κ} {items : List (LineHost.LineItem κ)}

private theorem clientTo_advances (adv : LineHost.Advances OneLineItem sys.client t items)
    (conn : ℕ) :
    sys.clientTo tcl conn t =
      { sys with
        client := t
        toAgent := fun l =>
          if l = sys.link then sys.toAgent l ++ items.map tcl.line else sys.toAgent l
        toClient := if t.sock = 0 then [] else sys.toClient
        sent := sys.sent ++ items.map fun item => (sys.link, item) } := by
  have hnew : t.effects.drop sys.client.effects.length = items.map .sent := by
    rw [adv.effects, List.drop_left]
  have hopens : decide (sys.client.sock = 0 ∧ t.sock ≠ 0) = false := by
    refine decide_eq_false ?_
    rintro ⟨hclosed, hopen⟩
    obtain ⟨hsock, -⟩ | ⟨hsock, -⟩ := adv.sock
    · exact hopen (hsock.trans hclosed)
    · exact hopen hsock
  simp only [System.clientTo, hnew, hopens, filterMap_sentItem?, filterMap_repliedItem?,
    Bool.false_eq_true, if_false, false_or, List.map_nil, List.append_nil]

private theorem clientTo_opens {sock : ℕ} (opens : LineHost.Opens OneLineItem sys.client t sock)
    (named : sock ≠ 0) (conn : ℕ) :
    sys.clientTo tcl conn t =
      { sys with
        client := t
        link := conn
        links := sys.links ++ [(conn, sock)]
        toClient := [] } := by
  have hnew : t.effects.drop sys.client.effects.length = [] := by
    rw [opens.effects, List.drop_length]
  have hopens : decide (sys.client.sock = 0 ∧ sock ≠ 0) = true :=
    decide_eq_true ⟨opens.closed, named⟩
  simp only [System.clientTo, hnew, opens.sock, hopens, List.filterMap_nil, List.map_nil,
    List.append_nil, if_true, true_or, ite_self]

private theorem clientTo_replies (tcl : Tcl) (sys : System κ) (connected : sys.client.sock ≠ 0)
    {item : LineHost.LineItem κ} {arguments : List String}
    (rep : LineHost.Replies OneLineItem sys.client t item arguments) (conn : ℕ) :
    sys.clientTo tcl conn t =
      { sys with
        client := t
        handled := sys.handled ++ [(sys.link, item, arguments)] } := by
  have hnew : t.effects.drop sys.client.effects.length = [.replied item arguments] := by
    rw [rep.effects, List.drop_left]
  have hopens : decide (sys.client.sock = 0 ∧ sys.client.sock ≠ 0) = false :=
    decide_eq_false fun h => h.2 h.1
  have hsent : [LineHost.Effect.replied item arguments].filterMap sentItem? = [] := rfl
  have hreplied : [LineHost.Effect.replied item arguments].filterMap repliedItem? =
      [(item, arguments)] := rfl
  simp only [System.clientTo, hnew, rep.sock, hopens, hsent, hreplied, Bool.false_eq_true, false_or,
    if_false, if_neg connected, List.map_cons, List.map_nil, List.append_nil, ite_self]

private theorem sentOn_append (sys : System κ) (l : ℕ) :
    (sys.sent ++ items.map fun item => (sys.link, item)).filter (·.1 = l) =
      sys.sent.filter (·.1 = l) ++
        if l = sys.link then items.map fun item => (sys.link, item) else [] := by
  rw [List.filter_append]
  congr 1
  split_ifs with hl
  · subst hl
    refine List.filter_eq_self.mpr fun entry hentry => ?_
    obtain ⟨item, -, rfl⟩ := List.mem_map.mp hentry
    simp
  · refine List.filter_eq_nil_iff.mpr fun entry hentry => ?_
    obtain ⟨item, -, rfl⟩ := List.mem_map.mp hentry
    simpa using fun h => hl h.symm

/-- The client sends messages, or closes the connection. -/
theorem Sound.advances (h : Sound tcl sys) (adv : LineHost.Advances OneLineItem sys.client t items)
    (conn : ℕ) : Sound tcl (sys.clientTo tcl conn t) := by
  have hsocks : items ≠ [] → sys.client.sock ≠ 0 := by
    intro hne
    obtain ⟨-, hopen⟩ | ⟨-, hnone⟩ := adv.sock
    · exact hopen hne
    · exact absurd hnone hne
  have hkeeps : t.sock ≠ 0 → t.sock = sys.client.sock := by
    intro hopen
    obtain ⟨hsock, -⟩ | ⟨hsock, -⟩ := adv.sock
    · exact hsock
    · exact absurd hsock hopen
  rw [clientTo_advances adv]
  refine ⟨adv.session, h.kept, h.owns, h.numbers, ?_, ?_, ?_, h.unknown, ?_, h.handled, ?_⟩
  · intro hopen
    have hsock := hkeeps hopen
    rw [show ({ sys with client := t } : System κ).client.sock = sys.client.sock from hsock]
    exact h.current (hsock ▸ hopen)
  · intro l item hmem
    obtain hold | hnew := List.mem_append.mp hmem
    · obtain ⟨sock, hlink, hhas⟩ := h.sent l item hold
      exact ⟨sock, hlink, adv.entries sock item hhas⟩
    · obtain ⟨other, hother, hpair⟩ := List.mem_map.mp hnew
      obtain ⟨rfl, rfl⟩ := Prod.mk.inj hpair
      exact ⟨_, h.current (hsocks (List.ne_nil_of_mem hother)), adv.entered other hother⟩
  · intro l hl
    have hnone := h.unlinked l hl
    simp only [hnone]
    split_ifs with hlink
    · by_cases hitems : items = []
      · rw [hitems]
        rfl
      · exact absurd (List.mem_map_of_mem (h.current (hsocks hitems))) (hlink ▸ hl)
    · rfl
  · intro l hl
    have hcarried := h.carried l hl
    simp only [System.sentOn, sentOn_append] at hcarried ⊢
    split_ifs with hlink
    · have hitems : (items.map fun item => (sys.link, item)).map Prod.snd = items := by
        rw [List.map_map]
        exact List.map_id' items
      rw [← List.append_assoc, hcarried, List.map_append, List.map_append, hitems]
    · rw [List.append_nil]
      exact hcarried
  · intro hopen
    have hsock := hkeeps hopen
    simp only [if_neg hopen]
    exact h.unread (hsock ▸ hopen)

/-- The client opens a connection. -/
theorem Sound.opens (h : Sound tcl sys) {sock : ℕ}
    (opens : LineHost.Opens OneLineItem sys.client t sock) (named : sock ≠ 0) {conn : ℕ}
    (new : conn ∉ sys.links.map Prod.fst) (unaccepted : conn ∉ sys.agent.state.accepted) :
    Sound tcl (sys.clientTo tcl conn t) := by
  obtain ⟨hlines, hwrites⟩ := h.unknown conn unaccepted
  have hanswers : sys.answersOn conn = [] := by
    rw [answersOn_eq tcl, hwrites]
    rfl
  have hhas : ∀ name item, sys.client.Has name item → t.Has name item := by
    intro name item has
    unfold LineHost.State.Has
    rw [opens.table]
    exact has
  rw [clientTo_opens opens named]
  refine ⟨opens.session, h.kept, h.owns, ?_, ?_, ?_, ?_, h.unknown, ?_, h.handled, ?_⟩
  · rw [List.map_append, List.nodup_append]
    refine ⟨h.numbers, by simp, ?_⟩
    rintro number hnumber other hother rfl
    obtain rfl := List.mem_singleton.mp hother
    exact new hnumber
  · intro _
    rw [opens.sock]
    exact List.mem_append_right _ (List.mem_singleton_self _)
  · intro l item hmem
    obtain ⟨name, hlink, has⟩ := h.sent l item hmem
    exact ⟨name, List.mem_append_left _ hlink, hhas name item has⟩
  · intro l hl
    exact h.unlinked l fun hmem => hl (by
      rw [List.map_append]
      exact List.mem_append_left _ hmem)
  · intro l hl
    rw [List.map_append] at hl
    obtain hold | hnew := List.mem_append.mp hl
    · exact h.carried l hold
    · obtain rfl := List.mem_singleton.mp hnew
      have hsent : sys.sent.filter (·.1 = l) = [] := by
        refine List.filter_eq_nil_iff.mpr fun entry hentry => ?_
        obtain ⟨name, hlink, -⟩ := h.sent entry.1 entry.2 hentry
        have hmem : entry.1 ∈ sys.links.map Prod.fst := List.mem_map_of_mem hlink
        have hne : entry.1 ≠ l := fun hsame => new (hsame ▸ hmem)
        simpa using hne
      simp only [System.sentOn, hlines, h.unlinked l new, hsent]
      rfl
  · intro _
    refine ⟨[], hwrites, ?_⟩
    have hhandled := h.handled conn
    rw [hanswers] at hhandled
    exact hhandled

/-! ## The client reads -/

theorem Sound.pop (h : Sound tcl sys) {e : Effect} {rest : List Effect}
    (unread : sys.toClient = e :: rest) : Sound tcl { sys with toClient := rest } := by
  refine { h with unread := fun connected => ?_ }
  obtain ⟨front, hwrites, hhandled⟩ := h.unread connected
  refine ⟨front ++ [e], by simp [hwrites, unread], ?_⟩
  rw [List.filterMap_append]
  exact hhandled.trans (List.sublist_append_left _ _)

/-- The callback of a message runs with the answer that was read. -/
theorem Sound.replies (h : Sound tcl sys) (connected : sys.client.sock ≠ 0) {e : Effect}
    {rest : List Effect} (unread : sys.toClient = e :: rest) {v : LineHost.State κ}
    {item : LineHost.LineItem κ} {reply : String}
    (rep : LineHost.Replies OneLineItem sys.client v item [reply])
    (answer : answer? sys.link e = some (item.tag.toList, item.msg.toList, [reply.toList])) :
    Sound tcl
      { sys with
        toClient := rest
        client := v
        handled := sys.handled ++ [(sys.link, item, [reply])] } := by
  obtain ⟨front, hwrites, hhandled⟩ := h.unread connected
  have hlast : (sys.handledOn sys.link ++
      [(item.tag.toList, item.msg.toList, [reply.toList])]).Sublist
        ((front ++ [e]).filterMap (answer? sys.link)) := by
    rw [List.filterMap_append, List.filterMap_cons, answer]
    exact hhandled.append (List.Sublist.refl _)
  have hon : (sys.handled ++ [(sys.link, item, [reply])]).filter (·.1 = sys.link) =
      sys.handled.filter (·.1 = sys.link) ++ [(sys.link, item, [reply])] := by
    simp
  refine ⟨rep.session, h.kept, h.owns, h.numbers, ?_, ?_, h.unlinked, h.unknown, h.carried, ?_, ?_⟩
  · intro hopen
    have hlink := h.current connected
    rw [← rep.sock] at hlink
    exact hlink
  · intro l other hmem
    obtain ⟨name, hlink, has⟩ := h.sent l other hmem
    refine ⟨name, hlink, ?_⟩
    unfold LineHost.State.Has
    rw [rep.table]
    exact has
  · intro l
    by_cases hl : l = sys.link
    · subst hl
      have hall : ((front ++ [e]).filterMap (answer? sys.link)).Sublist
          (sys.answersOn sys.link) := by
        have hfirst : (front ++ [e]).Sublist (front ++ e :: rest) :=
          List.Sublist.append_left (List.singleton_sublist.mpr List.mem_cons_self) front
        rw [answersOn_eq tcl, hwrites, unread]
        exact hfirst.filterMap _
      have hsub := hlast.trans hall
      simp only [System.handledOn, hon, List.map_append] at hsub ⊢
      exact hsub
    · have hsame : (sys.handled ++ [(sys.link, item, [reply])]).filter (·.1 = l) =
          sys.handled.filter (·.1 = l) := by
        simpa using fun hother => hl hother.symm
      have hkept := h.handled l
      simp only [System.handledOn, hsame] at hkept ⊢
      exact hkept
  · intro _
    refine ⟨front ++ [e], by simp [hwrites, unread], ?_⟩
    simp only [System.handledOn, hon, List.map_append]
    exact hlast

/-- What is read and taken for a reply is the answer to the message whose entry is found. -/
theorem Sound.answer_eq (h : Sound tcl sys) (connected : sys.client.sock ≠ 0) {e : Effect}
    {rest : List Effect} (unread : sys.toClient = e :: rest) {tag reply : String}
    (input : tcl.input ((e.line? tcl sys.link).getD []) = .line tag reply) (comment : tag ≠ "#")
    {item : LineHost.LineItem κ} (has : sys.client.Has sys.client.sock item)
    (same : item.tag = tag) :
    answer? sys.link e = some (item.tag.toList, item.msg.toList, [reply.toList]) := by
  obtain ⟨front, hwrites, -⟩ := h.unread connected
  have hmem : e ∈ sys.agent.state.writesTo tcl sys.link := by
    rw [hwrites, unread]
    exact List.mem_append_right _ List.mem_cons_self
  obtain ⟨heffects, hline⟩ := List.mem_filter.mp hmem
  cases e with
  | read _ _ | started _ | closed _ | raised => exact absurd hline Bool.false_ne_true
  | greeted conn =>
      obtain rfl : sys.link = conn := greeted_line hline
      rw [Effect.line?, if_pos rfl, Option.getD_some, Tcl.input_welcome] at input
      obtain ⟨rfl, -⟩ := LineHost.Input.line.inj input
      exact absurd rfl comment
  | answered call result conn =>
      obtain rfl : sys.link = conn := answered_line hline
      rw [Effect.line?, if_pos rfl, Option.getD_some, Tcl.input_answer] at input
      obtain ⟨htag, hreply⟩ := LineHost.Input.line.inj input
      have hcall : item.tag.toList = call.tag := by rw [same, ← htag, String.toList_ofList]
      rw [answer?, if_pos rfl, h.msg_eq connected heffects has hcall, hcall, ← hreply,
        String.toList_ofList]

/-- Which callbacks have not returned does not matter. -/
theorem Sound.callbacks (h : Sound tcl sys) (callbacks : List String) :
    Sound tcl { sys with callbacks := callbacks } := { h with }

/-- The client reads something that is no reply. -/
theorem Sound.readTo (h : Sound tcl sys) {input : LineHost.Input} {written : Bool}
    (adv : LineHost.Advances OneLineItem sys.client
      (LineHost.readReply LineHost.emtagent input written sys.client).1 items) :
    Sound tcl (sys.readTo tcl input written) :=
  (h.callbacks ((LineHost.readReply LineHost.emtagent input written sys.client).2.toList ++
    sys.callbacks)).advances adv 0

theorem Sound.reads (h : Sound tcl sys) (connected : sys.client.sock ≠ 0) {e : Effect}
    {rest : List Effect} (unread : sys.toClient = e :: rest) (written : Bool) :
    Sound tcl (({ sys with toClient := rest } : System κ).readTo tcl
      (tcl.input ((e.line? tcl sys.link).getD [])) written) := by
  obtain ⟨items, hadv⟩ | ⟨tag, reply, item, hinput, hcomment, htag, hhas, hrep⟩ :=
    h.session.readReply LineHost.emtagent (tcl.input ((e.line? tcl sys.link).getD [])) written
  · exact (h.pop unread).readTo hadv
  · have hanswer := h.answer_eq connected unread hinput hcomment hhas htag
    have hreplied := (h.replies connected unread hrep hanswer).callbacks
      ((LineHost.readReply LineHost.emtagent (tcl.input ((e.line? tcl sys.link).getD [])) written
        sys.client).2.toList ++ sys.callbacks)
    have hread := clientTo_replies tcl { sys with
      toClient := rest
      callbacks := (LineHost.readReply LineHost.emtagent
        (tcl.input ((e.line? tcl sys.link).getD [])) written sys.client).2.toList ++
          sys.callbacks } connected hrep 0
    exact (congrArg (Sound tcl) hread).mpr hreplied

theorem Sound.readsPart (h : Sound tcl sys) (written : Bool) :
    Sound tcl (sys.readTo tcl (.line "" "") written) := by
  obtain ⟨items, hadv⟩ | ⟨tag, reply, item, hinput, -, htag, ⟨e, he, -, rfl⟩, -⟩ :=
    h.session.readReply LineHost.emtagent (.line "" "") written
  · exact h.readTo hadv
  · obtain ⟨rfl, -⟩ := LineHost.Input.line.inj hinput
    exact absurd htag (h.session.entered e he).1

/-! ## The client's own steps -/

theorem own_step {s : LineHost.State κ} (h : LineHost.Session OneLineItem s)
    {event : LineHost.Event κ} (own : OwnStep event)
    (admits : (⟨s, []⟩ : LineHost.World κ).admissible LineHost.emtagent event) :
    (∃ items, LineHost.Advances OneLineItem s
      ((⟨s, []⟩ : LineHost.World κ).step LineHost.emtagent event).session items) ∨
      ∃ name, name ≠ 0 ∧ LineHost.Opens OneLineItem s
        ((⟨s, []⟩ : LineHost.World κ).step LineHost.emtagent event).session name := by
  cases event with
  | sendMsg r written => exact .inl (h.sendMsg written (oneLine_lineItem s own.1 own.2))
  | processMsg input written =>
      obtain rfl : input = .failed := own
      exact .inl ⟨[], h.processFailed LineHost.emtagent written⟩
  | msgTimeout tag => exact .inl ⟨[], h.msgTimeout tag⟩
  | closeSock => exact .inl ⟨[], h.closeSock.1⟩
  | openTimeout | checkSocketStatus =>
      exact .inl ⟨[], .quiet { h with connected := nofun, idle := nofun } rfl rfl rfl⟩
  | openCallback connects written => exact .inl (h.openCallback admits connects written)
  | health sock written =>
      obtain hadv | ⟨name, hname, hopens⟩ := h.health admits written
      · exact .inl hadv
      · exact .inr ⟨name, fun hzero => admits (hname.trans (congrArg some hzero)), hopens⟩
  | pause on | tagTaken => exact .inl ⟨[], .quiet (h.congr rfl rfl rfl rfl rfl) rfl rfl rfl⟩

/-! ## The agent goes on -/

private theorem taken_delivered {happening : Happening Event} (delivers : sys.Delivers happening)
    {l : ℕ}
    (link : l ∈ sys.links.map Prod.fst) :
    taken sys.agent l happening = [] ∨
      ∃ line, taken sys.agent l happening = [line] ∧
        (line = [] ∨ some line = (sys.toAgent l).head?) := by
  cases happening with
  | returns => exact .inl rfl
  | occurs event =>
      cases event with
      | accept sock conn written => exact .inl rfl
      | done call result written => exact .inl rfl
      | readable sock input result written =>
          cases input with
          | failed => exact .inl rfl
          | line line =>
              cases found : sys.agent.state.channel? sock with
              | none => exact .inl (by simp only [taken, found])
              | some c =>
                  by_cases hconn : c.conn = l
                  · refine .inr ⟨line, by simp only [taken, found, if_pos hconn], ?_⟩
                    have hdelivers := delivers c found
                    rw [hconn] at hdelivers
                    exact hdelivers link
                  · exact .inl (by simp only [taken, found, if_neg hconn])

theorem Sound.agent (h : Sound tcl sys) {happening : Happening Event}
    (admits : (reentrant tcl).machine.admissible sys.agent happening)
    (delivers : sys.Delivers happening) (noReuse : NoReuse sys.agent happening) :
    Sound tcl (sys.agentTo tcl happening) := by
  obtain ⟨haccepted, hknown, new, heffects, hread, hline⟩ := step_grows h.kept.inv admits
  have hnew : ((reentrant tcl).machine.step sys.agent happening).state.effects.drop
      sys.agent.state.effects.length = new := by
    rw [heffects, List.drop_left]
  have hwrites : ∀ l, ((reentrant tcl).machine.step sys.agent happening).state.writesTo tcl l =
      sys.agent.state.writesTo tcl l ++ new.filter fun e => (e.line? tcl l).isSome := by
    intro l
    rw [Server.writesTo, heffects, List.filter_append]
    rfl
  have hlines : ∀ l, ((reentrant tcl).machine.step sys.agent happening).state.linesFrom l =
      sys.agent.state.linesFrom l ++ taken sys.agent l happening := by
    intro l
    rw [Server.linesFrom, heffects, List.filterMap_append, hread]
    rfl
  refine ⟨h.session, step_kept h.kept admits, step_owned h.owns h.kept.inv admits noReuse,
    h.numbers, h.current, h.sent, ?_, ?_, ?_, ?_, ?_⟩
  · intro l hl
    simp only [System.agentTo, h.unlinked l hl, List.drop_nil]
  · intro l hl
    have hold : l ∉ sys.agent.state.accepted := fun hmem => hl (haccepted hmem)
    obtain ⟨hnone, hwritten⟩ := h.unknown l hold
    have htaken : taken sys.agent l happening = [] := by
      by_contra hne
      exact hl (hknown l hne)
    refine ⟨(hlines l).trans (by rw [hnone, htaken]; rfl), (hwrites l).trans ?_⟩
    rw [hwritten, List.nil_append]
    exact List.filter_eq_nil_iff.mpr fun e he hsome => hl (hline e he l hsome)
  · intro l hl
    have hcarried := h.carried l hl
    simp only [System.agentTo, hlines, List.filter_append, List.append_assoc] at hcarried ⊢
    obtain htaken | ⟨line, htaken, rfl | hhead⟩ := taken_delivered delivers hl
    · rw [htaken]
      exact hcarried
    · rw [htaken]
      exact hcarried
    · by_cases hempty : line = []
      · subst hempty
        rw [htaken]
        exact hcarried
      · obtain ⟨first, others, hlist⟩ : ∃ first others, sys.toAgent l = first :: others := by
          cases hcase : sys.toAgent l with
          | nil => simp [hcase] at hhead
          | cons first others => exact ⟨first, others, rfl⟩
        obtain rfl : line = first := by simpa [hlist] using hhead
        have hfilter : [line].filter (· ≠ []) = [line] := by simp [hempty]
        rw [htaken, hfilter, hlist]
        rw [hlist] at hcarried
        exact hcarried
  · intro l
    have hanswers : (sys.agentTo tcl happening).answersOn l =
        sys.answersOn l ++ new.filterMap (answer? l) := by
      simp only [System.answersOn, System.agentTo, heffects, List.filterMap_append]
    rw [hanswers]
    exact (h.handled l).trans (List.sublist_append_left _ _)
  · intro connected
    have hopen : sys.client.sock ≠ 0 := connected
    obtain ⟨front, hfront, hhandled⟩ := h.unread hopen
    refine ⟨front, ?_, hhandled⟩
    simp only [System.agentTo, hwrites, hfront, hnew, if_neg hopen, List.append_assoc]

/-! ## Runs -/

/-- The names of sockets are not taken again while their messages are being run. -/
def System.NoReuse (sys : System κ) : Move κ → Prop
  | .agent happening => Agent.NoReuse sys.agent happening
  | .client _ _ | .network _ | .clientReads _ | .clientReadsPart _ | .clientReturns _ => True

instance decidableSystemNoReuse (sys : System κ) : DecidablePred sys.NoReuse
  | .agent happening => inferInstanceAs (Decidable (Agent.NoReuse sys.agent happening))
  | .client _ _ | .network _ | .clientReads _ | .clientReadsPart _ | .clientReturns _ =>
    isTrue trivial

theorem step_sound {move : Move κ} (h : Sound tcl sys) (admits : (system tcl κ).admissible sys move)
    (noReuse : sys.NoReuse move) : Sound tcl ((system tcl κ).step sys move) := by
  cases move with
  | client event conn =>
      obtain ⟨hown, hadmits, hnew, hunaccepted⟩ := admits
      obtain ⟨items, hadv⟩ | ⟨name, hname, hopens⟩ := own_step h.session hown hadmits
      · exact h.advances hadv conn
      · exact h.opens hopens hname hnew hunaccepted
  | network on =>
      have hquiet : LineHost.Advances OneLineItem sys.client { sys.client with network := on } [] :=
        .quiet (h.session.congr rfl rfl rfl rfl rfl) rfl rfl rfl
      exact h.advances hquiet 0
  | clientReads written =>
      obtain ⟨hconnected, hunread⟩ := admits
      obtain ⟨e, rest, hlist⟩ := List.exists_cons_of_ne_nil hunread
      change Sound tcl (sys.step tcl (.clientReads written))
      by_cases hpause : sys.client.pause = true
      · rw [System.step, if_pos hpause]
        exact h
      · rw [System.step, if_neg hpause, hlist]
        exact h.reads hconnected hlist written
  | clientReadsPart written => exact h.readsPart written
  | clientReturns written =>
      obtain ⟨tag, callbacks, hlist⟩ := List.exists_cons_of_ne_nil admits
      change Sound tcl (sys.step tcl (.clientReturns written))
      rw [System.step, hlist]
      obtain ⟨items, hadv⟩ := h.session.afterCallback tag written
      exact (h.callbacks callbacks).advances hadv 0
  | agent happening => exact h.agent admits.1 admits.2 noReuse

/-- The lines that were sent, as far as they have something run, have their own messages run. -/
theorem runs_sublist (items : List (LineHost.LineItem κ)) :
    ((items.map tcl.line).filterMap fun line => (tcl.request line).message?).Sublist
      (items.map fun item => (item.tag.toList, item.msg.toList)) := by
  induction items with
  | nil => exact List.Sublist.refl _
  | cons item items ih =>
      rw [List.map_cons, List.map_cons, List.filterMap_cons]
      cases hruns : (tcl.request (tcl.line item)).message? with
      | none => exact ih.cons _
      | some found =>
          rw [Tcl.request_line hruns]
          exact ih.cons_cons _

/-- What comes of no whole line is told by its tag. -/
theorem runs_of_whole (lines : List Text) :
    (lines.filterMap fun line => (tcl.request line).message?).filter (·.1 ≠ []) =
      ((lines.filter (· ≠ [])).filterMap fun line => (tcl.request line).message?).filter
        (·.1 ≠ []) := by
  induction lines with
  | nil => rfl
  | cons line lines ih =>
      by_cases hline : line = []
      · subst hline
        rw [List.filterMap_cons, List.filter_cons_of_neg (by simp), ← ih]
        cases hruns : (tcl.request []).message? with
        | none => rfl
        | some found => exact List.filter_cons_of_neg (by simp [Tcl.request_nil hruns])
      · rw [List.filter_cons_of_pos (by simpa using hline), List.filterMap_cons,
          List.filterMap_cons]
        cases (tcl.request line).message? with
        | none => exact ih
        | some found => rw [List.filter_cons, List.filter_cons, ih]

theorem Sound.faithful (h : Sound tcl sys) : sys.Faithful tcl where
  toAgent l line hline := by
    by_cases hl : l ∈ sys.links.map Prod.fst
    · have hsent : line ∈ (sys.sentOn l).map tcl.line := by
        rw [← h.carried l hl]
        exact List.mem_append_right _ hline
      obtain ⟨item, hitem, rfl⟩ := List.mem_map.mp hsent
      exact Tcl.oneLine_line (h.sentOn_mem hitem).1
    · rw [h.unlinked l hl] at hline
      exact absurd hline List.not_mem_nil
  toClient connected e he line hline := by
    obtain ⟨front, hwrites, -⟩ := h.unread connected
    have hmem : e ∈ sys.agent.state.writesTo tcl sys.link := by
      rw [hwrites]
      exact List.mem_append_right _ he
    obtain ⟨heffects, hsome⟩ := List.mem_filter.mp hmem
    cases e with
    | read _ _ | started _ | closed _ | raised => exact absurd hsome Bool.false_ne_true
    | greeted conn =>
        obtain rfl : sys.link = conn := greeted_line hsome
        obtain rfl : welcome = line := by simpa [Effect.line?] using hline
        decide
    | answered call result conn =>
        obtain rfl : sys.link = conn := answered_line hsome
        obtain rfl : tcl.answer call.tag result = line := by simpa [Effect.line?] using hline
        refine tcl.oneLine_answer ?_ result
        obtain hempty | ⟨item, hitem, htag, -⟩ := h.answered_cases connected heffects
        · rw [hempty]
          decide
        · rw [htag]
          exact (h.sentOn_mem hitem).1.1
  runs l hl := by
    have hread : ((sys.agent.state.linesFrom l).filter (· ≠ [])).Sublist
        ((sys.sentOn l).map tcl.line) := by
      rw [← h.carried l hl]
      exact List.sublist_append_left _ _
    rw [System.runsOn, h.kept.books.messages l, runs_of_whole]
    exact List.filter_sublist.trans ((hread.filterMap _).trans (runs_sublist _))
  answered := (List.sublist_append_left _ _).subperm.trans h.kept.books.answered
  isolated := h.owns.isolated
  handled := h.handled

/-- Both parties before anything is sent. -/
def started (client : LineHost.State κ) : System κ := { client := client }

theorem started_sound {client : LineHost.State κ} (fresh : client.Fresh) :
    Sound tcl (started client) where
  session :=
    { connected := fun hconnected => absurd hconnected fresh.status
      idle := fun _ => fresh.sock
      netsockcallback := fresh.netsockcallback
      keys := by simp [started, fresh.sockcallback]
      queued := by simp [started, fresh.msgq]
      entered := by simp [started, fresh.sockcallback] }
  kept := kept_start
  owns := ⟨by simp [started, calls], by simp [started, Server.Isolated]⟩
  numbers := List.nodup_nil
  current connected := absurd fresh.sock connected
  sent := by simp [started]
  unlinked _ _ := rfl
  unknown _ _ := ⟨rfl, rfl⟩
  carried := by simp [started]
  handled _ := List.Sublist.refl _
  unread connected := absurd fresh.sock connected

/-- The invariant holds in every state of every run in which no name of a socket is taken again
while its messages are being run. -/
theorem always_sound {client : LineHost.State κ} (fresh : client.Fresh) {moves : List (Move κ)}
    (admits : (system tcl κ).Admits (started client) moves)
    (noReuse : (system tcl κ).EachStep System.NoReuse (started client) moves) :
    (system tcl κ).Always (Sound tcl) (started client) moves := by
  have hkept : ∀ sys move, Sound tcl sys → (system tcl κ).admissible sys move →
      System.NoReuse sys move → Sound tcl ((system tcl κ).step sys move) :=
    fun _ _ sound adm unused => step_sound sound adm unused
  exact (system tcl κ).always_of_invariant hkept (started_sound fresh) admits noReuse

/-- In every state of every run in which no name of a socket is taken again while its messages are
being run: what is on its way is whole lines, the agent runs the messages of a connection once at
most and in the order in which they were sent, answers each once at most, and the client's callbacks
run with the results of their own messages, once at most and in the order of the answers. -/
theorem always_faithful {client : LineHost.State κ} (fresh : client.Fresh) {moves : List (Move κ)}
    (admits : (system tcl κ).Admits (started client) moves)
    (noReuse : (system tcl κ).EachStep System.NoReuse (started client) moves) :
    (system tcl κ).Always (System.Faithful tcl) (started client) moves :=
  Machine.Always.mono (fun _ sound => sound.faithful) (always_sound fresh admits noReuse)

/-! ## A run -/

/-- Two messages are sent; the second is run while the first one waits, and is answered first. The
other answer is read while its callback waits. -/
def sampleMoves : List (Move ℕ) :=
  [.client (.health (some 3) true) 7, .agent (.occurs (.accept 5 7 true)),
    .client (.openCallback true true) 8,
    .client (.sendMsg ⟨"me ipmicmd 20 06 00 01", "", some 1, 1, 10000⟩ true) 8,
    .client (.sendMsg ⟨"me get addr", "", some 2, 1, 10000⟩ true) 8, .clientReads true,
    .agent (.occurs (.readable 5 (.line "tag0 {me ipmicmd 20 06 00 01}".toList) "0 51".toList
      true)),
    .agent (.occurs (.readable 5 (.line "tag1 {me get addr}".toList) "me".toList true)),
    .agent .returns, .agent .returns, .clientReads true, .clientReads true, .clientReturns true,
    .clientReturns true]

theorem sampleMoves_faithful :
    (system sampleTcl ℕ).Always (System.Faithful sampleTcl) (started {}) sampleMoves :=
  always_faithful ⟨rfl, rfl, rfl, rfl, by decide, rfl, rfl⟩ (by decide +kernel) (by decide +kernel)

/-- Both callbacks have run then, each with its own result. -/
example :
    ((system sampleTcl ℕ).run (started {}) sampleMoves).handledOn 7 =
      [("tag1".toList, "me get addr".toList, ["me".toList]),
        ("tag0".toList, "me ipmicmd 20 06 00 01".toList, ["0 51".toList])] := by
  decide +kernel

end Amester.Agent
