/-
# Reading messages off the channel

The channel does not block: a read gives the bytes that have arrived. `readMsg`
reads eight bytes, takes the length out of them and reads the rest. Too few bytes
for a header are a bad response, on which the connection is closed and opened
again, and of a message whose rest has not arrived what is there is handled as the
whole.

A message may itself ask for the connection to be closed: the client identifier is
in use, or the version or the password is refused. The messages behind such a
message go with the channel. And a message may raise in its handler, which the event
loop then takes off the channel, so that those behind it are never read. The result is
that the messages up to the closing are handled, each with all of its bytes and with
no trace of how they arrived, exactly in those runs in which every read finds what it
asks for and no message raises in front of another.
-/

import Amester.Lib.Framing
import Amester.Netc.Errors

namespace Amester.Netc

open BinaryFormat PriorityQueue EventMachine Framing

universe u

variable {κ : Type u}

/-! ## The channel -/

def Effect.isClosed : Effect κ → Bool
  | .closed _ => true
  | _ => false

/-- How many channels the session has closed. -/
def State.closings (s : State κ) : ℕ := s.effects.countP Effect.isClosed

/-- A session with its current channel, and the errors that reached the event loop. -/
structure Connection (κ : Type u) where
  session : State κ
  errors : List String := []
  /-- The channel has not been closed. -/
  isOpen : Bool := true
  /-- The channel has its handler. The event loop deletes one that raises. -/
  readable : Bool := true

/-- The connection after the handler has run a command. -/
def Connection.after (c : Connection κ) (o : Outcome (State κ)) : Connection κ where
  session := o.state
  errors := c.errors ++ o.error.toList
  isOpen := c.isOpen && o.state.closings = c.session.closings
  readable := c.readable && o.error.isNone

/-- What arrives on the channel is read. -/
def Connection.listens (c : Connection κ) : Bool := c.isOpen && c.readable

/-- Read a packet: a header from `pending`, its rest after `arrived` has come. The
result is the packet and what is left, or nothing on a bad response. -/
def readMsg (pending arrived : Bytes) : Option (Bytes × Bytes) :=
  let response := pending.take 8
  match scan [.hex 8, .int 4, .hexRest] response with
  | [.hex _, .int responselen, .hex _] =>
    if 8 < responselen then
      let remaining := pending.drop 8 ++ arrived
      some (response ++ remaining.take (responselen - 8).toNat,
        remaining.drop (responselen - 8).toNat)
    else some (response, pending.drop 8 ++ arrived)
  | _ => none

/-- The variable that `netc_process` misses in a packet that was cut short. -/
def missingVariable (packet : Bytes) : String :=
  if (scan netcLayout packet).length < 5 then "can't read ncfunc: no such variable"
  else if (scan netcLayout packet).length < 9 then "can't read ncop: no such variable"
  else "can't read ncstatus: no such variable"

/-- `netc_process` from the packet on. A connection attempt that it makes ends with
`result`. -/
def handlePacket (result : OpenResult) (packet : Bytes) (c : Connection κ) : Connection κ :=
  c.after <|
    match scanNetcPacket packet with
    | none => .raise c.session (missingVariable packet)
    | some p => netcProcess p result c.session

/-- A bad response closes the connection and opens it again. -/
def badResponse (result : OpenResult) (c : Connection κ) : Connection κ :=
  c.after ((netcClose c.session).andThen (netcOpen result))

/-- The bytes that the FSP has sent, and the connection that reads them. -/
abbrev Channel (κ : Type u) := Receiver UInt8 (Connection κ)

/-- The file event of the channel. -/
def receive (result : OpenResult) (r : Channel κ) (w : Wakeup) : Channel κ :=
  let pending := r.pending ++ r.stream.take w.before
  let stream := r.stream.drop w.before
  match readMsg pending (stream.take w.between) with
  | none =>
    { r with
      stream := stream
      pending := []
      refused := r.refused ++ [pending]
      state := badResponse result r.state }
  | some (packet, left) =>
    { r with
      stream := stream.drop w.between
      pending := left
      handled := r.handled ++ [packet]
      state := handlePacket result packet r.state }

/-- The file event comes while the channel has its handler and something to read. -/
def channelMachine (κ : Type u) (result : OpenResult) : Machine (Channel κ) Wakeup where
  admissible r w :=
    r.state.listens = true ∧ 0 < r.pending.length + w.before ∧
      w.before + w.between ≤ r.stream.length
  step := receive result

/-- The channel is not read any more or nothing is left to read. -/
def Finished (r : Channel κ) : Prop := r.state.listens = false ∨ r.stream = [] ∧ r.pending = []

/-! ## Messages -/

/-- A message has a whole header, and the length in it is its own. -/
def WellFormed (m : Bytes) : Prop := 24 ≤ m.length ∧ signed ((m.drop 4).take 4) = m.length

instance : DecidablePred WellFormed := fun _ => inferInstanceAs (Decidable (_ ∧ _))

/-- The message makes the session close the channel. -/
def closesChannel (m : Bytes) : Bool :=
  match scanNetcPacket m with
  | none => false
  | some p =>
    p.clientConnected || (p.funcop = .version || p.funcop = .password) && !p.success

/-- The messages up to the first that closes the channel. -/
def throughClosing : List Bytes → List Bytes
  | [] => []
  | m :: ms => m :: if closesChannel m then [] else throughClosing ms

/-- Handling a message raises, if it leaves the channel open. -/
def RaisesOn (m : Bytes) (s : State κ) : Prop :=
  match scanNetcPacket m with
  | none => True
  | some p => Raises p s

/-- No message raises when it is handled in its turn, if another one comes behind it. -/
def Unraised (result : OpenResult) : Connection κ → List Bytes → Prop
  | _, [] => True
  | c, m :: ms => closesChannel m = true ∨ ms = [] ∨
      ¬ RaisesOn m c.session ∧ Unraised result (handlePacket result m c) ms

/-- The channel of a session to which messages are sent. -/
def opened (s : State κ) (msgs : List Bytes) : Channel κ where
  stream := msgs.flatten
  state := { session := s }

/-- The messages were handled with all their bytes, and the session and the errors
are those of handling the whole messages one after the other. -/
structure Framed (result : OpenResult) (s : State κ) (msgs : List Bytes) (r : Channel κ) :
    Prop where
  handled : r.handled = throughClosing msgs
  refused : r.refused = []
  state : r.state =
    (throughClosing msgs).foldl (fun c m => handlePacket result m c) { session := s }

/-! ## Reading as the reading of frames -/

/-- Messages as frames. A length of no more than a header is taken for a header. -/
def packetFormat : Format UInt8 where
  headerSize := 8
  frameSize header :=
    if 8 < signed (header.drop 4) then (signed (header.drop 4)).toNat else 8

private theorem scan_header {response : Bytes} (length : response.length = 8) :
    scan [.hex 8, .int 4, .hexRest] response =
      [.hex (hexDigits (response.take 4)), .int (signed (response.drop 4)), .hex []] := by
  have hsplit : response = response.take 4 ++ (response.drop 4 ++ []) := by simp
  have hfirst : 2 * (response.take 4).length = 8 := by
    rw [List.length_take, length]
    rfl
  have hsecond : (Field.int 4).size (response.drop 4 ++ []).length = (response.drop 4).length := by
    rw [List.length_drop, length]
    rfl
  conv_lhs => rw [hsplit]
  rw [scan_hex_bytes 8 _ hfirst, scan_append _ [] hsecond]
  rfl

private theorem scan_short_header {response : Bytes} (short : response.length < 8) :
    (scan [.hex 8, .int 4, .hexRest] response).length < 3 := by
  by_cases hfirst : response.length < 4
  · rw [scan_of_short _ (by simpa [Field.size] using hfirst)]
    decide
  · have hsplit : response = response.take 4 ++ response.drop 4 := by simp
    have htake : 2 * (response.take 4).length = 8 := by
      rw [List.length_take]
      omega
    have hdrop : (response.drop 4).length < (Field.int 4).size (response.drop 4).length := by
      rw [List.length_drop, Field.size]
      omega
    rw [hsplit, scan_hex_bytes 8 _ htake, scan_of_short _ hdrop]
    simp

private theorem readMsg_eq (pending arrived : Bytes) :
    readMsg pending arrived = packetFormat.readFrame pending arrived := by
  change readMsg pending arrived = if (pending.take 8).length < 8 then none else
    some (pending.take 8 ++
        (pending.drop 8 ++ arrived).take (packetFormat.frameSize (pending.take 8) - 8),
      (pending.drop 8 ++ arrived).drop (packetFormat.frameSize (pending.take 8) - 8))
  by_cases hshort : (pending.take 8).length < 8
  · have hscan := scan_short_header hshort
    rw [if_pos hshort, readMsg]
    simp only
    split
    · rename_i heq
      rw [heq] at hscan
      simp at hscan
    · rfl
  · have hlength : (pending.take 8).length = 8 := by
      rw [List.length_take] at hshort ⊢
      omega
    rw [if_neg hshort, readMsg]
    simp only [scan_header hlength, packetFormat]
    split_ifs with hlong
    · have hsize : (signed ((pending.take 8).drop 4) - 8).toNat =
          (signed ((pending.take 8).drop 4)).toNat - 8 := by omega
      rw [hsize]
    · simp

/-- The reader of a channel. -/
def channelReader (κ : Type u) (result : OpenResult) : Reader UInt8 (Connection κ) where
  toFormat := packetFormat
  isOpen := Connection.listens
  handle := handlePacket result
  refuse _ := badResponse result

private theorem channelMachine_eq (result : OpenResult) :
    channelMachine κ result = (channelReader κ result).machine := by
  have hstep : receive result = (channelReader κ result).step := by
    funext r w
    rw [receive, Reader.step]
    simp only [readMsg_eq]
    have hread : (channelReader κ result).readFrame = packetFormat.readFrame := rfl
    rw [hread]
    cases packetFormat.readFrame (r.pending ++ r.stream.take w.before)
      ((r.stream.drop w.before).take w.between) <;> rfl
  rw [channelMachine, Reader.machine, ← hstep]
  rfl

/-- A well-formed message is a frame. -/
theorem WellFormed.isFrame {m : Bytes} (wellFormed : WellFormed m) : packetFormat.IsFrame m := by
  obtain ⟨hheader, hlength⟩ := wellFormed
  have hdrop : (m.take 8).drop 4 = (m.drop 4).take 4 := by rw [List.drop_take]
  refine ⟨by exact le_trans (by decide) hheader, ?_⟩
  change (if 8 < signed ((m.take 8).drop 4) then (signed ((m.take 8).drop 4)).toNat else 8) = _
  rw [hdrop, hlength, if_pos (by omega)]
  exact Int.toNat_natCast m.length

/-! ## What a message does to the channel -/

/-- The channel is the same and none was closed. -/
def State.Stays (s t : State κ) : Prop := t.netcSock = s.netcSock ∧ t.closings = s.closings

theorem State.Stays.refl (s : State κ) : s.Stays s := ⟨rfl, rfl⟩

theorem State.Stays.trans {s t u : State κ} (first : s.Stays t) (second : t.Stays u) :
    s.Stays u :=
  ⟨second.1.trans first.1, second.2.trans first.2⟩

private theorem closings_emit (s : State κ) (e : Effect κ) :
    (s.emit e).closings = s.closings + if e.isClosed then 1 else 0 := by
  simp [State.closings, State.emit, List.countP_singleton]

private theorem closings_emit_of_not_closed (s : State κ) {e : Effect κ}
    (notClosed : e.isClosed = false) : (s.emit e).closings = s.closings := by
  rw [closings_emit, notClosed]
  rfl

theorem State.Stays.emit {s t : State κ} (stays : s.Stays t) {e : Effect κ}
    (notClosed : e.isClosed = false) : s.Stays (t.emit e) :=
  ⟨stays.1, (closings_emit_of_not_closed t notClosed).trans stays.2⟩

/-- A sequence stays on the channel when both commands do. -/
theorem stays_andThen {s : State κ} {o : Outcome (State κ)}
    {next : State κ → Outcome (State κ)} (first : s.Stays o.state)
    (second : ∀ t : State κ, t.Stays (next t).state) : s.Stays (o.andThen next).state :=
  Outcome.andThen_state (P := s.Stays) first fun _ => first.trans (second o.state)

theorem runCallback_stays (item : Item κ) (ncdata : Bytes) (s : State κ) :
    s.Stays (runCallback item ncdata s).state := by
  unfold runCallback
  split
  · exact .refl s
  · split
    · exact .refl s
    · exact (State.Stays.refl s).emit rfl

theorem processIpmiWith_stays {dequeue : State κ → Outcome (State κ)}
    (stays : ∀ t : State κ, t.Stays (dequeue t).state) (ncdata : Bytes) (s : State κ) :
    s.Stays (processIpmiWith dequeue ncdata s).state := by
  unfold processIpmiWith
  split
  · exact .refl s
  · rename_i e _
    split
    · exact .refl s
    · rename_i timer _
      have hfree : s.Stays (s.freeSlot e timer) := (State.Stays.refl s).emit rfl
      exact stays_andThen (hfree.trans (stays _)) (runCallback_stays e.toItem ncdata)

theorem ipmiDequeueFrom_stays (msgq : List (Item κ)) :
    ∀ s : State κ, s.Stays (ipmiDequeueFrom msgq s).state := by
  induction msgq with
  | nil => exact .refl
  | cons item rest ih =>
      intro s
      unfold ipmiDequeueFrom
      have hbegin : s.Stays (s.beginMessage item rest) := ⟨rfl, rfl⟩
      split_ifs
      · exact .refl s
      · exact .refl s
      · exact .refl s
      · exact .refl s
      · exact hbegin.trans (processIpmiWith_stays ih fakeDeviceId _)
      · exact hbegin.emit rfl

theorem ipmiDequeue_stays (s : State κ) : s.Stays (ipmiDequeue s).state :=
  ipmiDequeueFrom_stays s.ipmiMsgq s

theorem sendSetHMCPollingFrequency_stays (status : ℤ) (s : State κ) :
    s.Stays (sendSetHMCPollingFrequency status s) := by
  unfold sendSetHMCPollingFrequency
  split
  · exact .refl s
  · exact (State.Stays.refl s).emit rfl

theorem netcSurveillance_stays (s : State κ) : s.Stays (netcSurveillance s) := by
  have hcancel : s.Stays (s.afterCancel s.netcSurveillanceAfter) := ⟨rfl, rfl⟩
  have hsend := hcancel.trans (sendSetHMCPollingFrequency_stays 1 _)
  have hrestart : s.Stays (sendSetHMCPollingFrequency 1
      (s.afterCancel s.netcSurveillanceAfter)).startSurveillance := by
    unfold State.startSurveillance
    split
    · exact hsend.trans ⟨rfl, rfl⟩
    · exact hsend
  rcases netcSurveillance_cases s with hstop | hstart
  · rw [hstop]
    exact hcancel
  · rw [hstart]
    exact hrestart

/-- The methods that do not close the channel. -/
theorem netcDispatch_stays {p : NetcPacket} (s : State κ)
    (accepted : p.funcop = .version ∨ p.funcop = .password → p.success = true) :
    s.Stays (netcDispatch p s).state := by
  unfold netcDispatch
  split
  · rename_i hversion
    rw [if_pos (accepted (.inl hversion))]
    refine stays_andThen ?_ ipmiDequeue_stays
    unfold versionReceived
    split
    · exact .refl s
    · split
      · exact (State.Stays.refl s).emit rfl
      · exact .refl s
  · rename_i hpassword
    simp only
    rw [if_pos (accepted (.inr hpassword))]
    refine stays_andThen ?_ ipmiDequeue_stays
    have hcancel : s.Stays (s.afterCancel s.netcOpenAfter) := ⟨rfl, rfl⟩
    unfold passwordAccepted
    split
    · exact hcancel
    · have hconnected : s.Stays { s.afterCancel s.netcOpenAfter with netcStatus := .connected } :=
        ⟨rfl, rfl⟩
      exact (hconnected.trans (netcSurveillance_stays _)).trans (ipmiDequeue_stays _)
  · exact stays_andThen (processIpmiWith_stays ipmiDequeue_stays p.ncdata s) ipmiDequeue_stays
  · refine stays_andThen ?_ ipmiDequeue_stays
    unfold nodeConfigReceived
    split
    · exact .refl s
    · exact .refl s
  · exact ipmiDequeue_stays s
  · exact ((State.Stays.refl s).emit rfl).trans (ipmiDequeue_stays _)

theorem ipmiQueue_stays (r : Request κ) (position : Position) (s : State κ) :
    s.Stays (ipmiQueue r position s).state := by
  have hqueued : s.Stays (s.enqueueMessage position (r.item "0" s.timeout)) := ⟨rfl, rfl⟩
  unfold ipmiQueue
  split
  · exact hqueued.trans (ipmiDequeue_stays _)
  · exact hqueued

theorem repostAll_stays (table : List (InProgress κ)) :
    ∀ s : State κ, s.Stays (repostAll table s).state := by
  induction table with
  | nil => exact .refl
  | cons e table ih =>
      intro s
      have hremove : s.Stays { s with toMessageQueue := s.remove e.tag } := ⟨rfl, rfl⟩
      exact stays_andThen (hremove.trans (ipmiQueue_stays e.repost .front _)) ih

theorem markClosed_stays (s : State κ) : s.Stays s.markClosed := by
  unfold State.markClosed
  split
  · exact sendSetHMCPollingFrequency_stays 3 s
  · exact ⟨rfl, rfl⟩

/-- A close takes the channel away. -/
theorem netcClose_closings {s : State κ} (sock : s.netcSock ≠ 0) :
    (netcClose s).state.closings = s.closings + 1 := by
  have hdrop : s.markClosed.dropChannel.closings = s.closings + 1 := by
    rw [dropChannel_eq, ← (markClosed_stays s).2]
    exact closings_emit s.markClosed _
  have hrepost := repostAll_stays s.inprogress s.markClosed.dropChannel
  have hclosings : (netcClose s).state.closings =
      (repostAll s.inprogress s.markClosed.dropChannel).state.closings := by
    rw [netcClose, if_neg sock]
    exact Outcome.andThen_state
      (P := fun t : State κ => t.closings =
        (repostAll s.inprogress s.markClosed.dropChannel).state.closings)
      rfl fun _ => rfl
  rw [hclosings, hrepost.2, hdrop]

private theorem le_netcClose_closings (s : State κ) :
    s.closings ≤ (netcClose s).state.closings := by
  by_cases sock : s.netcSock = 0
  · rw [netcClose, if_pos sock]
    exact (markClosed_stays s).2.ge
  · rw [netcClose_closings sock]
    exact Nat.le_succ _

private theorem le_netcOpen_closings (result : OpenResult) (s : State κ) :
    s.closings ≤ (netcOpen result s).state.closings := by
  unfold netcOpen
  split
  · exact le_rfl
  · cases result with
    | socketFailed => exact le_rfl
    | handshakeFailed sock =>
        have hopened := closings_emit_of_not_closed { s with netcSock := sock }
          (e := .opened sock) rfl
        exact hopened.ge.trans (le_netcClose_closings _)
    | established sock =>
        have hopened := closings_emit_of_not_closed { s with netcSock := sock }
          (e := .opened sock) rfl
        have hwrote := closings_emit_of_not_closed
          ({ s with netcSock := sock }.emit (.opened sock)) (e := .wroteVersion) rfl
        exact (hwrote.trans hopened).ge

private theorem le_netcDispatch_closings (p : NetcPacket) (s : State κ) :
    s.closings ≤ (netcDispatch p s).state.closings := by
  by_cases haccepted : p.funcop = .version ∨ p.funcop = .password → p.success = true
  · exact (netcDispatch_stays s haccepted).2.ge
  · rw [Classical.not_imp, Bool.not_eq_true] at haccepted
    obtain ⟨hversion | hpassword, hrefused⟩ := haccepted
    · simp only [netcDispatch, hversion, hrefused]
      exact le_netcClose_closings s
    · simp only [netcDispatch, hpassword, hrefused]
      exact le_netcClose_closings ((s.afterCancel s.netcOpenAfter).afterCancel s.ipmiHealthAfter)

/-- A message that closes the channel. -/
theorem netcProcess_closes {p : NetcPacket} {s : State κ} (sock : s.netcSock ≠ 0)
    (result : OpenResult)
    (closes : p.clientConnected = true ∨
      (p.funcop = .version ∨ p.funcop = .password) ∧ p.success = false) :
    s.closings < (netcProcess p result s).state.closings := by
  unfold netcProcess
  by_cases hconnected : p.clientConnected = true
  · have hclose : s.closings < (netcClose s).state.closings := by
      rw [netcClose_closings sock]
      exact Nat.lt_succ_self _
    rw [if_pos hconnected]
    refine Outcome.andThen_state (P := fun t : State κ => s.closings < t.closings) ?_
      fun h => h.trans_le (le_netcDispatch_closings p _)
    exact Outcome.andThen_state (P := fun t : State κ => s.closings < t.closings) hclose
      fun h => h.trans_le (le_netcOpen_closings result _)
  · rw [if_neg hconnected, Outcome.ok_andThen]
    obtain ⟨hversion | hpassword, hrefused⟩ := closes.resolve_left hconnected
    · simp only [netcDispatch, hversion, hrefused]
      exact (netcClose_closings sock).ge
    · simp only [netcDispatch, hpassword, hrefused]
      exact (netcClose_closings (s := (s.afterCancel s.netcOpenAfter).afterCancel
        s.ipmiHealthAfter) sock).ge

/-- A message that leaves the channel alone. -/
theorem netcProcess_stays {p : NetcPacket} (s : State κ) (result : OpenResult)
    (connected : p.clientConnected = false)
    (accepted : p.funcop = .version ∨ p.funcop = .password → p.success = true) :
    s.Stays (netcProcess p result s).state := by
  rw [netcProcess, connected]
  exact netcDispatch_stays s accepted

theorem closesChannel_iff {m : Bytes} {p : NetcPacket} (scanned : scanNetcPacket m = some p) :
    closesChannel m = true ↔ p.clientConnected = true ∨
      (p.funcop = .version ∨ p.funcop = .password) ∧ p.success = false := by
  rw [closesChannel, scanned]
  simp

/-- A message that closes the channel ends the reading. -/
theorem handlePacket_of_closes {c : Connection κ} (sock : c.session.netcSock ≠ 0)
    (result : OpenResult) {m : Bytes} (closes : closesChannel m = true) :
    (handlePacket result m c).listens = false := by
  unfold handlePacket Connection.after Connection.listens
  cases hscan : scanNetcPacket m with
  | none => simp [closesChannel, hscan] at closes
  | some p =>
      have hlt := netcProcess_closes sock result ((closesChannel_iff hscan).mp closes)
      simp [hlt.ne']

/-- Behind a message that leaves the channel open reading goes on unless the message
raised. -/
theorem handlePacket_of_stays {c : Connection κ} (listens : c.listens = true)
    (sock : c.session.netcSock ≠ 0) (result : OpenResult) {m : Bytes}
    (stays : closesChannel m = false) :
    ((handlePacket result m c).listens = true ↔ ¬ RaisesOn m c.session) ∧
      (handlePacket result m c).session.netcSock ≠ 0 := by
  rw [Connection.listens, Bool.and_eq_true] at listens
  unfold handlePacket Connection.after Connection.listens RaisesOn
  cases hscan : scanNetcPacket m with
  | none => exact ⟨by simp [Outcome.raise], sock⟩
  | some p =>
      have hcloses := closesChannel_iff hscan
      rw [stays] at hcloses
      simp only [Bool.false_eq_true, false_iff, not_or, not_and, Bool.not_eq_true,
        Bool.not_eq_false] at hcloses
      obtain ⟨hsock, hclosings⟩ := netcProcess_stays c.session result hcloses.1 hcloses.2
      have hraises : (netcProcess p result c.session).error ≠ none ↔ Raises p c.session := by
        rw [netcProcess, hcloses.1]
        exact netcDispatch_error_iff c.session hcloses.2
      refine ⟨?_, hsock ▸ sock⟩
      rw [← not_iff_not.mpr hraises]
      simp [hclosings, listens]

/-! ## All messages -/

private theorem throughClosing_ne_nil (m : Bytes) (ms : List Bytes) :
    throughClosing (m :: ms) ≠ [] :=
  List.cons_ne_nil _ _

private theorem throughClosing_grows (msgs : List Bytes) : throughClosing msgs <+: msgs := by
  induction msgs with
  | nil => exact List.prefix_rfl
  | cons m ms ih =>
      rw [throughClosing, List.cons_prefix_cons]
      refine ⟨rfl, ?_⟩
      split
      · exact List.nil_prefix
      · exact ih

/-- All messages up to the closing are handled just if none raises in front of another. -/
theorem direct_eq_iff (result : OpenResult) (msgs : List Bytes) {c : Connection κ}
    (listens : c.listens = true) (sock : c.session.netcSock ≠ 0) :
    ((channelReader κ result).direct msgs c).1 = throughClosing msgs ↔
      Unraised result c msgs := by
  induction msgs generalizing c with
  | nil => exact iff_of_true rfl trivial
  | cons m ms ih =>
      have hdirect : ((channelReader κ result).direct (m :: ms) c).1 =
          m :: ((channelReader κ result).direct ms (handlePacket result m c)).1 := by
        rw [Reader.direct_of_open _ listens]
        rfl
      rw [hdirect, throughClosing, List.cons_inj_right, Unraised]
      cases hm : closesChannel m with
      | true =>
          rw [Reader.direct_of_closed _ (handlePacket_of_closes sock result hm)]
          exact iff_of_true rfl (.inl rfl)
      | false =>
          obtain ⟨hlistens, hsock⟩ := handlePacket_of_stays listens sock result hm
          simp only [Bool.false_eq_true, if_false, false_or]
          cases ms with
          | nil => exact iff_of_true rfl (.inl rfl)
          | cons m' ms =>
              simp only [List.cons_ne_nil, false_or]
              by_cases hraises : RaisesOn m c.session
              · have hdeaf : (handlePacket result m c).listens = false := by
                  rw [← Bool.not_eq_true, hlistens]
                  exact not_not.mpr hraises
                rw [Reader.direct_of_closed _ hdeaf]
                exact iff_of_false (fun h => throughClosing_ne_nil m' ms h.symm)
                  fun h => h.1 hraises
              · rw [ih (hlistens.mpr hraises) hsock]
                exact ⟨fun h => ⟨hraises, h⟩, And.right⟩

/-- The session is then the one that has handled them one after the other. -/
theorem direct_state (result : OpenResult) (msgs : List Bytes) (c : Connection κ) :
    ((channelReader κ result).direct msgs c).2 =
      ((channelReader κ result).direct msgs c).1.foldl (fun c m => handlePacket result m c) c := by
  induction msgs generalizing c with
  | nil => rfl
  | cons m ms ih =>
      cases hlistens : c.listens with
      | true =>
          rw [Reader.direct_of_open _ hlistens]
          exact ih _
      | false =>
          rw [Reader.direct_of_closed _ hlistens]
          rfl

/-- On an open channel the messages are handled with all their bytes, up to the first
that closes the channel and with no trace of how they arrived, exactly when every file
event finds eight bytes at its first read and the whole message at its second, and no
message raises in front of another. -/
theorem messages_framed_iff {result : OpenResult} {s : State κ} (sock : s.netcSock ≠ 0)
    {msgs : List Bytes} (wellFormed : ∀ m ∈ msgs, WellFormed m) {ws : List Wakeup}
    (admits : (channelMachine κ result).Admits (opened s msgs) ws)
    (finished : Finished ((channelMachine κ result).run (opened s msgs) ws)) :
    Framed result s msgs ((channelMachine κ result).run (opened s msgs) ws) ↔
      packetFormat.FindsWhole 0 ws msgs ∧ Unraised result { session := s } msgs := by
  rw [channelMachine_eq] at admits finished ⊢
  have hframes : ∀ m ∈ msgs, (channelReader κ result).IsFrame m :=
    fun m hm => (wellFormed m hm).isFrame
  have hpos : 0 < (channelReader κ result).headerSize := Nat.succ_pos 7
  rw [← direct_eq_iff result msgs (c := { session := s }) rfl sock]
  constructor
  · rintro ⟨hhandled, hrefused, -⟩
    exact Reader.direct_of_handled hpos hframes rfl admits finished hhandled hrefused
      (throughClosing_grows msgs)
  · rintro ⟨hfinds, hdirect⟩
    obtain ⟨hhandled, hrefused, hstate⟩ :=
      Reader.framed_of_findsWhole hpos hframes rfl admits finished hfinds
    have hlast := direct_state result msgs { session := s }
    rw [hdirect] at hlast
    exact ⟨hhandled.trans hdirect, hrefused, hstate.trans hlast⟩

/-! ## Two runs -/

section Sample

/-- The answer to a polling request, without data. -/
def sampleMessage : Bytes := createNetcMessage 1 0 [0, 0, 0, 5] [0, 0, 0, 9] [0, 8] []

def sampleSession : State ℕ := { netcSock := 3, netcStatus := .connected }

/-- It raises nothing in a session whose queue is empty. -/
theorem sampleMessage_unraised : ¬ RaisesOn sampleMessage sampleSession := by
  have hscan : (scanNetcPacket sampleMessage).map NetcPacket.funcop = some .pollingFrequency := by
    decide +kernel
  unfold RaisesOn
  cases hp : scanNetcPacket sampleMessage with
  | none =>
      rw [hp] at hscan
      cases hscan
  | some p =>
      rw [hp] at hscan
      have hfuncop : p.funcop = .pollingFrequency := Option.some.inj hscan
      simp only [Raises, hfuncop]
      exact id

/-- Two messages arrive in three pieces, none of which is a message. -/
theorem messages_framed_iff_sample :
    Framed .socketFailed sampleSession [sampleMessage, sampleMessage]
      ((channelMachine ℕ .socketFailed).run
        (opened sampleSession [sampleMessage, sampleMessage]) [⟨20, 30⟩, ⟨0, 30⟩]) := by
  refine (messages_framed_iff (by decide) (by decide +kernel) ?_ ?_).mpr ⟨?_, ?_⟩
  · exact ⟨⟨rfl, by decide, by decide +kernel⟩, ⟨by decide +kernel, by decide +kernel,
      by decide +kernel⟩, trivial⟩
  · exact .inr (by decide +kernel)
  · exact ⟨by decide, by decide +kernel, by decide +kernel, by decide +kernel, trivial⟩
  · exact .inr (.inr ⟨sampleMessage_unraised, .inr (.inl rfl)⟩)

/-- A header that arrives in two pieces closes the connection. -/
theorem split_header_closes :
    (∀ m ∈ [sampleMessage], WellFormed m) ∧
      (channelMachine ℕ .socketFailed).Admits (opened sampleSession [sampleMessage]) [⟨4, 0⟩] ∧
      Finished ((channelMachine ℕ .socketFailed).run (opened sampleSession [sampleMessage])
        [⟨4, 0⟩]) ∧
      ¬ Framed .socketFailed sampleSession [sampleMessage]
        ((channelMachine ℕ .socketFailed).run (opened sampleSession [sampleMessage])
          [⟨4, 0⟩]) := by
  refine ⟨by decide +kernel, ⟨⟨rfl, by decide, by decide⟩, trivial⟩, .inl ?_, fun h => ?_⟩
  · decide +kernel
  · have hhandled := h.handled
    revert hhandled
    decide +kernel

end Sample

end Amester.Netc
