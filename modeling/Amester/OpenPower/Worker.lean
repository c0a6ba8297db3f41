/-
# The openpower session and its worker

An `openpower` object hands its requests to a worker thread that runs an
external tool for each of them. Two lists of messages connect the threads:
`worker` holds the jobs the object has sent and `results` the answers the worker
has sent back, each oldest first. A job carries what the tool needs and the tag
under which the object expects the answer; the callback stays with the object.

The tool may do anything: it may not start, and its output may be any text. The
worker turns the output into a list of words, and the object reads the first
word as the status and the others as bytes.
-/

import Amester.Ipmi.Queue
import Amester.Lib.ListFormat
import Amester.Lib.Numeral

namespace Amester.OpenPower

open BinaryFormat Numeral PriorityQueue
open ListFormat (joined)

universe u

/-! ## The output of the tool -/

abbrev Text := List Char

/-- The white space that `concat` trims. -/
def isSpace (c : Char) : Bool :=
  c ∈ [' ', '\t', '\n', '\r', Char.ofNat 11, Char.ofNat 12]

/-- Trim a reversed text at its front; a blank behind a backslash stays. -/
def trimReversed : Text → Text
  | [] => []
  | [c] => if isSpace c then [] else [c]
  | c :: d :: text => if isSpace c ∧ d ≠ '\\' then trimReversed (d :: text) else c :: d :: text

def trim (text : Text) : Text := (trimReversed (text.dropWhile isSpace).reverse).reverse

/-- `concat` of two strings. -/
def concat (first second : Text) : Text :=
  if trim first = [] then trim second
  else if trim second = [] then trim first
  else trim first ++ ' ' :: trim second

/-- `split` at white space; neighbouring blanks have an empty word between them. -/
def split (text : Text) : List Text :=
  if text = [] then []
  else text.splitOnP fun c => c = ' ' ∨ c = '\n' ∨ c = '\t' ∨ c = '\r'

def digitChar (d : Digit) : Char :=
  ['0', '1', '2', '3', '4', '5', '6', '7', '8', '9', 'a', 'b', 'c', 'd', 'e', 'f'].getD d.val '0'

/-- The digit of a character, in either case. -/
def hexDigit? (c : Char) : Option Digit :=
  if '0' ≤ c ∧ c ≤ '9' then some (Fin.ofNat 16 (c.toNat - 48))
  else if 'a' ≤ c ∧ c ≤ 'f' then some (Fin.ofNat 16 (c.toNat - 87))
  else if 'A' ≤ c ∧ c ≤ 'F' then some (Fin.ofNat 16 (c.toNat - 55))
  else none

/-- The digits at the front of a text. -/
def leadingDigits : Text → List Digit
  | [] => []
  | c :: text =>
    match hexDigit? c with
    | some d => d :: leadingDigits text
    | none => []

/-- How a scan with one conversion ends: at a mismatch (0), at the end of the
text (-1), or with a number (1). -/
inductive Scanned
  | mismatch
  | atEnd
  | converted (n : ℤ)
  deriving DecidableEq, Repr

/-- The digits of a hexadecimal integer, behind its prefix if it has one. -/
def scanDigits (sign : ℤ) (text : Text) : Scanned :=
  let digits :=
    match text with
    | '0' :: 'x' :: rest | '0' :: 'X' :: rest => 0 :: leadingDigits rest
    | _ => leadingDigits text
  if text = [] then .atEnd
  else if digits = [] then .mismatch
  else .converted (sign * hexValue digits)

/-- `scan` of a word with the rest of the format `rsp=%x`. -/
def scanFormat : Text → Text → Scanned
  | literal :: format, c :: word => if c = literal then scanFormat format word else .mismatch
  | _ :: _, [] => .atEnd
  | [], word =>
    match word.dropWhile isSpace with
    | '-' :: digits => scanDigits (-1) digits
    | '+' :: digits => scanDigits 1 digits
    | digits => scanDigits 1 digits

/-- The error code among the words: the search stops at the first word whose scan
does not return 0. -/
def scanErrorcode : List Text → Option ℤ
  | [] => none
  | w :: words =>
    match scanFormat ['r', 's', 'p', '='] w with
    | .mismatch => scanErrorcode words
    | .atEnd => none
    | .converted n => some n

/-- What comes of running the tool: it cannot be started, or it prints these
lines and closing its pipe may raise. -/
inductive ToolRun
  | cannotStart
  | ran (lines : List Text) (closeresult : Option Text)
  deriving DecidableEq, Repr

/-- What `scan` keeps of an integer in a C `long`: it fits, if need be without its sign, or it is
the outermost one. -/
def longOf (longBits : ℕ) (n : ℤ) : ℤ :=
  if n.natAbs < 2 ^ longBits then n
  else if n < 0 then -2 ^ (longBits - 1)
  else 2 ^ (longBits - 1) - 1

/-- The digits of an error code. -/
def errorText (longBits : ℕ) (errorcode : ℤ) : Text :=
  (formatX longBits (longOf longBits errorcode)).map digitChar

/-- Run the tool and make words of its output; `none` when that raises. -/
def doipmi (longBits : ℕ) : ToolRun → Option Text
  | .cannotStart => none
  | .ran lines closeresult =>
    let output := lines.foldl concat []
    let result :=
      match closeresult.bind fun text => scanErrorcode (split text) with
      | some errorcode => errorText longBits errorcode
      | none => output
    some ((split result).foldl (fun words byte => concat words ('0' :: 'x' :: byte)) [])

/-! ## Reading a result -/

/-- A byte in the form in which the tool's bytes are handed on. -/
def byteWord (b : UInt8) : Text := '0' :: 'x' :: (digitsOf b).map digitChar

/-- How the interpreter reads texts. Any text may turn up here, so the functions
are total; what they do is fixed for bytes only. -/
structure Interp where
  /-- The bits of a C `long`. -/
  longBits : ℕ
  /-- The elements of a list, `none` when it is malformed. -/
  list : Text → Option (List Text)
  /-- The value of a list read as an expression, `none` when that raises. -/
  expr : List Text → Option Text
  /-- The value of an integer, `none` for any other text. -/
  integer : Text → Option ℤ
  long : 32 ≤ longBits
  list_words : ∀ bytes : Bytes, bytes ≠ [] →
    list (joined (bytes.map byteWord)) = some (bytes.map byteWord)
  expr_word : ∀ b : UInt8, expr [byteWord b] = some (decimal b.toNat)
  integer_word : ∀ b : UInt8, integer (byteWord b) = some (b.toNat : ℤ)

/-- The digits of one data byte. -/
def Interp.formatByte (interp : Interp) (byte : Text) : Option (List Digit) :=
  (interp.integer byte).map format02x

/-- The status and the data bytes of a result, `none` when reading it raises. -/
def Interp.decode (interp : Interp) (result : Text) : Option (Text × Bytes) := do
  let words ← interp.list result
  let status ← interp.expr (words.take 1)
  let digits ← (words.drop 1).mapM interp.formatByte
  some (status, bytesOfDigits digits.flatten)

/-! ## Well-formed output

A tool that prints bytes, a blank before each of them, has them handed on and
read as they are. -/

/-- A word without white space. -/
structure Clean (word : Text) : Prop where
  nonempty : word ≠ []
  blankless : ∀ c ∈ word, isSpace c = false

/-- A text between two characters that are not trimmed. -/
structure Bounded (text : Text) : Prop where
  nonempty : text ≠ []
  first : ∀ c ∈ text.head?, isSpace c = false
  last : ∀ c ∈ text.getLast?, isSpace c = false

theorem trimReversed_of_head {text : Text} (head : ∀ c ∈ text.head?, isSpace c = false) :
    trimReversed text = text := by
  match text with
  | [] => rfl
  | [c] => simp [trimReversed, head c rfl]
  | c :: d :: text => simp [trimReversed, head c rfl]

theorem Bounded.trim {text : Text} (h : Bounded text) : trim text = text := by
  have hdrop : text.dropWhile isSpace = text := by
    cases text with
    | nil => rfl
    | cons c text => simp [h.first c rfl]
  rw [OpenPower.trim, hdrop, trimReversed_of_head, List.reverse_reverse]
  intro c hc
  rw [List.head?_reverse] at hc
  exact h.last c hc

theorem Clean.bounded {word : Text} (h : Clean word) : Bounded word where
  nonempty := h.nonempty
  first c hc := h.blankless c (List.mem_of_mem_head? hc)
  last c hc := h.blankless c (List.mem_of_getLast? hc)

theorem concat_of_bounded {first second : Text} (hfirst : Bounded first)
    (hsecond : Bounded second) : concat first second = first ++ ' ' :: second := by
  rw [concat, hfirst.trim, hsecond.trim, if_neg hfirst.nonempty, if_neg hsecond.nonempty]

theorem Clean.unsplit {word : Text} (h : Clean word) {c : Char} (mem : c ∈ word) :
    decide (c = ' ' ∨ c = '\n' ∨ c = '\t' ∨ c = '\r') = false := by
  have hspace := h.blankless c mem
  simp only [isSpace, List.mem_cons, decide_eq_false_iff_not, not_or] at hspace ⊢
  exact ⟨hspace.1, hspace.2.2.1, hspace.2.1, hspace.2.2.2.1⟩

theorem Bounded.append {first second : Text} (hfirst : Bounded first)
    (hsecond : Bounded second) : Bounded (first ++ ' ' :: second) where
  nonempty := by simp
  first c hc := by
    rw [List.head?_append_of_ne_nil _ hfirst.nonempty] at hc
    exact hfirst.first c hc
  last c hc := by
    rw [List.getLast?_append_of_ne_nil _ (by simp), List.getLast?_cons] at hc
    obtain ⟨d, hd⟩ := Option.ne_none_iff_exists'.mp
      (mt List.getLast?_eq_none_iff.mp hsecond.nonempty)
    refine hsecond.last c ?_
    simpa [hd] using hc

theorem foldl_concat_bounded {words : List Text} (clean : ∀ w ∈ words, Clean w) {text : Text}
    (bounded : Bounded text) : Bounded (words.foldl concat text) := by
  induction words generalizing text with
  | nil => exact bounded
  | cons w words ih =>
      have hw := (clean w List.mem_cons_self).bounded
      rw [List.foldl_cons, concat_of_bounded bounded hw]
      exact ih (fun w hw => clean w (List.mem_cons_of_mem _ hw)) (bounded.append hw)

/-- Adding clean words one after the other. -/
theorem foldl_concat {words : List Text} (clean : ∀ w ∈ words, Clean w) {text : Text}
    (bounded : Bounded text) :
    words.foldl concat text = joined (text :: words) := by
  induction words generalizing text with
  | nil => simp [joined]
  | cons w words ih =>
      have hw := (clean w List.mem_cons_self).bounded
      rw [List.foldl_cons, concat_of_bounded bounded hw,
        ih (fun w hw => clean w (List.mem_cons_of_mem _ hw)) (bounded.append hw)]
      simp only [joined]
      rw [List.intercalate_cons_cons]
      cases words with
      | nil => simp
      | cons w' words => simp

/-- Splitting clean words gives them back. -/
theorem split_joined {words : List Text} (clean : ∀ w ∈ words, Clean w) :
    split (joined words) = words := by
  cases words with
  | nil => rfl
  | cons w words =>
      have hnonempty : joined (w :: words) ≠ [] := by
        have hw := (clean w List.mem_cons_self).nonempty
        cases words with
        | nil => simpa [joined] using hw
        | cons w' words => simp [joined]
      rw [split, if_neg hnonempty]
      clear hnonempty
      induction words generalizing w with
      | nil =>
          have hw := clean w List.mem_cons_self
          rw [joined, List.intercalate_singleton]
          exact List.splitOnP_eq_singleton fun c hc => hw.unsplit hc
      | cons w' words ih =>
          have hw := clean w List.mem_cons_self
          rw [joined, List.intercalate_cons_cons, List.append_assoc, List.singleton_append,
            List.splitOnP_append_cons_of_forall_mem (fun c hc => hw.unsplit hc) ' ' (by decide)]
          rw [← joined, ih w' fun v hv => clean v (List.mem_cons_of_mem _ hv)]

/-- The two digits of a byte. -/
def hexPair (b : UInt8) : Text := (digitsOf b).map digitChar

theorem digitChar_blankless (d : Digit) : isSpace (digitChar d) = false := by
  revert d
  decide

theorem hexPair_clean (b : UInt8) : Clean (hexPair b) where
  nonempty := by simp [hexPair, digitsOf]
  blankless c hc := by
    obtain ⟨d, -, rfl⟩ := List.mem_map.mp hc
    exact digitChar_blankless d

theorem byteWord_clean (b : UInt8) : Clean (byteWord b) where
  nonempty := by simp [byteWord]
  blankless c hc := by
    obtain rfl | rfl | hc : c = '0' ∨ c = 'x' ∨ c ∈ hexPair b := by
      simpa [byteWord, hexPair] using hc
    · decide
    · decide
    · exact (hexPair_clean b).blankless c hc

/-- Bytes that are handed on are read as they are: the first is the status. -/
theorem Interp.decode_bytes (interp : Interp) (b : UInt8) (bytes : Bytes) :
    interp.decode (joined ((b :: bytes).map byteWord)) =
      some (decimal b.toNat, bytes) := by
  have hformat : ∀ bytes : Bytes,
      (bytes.map byteWord).mapM interp.formatByte = some (bytes.map digitsOf) := by
    intro bytes
    induction bytes with
    | nil => rfl
    | cons b bytes ih =>
        have hb : interp.formatByte (byteWord b) = some (digitsOf b) := by
          rw [Interp.formatByte, interp.integer_word, Option.map_some, format02x_toNat]
        rw [List.map_cons, List.mapM_cons, hb, ih]
        rfl
  rw [Interp.decode, interp.list_words (b :: bytes) (by simp)]
  have hflatten : (bytes.map digitsOf).flatten = hexDigits bytes := List.flatMap_def.symm
  simp [interp.expr_word, hformat, hflatten, bytesOfDigits_hexDigits]

/-- A hexadecimal integer. -/
def hexInteger : Text → Option ℤ
  | '0' :: 'x' :: digits =>
    if digits ≠ [] ∧ digits.all (fun c => (hexDigit? c).isSome) then
      some (hexValue (leadingDigits digits))
    else none
  | _ => none

theorem hexInteger_byteWord (b : UInt8) : hexInteger (byteWord b) = some (b.toNat : ℤ) := by
  have hall : ∀ n : Fin 256, hexInteger (byteWord (UInt8.ofNat n.val)) = some (n.val : ℤ) := by
    decide +kernel
  have hb := hall ⟨b.toNat, b.toNat_lt⟩
  rwa [UInt8.ofNat_toNat] at hb

/-- An interpreter that knows no other separators than blanks and no other
integers and expressions than hexadecimal ones. -/
def hexInterp : Interp where
  longBits := 64
  long := by decide
  list text := some (split text)
  expr
    | [word] => (hexInteger word).map fun n => decimal n.toNat
    | _ => none
  integer := hexInteger
  list_words bytes _ := by
    rw [split_joined]
    intro w hw
    obtain ⟨b, -, rfl⟩ := List.mem_map.mp hw
    exact byteWord_clean b
  expr_word b := by simp [hexInteger_byteWord]
  integer_word := hexInteger_byteWord

/-! ## The session -/

/-- What the object sends to the worker. -/
structure Job where
  tag : String
  /-- The function, the command and the data of the tool's command line. -/
  cmdout : Bytes
  deriving DecidableEq, Repr

variable {κ : Type u}

def jobOf (item : Item κ) : Job :=
  ⟨item.tag, item.netfn.byte :: item.cmd.byte :: item.data⟩

/-- What the session does to the outside. -/
inductive Effect (κ : Type u)
  | dispatched (item : Item κ)
  /-- The callback of the message ran, if it has one. -/
  | answered (item : Item κ) (status : Text) (databytes : Bytes)

/-- The answered message, if the effect is an answer. -/
def Effect.answered? : Effect κ → Option (Item κ)
  | .answered item _ _ => some item
  | .dispatched _ => none

structure State (κ : Type u) extends MessageQueue κ where
  /-- The name of the object, which is the tag of all its messages. -/
  name : String := "myopenpower"
  timeout : ℤ := 120000
  /-- The global switch `::network`. -/
  network : Bool := true
  /-- The jobs the worker has not taken yet. -/
  worker : List Job := []
  /-- The tags and results the object has not taken yet. -/
  results : List (String × Text) := []
  effects : List (Effect κ) := []

namespace State

variable (s : State κ)

/-- Append to the log. -/
def emit (e : Effect κ) : State κ := { s with effects := s.effects ++ [e] }

/-- The messages answered so far, in order. -/
def answered : List (Item κ) := s.effects.filterMap Effect.answered?

/-- Put a message on the queue. -/
def enqueueMessage (position : Position) (item : Item κ) : State κ :=
  { s with toMessageQueue := s.insertMessage position item }

/-- Remove the entries of a tag from the in-progress table. -/
def unsetInprogress (tag : String) : State κ := { s with toMessageQueue := s.remove tag }

/-- Enter a message into the in-progress table, take it off the queue and hand it
to the worker. -/
def sendToWorker (item : Item κ) (rest : List (Item κ)) : State κ :=
  { s.emit (.dispatched item) with
    toMessageQueue := s.dispatch { item with after := none } rest
    worker := s.worker ++ [jobOf item] }

end State

/-- Hand the next message to the worker, unless one is in progress. -/
def ipmiDequeue (s : State κ) : State κ :=
  if s.network = false then s
  else
    match s.ipmiMsgq with
    | [] => s
    | item :: rest =>
      if (lookupTag item.tag s.inprogress).isSome then s else s.sendToWorker item rest

/-- Put a request on the queue, and hand it on if it is the only one. -/
def ipmiQueue (r : Request κ) (position : Position) (s : State κ) : State κ :=
  if (s.enqueueMessage position (r.item s.name s.timeout)).ipmiMsgq.length = 1 then
    ipmiDequeue (s.enqueueMessage position (r.item s.name s.timeout))
  else s.enqueueMessage position (r.item s.name s.timeout)

/-- Take a result. An empty one reposts its message; for any other the slot is
freed and the next message sent before the result is read. -/
def ipmiProcess (interp : Interp) (tag : String) (result : Text) (s : State κ) :
    Outcome (State κ) :=
  match lookupTag tag s.inprogress with
  | none => .ok s
  | some e =>
    if result = [] then .ok (ipmiQueue e.repost .back (s.unsetInprogress tag))
    else
      match interp.decode result with
      | some (status, databytes) =>
        .ok ((ipmiDequeue (s.unsetInprogress tag)).emit (.answered e.toItem status databytes))
      | none => .raise (ipmiDequeue (s.unsetInprogress tag)) "result cannot be read"

def ipmiHealth (s : State κ) : State κ := ipmiDequeue s

/-- The worker's `ipmi`: run the tool for the next job and send the result back.
An error of `doipmi` ends it before it sends. -/
def ipmi (interp : Interp) (run : ToolRun) (s : State κ) : State κ :=
  match s.worker with
  | [] => s
  | job :: jobs =>
    match doipmi interp.longBits run with
    | none => { s with worker := jobs }
    | some result => { s with worker := jobs, results := s.results ++ [(job.tag, result)] }

end Amester.OpenPower
