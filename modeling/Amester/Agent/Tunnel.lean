/-
# IPMI commands through the agent

An `emtagent` writes an IPMI command as the words of a message, with two hexadecimal digits for
each byte. The agent runs the message as its own `ipmicmd`, which makes bytes of the words again and
hands them to the thread that runs the tool; what the tool prints goes back as a list of the status
and the digits of the data. The tool is run with the very bytes of the command, and the callback at
the client gets the very bytes that the tool printed, or its error code.
-/

import Amester.Agent.EndToEnd
import Amester.LocalHost.Session

namespace Amester.Agent

open BinaryFormat ListFormat Numeral EventMachine
open OpenPower (ToolRun Interp Scanned concat split scanErrorcode scanFormat digitChar hexDigit?
  hexPair byteWord errorText Clean Bounded)

universe u

variable {κ : Type u}

/-! ## The client's side -/

/-- Two digits as they are written. -/
def hexWord (h : Hex2) : Text := [digitChar h.hi, digitChar h.lo]

/-- The message that `ipmi_dequeue` sends. -/
def ipmiMsg (item : Item κ) : Text :=
  "me ipmicmd ".toList ++
    [hexWord item.netfn, hexWord item.lun, hexWord item.cmd,
      joined (item.data.map hexPair)].foldl concat (hexWord item.rssa)

/-! ## The agent's side -/

/-- The byte of a word; a word that cannot be scanned leaves the variable as it was. -/
def scanByte (byte : Option UInt8) (p : Text) : Option UInt8 :=
  match scanFormat [] p with
  | .converted n => some (byteOf n)
  | .mismatch | .atEnd => byte

/-- The data of the words, `none` when that raises. -/
def scanData : Option UInt8 → List Text → Option Bytes
  | _, [] => some []
  | byte, p :: args =>
    if p.length % 2 ≠ 0 then none
    else
      match scanByte byte p with
      | none => none
      | some b => (scanData (some b) args).map (b :: ·)

/-- What the thread is asked to do. -/
structure ToolJob where
  rssa : Text
  chan : Text
  lun : Text
  netfn : Text
  cmd : Text
  data : Bytes
  deriving DecidableEq

/-- The agent's `ipmicmd` up to the request, `none` when it raises. -/
def ipmicmd (addr netfn lun cmd : Text) (args : List Text) : Option ToolJob :=
  if addr.length ≠ 2 ∨ netfn.length ≠ 2 ∨ lun.length ≠ 2 ∨ cmd.length ≠ 2 then none
  else (scanData none args).map fun data => ⟨addr, "00".toList, lun, netfn, cmd, data⟩

/-- The words of the tool's `raw` command. -/
def cmdout (job : ToolJob) : List Text :=
  ('0' :: 'x' :: job.netfn) :: ('0' :: 'x' :: job.cmd) :: job.data.map byteWord

/-- The agent's `doipmi`: openpower's, with a status in front of what the tool prints. -/
def doipmi (longBits : ℕ) : ToolRun → Option Text
  | .cannotStart => none
  | .ran lines closeresult =>
    let output := lines.foldl concat []
    let result :=
      match closeresult.bind fun text => scanErrorcode (split text) with
      | some errorcode => errorText longBits errorcode
      | none => if output = [] then "00".toList else concat "00".toList output
    some ((split result).foldl (fun words byte => concat words ('0' :: 'x' :: byte)) [])

/-- The digits of a byte string. -/
def hexText (bytes : Bytes) : Text := (hexDigits bytes).map digitChar

/-- Run a message that is an `ipmicmd` of the agent, with a tool; `none` when it raises or nothing
comes back. -/
def runMessage (interp : Interp) (tcl : Tcl) (tool : List Text → ToolRun) (msg : Text) :
    Option Text := do
  match ← tcl.elements msg with
  | object :: method :: addr :: netfn :: lun :: cmd :: args =>
    if object ≠ "me".toList ∨ method ≠ "ipmicmd".toList then none
    else
      let job ← ipmicmd addr netfn lun cmd args
      let result ← doipmi interp.longBits (tool (cmdout job))
      let (status, databytes) ← interp.decode result
      some (tcl.list [status, hexText databytes])
  | _ => none

/-! ## Across the system -/

/-- The lines of a tool that prints bytes, with a blank before each byte. -/
def printed (lines : List Bytes) : List Text :=
  lines.map (fun bytes => ' ' :: joined (bytes.map hexPair)) ++ [[]]

/-- What is to come of a run of the tool: the bytes that it printed, or its error code, if that has
32 bits, and no data. -/
inductive Means : ToolRun → Text → Bytes → Prop
  | printed (lines : List Bytes) : Means (.ran (printed lines) none) (decimal 0) lines.flatten
  | failed (lines : List Text) {closeresult : Text} {n : ℕ}
      (scanned : scanErrorcode (split closeresult) = some (n : ℤ)) (small : n < 2 ^ 32) :
      Means (.ran lines (some closeresult)) (decimal n) []

/-- The words with which the tool is to be run for a command. -/
def toolWords (item : Item κ) : List Text :=
  ('0' :: 'x' :: hexWord item.netfn) :: ('0' :: 'x' :: hexWord item.cmd) ::
    item.data.map byteWord

/-- `ipmi_process` answers a message that is in progress with this status and these bytes. -/
def Answers (κ : Type u) (interp : Interp) (result status : Text) (databytes : Bytes) : Prop :=
  ∀ (s : LocalHost.State κ) (tag : String) (e : InProgress κ), lookupTag tag s.inprogress = some e →
    e.callback.isSome = true →
      LocalHost.ipmiProcess (LocalHost.emtagent interp) tag result s =
        (.ok (s.emit (.answered e.toItem status databytes)), some ⟨tag, e.toItem⟩)

/-- The result of an `ipmicmd` that returned is what it returned. -/
def Effect.IsReturned (interp : Interp) (tcl : Tcl) (tool : Call → List Text → ToolRun) :
    Effect → Prop
  | .answered call result _ =>
    ∀ returned ∈ runMessage interp tcl (tool call) call.msg, result = returned
  | .read _ _ | .started _ | .greeted _ | .closed _ | .raised => True

instance decidableIsReturned (interp : Interp) (tcl : Tcl) (tool : Call → List Text → ToolRun) :
    DecidablePred (Effect.IsReturned interp tcl tool)
  | .answered call result _ =>
    inferInstanceAs (Decidable
      (∀ returned ∈ runMessage interp tcl (tool call) call.msg, result = returned))
  | .read _ _ | .started _ | .greeted _ | .closed _ | .raised => isTrue trivial

namespace System

variable (interp : Interp) (tcl : Tcl) (tool : Call → List Text → ToolRun) (sys : System κ)

/-- Wherever the agent answers an `ipmicmd` that returned, it is with what it returned. -/
def Executes : Prop :=
  ∀ e ∈ sys.agent.state.effects, e.IsReturned interp tcl tool

instance decidableExecutes : Decidable (sys.Executes interp tcl tool) :=
  inferInstanceAs (Decidable (∀ e ∈ sys.agent.state.effects, e.IsReturned interp tcl tool))

/-- What the client's callback gets for an IPMI command answers it with what came of a run of the
tool for this command. -/
def Tunnels : Prop :=
  ∀ l, ∀ entry ∈ sys.handledOn l, ∀ item : Item κ, entry.2.1 = ipmiMsg item →
    ∃ call ∈ sys.agent.state.answered, call.tag = entry.1 ∧ call.msg = entry.2.1 ∧
      ∀ status databytes, Means (tool call (toolWords item)) status databytes →
        ∃ result, entry.2.2 = [result] ∧ Answers κ interp result status databytes

end System

/-! ## The message -/

/-- The words of the message. -/
def messageWords (item : Item κ) : List Text :=
  "me".toList :: "ipmicmd".toList :: hexWord item.rssa :: hexWord item.netfn ::
    hexWord item.lun :: hexWord item.cmd :: item.data.map hexPair

private theorem digitChar_plain (d : Digit) : digitChar d ∉ special := by
  revert d
  decide

private theorem digitChar_space (d : Digit) : OpenPower.isSpace (digitChar d) = false := by
  revert d
  decide

theorem hexWord_clean (h : Hex2) : Clean (hexWord h) where
  nonempty := List.cons_ne_nil _ _
  blankless c hc := by
    simp only [hexWord, List.mem_cons, List.not_mem_nil, or_false] at hc
    obtain rfl | rfl := hc <;> exact digitChar_space _

private theorem hexWord_plain (h : Hex2) : Plain (hexWord h) := by
  refine ⟨List.cons_ne_nil _ _, fun c hc => ?_⟩
  simp only [hexWord, List.mem_cons, List.not_mem_nil, or_false] at hc
  obtain rfl | rfl := hc <;> exact digitChar_plain _

private theorem hexPair_plain (b : UInt8) : Plain (hexPair b) := by
  refine ⟨by simp [hexPair, digitsOf], fun c hc => ?_⟩
  obtain ⟨d, -, rfl⟩ := List.mem_map.mp hc
  exact digitChar_plain d

private theorem messageWords_plain (item : Item κ) : ∀ word ∈ messageWords item, Plain word := by
  intro word hword
  simp only [messageWords, List.mem_cons] at hword
  obtain rfl | rfl | rfl | rfl | rfl | rfl | hword := hword
  · decide
  · decide
  · exact hexWord_plain item.rssa
  · exact hexWord_plain item.netfn
  · exact hexWord_plain item.lun
  · exact hexWord_plain item.cmd
  · obtain ⟨b, -, rfl⟩ := List.mem_map.mp hword
    exact hexPair_plain b

private theorem joined_bounded {words : List Text} (clean : ∀ w ∈ words, Clean w)
    (nonempty : words ≠ []) : Bounded (joined words) := by
  obtain ⟨w, words, rfl⟩ := List.exists_cons_of_ne_nil nonempty
  have hrest : ∀ w' ∈ words, Clean w' := fun w' hw' => clean w' (List.mem_cons_of_mem w hw')
  rw [← OpenPower.foldl_concat hrest (clean w List.mem_cons_self).bounded]
  exact OpenPower.foldl_concat_bounded hrest (clean w List.mem_cons_self).bounded

theorem pairs_clean (bytes : Bytes) : ∀ w ∈ bytes.map hexPair, Clean w := by
  intro w hw
  obtain ⟨b, -, rfl⟩ := List.mem_map.mp hw
  exact OpenPower.hexPair_clean b

/-- Words that a text is joined to. -/
theorem concat_joined {first second : List Text} (hfirst : ∀ w ∈ first, Clean w)
    (hsecond : ∀ w ∈ second, Clean w) :
    concat (joined first) (joined second) = joined (first ++ second) := by
  by_cases hnone : first = []
  · subst hnone
    by_cases hempty : second = []
    · subst hempty
      rfl
    · exact (joined_bounded hsecond hempty).trim
  · have htrim := (joined_bounded hfirst hnone).trim
    have hne := (joined_bounded hfirst hnone).nonempty
    by_cases hempty : second = []
    · subst hempty
      rw [concat, htrim, if_neg hne, List.append_nil]
      rfl
    · rw [OpenPower.concat_of_bounded (joined_bounded hfirst hnone)
        (joined_bounded hsecond hempty), joined_append hnone, if_neg hempty]

/-- The words of the command. -/
def commandWords (item : Item κ) : List Text :=
  [hexWord item.rssa, hexWord item.netfn, hexWord item.lun, hexWord item.cmd]

theorem commandWords_clean (item : Item κ) : ∀ w ∈ commandWords item, Clean w := by
  intro w hw
  simp only [commandWords, List.mem_cons, List.not_mem_nil, or_false] at hw
  obtain rfl | rfl | rfl | rfl := hw <;> exact hexWord_clean _

/-- The words in front of the command. -/
theorem joined_me (words : List Text) (nonempty : words ≠ []) :
    joined ("me".toList :: "ipmicmd".toList :: words) =
      "me ipmicmd ".toList ++ joined words := by
  rw [joined_cons, joined_cons, if_neg (List.cons_ne_nil _ _), if_neg nonempty]
  rfl

private theorem ipmiMsg_eq (item : Item κ) : ipmiMsg item = joined (messageWords item) := by
  have hhead : [hexWord item.netfn, hexWord item.lun, hexWord item.cmd].foldl concat
      (hexWord item.rssa) = joined (commandWords item) := by
    rw [commandWords]
    refine OpenPower.foldl_concat (fun w hw => ?_) (hexWord_clean item.rssa).bounded
    exact commandWords_clean item w (List.mem_cons_of_mem _ hw)
  have hfold : [hexWord item.netfn, hexWord item.lun, hexWord item.cmd,
      joined (item.data.map hexPair)].foldl concat (hexWord item.rssa) =
        joined (commandWords item ++ item.data.map hexPair) := by
    rw [← concat_joined (commandWords_clean item) (pairs_clean item.data), ← hhead]
    simp only [List.foldl_cons, List.foldl_nil]
  have hme := joined_me (commandWords item ++ item.data.map hexPair) (List.cons_ne_nil _ _)
  exact (congrArg ("me ipmicmd ".toList ++ ·) hfold).trans hme.symm

private theorem elements_ipmiMsg (tcl : Tcl) (item : Item κ) :
    tcl.elements (ipmiMsg item) = some (messageWords item) := by
  rw [ipmiMsg_eq]
  exact tcl.elements_plain _ (messageWords_plain item)

/-- The agent runs the message as it is. -/
theorem request_ipmiMsg (tcl : Tcl) (tag : Text) (item : Item κ) :
    tcl.request (tcl.list [tag, ipmiMsg item]) =
      .run false tag (ipmiMsg item) (ipmiMsg item) := by
  have hwords := elements_ipmiMsg tcl item
  have hcomplete : tcl.complete (ipmiMsg item) = true := by
    rw [ipmiMsg_eq]
    exact tcl.complete_plain _ (messageWords_plain item)
  have hone : ∀ word : Text, Plain word → ipmiMsg item ≠ word := by
    rintro word hplain rfl
    have hsingle : tcl.elements (ipmiMsg item) = some [ipmiMsg item] := by
      have helements := tcl.elements_plain [ipmiMsg item] (by simpa using hplain)
      simpa [joined] using helements
    rw [hwords, Option.some.injEq] at hsingle
    exact absurd (congrArg List.length hsingle) (by simp [messageWords])
  have hquit := hone "quit".toList (by decide)
  have hsend := hone "send_data".toList (by decide)
  have hhead : (messageWords item).headD [] ≠ "bg".toList := by
    rw [messageWords, List.headD_cons]
    decide
  rw [Tcl.request, tcl.elements_list]
  simp only [List.getD_cons_zero, List.getD_cons_succ, Tcl.command, if_neg hquit, if_neg hsend,
    hwords, if_neg hhead, hcomplete, if_true]

/-! ## The tool's command -/

private theorem scanByte_hexPair (byte : Option UInt8) (b : UInt8) :
    scanByte byte (hexPair b) = some b := by
  have hall : ∀ n : Fin 256, scanFormat [] (hexPair (UInt8.ofNat n.val)) = .converted n.val := by
    decide +kernel
  have hb := hall ⟨b.toNat, b.toNat_lt⟩
  rw [UInt8.ofNat_toNat] at hb
  have hbyte : byteOf (b.toNat : ℤ) = b := by
    rw [byteOf, Int.emod_eq_of_lt (by omega) (by have := b.toNat_lt; omega), Int.toNat_natCast,
      UInt8.ofNat_toNat]
  simp only [scanByte, hb, hbyte]

private theorem scanData_pairs (byte : Option UInt8) (data : Bytes) :
    scanData byte (data.map hexPair) = some data := by
  induction data generalizing byte with
  | nil => rfl
  | cons b data ih =>
      have hlength : ¬ (hexPair b).length % 2 ≠ 0 := by simp [hexPair, digitsOf]
      rw [List.map_cons, scanData, if_neg hlength, scanByte_hexPair]
      simp only [ih, Option.map_some]

private theorem ipmicmd_hexWords (item : Item κ) :
    (ipmicmd (hexWord item.rssa) (hexWord item.netfn) (hexWord item.lun) (hexWord item.cmd)
      (item.data.map hexPair)).map cmdout = some (toolWords item) := by
  have hlengths : ¬ ((hexWord item.rssa).length ≠ 2 ∨ (hexWord item.netfn).length ≠ 2 ∨
      (hexWord item.lun).length ≠ 2 ∨ (hexWord item.cmd).length ≠ 2) := by
    simp [hexWord]
  rw [ipmicmd, if_neg hlengths, scanData_pairs]
  rfl

/-! ## The answer -/

private theorem concat_line {words : List Text} (clean : ∀ w ∈ words, Clean w) (bytes : Bytes) :
    concat (joined words) (' ' :: joined (bytes.map hexPair)) =
      joined (words ++ bytes.map hexPair) :=
  -- the blank in front is trimmed
  concat_joined clean (pairs_clean bytes)

private theorem foldl_lines (lines : List Bytes) {words : List Text}
    (clean : ∀ w ∈ words, Clean w) :
    (lines.map fun bytes => ' ' :: joined (bytes.map hexPair)).foldl concat
        (joined words) =
      joined (words ++ lines.flatten.map hexPair) := by
  induction lines generalizing words with
  | nil => simp
  | cons bytes lines ih =>
      have hboth : ∀ w ∈ words ++ bytes.map hexPair, Clean w := by
        intro w hw
        obtain hold | hnew := List.mem_append.mp hw
        · exact clean w hold
        · exact pairs_clean bytes w hnew
      rw [List.map_cons, List.foldl_cons, concat_line clean, ih hboth, List.flatten_cons,
        List.map_append, List.append_assoc]

private theorem foldl_words {words : List Text} (clean : ∀ w ∈ words, Clean w) :
    (split (joined words)).foldl (fun text w => concat text ('0' :: 'x' :: w)) [] =
      joined (words.map fun w => '0' :: 'x' :: w) := by
  have hprefixed : ∀ w ∈ words.map fun w => '0' :: 'x' :: w, Clean w := by
    intro w hw
    obtain ⟨w', hw', rfl⟩ := List.mem_map.mp hw
    refine ⟨List.cons_ne_nil _ _, fun c hc => ?_⟩
    obtain rfl | rfl | hc := by simpa using hc
    · decide
    · decide
    · exact (clean w' hw').blankless c hc
  rw [OpenPower.split_joined clean, ← List.foldl_map]
  cases hmap : words.map fun w => '0' :: 'x' :: w with
  | nil => rfl
  | cons w others =>
      rw [hmap] at hprefixed
      have hfirst : concat [] w = w := (hprefixed w List.mem_cons_self).bounded.trim
      rw [List.foldl_cons, hfirst]
      exact OpenPower.foldl_concat (fun v hv => hprefixed v (List.mem_cons_of_mem w hv))
        (hprefixed w List.mem_cons_self).bounded

/-- The bytes are handed on behind a status of zero. -/
theorem doipmi_printed (longBits : ℕ) (lines : List Bytes) :
    doipmi longBits (.ran (printed lines) none) =
      some (joined ((0 :: lines.flatten).map byteWord)) := by
  have houtput : (printed lines).foldl concat [] = joined (lines.flatten.map hexPair) := by
    have hnone : ∀ w ∈ ([] : List Text), Clean w := by simp
    have hlines := foldl_lines lines hnone
    have hlast := concat_joined (pairs_clean lines.flatten) hnone
    rw [printed, List.foldl_append, List.foldl_cons, List.foldl_nil]
    rw [List.append_nil] at hlast
    exact (congrArg (concat · []) hlines).trans hlast
  have hstatus : "00".toList = joined [hexPair 0] := by decide
  have hresult : (if joined (lines.flatten.map hexPair) = [] then "00".toList
      else concat "00".toList (joined (lines.flatten.map hexPair))) =
        joined ((0 :: lines.flatten).map hexPair) := by
    have hzero : ∀ w ∈ [hexPair 0], Clean w := by simpa using OpenPower.hexPair_clean 0
    have hconcat := concat_joined hzero (pairs_clean lines.flatten)
    split_ifs with hempty
    · have hnone : lines.flatten = [] := by
        by_contra hne
        have hmap : lines.flatten.map hexPair ≠ [] := by simpa using hne
        exact (joined_bounded (pairs_clean lines.flatten) hmap).nonempty hempty
      rw [hnone, hstatus]
      rfl
    · rw [hstatus, hconcat]
      rfl
  simp only [doipmi, Option.bind_none, houtput, hresult]
  rw [foldl_words (pairs_clean _), List.map_map]
  rfl

private theorem digits_blankless (digits : List Digit) :
    ∀ c ∈ digits.map digitChar, OpenPower.isSpace c = false := by
  intro c hc
  obtain ⟨d, -, rfl⟩ := List.mem_map.mp hc
  exact digitChar_space d

/-- A word of digits goes into the words that are handed on. -/
theorem doipmi_failed {longBits : ℕ} (long : 32 ≤ longBits) (lines : List Text)
    {closeresult : Text} {n : ℕ} (scanned : scanErrorcode (split closeresult) = some (n : ℤ))
    (small : n < 2 ^ 32) :
    doipmi longBits (.ran lines (some closeresult)) =
      some (joined ['0' :: 'x' :: (formatX longBits n).map digitChar]) := by
  have hfits : n < 2 ^ longBits := small.trans_le (Nat.pow_le_pow_right (by decide) long)
  have htext : errorText longBits n = (formatX longBits n).map digitChar := by
    rw [errorText, OpenPower.longOf, Int.natAbs_natCast, if_pos hfits]
  have hclean : ∀ w ∈ [(formatX longBits n).map digitChar], Clean w := by
    intro w hw
    obtain rfl := List.mem_singleton.mp hw
    refine ⟨?_, digits_blankless _⟩
    simpa using formatX_ne_nil longBits n
  have hwords := foldl_words hclean
  have hsingle : joined [(formatX longBits n).map digitChar] =
      (formatX longBits n).map digitChar := by
    simp [joined]
  rw [hsingle] at hwords
  simp only [doipmi, Option.bind_some, scanned, htext, hwords, List.map_cons, List.map_nil]

/-! ## What the callback gets -/

/-- The interpreter reads lists as they are written, and a hexadecimal number has its value. -/
structure Reads (interp : Interp) (tcl : Tcl) : Prop where
  list : ∀ text, interp.list text = tcl.elements text
  expr_hex : ∀ digits : List Digit, digits ≠ [] →
    interp.expr ['0' :: 'x' :: digits.map digitChar] =
      some (decimal (hexValue digits))

variable {interp : Interp} {tcl : Tcl}

theorem Reads.decode_hex (reads : Reads interp tcl) {digits : List Digit}
    (some_digits : digits ≠ []) :
    interp.decode (joined ['0' :: 'x' :: digits.map digitChar]) =
      some (decimal (hexValue digits), []) := by
  have hplain : ∀ word ∈ ['0' :: 'x' :: digits.map digitChar], Plain word := by
    intro word hword
    obtain rfl := List.mem_singleton.mp hword
    refine ⟨List.cons_ne_nil _ _, fun c hc => ?_⟩
    obtain rfl | rfl | hc : c = '0' ∨ c = 'x' ∨ c ∈ digits.map digitChar := by simpa using hc
    · decide
    · decide
    · obtain ⟨d, -, rfl⟩ := List.mem_map.mp hc
      exact digitChar_plain d
  have hlist : interp.list (joined ['0' :: 'x' :: digits.map digitChar]) =
      some ['0' :: 'x' :: digits.map digitChar] :=
    (reads.list _).trans (tcl.elements_plain _ hplain)
  have htake : ['0' :: 'x' :: digits.map digitChar].take 1 = ['0' :: 'x' :: digits.map digitChar] :=
    rfl
  have hdrop : ['0' :: 'x' :: digits.map digitChar].drop 1 = [] := rfl
  simp only [Interp.decode, hlist, Option.bind_eq_bind, Option.bind_some, htake, hdrop,
    reads.expr_hex digits some_digits, List.mapM_nil, Option.pure_def, List.flatten_nil]
  rfl

private theorem hexDigit?_digitChar (d : Digit) : hexDigit? (digitChar d) = some d := by
  revert d
  decide

private theorem mapM_hexDigit? (digits : List Digit) :
    (digits.map digitChar).mapM hexDigit? = some digits := by
  induction digits with
  | nil => rfl
  | cons d digits ih =>
      rw [List.map_cons, List.mapM_cons, hexDigit?_digitChar, ih]
      rfl

private theorem oneLine_digits (digits : List Digit) : OneLine (digits.map digitChar) := by
  have hall : ∀ d : Digit, digitChar d ∉ lineEnds := by decide
  intro c ends hmem
  obtain ⟨d, -, rfl⟩ := List.mem_map.mp hmem
  exact hall d ends

private theorem oneLine_decimal (n : ℕ) : OneLine (decimal n) :=
  fun _ ends => not_mem_decimal (isDigit_lineEnd ends) n

/-- A result without line ends is sent as it is. -/
theorem oneLine_eq {result : Text} (line : OneLine result) : oneLine result = result := by
  have hsame : ∀ c ∈ result, (if c = '\n' ∨ c = '\r' then ' ' else c) = c := by
    intro c hc
    refine if_neg fun hend => ?_
    exact line c (by simpa [lineEnds] using hend) hc
  rw [oneLine, List.map_congr_left hsame, List.map_id']

/-- The client reads the status and the bytes that were written. -/
theorem Reads.answers (reads : Reads interp tcl) (n : ℕ) (bytes : Bytes) :
    Answers κ interp (oneLine (tcl.list [decimal n, hexText bytes])) (decimal n) bytes := by
  have hline : OneLine (tcl.list [decimal n, hexText bytes]) := by
    refine tcl.oneLine_list fun word hword => ?_
    simp only [List.mem_cons, List.not_mem_nil, or_false] at hword
    obtain rfl | rfl := hword
    · exact oneLine_decimal n
    · exact oneLine_digits _
  have hdecode : (LocalHost.emtagent interp).decode (tcl.list [decimal n, hexText bytes]) =
      some (decimal n, bytes) := by
    rw [LocalHost.emtagent]
    simp only [reads.list, tcl.elements_list, Option.bind_eq_bind, Option.bind_some,
      List.getD_cons_succ, List.getD_cons_zero, List.headD_cons]
    rw [hexText, mapM_hexDigit?, Option.bind_some, bytesOfDigits_hexDigits]
  have hnonempty : tcl.list [decimal n, hexText bytes] ≠ [] := by
    intro hempty
    have helements := tcl.elements_list [decimal n, hexText bytes]
    rw [hempty, Tcl.elements_nil] at helements
    exact absurd (Option.some.inj helements) nofun
  rw [oneLine_eq hline]
  intro s tag e entry callback
  obtain ⟨k, hk⟩ := Option.isSome_iff_exists.mp callback
  rw [LocalHost.ipmiProcess, if_neg hnonempty, hdecode]
  simp only [entry, hk]

/-- What the thread hands back is read as what the run of the tool means. -/
theorem decode_doipmi (reads : Reads interp tcl) {run : ToolRun} {status : Text} {databytes : Bytes}
    (means : Means run status databytes) :
    (doipmi interp.longBits run).bind interp.decode = some (status, databytes) := by
  cases means with
  | printed lines =>
      rw [doipmi_printed, Option.bind_some, interp.decode_bytes]
      rfl
  | failed lines scanned small =>
      have hfits := small.trans_le (Nat.pow_le_pow_right (by decide) interp.long)
      rw [doipmi_failed interp.long lines scanned small, Option.bind_some,
        reads.decode_hex (formatX_ne_nil _ _), hexValue_formatX hfits]

private theorem status_decimal {run : ToolRun} {status : Text} {databytes : Bytes}
    (means : Means run status databytes) : ∃ n, status = decimal n := by
  cases means with
  | printed lines => exact ⟨_, rfl⟩
  | failed lines scanned small => exact ⟨_, rfl⟩

/-- The tool is run with the bytes of the command, and the callback gets what that means. -/
theorem runMessage_ipmiMsg (reads : Reads interp tcl) {tool : List Text → ToolRun} {item : Item κ}
    {status : Text} {databytes : Bytes} (means : Means (tool (toolWords item)) status databytes) :
    ∃ result, runMessage interp tcl tool (ipmiMsg item) = some result ∧
      Answers κ interp (oneLine result) status databytes := by
  obtain ⟨n, rfl⟩ := status_decimal means
  refine ⟨tcl.list [decimal n, hexText databytes], ?_, reads.answers n databytes⟩
  obtain ⟨job, hjob, hcmdout⟩ := Option.map_eq_some_iff.mp (ipmicmd_hexWords item)
  obtain ⟨result, hresult, hdecode⟩ := Option.bind_eq_some_iff.mp (decode_doipmi reads means)
  have hnamed : ¬ ("me".toList ≠ "me".toList ∨ "ipmicmd".toList ≠ "ipmicmd".toList) := by simp
  rw [← hcmdout] at hresult
  simp only [runMessage, elements_ipmiMsg, messageWords, Option.bind_eq_bind, Option.bind_some,
    if_neg hnamed, hjob, hresult, hdecode]

theorem System.Faithful.tunnels {tool : Call → List Text → ToolRun} {sys : System κ}
    (faithful : sys.Faithful tcl) (reads : Reads interp tcl)
    (executes : sys.Executes interp tcl tool) : sys.Tunnels interp tool := by
  intro l entry hentry item hmsg
  obtain ⟨e, he, hanswer⟩ := List.mem_filterMap.mp ((faithful.handled l).subset hentry)
  cases e with
  | read _ _ | started _ | greeted _ | closed _ | raised => exact absurd hanswer nofun
  | answered call result conn =>
      rw [answer?] at hanswer
      split_ifs at hanswer
      obtain rfl := Option.some.inj hanswer
      refine ⟨call, List.mem_filterMap.mpr ⟨_, he, rfl⟩, rfl, rfl, fun status databytes means => ?_⟩
      obtain ⟨returned, hreturned, hanswers⟩ := runMessage_ipmiMsg reads means
      have hmsg : call.msg = ipmiMsg item := hmsg
      rw [← hmsg] at hreturned
      obtain rfl := executes _ he returned hreturned
      exact ⟨_, rfl, hanswers⟩

/-- In every state of every run of the system: as long as the agent's answers are what its commands
returned, each callback for an IPMI command gets the status and the bytes of a run of the tool for
this very command. -/
theorem always_tunnels (reads : Reads interp tcl) (tool : Call → List Text → ToolRun)
    {client : LineHost.State κ} (fresh : client.Fresh) {moves : List (Move κ)}
    (admits : (system tcl κ).Admits (started client) moves)
    (noReuse : (system tcl κ).EachStep System.NoReuse (started client) moves) :
    (system tcl κ).Always (fun sys => sys.Executes interp tcl tool → sys.Tunnels interp tool)
      (started client) moves :=
  Machine.Always.mono (fun _ sound executes => sound.faithful.tunnels reads executes)
    (always_sound fresh admits noReuse)

/-! ## A run -/

private theorem leadingDigits_map (digits : List Digit) :
    OpenPower.leadingDigits (digits.map digitChar) = digits := by
  induction digits with
  | nil => rfl
  | cons d digits ih => simp only [List.map_cons, OpenPower.leadingDigits, hexDigit?_digitChar, ih]

private theorem hexInteger_digits {digits : List Digit} (some_digits : digits ≠ []) :
    OpenPower.hexInteger ('0' :: 'x' :: digits.map digitChar) =
      some (hexValue digits : ℤ) := by
  have hmap : digits.map digitChar ≠ [] := by simpa using some_digits
  have hall : (digits.map digitChar).all (fun c => (hexDigit? c).isSome) = true := by
    simp [hexDigit?_digitChar]
  simp only [OpenPower.hexInteger, if_pos (And.intro hmap hall), leadingDigits_map]

private theorem byteWord_plain (b : UInt8) : Plain (byteWord b) := by
  refine ⟨List.cons_ne_nil _ _, fun c hc => ?_⟩
  obtain rfl | rfl | hc : c = '0' ∨ c = 'x' ∨ c ∈ hexPair b := by simpa [byteWord, hexPair] using hc
  · decide
  · decide
  · exact (hexPair_plain b).2 c hc

private theorem read_byteWords (bytes : Bytes) (_ : bytes ≠ []) :
    quoting.elements (joined (bytes.map byteWord)) = some (bytes.map byteWord) := by
  refine quoting.elements_plain _ fun word hword => ?_
  obtain ⟨b, -, rfl⟩ := List.mem_map.mp hword
  exact byteWord_plain b

/-- Lists as they are quoted, and hexadecimal integers. -/
def quotingInterp : Interp where
  longBits := 64
  long := OpenPower.hexInterp.long
  list := quoting.elements
  expr := OpenPower.hexInterp.expr
  integer := OpenPower.hexInteger
  list_words := read_byteWords
  expr_word := OpenPower.hexInterp.expr_word
  integer_word := OpenPower.hexInteger_byteWord

theorem quotingInterp_reads : Reads quotingInterp sampleTcl where
  list _ := rfl
  expr_hex digits some_digits := by
    have hexpr : quotingInterp.expr ['0' :: 'x' :: digits.map digitChar] =
        (OpenPower.hexInteger ('0' :: 'x' :: digits.map digitChar)).map fun n =>
          decimal n.toNat := rfl
    rw [hexpr, hexInteger_digits some_digits, Option.map_some, Int.toNat_natCast]

/-- A tool that knows one command. -/
def sampleTool (_ : Call) (words : List Text) : ToolRun :=
  if words = ["0x06".toList, "0x01".toList] then .ran (printed [[0x51]]) none
  else .ran [[]] (some "Unable to send RAW command (cmd=0x2 rsp=0xc1): Invalid".toList)

theorem sampleMoves_tunnels :
    ((system sampleTcl ℕ).run (started {}) sampleMoves).Tunnels quotingInterp sampleTool :=
  (always_tunnels quotingInterp_reads sampleTool ⟨rfl, rfl, rfl, rfl, by decide, rfl, rfl⟩
    (by decide +kernel) (by decide +kernel)).last (by decide +kernel)

/-- An error code is its own status. -/
example :
    let item : Item ℕ := ⟨1, "", none, 0, ⟨2, 0⟩, ⟨0, 0⟩, ⟨0, 0⟩, ⟨0, 6⟩, ⟨0, 2⟩, []⟩
    runMessage quotingInterp sampleTcl (sampleTool ⟨0, 0, [], [], []⟩) (ipmiMsg item) =
      some "193 {}".toList := by
  decide +kernel

end Amester.Agent
