/-
# Reading many parameters at once

A bulk read puts as many parameter numbers into a command as the command and its
response have room for. The last parameter of a response may be cut off; its
bytes so far are kept in a cache, and the next command goes on behind them. The
result here is that the cuts do not matter: a bulk read ends without an error
and returns what reading the parameters one by one returns.
-/

import Amester.Parm.Object

namespace Amester.Parm

open BinaryFormat

/-- The message sizes of the controller, and its parameters by name. -/
structure Interface where
  messageSize : ℕ
  messageReturnSize : ℕ
  name2obj : String → Option ParmObj

/-- The objects of a list of names; the first unknown name is an error. -/
def Interface.lookupNames (parm : Interface) : List String → Except ReadError (List ParmObj)
  | [] => .ok []
  | n :: namelist =>
    match parm.name2obj n with
    | some obj => (parm.lookupNames namelist).map (obj :: ·)
    | none => .error (.unknownParameter n)

/-- The parameters of a command, the room its response has left, and the parameters
that are still to be requested. -/
structure Packet where
  cmdlistobj : List ParmObj
  respLeft : ℤ
  objlist : List ParmObj

/-- Fill a command. The first parameter is read from the offset on. A parameter
that does not fit the response completely stays on the list, and ends it. -/
def pack (offset parmcount : ℕ) (cmdLeft respLeft : ℤ) : List ParmObj → Packet
  | [] => ⟨[], respLeft, []⟩
  | obj :: objlist =>
    if 0 < cmdLeft ∧ 0 < respLeft then
      let left :=
        if parmcount = 0 then respLeft - (obj.bytecount - offset : ℤ) else respLeft - obj.bytecount
      if 0 ≤ left then
        let packet := pack offset (parmcount + 1) (cmdLeft - 2) left objlist
        { packet with cmdlistobj := obj :: packet.cmdlistobj }
      else ⟨[obj], left, obj :: objlist⟩
    else ⟨[], respLeft, obj :: objlist⟩

/-- The variables of the bulk read. -/
structure Progress where
  /-- The parameters that are not read completely. -/
  objlist : List ParmObj
  /-- The bytes of the first of them that have been read. -/
  cache : Bytes := []
  offset : ℕ := 0
  results : List ParmValue := []

/-- Take the bytes of a response apart. -/
def unpack (count : ℕ) : List ParmObj → Bytes → Progress → Except ReadError Progress
  | [], _, p => .ok p
  | obj :: objs, bytes, p =>
    let remain := obj.bytecount - p.cache.length
    let part := bytes.take remain
    let cache := p.cache ++ part
    if part = [] then .error (.zeroBytes obj.name)
    else if cache.length = obj.bytecount then
      match obj.updateFromRaw cache with
      | .error e => .error e
      | .ok result =>
        unpack count objs (bytes.drop remain)
          { p with cache := [], offset := 0, results := p.results ++ [result] }
    else if count - objs.length ≠ count then
      .error (.partialResult obj.name obj.number (count - objs.length) count)
    else unpack count objs (bytes.drop remain) { p with cache := cache }

/-- One command and its response. -/
def bulkStep (parm : Interface) (send : SendSync) (p : Progress) : Except ReadError Progress :=
  let packet :=
    pack p.cache.length 0 (parm.messageSize - 5 : ℤ) parm.messageReturnSize p.objlist
  let offset := if packet.cmdlistobj = [] then p.offset else p.cache.length
  let expectedbytes : ℤ :=
    if 0 ≤ packet.respLeft then parm.messageReturnSize - packet.respLeft
    else parm.messageReturnSize
  let cmdlist := packet.cmdlistobj.map ParmObj.number
  let result := send (readCommand offset cmdlist)
  if result.1 ≠ 0 then .error (.status result.1 offset cmdlist)
  else if expectedbytes ≠ result.2.length then
    .error (.byteCount expectedbytes result.2.length offset cmdlist)
  else
    unpack packet.cmdlistobj.length packet.cmdlistobj result.2
      { p with objlist := packet.objlist, offset := offset }

/-- Read the parameters of a list of names, with at most `fuel` commands. -/
def Interface.readByNameSync (parm : Interface) (send : SendSync) (fuel : ℕ)
    (namelist : List String) :
    Option (Except ReadError (List ParmValue)) :=
  match parm.lookupNames namelist with
  | .error e => some (.error e)
  | .ok objlist =>
    (WhileLoop.run (fun p : Progress => p.objlist ≠ []) (bulkStep parm send) fuel
      { objlist := objlist }).map fun result => result.map Progress.results

/-! ## What a command asks for -/

/-- The number of bytes of some parameters. -/
def total (objs : List ParmObj) : ℕ := (objs.map ParmObj.bytecount).sum

@[simp]
theorem total_nil : total [] = 0 := rfl

@[simp]
theorem total_cons (obj : ParmObj) (objs : List ParmObj) :
    total (obj :: objs) = obj.bytecount + total objs := by
  simp [total]

@[simp]
theorem total_append (first second : List ParmObj) :
    total (first ++ second) = total first + total second := by
  simp [total]

/-- How a packet splits a list of parameters of which the first `skipped` bytes are
not asked for: all its parameters fit, or all but the last. -/
inductive Splits (objlist : List ParmObj) (skipped : ℕ) (room : ℤ) : Packet → Prop
  | whole (sent rest : List ParmObj) (left : ℤ) (split : sent ++ rest = objlist)
    (fits : left + total sent = room + skipped) (nonneg : 0 ≤ left) :
    Splits objlist skipped room ⟨sent, left, rest⟩
  | cut (sent : List ParmObj) (obj : ParmObj) (rest : List ParmObj) (left : ℤ)
    (split : sent ++ obj :: rest = objlist)
    (spent : left + total (sent ++ [obj]) = room + skipped) (neg : left < 0)
    (begins : total sent < room + skipped) :
    Splits objlist skipped room ⟨sent ++ [obj], left, obj :: rest⟩

/-- A parameter that fits goes in front of what fits behind it. -/
theorem Splits.cons {objlist : List ParmObj} {room left : ℤ} {packet : Packet} (obj : ParmObj)
    (skipped : ℕ) (h : Splits objlist 0 left packet)
    (fits : left + obj.bytecount = room + skipped) :
    Splits (obj :: objlist) skipped room
      { packet with cmdlistobj := obj :: packet.cmdlistobj } := by
  cases h with
  | whole sent rest left' split fits' nonneg =>
      refine .whole (obj :: sent) rest left' (by simp [split]) ?_ nonneg
      rw [total_cons]
      push_cast at fits' ⊢
      linarith
  | cut sent obj' rest left' split spent neg begins =>
      refine .cut (obj :: sent) obj' rest left' (by simp [split]) ?_ neg ?_
      · rw [List.cons_append, total_cons]
        push_cast at spent ⊢
        linarith
      · rw [total_cons]
        push_cast at begins ⊢
        linarith

/-- Filling a command behind its first parameter. -/
theorem pack_splits (offset parmcount : ℕ) (cmdLeft room : ℤ) (objlist : List ParmObj)
    (nonneg : 0 ≤ room) :
    Splits objlist 0 room (pack offset (parmcount + 1) cmdLeft room objlist) := by
  induction objlist generalizing parmcount cmdLeft room with
  | nil => exact .whole [] [] room rfl (by simp) nonneg
  | cons obj objlist ih =>
      rw [pack]
      by_cases hroom : 0 < cmdLeft ∧ 0 < room
      · rw [if_pos hroom]
        simp only [if_neg (Nat.succ_ne_zero parmcount)]
        by_cases hfits : 0 ≤ room - (obj.bytecount : ℤ)
        · rw [if_pos hfits]
          exact (ih (parmcount + 1) (cmdLeft - 2) _ hfits).cons obj 0 (by push_cast; ring)
        · rw [if_neg hfits]
          exact .cut [] obj objlist _ rfl (by simp) (not_le.mp hfits) (by simpa using hroom.2)
      · rw [if_neg hroom]
        exact .whole [] (obj :: objlist) room rfl (by simp) nonneg

/-- A command with room for a parameter asks for the first one, from the offset
on. -/
theorem pack_splits_first (offset : ℕ) {cmdLeft room : ℤ} (cmdLeft_pos : 0 < cmdLeft)
    (room_pos : 0 < room) (obj : ParmObj) (objlist : List ParmObj) :
    Splits (obj :: objlist) offset room (pack offset 0 cmdLeft room (obj :: objlist)) ∧
      ∃ objs, (pack offset 0 cmdLeft room (obj :: objlist)).cmdlistobj = obj :: objs := by
  rw [pack, if_pos ⟨cmdLeft_pos, room_pos⟩, if_pos rfl]
  by_cases hfits : 0 ≤ room - (obj.bytecount - offset : ℤ)
  · simp only [if_pos hfits]
    refine ⟨(pack_splits offset 0 (cmdLeft - 2) _ objlist hfits).cons obj offset ?_, _, rfl⟩
    ring
  · simp only [if_neg hfits]
    refine ⟨.cut [] obj objlist _ rfl ?_ (not_le.mp hfits) ?_, [], rfl⟩
    · simp only [List.nil_append, total_cons, total_nil]
      push_cast
      ring
    · simp only [total_nil]
      push_cast
      linarith

/-! ## Taking a response apart -/

section

variable {send : SendSync} {messageReturnSize : ℕ} {known : ParmObj → Prop}
variable {value : ParmObj → Bytes}

/-- The values of some parameters. -/
def values (value : ParmObj → Bytes) (objs : List ParmObj) : List ParmValue :=
  objs.map fun obj => obj.valueOf (value obj)

/-- The cache holds the beginning of a parameter. -/
def Progress.Holds (p : Progress) (value : ParmObj → Bytes) (obj : ParmObj) : Prop :=
  p.cache.length < obj.bytecount ∧ p.cache = (value obj).take p.cache.length

/-- The rest of a parameter completes it. -/
theorem unpack_one (serves : Serves send messageReturnSize known value) {obj : ParmObj}
    (hknown : known obj) {p : Progress} (holds : p.Holds value obj) (count : ℕ)
    (objs : List ParmObj) (bytes : Bytes) :
    unpack count (obj :: objs) ((value obj).drop p.cache.length ++ bytes) p =
      unpack count objs bytes
        { p with
          cache := []
          offset := 0
          results := p.results ++ [obj.valueOf (value obj)] } := by
  have hremain : ((value obj).drop p.cache.length).length =
      obj.bytecount - p.cache.length := by
    rw [List.length_drop, serves.length obj hknown]
  have hpart : ((value obj).drop p.cache.length ++ bytes).take
      (obj.bytecount - p.cache.length) = (value obj).drop p.cache.length := by
    rw [← hremain, List.take_left]
  have hrest : ((value obj).drop p.cache.length ++ bytes).drop
      (obj.bytecount - p.cache.length) = bytes := by
    rw [← hremain, List.drop_left]
  have hcache : p.cache ++ (value obj).drop p.cache.length = value obj := by
    conv_lhs => rw [holds.2]
    rw [List.length_take, Nat.min_eq_left, List.take_append_drop]
    rw [serves.length obj hknown]
    exact holds.1.le
  have hpos : (value obj).drop p.cache.length ≠ [] := by
    rw [← List.length_pos_iff, hremain]
    exact Nat.sub_pos_of_lt holds.1
  have hparse : obj.updateFromRaw (value obj) = .ok (obj.valueOf (value obj)) :=
    ParmObj.parse_eq (serves.length obj hknown).ge
  simp only [unpack, hpart, hrest, hcache, serves.length obj hknown, if_neg hpos, if_true, hparse]

/-- Whole parameters are completed one after the other. -/
theorem unpack_all (serves : Serves send messageReturnSize known value)
    {sent : List ParmObj} (hknown : ∀ obj ∈ sent, known obj ∧ 0 < obj.bytecount) {p : Progress}
    (empty : p.cache = []) (count : ℕ) (objs : List ParmObj) (bytes : Bytes) :
    ∃ offset, unpack count (sent ++ objs) (sent.flatMap value ++ bytes) p =
      unpack count objs bytes
        { p with offset := offset, results := p.results ++ values value sent } := by
  induction sent generalizing p with
  | nil => exact ⟨p.offset, by simp [values]⟩
  | cons obj sent ih =>
      obtain ⟨hobj, hpos⟩ := hknown obj List.mem_cons_self
      have hone := unpack_one serves hobj (p := p) ⟨by simpa [empty] using hpos, by simp [empty]⟩
        count (sent ++ objs) (sent.flatMap value ++ bytes)
      rw [empty, List.length_nil, List.drop_zero] at hone
      obtain ⟨offset, hrest⟩ := ih (fun o ho => hknown o (List.mem_cons_of_mem _ ho))
        (p := { p with
          cache := [], offset := 0, results := p.results ++ [obj.valueOf (value obj)] }) rfl
      refine ⟨offset, ?_⟩
      rw [List.cons_append, List.flatMap_cons, List.append_assoc, hone, hrest, empty]
      simp [values]

/-- The beginning of the last parameter is kept. -/
theorem unpack_cut (serves : Serves send messageReturnSize known value) {obj : ParmObj}
    (hknown : known obj) {p : Progress} (holds : p.Holds value obj) {n : ℕ} {r : ℕ}
    (begins : 0 < r) (ends : p.cache.length + r < obj.bytecount) :
    unpack n [obj] (((value obj).drop p.cache.length).take r) p =
      .ok { p with cache := (value obj).take (p.cache.length + r) } := by
  have hlength := serves.length obj hknown
  have hpart : (((value obj).drop p.cache.length).take r).take
      (obj.bytecount - p.cache.length) = ((value obj).drop p.cache.length).take r := by
    rw [List.take_take, Nat.min_eq_right]
    omega
  have hcache : p.cache ++ ((value obj).drop p.cache.length).take r =
      (value obj).take (p.cache.length + r) := by
    conv_lhs => rw [holds.2]
    rw [List.length_take, Nat.min_eq_left (by omega), ← List.take_add]
  have hpos : ((value obj).drop p.cache.length).take r ≠ [] := by
    rw [← List.length_pos_iff, List.length_take, List.length_drop]
    omega
  have hshort : ((value obj).take (p.cache.length + r)).length ≠ obj.bytecount := by
    rw [List.length_take]
    omega
  simp only [unpack, hpart, hcache, if_neg hpos, if_neg hshort, List.length_nil, Nat.sub_zero,
    ne_eq, not_true_eq_false, if_false]

/-! ## The loop -/

/-- The parameters of the list are read up to the cache. -/
structure Reading (value : ParmObj → Bytes) (objs : List ParmObj) (p : Progress) : Prop where
  split : ∃ done, objs = done ++ p.objlist ∧ p.results = values value done
  holds : ∀ obj rest, p.objlist = obj :: rest → p.Holds value obj
  flushed : p.objlist = [] → p.cache = []

/-- The bytes of the list that are still to be read. -/
def Progress.pending (p : Progress) : ℕ := total p.objlist - p.cache.length

theorem length_flatMap_value (serves : Serves send messageReturnSize known value)
    {objs : List ParmObj} (hknown : ∀ obj ∈ objs, known obj) :
    (objs.flatMap value).length = total objs := by
  induction objs with
  | nil => rfl
  | cons obj objs ih =>
      rw [List.flatMap_cons, List.length_append, total_cons,
        serves.length obj (hknown obj List.mem_cons_self),
        ih fun o ho => hknown o (List.mem_cons_of_mem _ ho)]

/-- One command whose parameters all fit. -/
theorem unpack_whole (serves : Serves send messageReturnSize known value) {obj : ParmObj}
    {sent : List ParmObj} (hknown : ∀ o ∈ obj :: sent, known o ∧ 0 < o.bytecount) {p : Progress}
    (holds : p.Holds value obj) (count : ℕ) (objs : List ParmObj) (bytes : Bytes) :
    ∃ offset, unpack count (obj :: sent ++ objs)
        (((obj :: sent).flatMap value).drop p.cache.length ++ bytes) p =
      unpack count objs bytes
        { p with
          cache := []
          offset := offset
          results := p.results ++ values value (obj :: sent) } := by
  have hlength := serves.length obj (hknown obj List.mem_cons_self).1
  have hdrop : ((obj :: sent).flatMap value).drop p.cache.length =
      (value obj).drop p.cache.length ++ sent.flatMap value := by
    rw [List.flatMap_cons, List.drop_append_of_le_length]
    rw [hlength]
    exact holds.1.le
  have hone := unpack_one serves (hknown obj List.mem_cons_self).1 holds count (sent ++ objs)
    (sent.flatMap value ++ bytes)
  obtain ⟨offset, hall⟩ := unpack_all serves
    (fun o ho => hknown o (List.mem_cons_of_mem _ ho)) (p := { p with
      cache := [], offset := 0, results := p.results ++ [obj.valueOf (value obj)] }) rfl
    count objs bytes
  refine ⟨offset, ?_⟩
  rw [hdrop, List.cons_append, List.append_assoc, hone, hall]
  simp [values]

/-- A command that is answered with the expected bytes has them taken apart. -/
theorem bulkStep_eq (parm : Interface) {p : Progress} {packet : Packet} {obj : ParmObj}
    {sent : List ParmObj} {bytes : Bytes}
    (packed : pack p.cache.length 0 (parm.messageSize - 5 : ℤ) parm.messageReturnSize p.objlist =
      packet)
    (first : packet.cmdlistobj = obj :: sent)
    (answer : send (readCommand p.cache.length (packet.cmdlistobj.map ParmObj.number)) = (0, bytes))
    (expected : (if 0 ≤ packet.respLeft then parm.messageReturnSize - packet.respLeft
      else parm.messageReturnSize) = (bytes.length : ℤ)) :
    bulkStep parm send p =
      unpack packet.cmdlistobj.length packet.cmdlistobj bytes
        { p with objlist := packet.objlist, offset := p.cache.length } := by
  have hsent : packet.cmdlistobj ≠ [] := by simp [first]
  simp only [bulkStep, packed, if_neg hsent, answer, expected, ne_eq, not_true_eq_false, if_false]

/-- A response with room for all parameters of its command. -/
theorem bulkStep_whole {parm : Interface}
    (serves : Serves send parm.messageReturnSize known value) {obj : ParmObj}
    {sent rest : List ParmObj} (hknown : ∀ o ∈ obj :: sent, known o ∧ 0 < o.bytecount)
    {p : Progress} (holds : p.Holds value obj) {left : ℤ}
    (packed : pack p.cache.length 0 (parm.messageSize - 5 : ℤ) parm.messageReturnSize p.objlist =
      ⟨obj :: sent, left, rest⟩)
    (fits : left + total (obj :: sent) = (parm.messageReturnSize : ℤ) + p.cache.length)
    (nonneg : 0 ≤ left) :
    ∃ offset, bulkStep parm send p =
      .ok ⟨rest, [], offset, p.results ++ values value (obj :: sent)⟩ := by
  have hlength : (((obj :: sent).flatMap value).drop p.cache.length).length =
      total (obj :: sent) - p.cache.length := by
    rw [List.length_drop, length_flatMap_value serves fun o ho => (hknown o ho).1]
  have htotal : p.cache.length ≤ total (obj :: sent) := by
    have hless := holds.1
    rw [total_cons]
    omega
  have hread := serves.read obj sent p.cache.length (hknown obj List.mem_cons_self).1
    (fun o ho => (hknown o (List.mem_cons_of_mem _ ho)).1) holds.1
  rw [List.take_of_length_le (by rw [hlength]; omega)] at hread
  have hexpected : (if 0 ≤ left then (parm.messageReturnSize : ℤ) - left
      else parm.messageReturnSize) =
      ((((obj :: sent).flatMap value).drop p.cache.length).length : ℤ) := by
    rw [if_pos nonneg, hlength]
    omega
  have hstep := bulkStep_eq parm packed rfl hread hexpected
  obtain ⟨offset, hunpack⟩ := unpack_whole serves hknown
    (p := { p with objlist := rest, offset := p.cache.length }) holds (obj :: sent).length [] []
  rw [List.append_nil, List.append_nil] at hunpack
  exact ⟨offset, hstep.trans hunpack⟩

/-- A cut response: the rest of all parameters but the last, and the beginning of that. -/
theorem cut_bytes (serves : Serves send messageReturnSize known value) {sent : List ParmObj}
    {o : ParmObj} (hknown : ∀ o' ∈ sent, known o') {skip n r : ℕ} (skips : skip ≤ total sent)
    (spent : total sent + r = n + skip) :
    (((sent ++ [o]).flatMap value).drop skip).take n =
      (sent.flatMap value).drop skip ++ (value o).take r := by
  have hwhole := length_flatMap_value serves hknown
  have hsingle : [o].flatMap value = value o := by simp
  rw [List.flatMap_append, hsingle, List.drop_append_of_le_length (hwhole ▸ skips),
    List.take_append, List.length_drop, hwhole]
  congr 1
  · exact List.take_of_length_le (by rw [List.length_drop, hwhole]; omega)
  · congr 1
    omega

/-- What is expected in a response that is cut is its full size. -/
theorem cut_expected (serves : Serves send messageReturnSize known value) {sent : List ParmObj}
    (hknown : ∀ o ∈ sent, known o) {skip : ℕ} {left : ℤ} (neg : left < 0)
    (spent : left + total sent = (messageReturnSize : ℤ) + skip) :
    (if 0 ≤ left then (messageReturnSize : ℤ) - left else messageReturnSize) =
      (((sent.flatMap value).drop skip).take messageReturnSize).length := by
  rw [if_neg (not_le.mpr neg), List.length_take, List.length_drop,
    length_flatMap_value serves hknown]
  omega

/-- A response that ends within the only parameter of its command. -/
theorem bulkStep_cut_one {parm : Interface}
    (serves : Serves send parm.messageReturnSize known value) {o : ParmObj} {rest : List ParmObj}
    (hknown : known o) {p : Progress} (holds : p.Holds value o) {left : ℤ}
    (packed : pack p.cache.length 0 (parm.messageSize - 5 : ℤ) parm.messageReturnSize p.objlist =
      ⟨[o], left, o :: rest⟩)
    (expected : (if 0 ≤ left then (parm.messageReturnSize : ℤ) - left
      else parm.messageReturnSize) =
      ((([o].flatMap value).drop p.cache.length).take parm.messageReturnSize).length)
    (ends : p.cache.length + parm.messageReturnSize < o.bytecount)
    (returns : 0 < parm.messageReturnSize) :
    bulkStep parm send p =
      .ok ⟨o :: rest, (value o).take (p.cache.length + parm.messageReturnSize), p.cache.length,
        p.results⟩ := by
  have hread := serves.read o [] p.cache.length hknown (by simp) holds.1
  have hstep := bulkStep_eq parm packed rfl hread expected
  have hcut := unpack_cut serves hknown
    (p := { p with objlist := o :: rest, offset := p.cache.length }) holds (n := 1) returns ends
  simp only [List.flatMap_cons, List.flatMap_nil, List.append_nil] at hstep
  rw [hstep]
  exact hcut

/-- A response that ends within the last of several parameters. -/
theorem bulkStep_cut_more {parm : Interface}
    (serves : Serves send parm.messageReturnSize known value) {obj o : ParmObj}
    {sent rest : List ParmObj} (hsent : ∀ o' ∈ obj :: sent, known o' ∧ 0 < o'.bytecount)
    (ho : known o ∧ 0 < o.bytecount) {p : Progress} (holds : p.Holds value obj) {left : ℤ}
    (packed : pack p.cache.length 0 (parm.messageSize - 5 : ℤ) parm.messageReturnSize p.objlist =
      ⟨obj :: sent ++ [o], left, o :: rest⟩)
    (expected : (if 0 ≤ left then (parm.messageReturnSize : ℤ) - left
      else parm.messageReturnSize) =
      ((((obj :: sent ++ [o]).flatMap value).drop p.cache.length).take
        parm.messageReturnSize).length)
    {r : ℕ} (spent : total (obj :: sent) + r = parm.messageReturnSize + p.cache.length)
    (begins : 0 < r) (ends : r < o.bytecount) :
    ∃ offset, bulkStep parm send p =
      .ok ⟨o :: rest, (value o).take r, offset, p.results ++ values value (obj :: sent)⟩ := by
  have hmem : ∀ o' ∈ sent ++ [o], known o' := by
    intro o' ho'
    rcases List.mem_append.mp ho' with hin | hlast
    · exact (hsent o' (List.mem_cons_of_mem _ hin)).1
    · rw [List.mem_singleton.mp hlast]
      exact ho.1
  have hread := serves.read obj (sent ++ [o]) p.cache.length (hsent obj List.mem_cons_self).1 hmem
    holds.1
  have hstep := bulkStep_eq parm packed rfl hread expected
  have hskip : p.cache.length ≤ total (obj :: sent) := by
    have hless := holds.1
    rw [total_cons]
    omega
  have hbytes := cut_bytes serves (o := o) (fun o' ho' => (hsent o' ho').1) hskip spent
  obtain ⟨offset, hunpack⟩ := unpack_whole serves hsent
    (p := { p with objlist := o :: rest, offset := p.cache.length }) holds
    (obj :: sent ++ [o]).length [o] ((value o).take r)
  have hcut := unpack_cut serves ho.1
    (p := ⟨o :: rest, [], offset, p.results ++ values value (obj :: sent)⟩)
    ⟨by simpa using ho.2, by simp⟩ (n := (obj :: sent ++ [o]).length) (r := r)
    begins (by simpa using ends)
  refine ⟨offset, ?_⟩
  rw [List.cons_append] at hbytes
  rw [hstep, List.cons_append, hbytes]
  refine hunpack.trans ?_
  simpa using hcut

/-- A response that ends within the last parameter of its command. -/
theorem bulkStep_cut {parm : Interface}
    (serves : Serves send parm.messageReturnSize known value) {sent : List ParmObj}
    {o : ParmObj} {rest : List ParmObj} (hknown : ∀ o' ∈ sent ++ [o], known o' ∧ 0 < o'.bytecount)
    {p : Progress} (holds : ∀ obj ∈ (sent ++ [o]).head?, p.Holds value obj) {left : ℤ}
    (packed : pack p.cache.length 0 (parm.messageSize - 5 : ℤ) parm.messageReturnSize p.objlist =
      ⟨sent ++ [o], left, o :: rest⟩)
    (spent : left + total (sent ++ [o]) = (parm.messageReturnSize : ℤ) + p.cache.length)
    (neg : left < 0) (begins : (total sent : ℤ) < parm.messageReturnSize + p.cache.length)
    (returns : 0 < parm.messageReturnSize) :
    ∃ r offset : ℕ, (r : ℤ) = parm.messageReturnSize + p.cache.length - total sent ∧
      r < o.bytecount ∧ bulkStep parm send p =
      .ok ⟨o :: rest, (value o).take r, offset, p.results ++ values value sent⟩ := by
  have ho := hknown o (by simp)
  have hexpected := cut_expected serves (fun o' ho' => (hknown o' ho').1) neg spent
  have htotal : total (sent ++ [o]) = total sent + o.bytecount := by
    rw [total_append, total_cons, total_nil, Nat.add_zero]
  rw [htotal] at spent
  push_cast at spent
  cases sent with
  | nil =>
      rw [total_nil, Nat.cast_zero, zero_add] at spent
      have hends : p.cache.length + parm.messageReturnSize < o.bytecount := by omega
      have hstep := bulkStep_cut_one serves ho.1 (holds o rfl) packed hexpected hends returns
      refine ⟨p.cache.length + parm.messageReturnSize, p.cache.length, ?_, hends, ?_⟩
      · rw [total_nil]
        push_cast
        ring
      · simpa [values] using hstep
  | cons obj sent =>
      obtain ⟨r, hr⟩ : ∃ r : ℕ, (r : ℤ) =
          parm.messageReturnSize + p.cache.length - total (obj :: sent) :=
        ⟨_, Int.toNat_of_nonneg (by omega)⟩
      have hless : r < o.bytecount := by omega
      obtain ⟨offset, hstep⟩ := bulkStep_cut_more serves
        (fun o' ho' => hknown o' (List.mem_append_left [o] ho')) ho (holds obj rfl) packed
        hexpected (r := r) (by omega) (by omega) hless
      exact ⟨r, offset, hr, hless, hstep⟩

/-- Whole parameters have been read. -/
theorem Reading.whole {objs : List ParmObj} {p : Progress} (h : Reading value objs p)
    {sent rest : List ParmObj} (split : p.objlist = sent ++ rest)
    (positive : ∀ o ∈ rest, 0 < o.bytecount) (offset : ℕ) :
    Reading value objs ⟨rest, [], offset, p.results ++ values value sent⟩ := by
  obtain ⟨done, hsplit, hresults⟩ := h.split
  constructor
  · refine ⟨done ++ sent, ?_, ?_⟩
    · rw [hsplit, split, List.append_assoc]
    · simp [hresults, values]
  · rintro o rest' rfl
    exact ⟨positive o List.mem_cons_self, by simp⟩
  · intro _
    rfl

/-- Whole parameters have been read, and the beginning of the next one. -/
theorem Reading.cut {objs : List ParmObj} {p : Progress} (h : Reading value objs p)
    {sent rest : List ParmObj} {o : ParmObj} (split : p.objlist = sent ++ o :: rest)
    (length : (value o).length = o.bytecount) {r : ℕ} (less : r < o.bytecount) (offset : ℕ) :
    Reading value objs ⟨o :: rest, (value o).take r, offset, p.results ++ values value sent⟩ := by
  obtain ⟨done, hsplit, hresults⟩ := h.split
  have htake : ((value o).take r).length = r := by
    rw [List.length_take, length, Nat.min_eq_left less.le]
  constructor
  · refine ⟨done ++ sent, ?_, ?_⟩
    · rw [hsplit, split, List.append_assoc]
    · simp [hresults, values]
  · rintro o' rest' hrest
    obtain ⟨rfl, -⟩ := List.cons.inj hrest
    simp only [Progress.Holds, htake]
    exact ⟨less, trivial⟩
  · nofun

/-- One round of a bulk read adds to what has been read. -/
theorem bulkStep_reading {parm : Interface} (command : 7 ≤ parm.messageSize)
    (returns : 0 < parm.messageReturnSize)
    (serves : Serves send parm.messageReturnSize known value) {objs : List ParmObj}
    (hknown : ∀ obj ∈ objs, known obj ∧ 0 < obj.bytecount) {p : Progress}
    (h : Reading value objs p) (again : p.objlist ≠ []) :
    ∃ p', bulkStep parm send p = .ok p' ∧ Reading value objs p' ∧ p'.pending < p.pending := by
  obtain ⟨obj, rest, hlist⟩ := List.exists_cons_of_ne_nil again
  have holds := h.holds obj rest hlist
  have hmem : ∀ o ∈ obj :: rest, known o ∧ 0 < o.bytecount := by
    intro o ho
    obtain ⟨done, hsplit, -⟩ := h.split
    exact hknown o (by rw [hsplit, hlist]; exact List.mem_append_right _ ho)
  have hcmdLeft : (0 : ℤ) < parm.messageSize - 5 := by omega
  have hroom : (0 : ℤ) < parm.messageReturnSize := by omega
  obtain ⟨hsplits, objs', hfirst⟩ :=
    pack_splits_first p.cache.length hcmdLeft hroom obj rest
  generalize hpacked : pack p.cache.length 0 (parm.messageSize - 5 : ℤ) parm.messageReturnSize
    (obj :: rest) = packet at hsplits hfirst
  rw [← hlist] at hpacked
  have hless := holds.1
  cases hsplits with
  | whole sent rest' left split fits nonneg =>
      obtain rfl : sent = obj :: objs' := hfirst
      rw [← split] at hlist hmem
      obtain ⟨offset, hstep⟩ := bulkStep_whole serves
        (fun o ho => hmem o (List.mem_append_left _ ho)) holds hpacked fits nonneg
      have hreading := h.whole hlist (fun o ho => (hmem o (List.mem_append_right _ ho)).2) offset
      refine ⟨_, hstep, hreading, ?_⟩
      simp only [Progress.pending, hlist, total_append, total_cons, List.length_nil]
      omega
  | cut sent o rest' left split spent neg begins =>
      have hhead : ∀ o' ∈ (sent ++ [o]).head?, p.Holds value o' := by
        intro o' ho'
        have heq : obj = o' := by
          rw [show sent ++ [o] = obj :: objs' from hfirst] at ho'
          exact Option.some.inj ho'
        exact heq ▸ holds
      have hsent : ∀ o' ∈ sent ++ [o], known o' ∧ 0 < o'.bytecount := by
        intro o' ho'
        refine hmem o' ?_
        rw [← split]
        obtain hin | hin := List.mem_append.mp ho'
        · exact List.mem_append_left _ hin
        · obtain rfl := List.mem_singleton.mp hin
          simp
      obtain ⟨r, offset, hr, hends, hstep⟩ :=
        bulkStep_cut serves hsent hhead hpacked spent neg begins returns
      have hvalue := serves.length o (hsent o (by simp)).1
      refine ⟨_, hstep, h.cut (hlist.trans split.symm) hvalue hends offset, ?_⟩
      have hlength : ((value o).take r).length = r := by
        rw [List.length_take, hvalue, Nat.min_eq_left hends.le]
      have htotal : total (obj :: rest) = total sent + total (o :: rest') := by
        rw [← split, total_append]
      have hpending : p.cache.length < total (obj :: rest) := by
        rw [total_cons]
        omega
      simp only [Progress.pending, hlist, hlength]
      rw [total_cons o rest'] at htotal ⊢
      rw [htotal] at hpending ⊢
      omega

/-- The objects of known names. -/
theorem lookupNames_eq {parm : Interface} {namelist : List String} {objs : List ParmObj}
    (names : namelist.map parm.name2obj = objs.map some) :
    parm.lookupNames namelist = .ok objs := by
  induction namelist generalizing objs with
  | nil =>
      obtain rfl : objs = [] := by simpa using names.symm
      rfl
  | cons n namelist ih =>
      cases objs with
      | nil => simp at names
      | cons obj objs =>
          obtain ⟨hobj, hobjs⟩ := List.cons.inj names
          rw [Interface.lookupNames, hobj, ih hobjs]
          rfl

/-- Known names have objects. -/
theorem exists_objs {parm : Interface} {namelist : List String}
    (names : ∀ n ∈ namelist, (parm.name2obj n).isSome) :
    ∃ objs : List ParmObj, namelist.map parm.name2obj = objs.map some := by
  induction namelist with
  | nil => exact ⟨[], rfl⟩
  | cons n namelist ih =>
      obtain ⟨objs, hobjs⟩ := ih fun m hm => names m (List.mem_cons_of_mem _ hm)
      obtain ⟨obj, hobj⟩ := Option.isSome_iff_exists.mp (names n List.mem_cons_self)
      exact ⟨obj :: objs, by rw [List.map_cons, List.map_cons, hobj, hobjs]⟩

end

/-- The parameters of a list of names. -/
def Interface.Listed (parm : Interface) (namelist : List String) (obj : ParmObj) : Prop :=
  ∃ n ∈ namelist, parm.name2obj n = some obj

/-- Reading a list of known parameters ends, and returns in their order what reading
each of them returns. -/
theorem readByNameSync_eq_reads (parm : Interface) (command : 7 ≤ parm.messageSize)
    (returns : 1 ≤ parm.messageReturnSize) (namelist : List String)
    (known : ∀ n ∈ namelist, (parm.name2obj n).isSome)
    (nonempty : ∀ obj, parm.Listed namelist obj → 1 ≤ obj.bytecount) (send : SendSync)
    (value : ParmObj → Bytes)
    (serves : Serves send parm.messageReturnSize (parm.Listed namelist) value) :
    ∃ objs results, namelist.map parm.name2obj = objs.map some ∧
      (∃ enough, ∀ fuel ≥ enough,
        parm.readByNameSync send fuel namelist = some (.ok results)) ∧
      List.Forall₂ (fun (obj : ParmObj) result =>
        ∃ enough, ∀ fuel ≥ enough, obj.read send fuel = some (.ok result)) objs results := by
  obtain ⟨objs, hobjs⟩ := exists_objs known
  have hknown : ∀ obj ∈ objs, parm.Listed namelist obj ∧ 0 < obj.bytecount := by
    intro obj hobj
    have hmem : some obj ∈ namelist.map parm.name2obj := by
      rw [hobjs]
      exact List.mem_map_of_mem hobj
    have hlisted : parm.Listed namelist obj := List.mem_map.mp hmem
    exact ⟨hlisted, nonempty obj hlisted⟩
  refine ⟨objs, values value objs, hobjs, ⟨total objs, fun fuel henough => ?_⟩, ?_⟩
  · have hstart : Reading value objs { objlist := objs } := by
      refine ⟨⟨[], rfl, rfl⟩, ?_, fun _ => rfl⟩
      rintro obj rest rfl
      exact ⟨(hknown obj List.mem_cons_self).2, by simp⟩
    have hloop : ∃ p', WhileLoop.run (fun p : Progress => p.objlist ≠ []) (bulkStep parm send)
        fuel { objlist := objs } = some (.ok p') ∧ Reading value objs p' ∧ ¬ p'.objlist ≠ [] :=
      WhileLoop.run_total (Reading value objs) Progress.pending
        (fun p hp again => bulkStep_reading command returns serves hknown hp again) hstart
        (by simpa [Progress.pending] using henough)
    obtain ⟨p', hrun, hreading, hover⟩ := hloop
    obtain ⟨done, hdone, hresults⟩ := hreading.split
    rw [not_not.mp hover, List.append_nil] at hdone
    rw [← hdone] at hresults
    rw [Interface.readByNameSync, lookupNames_eq hobjs]
    simp only [hrun, Option.map_some, Except.map, hresults]
  · rw [values, List.forall₂_map_right_iff, List.forall₂_same]
    intro obj hobj
    exact ⟨obj.bytecount, fun fuel henough =>
      ParmObj.read_eq serves returns (hknown obj hobj).1 henough⟩

/-! ## A firmware -/

/-- The 16-bit numbers of a command. -/
def shorts : Bytes → List ℕ
  | hi :: lo :: bytes => unsigned [hi, lo] :: shorts bytes
  | _ => []

theorem shorts_numbers {numbers : List ℕ} (small : ∀ n ∈ numbers, n < 256 ^ 2) :
    shorts (numbers.flatMap fun number : ℕ => bigEndian 2 number) = numbers := by
  induction numbers with
  | nil => rfl
  | cons n numbers ih =>
      have hn := unsigned_bigEndian_of_lt (small n List.mem_cons_self)
      rw [List.flatMap_cons]
      have hpair : bigEndian 2 (n : ℤ) = [byteOf (n / 256 ^ 1), byteOf (n / 256 ^ 0)] := rfl
      rw [hpair] at hn ⊢
      rw [List.cons_append, List.cons_append, List.nil_append, shorts, hn,
        ih fun m hm => small m (List.mem_cons_of_mem _ hm)]

/-- The value of the parameter with a number. -/
def numberValue (table : List ParmObj) (value : ParmObj → Bytes) (number : ℕ) : Bytes :=
  match table.find? fun obj => obj.number = number with
  | some obj => value obj
  | none => []

/-- A firmware that reads its commands and looks the parameters up in a table. -/
def tableSend (table : List ParmObj) (value : ParmObj → Bytes) (messageReturnSize : ℕ) :
    SendSync := fun command =>
  (0, (((shorts (command.drop 5)).flatMap (numberValue table value)).drop
    (unsigned ((command.drop 1).take 4))).take messageReturnSize)

theorem numberValue_eq {table : List ParmObj} (value : ParmObj → Bytes)
    (distinct : (table.map ParmObj.number).Nodup) {obj : ParmObj} (mem : obj ∈ table) :
    numberValue table value obj.number = value obj := by
  have hfind : table.find? (fun o => o.number = obj.number) = some obj := by
    induction table with
    | nil => simp at mem
    | cons o table ih =>
        rw [List.map_cons, List.nodup_cons] at distinct
        obtain rfl | hmem := List.mem_cons.mp mem
        · simp
        · have hne : o.number ≠ obj.number := by
            intro heq
            exact distinct.1 (heq ▸ List.mem_map_of_mem hmem)
          rw [List.find?_cons_of_neg (by simpa using hne)]
          exact ih distinct.2 hmem
  rw [numberValue, hfind]

/-- Such a firmware serves every table of parameters with different 16-bit
numbers. -/
theorem tableSend_serves (table : List ParmObj) (value : ParmObj → Bytes)
    (small : ∀ obj ∈ table, obj.number < 256 ^ 2)
    (distinct : (table.map ParmObj.number).Nodup)
    (length : ∀ obj ∈ table, (value obj).length = obj.bytecount) (messageReturnSize : ℕ) :
    Serves (tableSend table value messageReturnSize) messageReturnSize (· ∈ table) value where
  length := length
  read obj objs offset hobj hobjs hoffset := by
    have hall : ∀ o ∈ obj :: objs, o ∈ table := by
      intro o ho
      obtain rfl | ho := List.mem_cons.mp ho
      · exact hobj
      · exact hobjs o ho
    have hnumbers : ∀ n ∈ (obj :: objs).map ParmObj.number, n < 256 ^ 2 := by
      intro n hn
      obtain ⟨o, ho, rfl⟩ := List.mem_map.mp hn
      exact small o (hall o ho)
    have hvalues : ((obj :: objs).map ParmObj.number).flatMap (numberValue table value) =
        (obj :: objs).flatMap value := by
      rw [List.flatMap_map]
      exact List.flatMap_congr fun o ho => numberValue_eq value distinct (hall o ho)
    have hlength : (bigEndian 4 (offset : ℤ)).length = 4 := length_bigEndian 4 offset
    have hdrop : (readCommand offset ((obj :: objs).map ParmObj.number)).drop 5 =
        ((obj :: objs).map ParmObj.number).flatMap fun number : ℕ => bigEndian 2 number := by
      rw [readCommand, List.drop_succ_cons]
      exact List.drop_left' hlength
    have htake : ((readCommand offset ((obj :: objs).map ParmObj.number)).drop 1).take 4 =
        bigEndian 4 offset := by
      rw [readCommand, List.drop_succ_cons, List.drop_zero]
      exact List.take_left' hlength
    rw [tableSend, hdrop, shorts_numbers hnumbers, hvalues, htake,
      unsigned_bigEndian_of_lt (lt_trans hoffset obj.bytecount_lt)]

/-- Three 16-bit numbers. -/
def sampleNumbers : ParmObj := ⟨"freq", 0, .uint16, 0, 3, 2, by decide⟩

/-- A string of at most four characters. -/
def sampleString : ParmObj := ⟨"mode", 1, .string, 0, 1, 4, by decide⟩

def sampleParm : Interface :=
  ⟨8, 4, fun n => if n = "freq" then some sampleNumbers
    else if n = "mode" then some sampleString else none⟩

def sampleValue (obj : ParmObj) : Bytes :=
  if obj = sampleNumbers then [0, 1, 0, 2, 255, 255] else [111, 110, 0, 0]

theorem sampleParm_listed {namelist : List String} {obj : ParmObj}
    (listed : sampleParm.Listed namelist obj) : obj ∈ [sampleNumbers, sampleString] := by
  obtain ⟨n, -, hn⟩ := listed
  simp only [sampleParm] at hn
  split_ifs at hn with hfreq hmode
  · obtain rfl := Option.some.inj hn
    simp
  · obtain rfl := Option.some.inj hn
    simp

theorem Serves.mono {send : SendSync} {messageReturnSize : ℕ} {known known' : ParmObj → Prop}
    {value : ParmObj → Bytes} (h : Serves send messageReturnSize known value)
    (fewer : ∀ obj, known' obj → known obj) : Serves send messageReturnSize known' value where
  length obj hobj := h.length obj (fewer obj hobj)
  read obj objs offset hobj hobjs := h.read obj objs offset (fewer obj hobj)
    fun o ho => fewer o (hobjs o ho)

theorem readByNameSync_eq_reads_sample :
    ∃ objs results,
      ["freq", "mode", "freq"].map sampleParm.name2obj = objs.map some ∧
      (∃ enough, ∀ fuel ≥ enough,
        sampleParm.readByNameSync (tableSend [sampleNumbers, sampleString] sampleValue 4) fuel
          ["freq", "mode", "freq"] = some (.ok results)) ∧
      List.Forall₂ (fun (obj : ParmObj) result => ∃ enough, ∀ fuel ≥ enough,
        obj.read (tableSend [sampleNumbers, sampleString] sampleValue 4) fuel =
          some (.ok result)) objs results := by
  have hserves : Serves (tableSend [sampleNumbers, sampleString] sampleValue 4) 4
      (sampleParm.Listed ["freq", "mode", "freq"]) sampleValue :=
    (tableSend_serves [sampleNumbers, sampleString] sampleValue (by decide) (by decide)
      (by decide) 4).mono fun _ => sampleParm_listed
  refine readByNameSync_eq_reads sampleParm (by decide) (by decide) ["freq", "mode", "freq"]
    (by decide) ?_ _ sampleValue hserves
  intro obj hobj
  obtain rfl | rfl : obj = sampleNumbers ∨ obj = sampleString := by
    simpa using sampleParm_listed hobj
  · decide
  · decide

end Amester.Parm
