/-
# The command table of a blade center

A blade center is asked which commands it has. Its reply is a list of entries: a header says how
many numbers follow and whether the last of them stands for all numbers from one up to it.
`cmd_table_callback` enters the commands in a map, under the text of the list of numbers, and
`send` asks the map when `cmdcheck` is on.

The numbers of a sequential entry are counted through, but the map is filled behind the count:
only the last command of the entry is in it. Without numbers in front of the one that is
counted, the text begins with a blank and is that of no command. A count that ends at zero
leaves the command of the entry before it, and the first entry has none.
-/

import Amester.Ipmi.Request
import Amester.Lib.BinaryFormat
import Amester.Lib.ListFormat
import Amester.Lib.Numeral
import Amester.Lib.Paging

namespace Amester.BladeCenter

open BinaryFormat Numeral
open ListFormat (joined)

/-! ## Commands -/

/-- A command with dots: a list of numbers. -/
abbrev DotCmd := List ℕ

abbrev Key := List Char

/-- The text of a list of numbers, which `dotcmd_is_valid` is asked for. -/
def listText (cmd : DotCmd) : Key := joined (cmd.map decimal)

/-- `"[lrange $cmd 0 $end] $j"`. -/
def appendText (stem : DotCmd) (j : ℕ) : Key := listText stem ++ ' ' :: decimal j

structure State where
  name : String := "mybc"
  cmdcheck : Bool := false
  /-- The names of the entries of the array. -/
  dotcmdIsValid : List Key := []

/-- The arguments of `net_send_msg`; the tag is empty. -/
structure Message where
  msg : Bytes
  callback : String
  priority : ℤ

/-- `binary format s`. -/
def short (n : ℤ) : Bytes := (bigEndian 2 n).reverse

def send (type : ℤ) (cmd : DotCmd) (databytes : Bytes) (callback : String) (priority : ℤ)
    (s : State) : Except String Message :=
  if s.cmdcheck = true ∧ listText cmd ∉ s.dotcmdIsValid then
    .error ("bc_send: error. cmd=" ++ String.ofList (listText cmd) ++ " not supported by " ++
      s.name)
  else
    let cmdbytes := cmd.map UInt8.ofNat
    .ok {
      msg := bigEndian 1 type ++ bigEndian 1 cmdbytes.length ++ short databytes.length ++
        bigEndian 1 0 ++ bigEndian 1 0 ++ cmdbytes ++ databytes
      callback := callback
      priority := priority }

/-- `send` takes the command while `cmdcheck` is on. -/
def Accepts (s : State) (cmd : DotCmd) : Prop :=
  ∀ type databytes callback priority,
    ∃ message, send type cmd databytes callback priority { s with cmdcheck := true } = .ok message

theorem accepts_iff {s : State} {cmd : DotCmd} :
    Accepts s cmd ↔ listText cmd ∈ s.dotcmdIsValid := by
  constructor
  · intro haccepts
    obtain ⟨message, hsend⟩ := haccepts 0 [] "" 1
    by_contra habsent
    rw [send, if_pos ⟨rfl, habsent⟩] at hsend
    exact absurd hsend nofun
  · intro hmem type databytes callback priority
    rw [send, if_neg fun hrefused => hrefused.2 hmem]
    exact ⟨_, rfl⟩

instance (s : State) (cmd : DotCmd) : Decidable (Accepts s cmd) :=
  decidable_of_iff _ accepts_iff.symm

/-! ## Texts of commands -/

private theorem splitOn_listText {cmd : DotCmd} (nonempty : cmd ≠ []) :
    (listText cmd).splitOn ' ' = cmd.map decimal := by
  refine List.splitOn_intercalate ' ' ?_ (by simpa using nonempty)
  intro text htext
  obtain ⟨n, -, rfl⟩ := List.mem_map.mp htext
  exact not_mem_decimal (by decide) n

private theorem listText_ne_nil {cmd : DotCmd} (nonempty : cmd ≠ []) : listText cmd ≠ [] := by
  obtain ⟨n, cmd, rfl⟩ := List.exists_cons_of_ne_nil nonempty
  intro hnil
  have hsplit := splitOn_listText nonempty
  rw [hnil, List.splitOn_nil, List.map_cons] at hsplit
  exact decimal_ne_nil n (List.cons.inj hsplit).1.symm

private theorem listText_injective : Function.Injective listText := by
  intro first second hsame
  by_cases hfirst : first = []
  · by_contra hne
    rw [hfirst] at hsame hne
    exact listText_ne_nil (Ne.symm hne) hsame.symm
  · by_cases hsecond : second = []
    · rw [hsecond] at hsame
      exact absurd hsame (listText_ne_nil hfirst)
    · have hmap : first.map decimal = second.map decimal := by
        rw [← splitOn_listText hfirst, hsame, splitOn_listText hsecond]
      exact List.map_injective_iff.mpr (fun _ _ => decimal_injective) hmap

private theorem appendText_eq {stem : DotCmd} (nonempty : stem ≠ []) (j : ℕ) :
    appendText stem j = listText (stem ++ [j]) := by
  have hsome : stem.map decimal ≠ [] := by simpa using nonempty
  have hlast : joined [decimal j] = decimal j := by simp [joined]
  rw [appendText, listText, listText, List.map_append, List.map_singleton,
    ListFormat.joined_append hsome, if_neg (List.cons_ne_nil _ _), hlast]

/-- Without numbers in front, the text begins with a blank, and no command has it. -/
theorem appendText_nil_ne (j : ℕ) (cmd : DotCmd) : appendText [] j ≠ listText cmd := by
  intro hsame
  have hcmd : cmd ≠ [] := by
    rintro rfl
    exact absurd hsame nofun
  have hsplit := splitOn_listText hcmd
  obtain ⟨n, cmd, rfl⟩ := List.exists_cons_of_ne_nil hcmd
  rw [← hsame, appendText, listText, List.map_nil, joined, List.intercalate_nil, List.nil_append,
    List.splitOn_cons_eq_if_modifyHead, if_pos (beq_self_eq_true ' '), List.map_cons] at hsplit
  exact decimal_ne_nil n (List.cons.inj hsplit).1.symm

/-! ## The callback -/

/-- The variables of the loop that outlive an entry. -/
structure Vars where
  bytes : Option (List ℤ) := none
  dotcmd : Option Key := none
  dotcmdIsValid : List Key

/-- `binary scan $databytes "@${i}c${count}" bytes`. The variable keeps its value if bytes are
missing. -/
def scanChars (databytes : Bytes) (i count : ℕ) (bytes : Option (List ℤ)) : Option (List ℤ) :=
  let found := (databytes.drop i).take count
  if found.length = count then some (found.map fun b => signed [b]) else bytes

/-- The entry at place `i`; an error leaves the map as it is. -/
def entry (databytes : Bytes) (i : ℕ) (v : Vars) : Except (List Key × String) (ℕ × Vars) :=
  let xx := signed ((databytes.drop i).take 1)
  let count := (xx % 32).toNat
  let seq := decide (xx / 128 % 2 = 1)
  match scanChars databytes (i + 1) count v.bytes with
  | none => .error (v.dotcmdIsValid, "can't read \"bytes\": no such variable")
  | some bytes =>
    let cmd := bytes.map fun c => (c % 256).toNat
    let dotcmd :=
      if seq then
        -- Without numbers, `$last` is the empty text, and 1 is not below it either.
        (List.range' 1 (cmd.getLastD 0)).foldl
          (fun _ j => some (appendText (cmd.take (count - 1)) j)) v.dotcmd
      else some (listText cmd)
    match dotcmd with
    | none => .error (v.dotcmdIsValid, "can't read \"dotcmd\": no such variable")
    | some key =>
      .ok (i + 1 + count,
        { bytes := some bytes
          dotcmd := some key
          dotcmdIsValid := v.dotcmdIsValid.insert key })

def cmdTableCallback (_status : String) (databytes : Bytes) (s : State) : Outcome State :=
  match Paging.records (fun _ => entry databytes) databytes.length databytes.length 0 0
      { dotcmdIsValid := s.dotcmdIsValid } with
  | .ok (_, v) => .ok { s with dotcmdIsValid := v.dotcmdIsValid }
  | .error (dotcmdIsValid, error) => .raise { s with dotcmdIsValid := dotcmdIsValid } error

/-! ## Tables -/

/-- An entry of a table: the bits of its header and the bytes behind it. -/
structure Entry where
  /-- Bits 5 and 6 say nothing. -/
  reserved : Fin 4
  seq : Bool
  bytes : Bytes
  fits : bytes.length < 32
  counted : seq = true → bytes ≠ []

namespace Entry

variable (e : Entry)

def header : UInt8 :=
  UInt8.ofNat (e.bytes.length + 32 * e.reserved + if e.seq then 128 else 0)

def encode : Bytes := e.header :: e.bytes

def numbers : DotCmd := e.bytes.map UInt8.toNat

/-- The numbers in front of the last one. -/
def stem : DotCmd := e.numbers.dropLast

def last : ℕ := e.numbers.getLastD 0

/-- The commands that the entry stands for. -/
def Describes (cmd : DotCmd) : Prop :=
  if e.seq = true then ∃ j, 1 ≤ j ∧ j ≤ e.last ∧ cmd = e.stem ++ [j] else cmd = e.numbers

/-- The command that is entered for the entry: its numbers as they are, and for a sequential
entry only if there are numbers in front of the last one and the last one is not zero. -/
def Enters (cmd : DotCmd) : Prop :=
  cmd = e.numbers ∧ (e.seq = true → e.stem ≠ [] ∧ e.last ≠ 0)

instance (cmd : DotCmd) : Decidable (e.Enters cmd) :=
  inferInstanceAs (Decidable (cmd = e.numbers ∧ (e.seq = true → e.stem ≠ [] ∧ e.last ≠ 0)))

/-- The name under which the map has the entry, unless the count leaves the one before. -/
def key : Option Key :=
  if e.seq = true then if e.last = 0 then none else some (appendText e.stem e.last)
  else some (listText e.numbers)

end Entry

/-! ## What an entry does -/

private theorem signed_singleton_emod (b : UInt8) : signed [b] % 256 = b.toNat := by
  simpa [unsigned] using signed_emod [b]

/-- Only the last number that is counted is left, and none if there is none. -/
theorem foldl_range' {α : Type*} (f : ℕ → α) (n : ℕ) (before : Option α) :
    (List.range' 1 n).foldl (fun _ j => some (f j)) before =
      if n = 0 then before else some (f n) := by
  cases n with
  | zero => rfl
  | succ n => rw [List.range'_concat, List.foldl_concat, if_neg (Nat.succ_ne_zero n), Nat.one_mul,
      Nat.add_comm]

private theorem scanChars_found (front bytes rest : Bytes) (old : Option (List ℤ)) :
    scanChars (front ++ bytes ++ rest) front.length bytes.length old =
      some (bytes.map fun b => signed [b]) := by
  have hfound : ((front ++ bytes ++ rest).drop front.length).take bytes.length = bytes := by
    rw [List.append_assoc, List.drop_left, List.take_left]
  rw [scanChars, hfound, if_pos rfl]

namespace Entry

variable (e : Entry)

private theorem header_toNat :
    e.header.toNat = e.bytes.length + 32 * e.reserved + if e.seq then 128 else 0 := by
  have hfits := e.fits
  have hreserved := e.reserved.isLt
  rw [header, UInt8.toNat_ofNat', Nat.mod_eq_of_lt]
  split <;> omega

theorem count_eq : (signed [e.header] % 32).toNat = e.bytes.length := by
  have hheader := signed_singleton_emod e.header
  have hfits := e.fits
  rw [e.header_toNat] at hheader
  split at hheader <;> omega

private theorem seq_eq : decide (signed [e.header] / 128 % 2 = 1) = e.seq := by
  have hheader := signed_singleton_emod e.header
  have hfits := e.fits
  have hreserved := e.reserved.isLt
  rw [e.header_toNat] at hheader
  cases hseq : e.seq with
  | false =>
      rw [hseq, if_neg Bool.false_ne_true] at hheader
      exact decide_eq_false (by omega)
  | true =>
      rw [hseq, if_pos rfl] at hheader
      exact decide_eq_true (by omega)

private theorem numbers_eq :
    (e.bytes.map fun b => signed [b]).map (fun c => (c % 256).toNat) = e.numbers := by
  rw [List.map_map, numbers]
  refine List.map_congr_left fun b _ => ?_
  rw [Function.comp_apply, signed_singleton_emod, Int.toNat_natCast]

private theorem stem_eq : e.numbers.take (e.bytes.length - 1) = e.stem := by
  rw [stem, List.dropLast_eq_take, numbers, List.length_map]

private theorem stem_concat_last (sequential : e.seq = true) : e.stem ++ [e.last] = e.numbers := by
  have hnonempty : e.numbers ≠ [] := by simpa [numbers] using e.counted sequential
  rw [stem, last, List.getLastD_eq_getLast?, List.getLast?_eq_some_getLast hnonempty,
    Option.getD_some, List.dropLast_append_getLast]

/-- An entry leaves its command, and enters it, unless there is none to enter. -/
theorem entry_encode (front rest : Bytes) (v : Vars) :
    entry (front ++ e.encode ++ rest) front.length v =
      match e.key.or v.dotcmd with
      | none => .error (v.dotcmdIsValid, "can't read \"dotcmd\": no such variable")
      | some key =>
        .ok (front.length + e.encode.length,
          { bytes := some (e.bytes.map fun b => signed [b])
            dotcmd := some key
            dotcmdIsValid := v.dotcmdIsValid.insert key }) := by
  have hxx : ((front ++ e.encode ++ rest).drop front.length).take 1 = [e.header] := by
    rw [List.append_assoc, List.drop_left]
    rfl
  have hbytes : scanChars (front ++ e.encode ++ rest) (front.length + 1) e.bytes.length v.bytes =
      some (e.bytes.map fun b => signed [b]) := by
    have hsplit := scanChars_found (front ++ [e.header]) e.bytes rest v.bytes
    rwa [List.length_append, List.length_singleton, List.append_assoc front,
      List.singleton_append, ← encode] at hsplit
  have hdotcmd : (if e.seq = true then
        (List.range' 1 e.last).foldl (fun _ j => some (appendText e.stem j)) v.dotcmd
      else some (listText e.numbers)) = e.key.or v.dotcmd := by
    rw [foldl_range', key]
    split_ifs <;> rfl
  have hlength : front.length + 1 + e.bytes.length = front.length + e.encode.length := by
    rw [encode, List.length_cons]
    omega
  have hlast : e.numbers.getLastD 0 = e.last := rfl
  simp only [entry, hxx, e.count_eq, e.seq_eq, hbytes, e.numbers_eq, e.stem_eq, hlast, hdotcmd,
    hlength]

theorem key_eq_none_iff : e.key = none ↔ e.seq = true ∧ e.last = 0 := by
  rw [key]
  split_ifs with hseq hlast
  · exact ⟨fun _ => ⟨hseq, hlast⟩, fun _ => rfl⟩
  · exact ⟨nofun, fun h => absurd h.2 hlast⟩
  · exact ⟨nofun, fun h => absurd h.1 hseq⟩

theorem key_eq_listText_iff (cmd : DotCmd) : e.key = some (listText cmd) ↔ e.Enters cmd := by
  rw [key, Enters]
  split_ifs with hseq hlast
  · exact ⟨nofun, fun h => absurd hlast (h.2 hseq).2⟩
  · rw [Option.some_inj]
    by_cases hstem : e.stem = []
    · rw [hstem]
      exact ⟨fun h => absurd h (appendText_nil_ne _ _), fun h => absurd rfl (h.2 hseq).1⟩
    · rw [appendText_eq hstem, e.stem_concat_last hseq, listText_injective.eq_iff, eq_comm]
      exact ⟨fun h => ⟨h, fun _ => ⟨hstem, hlast⟩⟩, And.left⟩
  · rw [Option.some_inj, listText_injective.eq_iff, eq_comm]
    exact ⟨fun h => ⟨h, fun h => absurd h hseq⟩, And.left⟩

theorem Enters.describes {cmd : DotCmd} (enters : e.Enters cmd) : e.Describes cmd := by
  obtain ⟨rfl, hcounted⟩ := enters
  rw [Describes]
  split_ifs with hseq
  · exact ⟨e.last, Nat.one_le_iff_ne_zero.mpr (hcounted hseq).2, le_rfl,
      (e.stem_concat_last hseq).symm⟩
  · rfl

end Entry

/-- The commands of a table. -/
def Described (table : List Entry) (cmd : DotCmd) : Prop := ∃ e ∈ table, e.Describes cmd

/-- The count of the first entry ends at zero. -/
def StartsEmpty : List Entry → Prop
  | [] => False
  | e :: _ => e.seq = true ∧ e.last = 0

instance : ∀ table, Decidable (StartsEmpty table)
  | [] => inferInstanceAs (Decidable False)
  | e :: _ => inferInstanceAs (Decidable (e.seq = true ∧ e.last = 0))

/-! ## What the callback does -/

/-- What the loop has when it has read some entries. -/
structure Reads (before : List Key) (done : List Entry) (v : Vars) : Prop where
  left : v.dotcmd = none → done = []
  kept : ∀ key, v.dotcmd = some key → key ∈ v.dotcmdIsValid
  entered : ∀ key, key ∈ v.dotcmdIsValid ↔ key ∈ before ∨ ∃ e ∈ done, e.key = some key

variable {before : List Key} {done : List Entry} {v : Vars}

theorem Reads.concat (reads : Reads before done v) {e : Entry} {key : Key}
    (hkey : e.key.or v.dotcmd = some key) (bytes : Option (List ℤ)) :
    Reads before (done ++ [e])
      { bytes := bytes, dotcmd := some key, dotcmdIsValid := v.dotcmdIsValid.insert key } where
  left := nofun
  kept other hother := by
    rw [← Option.some.inj hother]
    exact List.mem_insert_self
  entered other := by
    -- what an entry without a command of its own enters is in the map already
    have hadded : other ∈ v.dotcmdIsValid.insert key ↔
        other ∈ v.dotcmdIsValid ∨ e.key = some other := by
      rw [List.mem_insert_iff]
      cases hown : e.key with
      | none =>
          rw [hown, Option.none_or] at hkey
          have hagain := reads.kept key hkey
          constructor
          · rintro (rfl | hold)
            · exact Or.inl hagain
            · exact Or.inl hold
          · rintro (hold | hentered)
            · exact Or.inr hold
            · simp at hentered
      | some own =>
          rw [hown, Option.some_or, Option.some_inj] at hkey
          rw [hkey, Option.some_inj, or_comm, eq_comm]
    have hdone : (∃ e' ∈ done ++ [e], e'.key = some other) ↔
        (∃ e' ∈ done, e'.key = some other) ∨ e.key = some other := by
      simp [or_and_right, exists_or]
    rw [hadded, hdone, reads.entered other, or_assoc]

variable {table : List Entry}

theorem startsEmpty_cons_iff {e : Entry} {rest : List Entry} :
    StartsEmpty (e :: rest) ↔ e.key = none := by
  rw [e.key_eq_none_iff, StartsEmpty]

/-- A table whose first entry leaves no command raises there. -/
theorem cmdTableCallback_startsEmpty (empty : StartsEmpty table) (status : String) (s : State) :
    cmdTableCallback status (table.flatMap Entry.encode) s =
      .raise s "can't read \"dotcmd\": no such variable" := by
  cases table with
  | nil => exact absurd empty id
  | cons e rest =>
      have hkey := startsEmpty_cons_iff.mp empty
      have hentry := e.entry_encode [] (rest.flatMap Entry.encode)
        { dotcmdIsValid := s.dotcmdIsValid }
      rw [hkey, Option.none_or, List.nil_append, ← List.flatMap_cons] at hentry
      have hlength : ((e :: rest).flatMap Entry.encode).length =
          (e.bytes.length + (rest.flatMap Entry.encode).length) + 1 := by
        rw [List.flatMap_cons, List.length_append, Entry.encode, List.length_cons]
        omega
      have hrecords : ∀ size fuel, 0 < size →
          Paging.records (fun _ => entry ((e :: rest).flatMap Entry.encode)) size (fuel + 1) 0 0
            { dotcmdIsValid := s.dotcmdIsValid } =
            .error (s.dotcmdIsValid, "can't read \"dotcmd\": no such variable") :=
        fun _ fuel hmore => Paging.records_of_error hmore hentry fuel
      rw [cmdTableCallback, hlength, hrecords _ _ (Nat.succ_pos _)]

/-- Other tables are read to their end, and an entry with a command of its own has it entered. -/
theorem cmdTableCallback_read (counted : ¬ StartsEmpty table) (status : String) (s : State) :
    ∃ dotcmdIsValid,
      cmdTableCallback status (table.flatMap Entry.encode) s =
        .ok { s with dotcmdIsValid := dotcmdIsValid } ∧
      ∀ key, key ∈ dotcmdIsValid ↔
        key ∈ s.dotcmdIsValid ∨ ∃ e ∈ table, e.key = some key := by
  have hreads : ∀ done e rest v, done ++ e :: rest = table → Reads s.dotcmdIsValid done v →
      ∃ v', entry (table.flatMap Entry.encode) (done.flatMap Entry.encode).length v =
        .ok (((done ++ [e]).flatMap Entry.encode).length, v') ∧
        Reads s.dotcmdIsValid (done ++ [e]) v' := by
    rintro done e rest v rfl hdone
    have hentry := e.entry_encode (done.flatMap Entry.encode) (rest.flatMap Entry.encode) v
    cases hkey : e.key.or v.dotcmd with
    | none =>
        obtain ⟨hown, hleft⟩ := Option.or_eq_none_iff.mp hkey
        rw [hdone.left hleft] at counted
        exact absurd (startsEmpty_cons_iff.mpr hown) counted
    | some key =>
        rw [hkey] at hentry
        refine ⟨_, ?_, hdone.concat hkey (some (e.bytes.map fun b => signed [b]))⟩
        rw [List.flatMap_append, List.flatMap_append, List.flatMap_cons, List.flatMap_singleton,
          List.length_append, ← List.append_assoc]
        exact hentry
  have hstart : Reads s.dotcmdIsValid [] { dotcmdIsValid := s.dotcmdIsValid } :=
    ⟨fun _ => rfl, nofun, by simp⟩
  have hnonempty : ∀ e : Entry, e.encode ≠ [] := fun e => List.cons_ne_nil _ _
  have hrecords : ∃ v,
      Paging.records (fun _ => entry (table.flatMap Entry.encode))
        (table.flatMap Entry.encode).length (table.flatMap Entry.encode).length 0 0
        { dotcmdIsValid := s.dotcmdIsValid } = .ok (0 + table.length, v) ∧
      Reads s.dotcmdIsValid table v :=
    Paging.records_encoded hnonempty (Reads s.dotcmdIsValid) hreads hstart
      (Paging.length_le_length_flatMap hnonempty table)
  obtain ⟨v, hread, hv⟩ := hrecords
  refine ⟨v.dotcmdIsValid, ?_, hv.entered⟩
  rw [cmdTableCallback, hread]

/-- What is accepted behind the callback: what was accepted in front of it, and the commands
that are entered for the entries. -/
theorem accepts_cmdTableCallback_iff (status : String) (s : State) (cmd : DotCmd) :
    Accepts (cmdTableCallback status (table.flatMap Entry.encode) s).state cmd ↔
      Accepts s cmd ∨ ¬ StartsEmpty table ∧ ∃ e ∈ table, e.Enters cmd := by
  by_cases hempty : StartsEmpty table
  · rw [cmdTableCallback_startsEmpty hempty, Outcome.raise_state]
    simp [hempty]
  · obtain ⟨dotcmdIsValid, hread, hvalid⟩ := cmdTableCallback_read hempty status s
    rw [hread, Outcome.ok_state, accepts_iff, accepts_iff, hvalid]
    simp only [hempty, not_false_eq_true, true_and, Entry.key_eq_listText_iff]

/-- What is asked of a table and of the commands that are accepted already. -/
structure Decodable (s : State) (table : List Entry) : Prop where
  /-- No other command is accepted already. -/
  old : ∀ cmd, Accepts s cmd → Described table cmd
  /-- Every command of a range is accepted already, or it is the last of a range with numbers in
  front of it, or an entry of its own. -/
  ranges : ∀ e ∈ table, e.seq = true → ∀ j, 1 ≤ j → j ≤ e.last →
    Accepts s (e.stem ++ [j]) ∨
      ¬ StartsEmpty table ∧ ∃ other ∈ table, other.Enters (e.stem ++ [j])
  /-- Behind a first entry whose count ends at zero, every command is accepted already. -/
  singles : StartsEmpty table → ∀ e ∈ table, e.seq = false → Accepts s e.numbers

/-- The commands of the table are those that are accepted exactly if nothing else was accepted
before, the commands of its ranges are entered one way or another, and its first entry does not
make the callback raise. -/
theorem table_decoded_iff (status : String) (table : List Entry) (s : State) :
    (∀ cmd, Accepts (cmdTableCallback status (table.flatMap Entry.encode) s).state cmd ↔
      Described table cmd) ↔ Decodable s table := by
  simp only [accepts_cmdTableCallback_iff]
  constructor
  · intro hdecoded
    refine ⟨fun cmd hold => (hdecoded cmd).mp (Or.inl hold), ?_, ?_⟩
    · intro e he hseq j hone hlast
      have hdescribes : e.Describes (e.stem ++ [j]) := by
        rw [Entry.Describes, if_pos hseq]
        exact ⟨j, hone, hlast, rfl⟩
      exact (hdecoded _).mpr ⟨e, he, hdescribes⟩
    · intro hempty e he hsingle
      have hdescribes : e.Describes e.numbers := by
        rw [Entry.Describes, if_neg (by simp [hsingle])]
      exact ((hdecoded _).mpr ⟨e, he, hdescribes⟩).resolve_right fun h => h.1 hempty
  · intro hdecodable cmd
    constructor
    · rintro (hold | ⟨-, e, he, henters⟩)
      · exact hdecodable.old cmd hold
      · exact ⟨e, he, henters.describes⟩
    · rintro ⟨e, he, hdescribes⟩
      rw [Entry.Describes] at hdescribes
      split_ifs at hdescribes with hseq
      · obtain ⟨j, hone, hlast, rfl⟩ := hdescribes
        exact hdecodable.ranges e he hseq j hone hlast
      · subst hdescribes
        by_cases hempty : StartsEmpty table
        · exact Or.inl (hdecodable.singles hempty e he (Bool.eq_false_iff.mpr hseq))
        · exact Or.inr ⟨hempty, e, he, rfl, fun h => absurd h hseq⟩

/-- The command 1.1 by itself, and a range of one command. -/
def decodedTable : List Entry :=
  [{ reserved := 0, seq := false, bytes := [1, 1], fits := by decide, counted := nofun },
    { reserved := 0, seq := true, bytes := [2, 5, 1], fits := by decide, counted := by decide }]

theorem decodedTable_decoded :
    ∀ cmd, Accepts (cmdTableCallback "0" (decodedTable.flatMap Entry.encode) {}).state cmd ↔
      Described decodedTable cmd := by
  refine (table_decoded_iff "0" decodedTable {}).mpr ⟨?_, ?_, ?_⟩
  · intro cmd hold
    exact absurd (accepts_iff.mp hold) List.not_mem_nil
  · intro e he hseq j hone hlast
    right
    obtain rfl | rfl := List.mem_pair.mp he
    · exact absurd hseq Bool.false_ne_true
    · obtain rfl : j = 1 := le_antisymm hlast hone
      exact ⟨by decide, _, he, by decide⟩
  · intro hempty
    exact absurd hempty (by decide)

/-- The commands 2.1.1 to 2.1.3. -/
def rangeTable : List Entry :=
  [{ reserved := 0, seq := true, bytes := [2, 1, 3], fits := by decide, counted := by decide }]

/-- Of a range of three commands, the first two are refused. -/
theorem range_refused :
    rangeTable.flatMap Entry.encode = [0x83, 2, 1, 3] ∧
      Described rangeTable [2, 1, 1] ∧ Described rangeTable [2, 1, 2] ∧
      Described rangeTable [2, 1, 3] ∧
      ¬ Accepts (cmdTableCallback "0" [0x83, 2, 1, 3] {}).state [2, 1, 1] ∧
      ¬ Accepts (cmdTableCallback "0" [0x83, 2, 1, 3] {}).state [2, 1, 2] ∧
      Accepts (cmdTableCallback "0" [0x83, 2, 1, 3] {}).state [2, 1, 3] ∧
      ¬ ∀ cmd, Accepts (cmdTableCallback "0" [0x83, 2, 1, 3] {}).state cmd ↔
        Described rangeTable cmd := by
  have hrange : ∀ j, 1 ≤ j → j ≤ 3 → Described rangeTable [2, 1, j] := fun j hone hthree =>
    ⟨_, List.mem_singleton_self _, j, hone, hthree, rfl⟩
  refine ⟨by decide, hrange 1 (by decide) (by decide), hrange 2 (by decide) (by decide),
    hrange 3 (by decide) (by decide), by decide, by decide, by decide, fun hdecoded => ?_⟩
  exact absurd ((hdecoded [2, 1, 1]).mpr (hrange 1 (by decide) (by decide))) (by decide)

end Amester.BladeCenter
