/-
# Logging in to a management module

`net_open` writes the user, reads two key bytes, writes the password and reads the verdict, all
before it returns. The password is obscured: each character is combined with the first key byte
and the second is added. A zero stands behind it, and the management module reads up to a zero.

Whatever the keys are, one character is obscured to zero. A password that has it ends there for
the reader, so whether a login succeeds depends on the keys that the module happened to draw.
-/

import Amester.Lib.BinaryFormat
import Mathlib.Data.List.TakeWhile
import Mathlib.Data.Set.Card

namespace Amester.BladeCenter

open BinaryFormat

/-! ## What is written -/

/-- `expr (($c ^ $key0) + $key1) & 0x0ff`. -/
def obscure (key0 key1 c : UInt8) : UInt8 := (c ^^^ key0) + key1

def passwordstr (key0 key1 : UInt8) (password : Bytes) : Bytes :=
  password.map (obscure key0 key1) ++ [0]

/-! ## How an attempt ends -/

/-- What the management module sends on a new socket: the keys and the verdict, `none` where
reading raises. Less arrives if it closes the connection. -/
structure Handshake where
  sock : ℕ
  keys : Option Bytes
  verdict : Option Bytes
  deriving DecidableEq

/-- How an attempt to open a connection ends. -/
inductive OpenResult
  | socketFailed
  /-- `net_close` is called. -/
  | refused (sock : ℕ)
  /-- An error leaves the socket open and the status at `opening`. -/
  | raised (sock : ℕ)
  | loggedIn (sock : ℕ)
  deriving DecidableEq

/-- `string match "YOUAREIN?" $line`. -/
def youAreIn (line : Bytes) : Bool :=
  line.length = 9 && line.take 8 = [0x59, 0x4f, 0x55, 0x41, 0x52, 0x45, 0x49, 0x4e]

def openResult : Option Handshake → OpenResult
  | none => .socketFailed
  | some h =>
    match h.keys.map (scan [.int 1, .int 1]) with
    | none | some [] => .refused h.sock
    | some [_] => .raised h.sock -- there is no `key1`
    | some _ =>
      match h.verdict with
      | none => .refused h.sock
      | some line => if youAreIn line then .loggedIn h.sock else .refused h.sock

/-- The socket that was opened. -/
def OpenResult.sock? : OpenResult → Option ℕ
  | .socketFailed => none
  | .refused sock | .raised sock | .loggedIn sock => some sock

theorem openResult_sock (connect : Option Handshake) :
    (openResult connect).sock? = connect.map Handshake.sock := by
  unfold openResult
  repeat' split
  all_goals rfl

/-! ## What the management module reads -/

/-- Undo `obscure`. -/
def reveal (key0 key1 t : UInt8) : UInt8 := (t - key1) ^^^ key0

/-- The character that is obscured to zero. -/
def cutting (key0 key1 : UInt8) : UInt8 := reveal key0 key1 0

/-- A management module that reads with its keys up to a zero, and finds the password that has
none in front. -/
structure ReadsPassword (read : UInt8 → UInt8 → Bytes → Bytes) : Prop where
  upToZero : ∀ key0 key1 front rest,
    read key0 key1 (front ++ 0 :: rest) = read key0 key1 (front ++ [0])
  finds : ∀ key0 key1 password, 0 ∉ password.map (obscure key0 key1) →
    read key0 key1 (passwordstr key0 key1 password) = password

theorem reveal_obscure (key0 key1 c : UInt8) : reveal key0 key1 (obscure key0 key1 c) = c := by
  rw [reveal, obscure, UInt8.add_sub_cancel, UInt8.xor_assoc, UInt8.xor_self, UInt8.xor_zero]

theorem obscure_reveal (key0 key1 t : UInt8) : obscure key0 key1 (reveal key0 key1 t) = t := by
  rw [reveal, obscure, UInt8.xor_assoc, UInt8.xor_self, UInt8.xor_zero, UInt8.sub_add_cancel]

theorem obscure_eq_zero_iff (key0 key1 c : UInt8) :
    obscure key0 key1 c = 0 ↔ c = cutting key0 key1 := by
  constructor
  · intro hzero
    rw [cutting, ← hzero, reveal_obscure]
  · rintro rfl
    exact obscure_reveal key0 key1 0

theorem zero_mem_obscured_iff (key0 key1 : UInt8) (password : Bytes) :
    0 ∈ password.map (obscure key0 key1) ↔ cutting key0 key1 ∈ password := by
  rw [List.mem_map]
  constructor
  · rintro ⟨c, hc, hzero⟩
    rwa [← (obscure_eq_zero_iff key0 key1 c).mp hzero]
  · intro hmem
    exact ⟨_, hmem, (obscure_eq_zero_iff key0 key1 _).mpr rfl⟩

section

variable {read : UInt8 → UInt8 → Bytes → Bytes} (reads : ReadsPassword read)

include reads

/-- The module finds a password up to the character that is obscured to zero. -/
theorem ReadsPassword.cut {key0 key1 : UInt8} {front : Bytes} (whole : cutting key0 key1 ∉ front)
    (rest : Bytes) :
    read key0 key1 (passwordstr key0 key1 (front ++ cutting key0 key1 :: rest)) = front := by
  have hzero : obscure key0 key1 (cutting key0 key1) = 0 := obscure_reveal key0 key1 0
  have hnone : 0 ∉ front.map (obscure key0 key1) :=
    mt (zero_mem_obscured_iff key0 key1 front).mp whole
  calc read key0 key1 (passwordstr key0 key1 (front ++ cutting key0 key1 :: rest))
      = read key0 key1 (front.map (obscure key0 key1) ++
          0 :: (rest.map (obscure key0 key1) ++ [0])) := by simp [passwordstr, hzero]
    _ = read key0 key1 (passwordstr key0 key1 front) := reads.upToZero _ _ _ _
    _ = front := reads.finds _ _ _ hnone

theorem ReadsPassword.whole_iff (key0 key1 : UInt8) (password : Bytes) :
    read key0 key1 (passwordstr key0 key1 password) = password ↔ cutting key0 key1 ∉ password := by
  constructor
  · intro hwhole hmem
    obtain ⟨front, rest, rfl, hfront⟩ := List.eq_append_cons_of_mem hmem
    rw [reads.cut hfront] at hwhole
    simpa using congrArg List.length hwhole
  · intro hnot
    exact reads.finds _ _ _ (mt (zero_mem_obscured_iff key0 key1 password).mp hnot)

/-- Each character of a password is obscured to zero by one value of the second key byte. -/
theorem ReadsPassword.whole_iff_key1 (key0 key1 : UInt8) (password : Bytes) :
    read key0 key1 (passwordstr key0 key1 password) = password ↔
      key1 ∉ password.map fun c => 0 - (c ^^^ key0) := by
  have hkey : ∀ c, c = cutting key0 key1 ↔ 0 - (c ^^^ key0) = key1 := by
    intro c
    rw [← obscure_eq_zero_iff, obscure]
    constructor
    · intro hzero
      rw [← hzero, UInt8.add_comm, UInt8.add_sub_cancel]
    · rintro rfl
      rw [UInt8.add_comm, UInt8.sub_add_cancel]
  rw [reads.whole_iff, List.mem_map]
  refine not_congr ⟨fun hmem => ⟨_, hmem, (hkey _).mp rfl⟩, ?_⟩
  rintro ⟨c, hc, hsame⟩
  rwa [← (hkey c).mpr hsame]

/-- Whatever the first key byte is, as many of the 256 values of the second cut a password as it
has different characters. -/
theorem cut_passwords (key0 : UInt8) (password : Bytes) :
    {key1 | read key0 key1 (passwordstr key0 key1 password) ≠ password}.ncard =
      password.dedup.length := by
  have hset : {key1 | read key0 key1 (passwordstr key0 key1 password) ≠ password} =
      (fun c => 0 - (c ^^^ key0)) '' {c | c ∈ password} := by
    ext key1
    rw [Set.mem_ofPred_eq, ne_eq, reads.whole_iff_key1, not_not, List.mem_map, Set.mem_image]
    rfl
  have hinjective : Function.Injective fun c : UInt8 => 0 - (c ^^^ key0) := by
    intro c d hsame
    have hxor : c ^^^ key0 = d ^^^ key0 := by simpa using hsame
    have hboth := congrArg (· ^^^ key0) hxor
    simpa [UInt8.xor_assoc] using hboth
  have hfinset : {c | c ∈ password} = (password.toFinset : Set UInt8) := by
    ext c
    simp
  rw [hset, Set.ncard_image_of_injective _ hinjective, hfinset, Set.ncard_coe_finset,
    List.card_toFinset]

end

/-- A module that takes the bytes in front of the first zero and undoes `obscure`. -/
def takesPassword (key0 key1 : UInt8) (stream : Bytes) : Bytes :=
  (stream.takeWhile (· ≠ 0)).map (reveal key0 key1)

theorem takesPassword_reads : ReadsPassword takesPassword where
  upToZero key0 key1 front rest := by
    have hfront : ∀ rest : Bytes, (front ++ 0 :: rest).takeWhile (· ≠ 0) =
        front.takeWhile (· ≠ 0) := by
      intro rest
      induction front with
      | nil => rfl
      | cons c front ih => simp only [List.cons_append, List.takeWhile_cons, ih]
    rw [takesPassword, takesPassword, hfront rest, hfront []]
  finds key0 key1 password none := by
    have htake : (password.map (obscure key0 key1) ++ [0]).takeWhile (· ≠ 0) =
        password.map (obscure key0 key1) := by
      rw [List.takeWhile_append_of_pos]
      · simp
      · intro c hc
        have hne : c ≠ 0 := fun hzero => none (hzero ▸ hc)
        simpa using hne
    rw [takesPassword, passwordstr, htake, List.map_map]
    simp [Function.comp_def, reveal_obscure]

/-- Two keys of 256 cut the password `ABBA`. -/
theorem abba_cut :
    {key1 | takesPassword 7 key1 (passwordstr 7 key1 [0x41, 0x42, 0x42, 0x41]) ≠
      [0x41, 0x42, 0x42, 0x41]}.ncard = 2 :=
  cut_passwords takesPassword_reads 7 [0x41, 0x42, 0x42, 0x41]

end Amester.BladeCenter
