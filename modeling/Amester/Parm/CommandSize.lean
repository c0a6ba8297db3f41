/-
# The size of a bulk-read command

A bulk-read command begins with five bytes, and every parameter number takes two more.
The loop that fills it asks only whether a byte of the command is left. So with an even
message size the last number may be one byte too many, if the response has room for its
parameter.
-/

import Amester.Parm.BulkRead

namespace Amester.Parm

open BinaryFormat

/-! ## The number of parameters of a command -/

/-- More parameters than these follow in a command if there are more, and the command and
the response have room behind them. -/
theorem lt_length_pack_iff (offset parmcount : ℕ) (cmdLeft room : ℤ) (objlist : List ParmObj)
    (n : ℕ) :
    n < (pack offset (parmcount + 1) cmdLeft room objlist).cmdlistobj.length ↔
      n < objlist.length ∧ 2 * n < cmdLeft ∧ total (objlist.take n) < room := by
  induction objlist generalizing n parmcount cmdLeft room with
  | nil => simp [pack]
  | cons obj objlist ih =>
      rw [pack]
      by_cases hroom : 0 < cmdLeft ∧ 0 < room
      · rw [if_pos hroom, if_neg (Nat.succ_ne_zero parmcount)]
        by_cases hfits : 0 ≤ room - (obj.bytecount : ℤ)
        · simp only [if_pos hfits, List.length_cons]
          cases n with
          | zero => simpa using hroom
          | succ n =>
              rw [Nat.succ_lt_succ_iff, ih, List.take_succ_cons, total_cons]
              push_cast
              constructor
              · rintro ⟨hlength, hcmd, htotal⟩
                exact ⟨by omega, by omega, by omega⟩
              · rintro ⟨hlength, hcmd, htotal⟩
                exact ⟨by omega, by omega, by omega⟩
        · simp only [if_neg hfits, List.length_singleton]
          cases n with
          | zero => simpa using hroom
          | succ n =>
              rw [List.take_succ_cons, total_cons]
              push_cast
              constructor
              · intro hlt
                omega
              · rintro ⟨-, -, htotal⟩
                omega
      · rw [if_neg hroom]
        simp only [List.length_nil]
        constructor
        · intro hlt
          omega
        · rintro ⟨-, hcmd, htotal⟩
          exact absurd ⟨by omega, by omega⟩ hroom

/-- The same for all parameters of a command, the first of which is read from the offset
on. -/
theorem lt_length_pack_first_iff (offset : ℕ) {cmdLeft room : ℤ} (cmdLeft_pos : 0 < cmdLeft)
    (room_pos : 0 < room) (objlist : List ParmObj) {n : ℕ} (pos : 0 < n) :
    n < (pack offset 0 cmdLeft room objlist).cmdlistobj.length ↔
      n < objlist.length ∧ 2 * n < cmdLeft ∧ total (objlist.take n) < room + offset := by
  cases objlist with
  | nil => simp [pack]
  | cons obj objlist =>
      obtain ⟨n, rfl⟩ : ∃ m, n = m + 1 := ⟨n - 1, by omega⟩
      rw [pack, if_pos ⟨cmdLeft_pos, room_pos⟩, if_pos rfl, List.take_succ_cons, total_cons]
      push_cast
      by_cases hfits : 0 ≤ room - (obj.bytecount - offset : ℤ)
      · simp only [if_pos hfits, List.length_cons]
        rw [Nat.succ_lt_succ_iff, lt_length_pack_iff]
        constructor
        · rintro ⟨hlength, hcmd, htotal⟩
          exact ⟨by omega, by omega, by omega⟩
        · rintro ⟨hlength, hcmd, htotal⟩
          exact ⟨by omega, by omega, by omega⟩
      · simp only [if_neg hfits, List.length_singleton]
        constructor
        · intro hlt
          omega
        · rintro ⟨-, -, htotal⟩
          omega

/-! ## The command of a round -/

/-- The parameters of the next command. -/
def Progress.requested (parm : Interface) (p : Progress) : List ParmObj :=
  (pack p.cache.length 0 (parm.messageSize - 5 : ℤ) parm.messageReturnSize p.objlist).cmdlistobj

/-- The next command. -/
def Progress.command (parm : Interface) (p : Progress) : Bytes :=
  readCommand (if p.requested parm = [] then p.offset else p.cache.length)
    ((p.requested parm).map ParmObj.number)

/-- The rounds of a bulk read: the variables whenever its loop begins its body. -/
inductive Round (parm : Interface) (send : SendSync) (objlist : List ParmObj) :
    Progress → Prop
  | first (some : objlist ≠ []) : Round parm send objlist { objlist := objlist }
  | next {p p' : Progress} (round : Round parm send objlist p)
    (step : bulkStep parm send p = .ok p') (again : p'.objlist ≠ []) :
    Round parm send objlist p'

theorem Round.objlist_ne_nil {parm : Interface} {send : SendSync} {objlist : List ParmObj}
    {p : Progress} (round : Round parm send objlist p) : p.objlist ≠ [] := by
  cases round with
  | first some => exact some
  | next _ _ again => exact again

theorem length_readCommand (offset : ℕ) (cmdlist : List ℕ) :
    (readCommand offset cmdlist).length = 5 + 2 * cmdlist.length := by
  rw [readCommand, List.length_cons, List.length_append, length_bigEndian]
  have hnumbers : (cmdlist.flatMap fun number : ℕ => bigEndian 2 number).length =
      2 * cmdlist.length := by
    induction cmdlist with
    | nil => rfl
    | cons number cmdlist ih =>
        rw [List.flatMap_cons, List.length_append, length_bigEndian, ih, List.length_cons]
        omega
  rw [hnumbers]
  omega

/-- The command of every round names a parameter. It fits the message size just if that is
odd, or so few parameters are left that all of them fit, or those in front of the last one
that begins to fit fill the response. -/
theorem command_fits_iff (parm : Interface) (send : SendSync) (objlist : List ParmObj)
    (cmdSize : 7 ≤ parm.messageSize) (returns : 1 ≤ parm.messageReturnSize) (p : Progress)
    (round : Round parm send objlist p) :
    p.requested parm ≠ [] ∧
      (p.command parm).length = 5 + 2 * (p.requested parm).length ∧
      ((p.command parm).length ≤ parm.messageSize ↔
        parm.messageSize % 2 = 1 ∨ p.objlist.length ≤ (parm.messageSize - 5) / 2 ∨
        parm.messageReturnSize + p.cache.length ≤
          total (p.objlist.take ((parm.messageSize - 5) / 2))) := by
  have hcmd : 0 < (parm.messageSize - 5 : ℤ) := by omega
  have hroom : 0 < (parm.messageReturnSize : ℤ) := by omega
  have hlength : (p.command parm).length = 5 + 2 * (p.requested parm).length := by
    rw [Progress.command, length_readCommand, List.length_map]
  have hmore := lt_length_pack_first_iff p.cache.length hcmd hroom p.objlist
    (n := (parm.messageSize - 5) / 2) (by omega)
  refine ⟨?_, hlength, ?_⟩
  · cases hobjs : p.objlist with
    | nil => exact absurd hobjs round.objlist_ne_nil
    | cons obj objs =>
        obtain ⟨-, sent, hsent⟩ := pack_splits_first p.cache.length hcmd hroom obj objs
        rw [Progress.requested, hobjs, hsent]
        exact List.cons_ne_nil obj sent
  · rw [hlength]
    rw [← Progress.requested] at hmore
    constructor
    · intro hle
      have hnot : ¬ (parm.messageSize - 5) / 2 < (p.requested parm).length := by omega
      rw [hmore] at hnot
      omega
    · intro hfits
      have hnot : ¬ (parm.messageSize - 5) / 2 < (p.requested parm).length := by
        rw [hmore]
        omega
      omega

/-! ## Two parameters of one byte -/

def oneByte (name : String) (number : ℕ) : ParmObj where
  name := name
  number := number
  type := .uint8
  vectorsize := 1
  size := 1
  sizes_lt := by decide

def small (messageSize : ℕ) : Interface where
  messageSize := messageSize
  messageReturnSize := 10
  name2obj name := if name = "low" then some (oneByte name 1) else some (oneByte name 2)

/-- Nine bytes are enough for both. -/
theorem command_fits_nine :
    (({ objlist := [oneByte "low" 1, oneByte "high" 2] } : Progress).command (small 9)).length ≤
      9 := by
  have hround : Round (small 9) (fun _ => (0, [])) [oneByte "low" 1, oneByte "high" 2]
      { objlist := [oneByte "low" 1, oneByte "high" 2] } := .first nofun
  have hfits := command_fits_iff (small 9) (fun _ => (0, []))
    [oneByte "low" 1, oneByte "high" 2] (by decide) (by decide) _ hround
  exact hfits.2.2.mpr (Or.inl rfl)

/-- With a message size of eight the first command has nine bytes. -/
theorem command_exceeds_eight :
    Round (small 8) (fun _ => (0, [])) [oneByte "low" 1, oneByte "high" 2]
      { objlist := [oneByte "low" 1, oneByte "high" 2] } ∧
    ¬ (({ objlist := [oneByte "low" 1, oneByte "high" 2] } : Progress).command
      (small 8)).length ≤ (small 8).messageSize :=
  ⟨.first nofun, by decide +kernel⟩

end Amester.Parm
