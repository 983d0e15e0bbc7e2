/-
  NextUfs.Fsck.Pass2
  ──────────────────
  **PHASE 2 AND THE RECORDS OF A DIRECTORY.**

  `pass2check` (`pass2.c`) is the callback of phase 2: it looks after `.` and
  `..` in the first records of a directory, and then compares a record with
  what is known of its inode.  It works on a copy of the record, which
  `dirscan` puts back when it has been altered.

    • `checkDot`    — the first record is to be `.`,
    • `checkDotDot` — the second is to be `..`,
    • `checkEntry`  — any record,
    • `pass2check`  — the callback.

  The scan of a subdirectory (`descend`) is a parameter, and so is what the
  stack holds where a name has not been set.  The checker asks (`preen` is
  off); what it prints is not modelled.
-/
import NextUfs.Core.Path
import NextUfs.Fsck.DirScanSpec

namespace NextUfs.Fsck

open Window Address

/-! ## §1. What the phase keeps. -/

/-- The states of the inodes, the links that have not been met, the path of the
record, and whether the checker has given up (`errexit`). -/
structure Pass2 where
  statemap : Nat → InodeState
  lncntp : Nat → Int
  path : Bytes
  exited : Bool

/-- What the phase depends on: the number of inodes, the operator's answer, the
room for a path, the inode table (`DIRCT`), the stack under `proto.d_name`, and
the scan of the directory `ino` below the directory `parent`. -/
structure Pass2Ctx where
  imax : Nat
  yes : Bool
  pathSize : Nat
  isDir : Nat → Bool
  junk : Nat → UInt8
  descend : (parent ino : Nat) → Pass2 → Pass2

/-- The copy of a record under work: where `dirp` is in it, `id_entryno`, and
`ALTERED`. -/
structure RecordCheck where
  dbuf : Nat → UInt8
  dirp : Nat
  entryno : Nat
  altered : Bool
  env : Pass2

namespace RecordCheck

variable (ctx : Pass2Ctx) (w : RecordCheck)

/-- `dirp->d_ino`, `dirp->d_reclen`. -/
def ino : Nat := dIno w.dbuf w.dirp
def reclen : Nat := dReclen w.dbuf w.dirp

/-- `dirp->d_ino = ino`. -/
def setIno (ino : Nat) : RecordCheck :=
  { w with dbuf := store w.dbuf w.dirp (putLe32 ino) }

/-- `dirp->d_reclen = n`. -/
def setReclen (n : Nat) : RecordCheck :=
  { w with dbuf := store w.dbuf (w.dirp + 4) (putLe16 n) }

/-- `if (reply("FIX") == 1) ret |= ALTERED`. -/
def fix : RecordCheck := { w with altered := w.altered || ctx.yes }

/-- `lncntp[ino]--`. -/
def countLink (ino : Nat) : RecordCheck :=
  { w with
    env :=
      { w.env with
        lncntp := Function.update w.env.lncntp ino (w.env.lncntp ino - 1) } }

/-- The copy of a record, as the callback is given it. -/
def given (dbuf : Nat → UInt8) (entryno : Nat) (env : Pass2) : RecordCheck :=
  { dbuf := dbuf, dirp := 0, entryno := entryno, altered := false, env := env }

/-- `errexit`. -/
def exit : RecordCheck := { w with env := { w.env with exited := true } }

end RecordCheck

/-- `strcmp(dirp->d_name, name) == 0`. -/
def nameIs (buf : Nat → UInt8) (dp : Nat) (name : Bytes) : Bool :=
  ((List.range name.length).all fun i => buf (dp + 8 + i) == name.getD i 0) &&
    buf (dp + 8 + name.length) == 0

/-- `proto` with a name: `DIRSIZ(&proto)` bytes. -/
def protoRecord (junk : Nat → UInt8) (ino reclen : Nat) (name : Bytes) : Bytes :=
  putLe32 ino ++ putLe16 reclen ++ putLe16 name.length ++
    (List.range (direntSize name.length - 8)).map fun i =>
      if i < name.length then name.getD i 0
      else if i = name.length then 0
      else junk i

/-! ## §2. The first two records. -/

section Check

variable (ctx : Pass2Ctx) (number parent : Nat)

/-- `bcopy((char *)&proto, (char *)dirp, entrysize)`. -/
def putProto (ino reclen : Nat) (name : Bytes) (w : RecordCheck) :
    RecordCheck :=
  { w with
    dbuf := store w.dbuf w.dirp (protoRecord ctx.junk ino reclen name) }

/-- `dirp += off; bzero(dirp, n); dirp->d_reclen = n`, for the record cut off
the one at `dirp`. -/
def cutOff (off n : Nat) (w : RecordCheck) : RecordCheck :=
  { w with
    dirp := w.dirp + off
    dbuf := store w.dbuf (w.dirp + off) (List.replicate n 0) }.setReclen n

/-- The first record is to be `.`; if it is not, it is written over where it is
not in use or is `..`, and what it has too much is cut off. -/
def checkDot (w : RecordCheck) : RecordCheck :=
  let entrysize := direntSize 1
  if w.entryno ≠ 0 then w
  else if w.ino ≠ 0 ∧ nameIs w.dbuf w.dirp [DOT] then
    if w.ino ≠ number then (w.setIno number).fix ctx else w
  else if w.ino ≠ 0 ∧ nameIs w.dbuf w.dirp [DOT, DOT] = false then
    -- `CANNOT FIX, FIRST ENTRY IN DIRECTORY CONTAINS`
    w
  else if w.reclen < entrysize then
    -- `CANNOT FIX, INSUFFICIENT SPACE TO ADD '.'`
    w
  else if w.reclen < 2 * entrysize then
    (putProto ctx number w.reclen [DOT] w).fix ctx
  else
    let n := w.reclen - entrysize
    let w := putProto ctx number entrysize [DOT] w
    let w := { w with entryno := w.entryno + 1 }.countLink number
    (cutOff entrysize n w).fix ctx

/-- The second record is to be `..`.  After a first record that was not made
`.` just now, it is cut off that one; `none` where that has no room.  The part
cut off is given the length of the part that stays. -/
def cutSecond (w : RecordCheck) : Option RecordCheck :=
  if w.entryno = 0 then
    let n := DIRSIZ w.dbuf w.dirp
    if w.reclen < n + direntSize 2 then none
    else
      let w := w.setReclen n
      let w := { w with entryno := w.entryno + 1 }.countLink w.ino
      some (cutOff n n w)
  else some w

/-- The record at `dirp` is `..`, or is written over where it is not in use or
is `.`. -/
def makeDotDot (w : RecordCheck) : RecordCheck :=
  if w.ino ≠ 0 ∧ nameIs w.dbuf w.dirp [DOT, DOT] then
    if w.ino ≠ parent then (w.setIno parent).fix ctx else w
  else if w.ino ≠ 0 ∧ nameIs w.dbuf w.dirp [DOT] = false then
    -- `CANNOT FIX, SECOND ENTRY IN DIRECTORY CONTAINS`
    w
  else if w.reclen < direntSize 2 then
    -- `CANNOT FIX, INSUFFICIENT SPACE TO ADD '..'`
    w
  else (putProto ctx parent w.reclen [DOT, DOT] w).fix ctx

/-- `chk1`. -/
def checkDotDot (w : RecordCheck) : RecordCheck :=
  if 1 < w.entryno then w
  else
    match cutSecond w with
    | none => w
    | some w => makeDotDot ctx parent w

/-! ## §3. Any record. -/

/-- `dirp->d_ino = 0`, when the operator says so. -/
def dropEntry (w : RecordCheck) : RecordCheck := (w.setIno 0).fix ctx

/-- What is known of the inode decides, once it has a state to go by. -/
def checkKnown (ino : Nat) (w : RecordCheck) : RecordCheck × Bool :=
  match w.env.statemap ino with
  | .dfound =>
    -- `IS AN EXTRANEOUS HARD LINK TO DIRECTORY`
    if 2 < w.entryno ∧ ctx.yes = true then (w, true)
    else (w.countLink ino, false)
  | .fstate => (w.countLink ino, false)
  | .dstate =>
    let env := ctx.descend number ino w.env
    let w := { w with env := env }
    if env.exited then (w, false)
    else
      match env.statemap ino with
      | .dfound => (w.countLink ino, false)
      | .dclear => ({ w.setIno 0 with altered := true }, false)
      | _ => (w.exit, false)
  | _ => (w.exit, false)

/-- The `switch` over `statemap`: whether the record is to go. -/
def checkState (ino : Nat) (w : RecordCheck) : RecordCheck × Bool :=
  let again :=
    let state := if ctx.isDir ino then InodeState.dstate else .fstate
    checkKnown ctx number ino
      { w with
        env := { w.env with statemap := Function.update w.env.statemap ino state } }
  match w.env.statemap ino with
  | .ustate =>
    -- `UNALLOCATED`
    (w, ctx.yes)
  | .dclear => if ctx.yes then (w, true) else again
  | .fclear => if ctx.yes then (w, true) else again
  | _ => checkKnown ctx number ino w

/-- The path with the name of the record, or `NAME TOO LONG`. -/
def enterName (w : RecordCheck) : RecordCheck :=
  let namlen := dNamlen w.dbuf w.dirp
  if ctx.pathSize ≤ w.env.path.length + 1 + namlen then w.exit
  else
    { w with
      env :=
        { w.env with
          path := w.env.path ++ [SLASH] ++ load w.dbuf (w.dirp + 8) namlen } }

/-- `chk2`. -/
def checkEntry (w : RecordCheck) : RecordCheck :=
  let namlen := dNamlen w.dbuf w.dirp
  if w.ino = 0 then w
  else if namlen ≤ 2 ∧ w.dbuf (w.dirp + 8) = DOT ∧ 2 ≤ w.entryno ∧
      (namlen = 1 ∨ w.dbuf (w.dirp + 9) = DOT) then
    -- `EXTRA '.' ENTRY`, `EXTRA '..' ENTRY`
    dropEntry ctx w
  else
    let path := w.env.path
    let w := enterName ctx w
    if w.env.exited then w
    else
      let w := { w with entryno := w.entryno + 1 }
      let (w, gone) :=
        if ctx.imax < w.ino then (w, ctx.yes)
        else checkState ctx number w.ino w
      if w.env.exited then w
      else
        let w := { w with env := { w.env with path := path } }
        if gone then { w.setIno 0 with altered := true } else w

/-- The three checks. -/
def checkRecord (w : RecordCheck) : RecordCheck :=
  checkEntry ctx number (checkDotDot ctx parent (checkDot ctx number w))

end Check

/-- **`pass2check`**: the copy of the record as it leaves it.  When the checker
gives up, the scan ends. -/
def pass2check (ctx : Pass2Ctx) : ScanFunc Pass2 := fun s rec =>
  let w := checkRecord ctx s.idesc.number s.idesc.parent
    (.given (area rec) s.idesc.entryno s.env)
  ({ s with env := w.env, idesc := { s.idesc with entryno := w.entryno } },
    load w.dbuf 0 rec.length,
    ⟨w.altered && !w.env.exited, w.env.exited⟩)

end NextUfs.Fsck
