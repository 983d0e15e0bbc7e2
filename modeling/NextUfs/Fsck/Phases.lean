/-
  NextUfs.Fsck.Phases
  ───────────────────
  **PHASES 1 AND 1B OVER ALL INODES, AND THE CLEARING OF PHASE 4.**
  Phase 1 marks the metadata in the block map, looks at the type and the size
  of each inode, and walks the inodes that are in use.  Phase 1b walks them
  again, for the first owner of each fragment that has several.  Phase 4 gives
  back what an inode holds and zeroes it.
    • `pass1`        — the loop of phase 1, with `lncntp`, `zlnhead`, `n_files`,
    • `scanInode`    — `ckinode` for a function that is not `pass1check`,
    • `pass1b`       — the rescan,
    • `clri`         — an inode is cleared.
  The checker asks (`preen` is off), and the answer is the same every time.
  Fragment numbers and sizes are signed in the source: with a number from 2^31
  on it indexes the block map below its start, and with a size within a block
  of 2^31 it looks at pointers before the first one.  The model takes such a
  number as out of range, and looks at no such pointer.
-/
import NextUfs.Core.RoundTrip
import NextUfs.Fsck.ExpandDir
import NextUfs.Fsck.Pass1

namespace NextUfs.Fsck

/-! ## §1. Phase 1. -/

/-- What phase 1 keeps: the maps and lists of the walk, `lncntp`, `zlnhead`,
`n_files`, `lastino`. -/
structure Phase1 where
  walk : Pass1
  lncntp : Nat → Int
  zlnhead : List Nat
  nFiles : Int
  lastino : Nat

/-- A step of the phase. -/
abbrev Phase1Op := EStateM Pass1Exit Phase1

/-- The tables as `setup` allocates them. -/
def Phase1.start (d : Disk) : Phase1 where
  walk :=
    { disk := d
      blockmap := fun _ => false
      statemap := fun _ => .unset
      multi := []
      more := []
      badblk := 0
      dupblk := 0
      nBlks := 0
      idFix := .dontknow
      visited := []
      reports := [] }
  lncntp := fun _ => 0
  zlnhead := []
  nFiles := 0
  lastino := 0

/-- A step of the walk. -/
def onWalk {α : Type} (x : Pass1Op α) : Phase1Op α := fun s =>
  match x s.walk with
  | .ok a walk => .ok a { s with walk := walk }
  | .error e walk => .error e { s with walk := walk }

/-- `statemap[inumber] = state`. -/
def Pass1.setState (s : Pass1) (inumber : Nat) (state : InodeState) : Pass1 :=
  { s with statemap := Function.update s.statemap inumber state }

/-- `*ginode(inumber) = dp; inodirty()`. -/
def Pass1.putInode (s : Pass1) (inumber : Nat) (dp : Inode) : Pass1 :=
  { s with
    disk := { s.disk with inodes := Function.update s.disk.inodes inumber dp } }

/-- `IFREG` and the other types of `ftypeok`. -/
def fileTypes : List UInt16 :=
  [IFDIR, IFREG, 0o060000, 0o020000, IFLNK, 0o140000, 0o010000]

/-- `ftypeok`. -/
def ftypeok (dp : Inode) : Bool := fileTypes.contains (dp.mode &&& IFMT)

/-- `ALLOC(dp)`. -/
def isAlloc (dp : Inode) : Bool := dp.mode &&& IFMT != 0

/-- An inode that is not in use, and yet has pointers, a mode or a size:
`PARTIALLY ALLOCATED INODE`. -/
def partlyAllocated (dp : Inode) : Bool :=
  (List.finRange 12).any (fun j => dp.db j != 0) ||
    (List.finRange 3).any (fun j => dp.ib j != 0) ||
    dp.mode != 0 || dp.size != 0

section Phase1

variable (sb : Superblock) (yes : Bool)

/-- Levels of indirect blocks that `ndb` blocks behind the direct ones need:
`for (j = 0; ndb > 0; j++) ndb /= NINDIR(fs)`. -/
def indirLevels : Nat → Int → Nat
  | 0, _ => 0
  | fuel + 1, ndb =>
    if 0 < ndb then indirLevels fuel (ndb.tdiv (NINDIR sb)) + 1 else 0

/-- A pointer behind the end of the file: `bad direct addr`, `bad indirect
addr`. -/
def badPointer (dp : Inode) : Bool :=
  let ndb := sizeBlocks sb dp.size + if special dp then 1 else 0
  (List.finRange 12).any (fun j => decide (ndb ≤ j) && dp.db j != 0) ||
    (List.finRange 3).any (fun j =>
      decide (indirLevels sb 32 (ndb - 12) ≤ j) && dp.ib j != 0)

/-- Metadata of group `c` in the block map: in the first group from the start
of the disk on, and with the summary table. -/
def reserveGroup (s : Pass1) (c : Nat) : Pass1 :=
  let cgd := cgdmin sb c
  let (i, cgd) :=
    if c = 0 then (0, cgd + csumFrags sb) else (cgsblock sb c, cgd)
  { s with blockmap := fun f => s.blockmap f || decide (i ≤ f ∧ f < cgd) }

/-- The inode is not in use. -/
def freeInode (inumber : Nat) (dp : Inode) : Phase1Op Unit :=
  modify fun s =>
    { s with
      walk :=
        (if partlyAllocated dp && yes then s.walk.putInode inumber zeroInode
          else s.walk).setState inumber .ustate }

/-- An inode that is cleared if the operator says so: `UNKNOWN FILE TYPE`,
`INCONSISTENT FAST SYMLINK`. -/
def clearUnknown (inumber : Nat) : Phase1Op Unit :=
  modify fun s =>
    { s with
      walk :=
        if yes then (s.walk.putInode inumber zeroInode).setState inumber .ustate
        else s.walk.setState inumber .fclear }

/-- An inode of a known type: its links, its state, and its blocks, unless it
is a link with the target in place of the pointers. -/
def countFile (inumber : Nat) (dp : Inode) : Phase1Op Unit := do
  let nlink := dp.nlink.toInt16.toInt
  modify fun s =>
    { s with
      nFiles := s.nFiles + 1
      lncntp := Function.update s.lncntp inumber nlink
      zlnhead := if nlink ≤ 0 then inumber :: s.zlnhead else s.zlnhead
      walk :=
        { s.walk.setState inumber (if isDirMode dp.mode then .dstate else .fstate)
          with badblk := 0, dupblk := 0 } }
  if dp.flags &&& IC_FASTLINK = 0 then
    let _ ← onWalk (ckinode sb ⟨false, yes⟩ inumber dp)
    let s ← get
    -- `INCORRECT BLOCK COUNT`
    if dp.blocks ≠ sectorCount sb s.walk ∧ yes = true then
      set { s with
        walk := s.walk.putInode inumber
          { dp with blocks := sectorCount sb s.walk } }
  else return ()

/-- One inode of phase 1. -/
def pass1Inode (inumber : Nat) : Phase1Op Unit := do
  let s ← get
  let dp := s.walk.disk.inodes inumber
  if isAlloc dp = false then freeInode yes inumber dp
  else
    modify fun s => { s with lastino := inumber }
    if 2 ^ 31 ≤ dp.size then clearUnknown yes inumber
    else
      -- `HOLD BAD BLOCK`
      let held := dp.mode &&& IFMT = IFMT ∧ yes = true
      let dp :=
        if held then { dp with size := sb.fragSize, mode := IFREG ||| 0o600 }
        else dp
      modify fun s =>
        { s with walk := if held then s.walk.putInode inumber dp else s.walk }
      if dp.flags &&& IC_FASTLINK ≠ 0 ∧ dp.mode &&& IFMT ≠ IFLNK then
        clearUnknown yes inumber
      else if dp.flags &&& IC_FASTLINK = 0 ∧ badPointer sb dp = true then
        clearUnknown yes inumber
      else if ftypeok dp = false then clearUnknown yes inumber
      else countFile sb yes inumber dp

/-- The inodes of the file system. -/
def inodeCount : Nat := sb.cgCount * sb.inodesPerGroup

/-- The inodes a phase goes over. -/
def inodeRange : List Nat :=
  (List.range (inodeCount sb)).filter fun inumber => decide (ROOTINO ≤ inumber)

/-- **`pass1`.** -/
def pass1 : Phase1Op Unit := do
  modify fun s =>
    { s with
      nFiles := 0
      walk :=
        { (List.range sb.cgCount).foldl (reserveGroup sb) s.walk with nBlks := 0 } }
  (inodeRange sb).forM (pass1Inode sb yes)

end Phase1

/-! ## §2. The walk, for any other function. -/

section Scan

variable {ε σ : Type} (sb : Superblock) (func : Nat → Nat → EStateM ε σ Ret)
  (d : Disk)

/-- One pointer after the other until `STOP`. -/
def scanList {α : Type} (f : α → EStateM ε σ Ret) : List α → EStateM ε σ Ret
  | [] => return .keepon
  | a :: rest => do
    let ret ← f a
    if ret = .stop then return .stop else scanList f rest

/-- `nif`: the entries of an indirect block with `ilevel` levels below it that
the residual size `isize` counts. -/
def nif (ilevel : Nat) (isize : Int) : Nat :=
  (min (int32 (isize.tdiv (sizepb sb ilevel) + 1)) (NINDIR sb)).toNat

/-- `iblock`: no entry is cut off. -/
def scanIndirect : Nat → Nat → Int → EStateM ε σ Ret
  | 0, _, _ => return .keepon
  | ilevel + 1, blkno, isize => do
    let n ← func blkno sb.fragsPerBlock
    if n ≠ .keepon then return n
    else if outrange sb blkno sb.fragsPerBlock then return .skip
    else
      scanList (fun i =>
        let b := entry sb d blkno i
        if b = 0 then return .keepon
        else if 0 < ilevel then
          scanIndirect ilevel b (isize - int32 ((i + 1 : Int) * sizepb sb ilevel))
        else func b sb.fragsPerBlock)
        (List.range (nif sb ilevel isize))

/-- `ckinode`. -/
def scanInode (dp : Inode) : EStateM ε σ Ret := do
  if special dp then return .keepon
  else
    let ret ← scanList (fun i : Fin 12 =>
      if dp.db i = 0 then return .keepon
      else func (dp.db i) (directFrags sb dp.size i))
      (List.finRange 12)
    if ret = .stop then return .stop
    else
      scanList (fun slot : Fin 3 =>
        if dp.ib slot = 0 then return .keepon
        else
          scanIndirect sb func d (slot + 1) (dp.ib slot)
            (dp.size - int32 (sb.blockSize * 12)))
        [0, 1, 2]

end Scan

/-! ## §3. Phase 1b. -/

/-- Phase 1b: `head` is the list of duplicates from `duphead` to `muldup`, the
ones whose first owner is still to be found, `found` what is before it. -/
structure Rescan where
  walk : Pass1
  found : List Nat
  head : List Nat

section Rescan

variable (sb : Superblock) (inumber : Nat)

/-- `pass1bcheck`.  A fragment of `head` changes places with the first of it,
which `duphead` then passes. -/
def pass1bcheck : Nat → Nat → Ret → EStateM Pass1Exit Rescan Ret
  | 0, _, res => return res
  | nfrags + 1, blkno, res => do
    let s ← get
    let res := if outrange sb blkno 1 then .skip else res
    match dropDup blkno s.head with
    | some head =>
      match blkerr inumber (.dup blkno) s.walk with
      | .error e walk =>
        set { s with walk := walk }
        throw e
      | .ok _ walk =>
        set ({ walk := walk, found := s.found ++ [blkno], head := head } : Rescan)
        if head = [] then return .stop
        else pass1bcheck nfrags (blkno + 1) res
    | none =>
      if s.head = [] then return .stop
      else pass1bcheck nfrags (blkno + 1) res

/-- One inode of phase 1b. -/
def rescanInode : EStateM Pass1Exit Rescan Ret := do
  let s ← get
  if s.walk.statemap inumber = .ustate then return .keepon
  else
    scanInode sb (fun blkno numfrags => pass1bcheck sb inumber numfrags blkno .keepon)
      s.walk.disk (s.walk.disk.inodes inumber)

/-- **`pass1b`**, for what phase 1 leaves. -/
def pass1b : Phase1Op Unit := fun s =>
  match scanList (rescanInode sb) (inodeRange sb) ⟨s.walk, [], s.walk.multi⟩ with
  | .ok _ t => .ok () { s with walk := { t.walk with multi := t.found ++ t.head } }
  | .error e t => .error e { s with walk := t.walk }

end Rescan

/-! ## §4. Clearing. -/

/-- What phase 4 works on. -/
structure Phase4 where
  repair : Repair
  disk : Disk
  statemap : Nat → InodeState
  nFiles : Int

/-- What the phases before leave; the buffers are `io`. -/
def Phase1.toPhase4 (s : Phase1) (io : DirIo) : Phase4 where
  repair :=
    { io := io
      blockmap := s.walk.blockmap
      duplist := s.walk.multi ++ s.walk.more
      nBlks := s.walk.nBlks
      inodeDirty := false }
  disk := s.walk.disk
  statemap := s.walk.statemap
  nFiles := s.nFiles

section Clear

variable (sb : Superblock) (yes : Bool)

/-- `pass4check`, with what it tells the walk. -/
def pass4func (blkno numfrags : Nat) : EStateM Empty Repair Ret := do
  modify (pass4check sb numfrags blkno)
  return if (List.range numfrags).any fun k => outrange sb (blkno + k) 1 then .skip
    else .keepon

/-- `ckinode` with `pass4check`. -/
def releaseInode (d : Disk) (dp : Inode) (s : Repair) : Repair :=
  match scanInode sb (pass4func sb) d dp s with
  | .ok _ s => s
  | .error e _ => nomatch e

/-- `freeino`, which is what `clri` does when the operator agrees. -/
def freeino (inumber : Nat) (s : Phase4) : Phase4 where
  repair := { releaseInode sb s.disk (s.disk.inodes inumber) s.repair with
    inodeDirty := true }
  disk := { s.disk with inodes := Function.update s.disk.inodes inumber zeroInode }
  statemap := Function.update s.statemap inumber .ustate
  nFiles := s.nFiles - 1

/-- `clri`. -/
def clri (inumber : Nat) (s : Phase4) : Phase4 :=
  if yes then freeino sb inumber s else s

end Clear

end NextUfs.Fsck
