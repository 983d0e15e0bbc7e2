/-
  NextUfs.Fsck.Pass1
  ──────────────────
  **PHASE 1 OF THE CHECKER: THE BLOCKS OF AN INODE.**

  `inode_scan.c` walks the block pointers of an inode, and `pass1check`
  (`pass1.c`) marks each fragment of each run in the block map.

    • `outrange`   — a run that is not one of the data fragments,
    • `pass1check` — one run: its fragments, unless too many are bad,
    • `iblock`     — an indirect block and what it points to, as far as the
      residual size says,
    • `ckinode`    — the whole inode.

  The walk is the one of phase 1 (`id_type` is `ADDR`, `id_func` is
  `pass1check`).  `id_entryno` is the number of fragments visited; the state
  keeps the fragments themselves.
-/
import NextUfs.Core.Ownership
import NextUfs.Fsck.Pass5

namespace NextUfs.Fsck

open State

/-! ## §1. What the phase keeps. -/

/-- What a call tells the walk: `STOP`, `SKIP`, `KEEPON`. -/
inductive Ret where
  | stop | skip | keepon
  deriving DecidableEq, Repr

/-- `MAXBAD`, `MAXDUP`: an inode with that many is given up. -/
def MAXBAD : Nat := 10
def MAXDUP : Nat := 10

/-- What the phase prints about an inode. -/
inductive Report where
  /-- `%ld BAD I=%lu` -/
  | bad (blkno : Nat)
  /-- `%ld DUP I=%lu` -/
  | dup (blkno : Nat)
  /-- `EXCESSIVE BAD BLKS I=%lu` -/
  | excessiveBad
  /-- `EXCESSIVE DUP BLKS I=%lu` -/
  | excessiveDup
  /-- `PARTIALLY TRUNCATED INODE I=%lu` -/
  | partiallyTruncated
  deriving DecidableEq, Repr

/-- The checker exits. -/
inductive Pass1Exit where
  /-- `BAD STATE %d TO BLKERR` -/
  | blkerr
  /-- the operator does not continue -/
  | declined
  deriving DecidableEq, Repr

/-- How the checker runs: `preen`, or the operator's answer to everything. -/
structure Operator where
  preen : Bool
  yes : Bool

/-- What phase 1 knows while it walks inode `inumber`.  `multi` is `duplist`
up to `muldup`, where each fragment stands once, `more` the rest of it. -/
structure Pass1 where
  disk : Disk
  blockmap : Nat → Bool
  statemap : Nat → InodeState
  multi : List Nat
  more : List Nat
  badblk : Nat
  dupblk : Nat
  nBlks : Nat
  idFix : FixMode
  visited : List Nat
  reports : List Report

/-- A step of the phase. -/
abbrev Pass1Op := EStateM Pass1Exit Pass1

/-- `id_entryno`. -/
def Pass1.idEntryno (s : Pass1) : Nat := s.visited.length

/-- Print. -/
def Pass1.report (s : Pass1) (r : Report) : Pass1 :=
  { s with reports := s.reports ++ [r] }

/-- `id_entryno++` for a fragment. -/
def Pass1.visit (s : Pass1) (blkno : Nat) : Pass1 :=
  { s with visited := s.visited ++ [blkno] }

/-- `n_blks++; setbmap(blkno)`. -/
def Pass1.claim (s : Pass1) (blkno : Nat) : Pass1 :=
  { s with
    blockmap := Function.update s.blockmap blkno true
    nBlks := s.nBlks + 1 }

/-- A fragment that is in the block map already goes to the list of
duplicates: behind `muldup`, which moves on to it the first time. -/
def Pass1.addDup (s : Pass1) (blkno : Nat) : Pass1 :=
  if blkno ∈ s.multi then { s with more := blkno :: s.more }
  else { s with multi := s.multi ++ [blkno] }

/-! ## §2. One run. -/

section Run

variable (sb : Superblock) (op : Operator) (inumber : Nat)

/-- `outrange`. -/
def outrange (blk cnt : Nat) : Bool :=
  let c := blk / sb.fragsPerGroup
  if sb.fragCount < blk + cnt then true
  else if blk < cgdmin sb c then decide (cgsblock sb c < blk + cnt)
  else decide (sb.fragsPerGroup * (c + 1) < blk + cnt)

/-- `blkerr`. -/
def blkerr (r : Report) : Pass1Op Unit := do
  modify fun s => s.report r
  let s ← get
  match s.statemap inumber with
  | .fstate =>
    modify fun s =>
      { s with statemap := Function.update s.statemap inumber .fclear }
  | .dstate =>
    modify fun s =>
      { s with statemap := Function.update s.statemap inumber .dclear }
  | .fclear | .dclear => return ()
  | _ => throw .blkerr

/-- Too many bad fragments: `STOP`, if the operator does not end it all. -/
def excessive (r : Report) : Pass1Op Ret := do
  modify fun s => s.report r
  if op.preen ∨ op.yes then return .stop else throw .declined

/-- The loop of `pass1check`: `nfrags` fragments from `blkno` on. -/
def checkFrags (anyout : Bool) : Nat → Nat → Ret → Pass1Op Ret
  | 0, _, res => return res
  | nfrags + 1, blkno, res => do
    let s ← get
    if anyout ∧ outrange sb blkno 1 then
      modify fun s => s.visit blkno
      checkFrags anyout nfrags (blkno + 1) .skip
    else if s.blockmap blkno = false then
      modify fun s => (s.claim blkno).visit blkno
      checkFrags anyout nfrags (blkno + 1) res
    else
      blkerr inumber (.dup blkno)
      modify fun s => { s with dupblk := s.dupblk + 1 }
      if MAXDUP ≤ s.dupblk + 1 then excessive op .excessiveDup
      else
        modify fun s => (s.addDup blkno).visit blkno
        checkFrags anyout nfrags (blkno + 1) res

/-- `pass1check` on the run `[blkno, blkno + numfrags)`. -/
def pass1check (blkno numfrags : Nat) : Pass1Op Ret := do
  let s ← get
  if outrange sb blkno numfrags then
    blkerr inumber (.bad blkno)
    modify fun s => { s with badblk := s.badblk + 1 }
    if MAXBAD ≤ s.badblk + 1 then excessive op .excessiveBad
    else checkFrags sb op inumber true numfrags blkno .keepon
  else checkFrags sb op inumber false numfrags blkno .keepon

end Run

/-! ## §3. The walk. -/

/-- Call `f` on one pointer after the other until it says `STOP`. -/
def untilStop {α : Type} (f : α → Pass1Op Ret) : List α → Pass1Op Ret
  | [] => return .keepon
  | a :: rest => do
    let ret ← f a
    if ret = .stop then return .stop else untilStop f rest

section Walk

variable (sb : Superblock) (op : Operator) (inumber : Nat)

/-- `NINDIR(fs)`, which the superblock keeps as `bsize / sizeof(ufs_daddr_t)`. -/
def NINDIR : Nat := sb.blockSize / 4

/-- `sizepb`: what one entry of an indirect block covers that has `ilevel`
levels below it. -/
def sizepb : Nat → Int
  | 0 => sb.blockSize
  | ilevel + 1 => int32 (sizepb ilevel * NINDIR sb)

/-- `dofix` in phase 1, which prints the first time. -/
def dofix1 (r : Report) : Pass1Op Bool := do
  let s ← get
  let (idFix, altered) := dofix (op.preen || op.yes) s.idFix
  set { s with idFix := idFix }
  if s.idFix = .dontknow then modify fun s => s.report r
  return altered

/-- An entry behind the residual size that is not zero. -/
def truncateEntry (blkno : Nat) (entries : Nat → Nat) (i : Nat) :
    Pass1Op Ret := do
  if entries i = 0 then return .keepon
  else
    let altered ← dofix1 op .partiallyTruncated
    if altered then
      modify fun s =>
        { s with
          disk := s.disk.write (blkno * sb.fragSize + i * 4) (writeBe32 0) }
    return .keepon

/-- `iblock`, by the number of levels: `isize` is the residual size, counted
from the first indirect block on, less what the entries before cover. -/
def iblock : Nat → Nat → Int → Pass1Op Ret
  | 0, _, _ => return .keepon
  | ilevel + 1, blkno, isize => do
    let n ← pass1check sb op inumber blkno sb.fragsPerBlock
    if n ≠ .keepon then return n
    else if outrange sb blkno sb.fragsPerBlock then return .skip
    else
      let s ← get
      -- the buffer keeps the entries as they were read
      let entries := entry sb s.disk blkno
      let nif := (min (int32 (isize.tdiv (sizepb sb ilevel) + 1))
        (NINDIR sb)).toNat
      let _ ← untilStop (truncateEntry sb op blkno entries)
        (List.range' nif (NINDIR sb - nif))
      untilStop (fun i =>
        if entries i = 0 then return .keepon
        else if 0 < ilevel then
          iblock ilevel (entries i)
            (isize - int32 ((i + 1 : Int) * sizepb sb ilevel))
        else pass1check sb op inumber (entries i) sb.fragsPerBlock)
        (List.range nif)

/-- `SPECIAL(dp)`. -/
def special (dp : Inode) : Bool :=
  dp.mode &&& IFMT == 0o060000 || dp.mode &&& IFMT == 0o020000

/-- `howmany(di_size, fs_bsize)`, in `int`. -/
def sizeBlocks (size : Nat) : Int :=
  (int32 (size + (sb.blockSize - 1))).tdiv sb.blockSize

/-- `id_numfrags` for direct block `i`: the last block of the file has as many
fragments as its bytes need. -/
def directFrags (size i : Nat) : Nat :=
  let offset := size % sb.blockSize
  if sizeBlocks sb size - (i + 1) = 0 ∧ offset ≠ 0 then
    (offset + sb.fragSize - 1) / sb.fragSize * sb.fragSize / sb.fragSize
  else sb.fragsPerBlock

/-- `ckinode`, for `pass1check`. -/
def ckinode (dp : Inode) : Pass1Op Ret := do
  modify fun s => { s with idFix := .dontknow, visited := [] }
  if special dp then return .keepon
  else
    let ret ← untilStop (fun i : Fin 12 =>
      if dp.db i = 0 then return .keepon
      else pass1check sb op inumber (dp.db i) (directFrags sb dp.size i))
      (List.finRange 12)
    if ret = .stop then return .stop
    else
      untilStop (fun slot : Fin 3 =>
        if dp.ib slot = 0 then return .keepon
        else
          iblock sb op inumber (slot + 1) (dp.ib slot)
            (dp.size - int32 (sb.blockSize * 12)))
        [0, 1, 2]

/-- `id_entryno * NSPF(fs)`, which phase 1 compares with `di_blocks`: both are
32 bits wide. -/
def sectorCount (s : Pass1) : UInt32 :=
  UInt32.ofNat (s.idEntryno * sb.sectorsPerFrag)

end Walk

end NextUfs.Fsck
