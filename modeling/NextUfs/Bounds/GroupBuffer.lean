/-
  NextUfs.Bounds.GroupBuffer
  ──────────────────────────
  **THE BUFFER OF A CYLINDER GROUP, WITH EVERY ACCESS CHECKED.**

  `alloc.c` reads a group into a buffer of `cg_size` bytes and works there by
  byte and bit, with offsets computed from superblock fields in 32-bit
  arithmetic.  Here each of these functions is its own sequence of accesses:
  an index outside the buffer or outside the nine counters of a run array, and
  a divisor that is zero, are faults.

    • `readBe`, `writeBe`, `bitSet`   — one access,
    • `allSet`, `countFreeRuns`, …    — the walks over the fragment bitmap,
    • `allocateInodeInGroup`, `freeInodeInGroup`,
      `allocateFragsInGroup`, `extendFragmentRun`, `freeFragmentRun` — what
      the calls do to a group that has been read.

  The bytes of the group are arbitrary.  That it could not be read, and what
  follows once it is written back, is not part of this file: neither touches
  the buffer.
-/
import NextUfs.Core.Types
import NextUfs.Lib.Checked
import NextUfs.Lib.Fields

namespace NextUfs.Bounds

open Checked Fields State

/-! ## §1. The buffer. -/

def CG_TIME_OFF : Nat := 8
def CG_NDBLK_OFF : Nat := 20
def CG_CS_NDIR_OFF : Nat := 24
def CG_CS_NBFREE_OFF : Nat := 28
def CG_CS_NIFREE_OFF : Nat := 32
def CG_CS_NFFREE_OFF : Nat := 36
def CG_ROTOR_OFF : Nat := 40
def CG_IROTOR_OFF : Nat := 48
def CG_FRSUM_OFF : Nat := 52
def CG_BTOT_OFF : Nat := 84
def CG_BPOS_OFF : Nat := 212
def CG_IUSED_OFF : Nat := 724
def CG_MAGIC_OFF : Nat := 980

/-- Entries of the arrays `before` and `after`. -/
def RUN_COUNTS : Nat := 9

/-- A value kept in a `uint32_t`. -/
def w32 (x : Nat) : Nat := x % 2 ^ 32

/-- A step on the buffer of a group. -/
abbrev BufOp : Type → Type := EStateM (Halt Errno) (Nat → UInt8)

section Access

variable (sb : Superblock)

/-- `buf[i]`. -/
def readByte (i : Nat) : BufOp UInt8 := do
  need (i < sb.cgSize)
  let buf ← get
  pure (buf i)

/-- `buf[i] = b`. -/
def writeByte (i : Nat) (b : UInt8) : BufOp Unit := do
  need (i < sb.cgSize)
  modify fun buf => Function.update buf i b

/-- `nextufs__read_be32(buf + off)`, or `be16` with two bytes. -/
def readBe (off n : Nat) : BufOp Nat := do
  need (off + n ≤ sb.cgSize)
  let buf ← get
  pure (beAt buf off n)

/-- `nextufs__write_be32(buf + off, v)`. -/
def writeBe (off n v : Nat) : BufOp Unit := do
  need (off + n ≤ sb.cgSize)
  modify fun buf => putBe buf off n v

/-- Read a counter, add `d` and write it back; the field cuts the sum. -/
def addBe (off n d : Nat) : BufOp Unit := do
  let v ← readBe sb off n
  writeBe sb off n (v + d)

/-- `-d`, as it is added to a counter of `n` bytes. -/
def minus (n d : Nat) : Nat := 2 ^ (8 * n) - d

/-! ## §2. The bitmaps. -/

/-- A bit of the map at `map`. -/
def bitSet (map bit : Nat) : BufOp Bool := do
  let b ← readByte sb (map + bit / 8)
  pure (b.toNat.testBit (bit % 8))

def setBit (map bit : Nat) : BufOp Unit := do
  let b ← readByte sb (map + bit / 8)
  writeByte sb (map + bit / 8) (b ||| UInt8.ofNat (2 ^ (bit % 8)))

def clearBit (map bit : Nat) : BufOp Unit := do
  let b ← readByte sb (map + bit / 8)
  writeByte sb (map + bit / 8) (b &&& ~~~UInt8.ofNat (2 ^ (bit % 8)))

/-- The common body of `nextufs__block_is_free` and `nextufs__set_run_bits`,
with `frags` bits to go from bit `i` of the run on. -/
def allSet (fragBase : Nat) : (frags i : Nat) → BufOp Bool
  | 0, _ => pure true
  | frags + 1, i => do
    let set ← bitSet sb CG_FREE_OFF (w32 (fragBase + i))
    if set then allSet fragBase frags (i + 1) else pure false

/-- `nextufs__block_is_free`. -/
def blockIsFree (fragBase frags : Nat) : BufOp Bool := allSet sb fragBase frags 0

/-- `nextufs__set_run_bits`. -/
def setRunBits (fragBase frags : Nat) : BufOp Bool := allSet sb fragBase frags 0

/-- `nextufs__clear_block_bits`. -/
def clearBlockBits (fragBase frags : Nat) : BufOp Unit :=
  (List.range frags).forM fun i => clearBit sb CG_FREE_OFF (w32 (fragBase + i))

/-- The inner loop of `nextufs__count_free_runs_in_block`: `left` fragments of
the block lie behind those that are counted. -/
def runLength (base : Nat) : (left run : Nat) → BufOp Nat
  | 0, run => pure run
  | left + 1, run => do
    let set ← bitSet sb CG_FREE_OFF (w32 (base + run))
    if set then runLength base left (run + 1) else pure run

/-- `if (run > 0 && run < frags_per_block) counts[run]++`. -/
def countRun (counts : Nat → Nat) (run : Nat) : BufOp (Nat → Nat) :=
  if 0 < run ∧ run < sb.fragsPerBlock then do
    need (run < RUN_COUNTS)
    pure (Function.update counts run (counts run + 1))
  else pure counts

/-- Its outer loop; every round moves `i` forward. -/
def countFreeRunsLoop (base : Nat) :
    (rounds i : Nat) → (counts : Nat → Nat) → BufOp (Nat → Nat)
  | 0, _, counts => pure counts
  | rounds + 1, i, counts =>
    if i < sb.fragsPerBlock then do
      let run ← runLength sb (base + i) (sb.fragsPerBlock - i) 0
      let counts ← countRun sb counts run
      countFreeRunsLoop base rounds (i + if 0 < run then run else 1) counts
    else pure counts

/-- `nextufs__count_free_runs_in_block`.  The `memset` clears
`frags_per_block + 1U` counters, a sum of 32 bits. -/
def countFreeRuns (base : Nat) : BufOp (Nat → Nat) := do
  need (w32 (sb.fragsPerBlock + 1) ≤ RUN_COUNTS)
  countFreeRunsLoop sb base sb.fragsPerBlock 0 fun _ => 0

/-- `nextufs__apply_cg_frsum_delta`. -/
def applyCgFrsumDelta (before after : Nat → Nat) : BufOp Unit :=
  (List.range (sb.fragsPerBlock - 1)).forM fun k => do
    let i := k + 1
    let frsumOff := w32 (CG_FRSUM_OFF + i * 4)
    let v ← readBe sb frsumOff 4
    need (i < RUN_COUNTS)
    if after i ≠ before i then
      writeBe sb frsumOff 4 (v + after i + minus 4 (w32 (before i)))
    else pure ()

/-- Add `d4` and `d2` to the counts of the cylinder and of the rotational
position of the block at `localFrag`, where the tables have room for them. -/
def moveCylBlocks (localFrag d4 d2 : Nat) : BufOp Unit := do
  let cylno ← divBy (w32 (localFrag * sb.sectorsPerFrag)) sb.sectorsPerCyl
  let inCyl ← modBy (w32 (localFrag * sb.sectorsPerFrag)) sb.sectorsPerCyl
  let inTrack ← modBy inCyl sb.sectorsPerTrack
  let rotpos ← divBy (w32 (inTrack * NRPOS)) sb.sectorsPerTrack
  if cylno < 32 ∧ rotpos < NRPOS then do
    addBe sb (CG_BTOT_OFF + cylno * 4) 4 d4
    addBe sb (CG_BPOS_OFF + (cylno * NRPOS + rotpos) * 2) 2 d2
  else pure ()

/-! ## §3. Inodes. -/

/-- Add `d` to the group's directories, for a directory. -/
def addDirs (isDir : Bool) (d : Nat) : BufOp Unit :=
  if isDir then addBe sb CG_CS_NDIR_OFF 4 d else pure ()

/-- The magic number of the group that was read. -/
def checkMagic : BufOp Unit := do
  let magic ← readBe sb CG_MAGIC_OFF 4
  if magic ≠ CG_MAGIC then throw (.error .EINVAL) else pure ()

/-- The search of `nextufs__allocate_inode_in_group`: the first clear bit from
`start` on is set. -/
def claimInode (start : Nat) : (left i : Nat) → BufOp (Option Nat)
  | 0, _ => pure none
  | left + 1, i => do
    let idx ← modBy (w32 (start + i)) sb.inodesPerGroup
    let used ← bitSet sb CG_IUSED_OFF idx
    if used then claimInode start left (i + 1)
    else do
      setBit sb CG_IUSED_OFF idx
      pure (some idx)

/-- `nextufs__allocate_inode_in_group`. -/
def allocateInodeInGroup (isDir : Bool) (now : Nat) : BufOp Nat := do
  checkMagic sb
  let nifree ← readBe sb CG_CS_NIFREE_OFF 4
  if nifree = 0 then throw (.error .ENOSPC)
  else do
    let irotor ← readBe sb CG_IROTOR_OFF 4
    let start := if sb.inodesPerGroup ≤ irotor then 0 else irotor
    let found ← claimInode sb start sb.inodesPerGroup 0
    match found with
    | none => throw (.error .ENOSPC)
    | some ipref => do
      writeBe sb CG_IROTOR_OFF 4 ipref
      addBe sb CG_CS_NIFREE_OFF 4 (minus 4 1)
      writeBe sb CG_TIME_OFF 4 now
      addDirs sb isDir 1
      pure ipref

/-- `nextufs__free_inode_in_group`. -/
def freeInodeInGroup (inodeNo : Nat) (isDir : Bool) (now : Nat) :
    BufOp Unit := do
  let _cg ← divBy inodeNo sb.inodesPerGroup
  let localIno ← modBy inodeNo sb.inodesPerGroup
  checkMagic sb
  let used ← bitSet sb CG_IUSED_OFF localIno
  if used = false then throw (.error .EINVAL)
  else do
    clearBit sb CG_IUSED_OFF localIno
    addBe sb CG_CS_NIFREE_OFF 4 1
    writeBe sb CG_TIME_OFF 4 now
    addDirs sb isDir (minus 4 1)

/-! ## §4. Allocation of fragments. -/

/-- `for (start = local_frag; start + frags_needed <= end; start++)`: the
first run that is free. -/
def findRun (needed last : Nat) : (rounds start : Nat) → BufOp (Option Nat)
  | 0, _ => throw .unfinished
  | rounds + 1, start =>
    if w32 (start + needed) ≤ last then do
      let free ← setRunBits sb start needed
      if free then pure (some start)
      else findRun needed last rounds (w32 (start + 1))
    else pure none

/-- The block lies below `last` and every fragment of it is free. -/
def isWhole (localFrag last : Nat) : BufOp Bool :=
  if w32 (last + 2 ^ 32 - localFrag) = sb.fragsPerBlock then
    blockIsFree sb localFrag sb.fragsPerBlock
  else pure false

/-- The search of one block: the whole blocks are passed over. -/
def searchBlock (needed limit fuel localFrag : Nat) : BufOp (Option Nat) := do
  let blockEnd := w32 (localFrag + sb.fragsPerBlock)
  let last := if limit < blockEnd then limit else blockEnd
  let whole ← isWhole sb localFrag last
  if whole then pure none else findRun sb needed last fuel localFrag

/-- Take the run at `start` of the block at `localFrag`. -/
def takeRun (needed localFrag start now : Nat) : BufOp Unit := do
  let before ← countFreeRuns sb localFrag
  clearBlockBits sb start needed
  let after ← countFreeRuns sb localFrag
  applyCgFrsumDelta sb before after
  addBe sb CG_CS_NFFREE_OFF 4 (minus 4 needed)
  writeBe sb CG_TIME_OFF 4 now

/-- The first loop: a run in a block that is not wholly free. -/
def allocatePartial (needed limit now fuel : Nat) :
    (rounds localFrag : Nat) → BufOp (Option Nat)
  | 0, _ => throw .unfinished
  | rounds + 1, localFrag =>
    if localFrag < limit then do
      let found ← searchBlock sb needed limit fuel localFrag
      match found with
      | some start => do
        takeRun sb needed localFrag start now
        pure (some start)
      | none =>
        allocatePartial needed limit now fuel rounds
          (w32 (localFrag + sb.fragsPerBlock))
    else pure none

/-- `if (free_frags > 0)` count a free run of that length. -/
def addFrsum (freeFrags : Nat) : BufOp Unit :=
  if 0 < freeFrags then addBe sb (w32 (CG_FRSUM_OFF + freeFrags * 4)) 4 1
  else pure ()

/-- Take `needed` fragments of the free block at `localFrag`; the others are a
free run. -/
def splitBlock (needed localFrag now : Nat) : BufOp Unit := do
  clearBlockBits sb localFrag needed
  writeBe sb CG_ROTOR_OFF 4 localFrag
  addBe sb CG_CS_NBFREE_OFF 4 (minus 4 1)
  let freeFrags := sb.fragsPerBlock - needed
  addBe sb CG_CS_NFFREE_OFF 4 freeFrags
  addFrsum sb freeFrags
  writeBe sb CG_TIME_OFF 4 now
  moveCylBlocks sb localFrag (minus 4 1) (minus 2 1)

/-- The second loop: a block that is wholly free. -/
def allocateWhole (needed limit now : Nat) :
    (rounds localFrag : Nat) → BufOp Nat
  | 0, _ => throw .unfinished
  | rounds + 1, localFrag =>
    if w32 (localFrag + sb.fragsPerBlock) ≤ limit then do
      let free ← blockIsFree sb localFrag sb.fragsPerBlock
      if free then do
        splitBlock sb needed localFrag now
        pure localFrag
      else
        allocateWhole needed limit now rounds
          (w32 (localFrag + sb.fragsPerBlock))
    else throw (.error .ENOSPC)

/-- The first loop is entered for less than a block, where there are enough
free fragments. -/
def tryPartial (needed limit now fuel nffree : Nat) : BufOp (Option Nat) :=
  if needed < sb.fragsPerBlock ∧ needed ≤ nffree then
    allocatePartial sb needed limit now fuel fuel 0
  else pure none

/-- `nextufs__allocate_frags_in_group`; `fuel` bounds the rounds of its
loops. -/
def allocateFragsInGroup (fuel cg needed now : Nat) : BufOp Nat :=
  if needed = 0 ∨ sb.fragsPerBlock < needed then throw (.error .EINVAL)
  else do
    checkMagic sb
    let limit ← readBe sb CG_NDBLK_OFF 4
    if sb.fragsPerGroup < limit ∨ sb.fragCount < cg * sb.fragsPerGroup + limit ∨
        sb.cgSize < CG_FREE_OFF + w32 (limit + 7) / 8 then
      throw (.error .EINVAL)
    else do
      let nffree ← readBe sb CG_CS_NFFREE_OFF 4
      let found ← tryPartial sb needed limit now fuel nffree
      match found with
      | some start => pure (w32 (cg * sb.fragsPerGroup + start))
      | none => do
        let nbfree ← readBe sb CG_CS_NBFREE_OFF 4
        if nbfree = 0 then throw (.error .ENOSPC)
        else do
          let localFrag ← allocateWhole sb needed limit now fuel 0
          pure (w32 (cg * sb.fragsPerGroup + localFrag))

/-! ## §5. Runs that grow and runs that are freed. -/

/-- `nextufs__extend_fragment_run`. -/
def extendFragmentRun (fragBase oldFrags newFrags now : Nat) : BufOp Unit :=
  if newFrags ≤ oldFrags ∨ sb.fragsPerBlock < newFrags then
    throw (.error .EINVAL)
  else do
    let _cg ← divBy fragBase sb.fragsPerGroup
    let localFrag ← modBy fragBase sb.fragsPerGroup
    let inBlock ← modBy localFrag sb.fragsPerBlock
    if sb.fragsPerBlock < w32 (inBlock + newFrags) then throw (.error .ENOSPC)
    else do
      checkMagic sb
      let addedFrags := newFrags - oldFrags
      let blockFragBase := localFrag - inBlock
      let free ← setRunBits sb (w32 (localFrag + oldFrags)) addedFrags
      if free = false then throw (.error .ENOSPC)
      else do
        let before ← countFreeRuns sb blockFragBase
        clearBlockBits sb (w32 (localFrag + oldFrags)) addedFrags
        let after ← countFreeRuns sb blockFragBase
        applyCgFrsumDelta sb before after
        addBe sb CG_CS_NFFREE_OFF 4 (minus 4 addedFrags)
        writeBe sb CG_TIME_OFF 4 now

/-- The loop of `nextufs__free_fragment_run`. -/
def freeBits (localFrag frags : Nat) : BufOp Unit :=
  (List.range frags).forM fun i => do
    let bit := w32 (localFrag + i)
    let set ← bitSet sb CG_FREE_OFF bit
    if set then throw (.error .EINVAL) else setBit sb CG_FREE_OFF bit

/-- The totals of a freed run, and of the block if it is wholly free now. -/
def countFreed (blockFragBase frags : Nat) (free : Bool) : BufOp Unit :=
  if free then do
    addBe sb CG_CS_NFFREE_OFF 4 (frags + minus 4 sb.fragsPerBlock)
    addBe sb CG_CS_NBFREE_OFF 4 1
    moveCylBlocks sb blockFragBase 1 1
  else addBe sb CG_CS_NFFREE_OFF 4 frags

/-- `nextufs__free_fragment_run`. -/
def freeFragmentRun (fragBase frags now : Nat) : BufOp Unit :=
  if frags = 0 ∨ sb.fragsPerBlock < frags then throw (.error .EINVAL)
  else do
    let _cg ← divBy fragBase sb.fragsPerGroup
    let localFrag ← modBy fragBase sb.fragsPerGroup
    let inBlock ← modBy localFrag sb.fragsPerBlock
    let blockFragBase := localFrag - inBlock
    checkMagic sb
    let before ← countFreeRuns sb blockFragBase
    freeBits sb localFrag frags
    let after ← countFreeRuns sb blockFragBase
    applyCgFrsumDelta sb before after
    let free ← blockIsFree sb blockFragBase sb.fragsPerBlock
    countFreed sb blockFragBase frags free
    writeBe sb CG_TIME_OFF 4 now

end Access

end NextUfs.Bounds
