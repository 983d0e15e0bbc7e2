/-
  NextUfs.Core.Alloc
  ──────────────────
  **THE ALLOCATOR OF `alloc.c`.**

  Every function that changes a cylinder group has one shape: read the group,
  check its magic number, compute a new group and a summary delta, write the
  group, add the delta to the superblock totals and to the group's summary
  entry.  `updateGroup` is that shape; the functions of the source are its
  instances, each with its own pure group step:

    • `allocateInodeInGroup` / `freeInodeInGroup`   — the inode bitmap,
    • `allocateFragsInGroup`, `allocateFragsAnycg`  — fragment runs,
    • `extendFragmentRun`, `freeFragmentRun`,
    • `reallocateFragmentRun`                       — allocate, copy, free.

  Loops over bit positions are searches over `List.range`; the counting loop
  `countFreeRunsInBlock` keeps its own control flow, with its bound as fuel.
-/
import NextUfs.Lib.Runs
import NextUfs.Core.Layout

namespace NextUfs

open Bits

/-! ## §1. The shape of a group operation. -/

/-- What a group operation that succeeds computes. -/
structure GroupUpdate (α : Type) where
  cg : Cg
  delta : Csum
  result : α

/-- Read group `c`, check its magic number, apply `f`, write the group back
and add the delta to the summaries. -/
def updateGroup {α : Type} (c : Nat)
    (f : UInt32 → Cg → Except Errno (GroupUpdate α)) : Op α := do
  let d ← get
  if (d.cgs c).magic ≠ CG_MAGIC then
    throw .EINVAL
  else
    match f d.clock (d.cgs c) with
    | .error e => throw e
    | .ok u =>
      set { d with cgs := Function.update d.cgs c u.cg }
      updateSummaryCounts c u.delta
      return u.result

/-! ## §2. Inodes. -/

/-- The directory count an inode of this mode adds. -/
def dirDelta (mode : UInt16) : UInt32 :=
  if isDirMode mode then 1 else 0

/-- Group step of `allocateInodeInGroup`: the first unused inode from the
rotor on, wrapping. -/
def claimInode (sb : Superblock) (mode : UInt16) (now : UInt32) (cg : Cg) :
    Except Errno (GroupUpdate Nat) :=
  if cg.cs.nifree = 0 then
    .error .ENOSPC
  else
    let start := if sb.inodesPerGroup ≤ cg.irotor then 0 else cg.irotor
    match (List.range sb.inodesPerGroup).find? fun i =>
        !cg.iused ((start + i) % sb.inodesPerGroup) with
    | none => .error .ENOSPC
    | some i =>
      let ipref := (start + i) % sb.inodesPerGroup
      .ok
        { cg :=
            { cg with
              iused := Function.update cg.iused ipref true
              irotor := ipref
              time := now
              cs :=
                { cg.cs with
                  nifree := cg.cs.nifree - 1
                  ndir := cg.cs.ndir + dirDelta mode } }
          delta := ⟨dirDelta mode, 0, -1, 0⟩
          result := ipref }

/-- `nextufs__allocate_inode_in_group`. -/
def allocateInodeInGroup (sb : Superblock) (c : Nat) (mode : UInt16) :
    Op Nat := do
  let ipref ← updateGroup c (claimInode sb mode)
  return c * sb.inodesPerGroup + ipref

/-- Group step of `freeInodeInGroup`. -/
def releaseInode (localIno : Nat) (mode : UInt16) (now : UInt32) (cg : Cg) :
    Except Errno (GroupUpdate Unit) :=
  if cg.iused localIno = false then
    .error .EINVAL
  else
    .ok
      { cg :=
          { cg with
            iused := Function.update cg.iused localIno false
            time := now
            cs :=
              { cg.cs with
                nifree := cg.cs.nifree + 1
                ndir := cg.cs.ndir - dirDelta mode } }
        delta := ⟨-dirDelta mode, 0, 1, 0⟩
        result := () }

/-- `nextufs__free_inode_in_group`. -/
def freeInodeInGroup (sb : Superblock) (inodeNo : Nat) (mode : UInt16) :
    Op Unit :=
  updateGroup (inodeNo / sb.inodesPerGroup)
    (releaseInode (inodeNo % sb.inodesPerGroup) mode)

/-! ## §3. Free runs of a block. -/

/-- `nextufs__block_is_free`. -/
def blockIsFree (freeMap : Nat → Bool) (fragBase frags : Nat) : Bool :=
  allSet freeMap fragBase frags

/-- `nextufs__set_run_bits`. -/
def setRunBits (freeMap : Nat → Bool) (fragBase frags : Nat) : Bool :=
  allSet freeMap fragBase frags

/-- `nextufs__clear_block_bits`. -/
def clearBlockBits (freeMap : Nat → Bool) (fragBase frags : Nat) :
    Nat → Bool :=
  clearRange freeMap fragBase frags

/-- The loop of `countFreeRunsInBlock` from position `i`; every round moves
`i` forward, so the block size bounds the rounds. -/
def countFreeRunsLoop (freeMap : Nat → Bool) (base fragsPerBlock : Nat) :
    Nat → Nat → (Nat → Nat) → (Nat → Nat)
  | 0, _, counts => counts
  | fuel + 1, i, counts =>
    if i < fragsPerBlock then
      let run := runLen freeMap (base + i) (fragsPerBlock - i)
      let counts :=
        if 0 < run ∧ run < fragsPerBlock then
          Function.update counts run (counts run + 1)
        else counts
      countFreeRunsLoop freeMap base fragsPerBlock fuel
        (i + if 0 < run then run else 1) counts
    else counts

/-- `nextufs__count_free_runs_in_block`: how many free runs of each length
shorter than a block the block has. -/
def countFreeRunsInBlock (freeMap : Nat → Bool) (base fragsPerBlock : Nat) :
    Nat → Nat :=
  countFreeRunsLoop freeMap base fragsPerBlock fragsPerBlock 0 fun _ => 0

/-- `nextufs__apply_cg_frsum_delta`. -/
def applyCgFrsumDelta (frsum : Nat → UInt32) (before after : Nat → Nat)
    (fragsPerBlock : Nat) : Nat → UInt32 := fun i =>
  if 1 ≤ i ∧ i < fragsPerBlock then
    frsum i + (UInt32.ofNat (after i) - UInt32.ofNat (before i))
  else frsum i

/-- A group's `frsum` after the bits of the block at `base` changed. -/
def frsumAfter (sb : Superblock) (cg : Cg) (base : Nat)
    (freeMap : Nat → Bool) : Nat → UInt32 :=
  applyCgFrsumDelta cg.frsum
    (countFreeRunsInBlock cg.free base sb.fragsPerBlock)
    (countFreeRunsInBlock freeMap base sb.fragsPerBlock) sb.fragsPerBlock

/-- Move the block counts of the cylinder and rotational position of the
block at `localFrag`, where the tables have room for them. -/
def moveCylBlocks (sb : Superblock) (localFrag : Nat) (d32 : UInt32)
    (d16 : UInt16) (cg : Cg) : Cg :=
  let cyl := cylno sb localFrag
  let pos := rotpos sb localFrag
  if cyl < MAXCPG ∧ pos < NRPOS then
    { cg with
      btot := Function.update cg.btot cyl (cg.btot cyl + d32)
      b := Function.update cg.b cyl
        (Function.update (cg.b cyl) pos (cg.b cyl pos + d16)) }
  else cg

/-! ## §4. Allocation of a fragment run. -/

/-- First run of `n` free fragments inside a block that is not wholly free:
the block's first fragment and the run's. -/
def findPartialRun (sb : Superblock) (cg : Cg) (n : Nat) :
    Option (Nat × Nat) :=
  (List.range ((cg.ndblk + sb.fragsPerBlock - 1) / sb.fragsPerBlock)).findSome?
    fun k =>
      let localFrag := k * sb.fragsPerBlock
      let endFrag := min (localFrag + sb.fragsPerBlock) cg.ndblk
      if endFrag - localFrag = sb.fragsPerBlock ∧
          blockIsFree cg.free localFrag sb.fragsPerBlock then
        none
      else
        ((List.range (endFrag + 1 - (localFrag + n))).find? fun j =>
          setRunBits cg.free (localFrag + j) n).map
            fun j => (localFrag, localFrag + j)

/-- First wholly free block that lies inside the group. -/
def findFreeBlock (sb : Superblock) (cg : Cg) : Option Nat :=
  ((List.range (cg.ndblk / sb.fragsPerBlock)).find? fun k =>
    blockIsFree cg.free (k * sb.fragsPerBlock) sb.fragsPerBlock).map
      (· * sb.fragsPerBlock)

/-- Take `n` fragments at `start` out of the partly free block at `base`. -/
def takePartialRun (sb : Superblock) (n base start : Nat) (now : UInt32)
    (cg : Cg) : GroupUpdate Nat :=
  let freeMap := clearBlockBits cg.free start n
  { cg :=
      { cg with
        free := freeMap
        frsum := frsumAfter sb cg base freeMap
        cs := { cg.cs with nffree := cg.cs.nffree - UInt32.ofNat n }
        time := now }
    delta := ⟨0, 0, 0, -UInt32.ofNat n⟩
    result := start }

/-- Take the first `n` fragments of the wholly free block at `localFrag`. -/
def splitFreeBlock (sb : Superblock) (n localFrag : Nat) (now : UInt32)
    (cg : Cg) : GroupUpdate Nat :=
  let freeFrags := sb.fragsPerBlock - n
  { cg := moveCylBlocks sb localFrag (-1) (-1)
      { cg with
        free := clearBlockBits cg.free localFrag n
        rotor := localFrag
        cs :=
          { cg.cs with
            nbfree := cg.cs.nbfree - 1
            nffree := cg.cs.nffree + UInt32.ofNat freeFrags }
        frsum :=
          if 0 < freeFrags then
            Function.update cg.frsum freeFrags (cg.frsum freeFrags + 1)
          else cg.frsum
        time := now }
    delta := ⟨0, -1, 0, UInt32.ofNat freeFrags⟩
    result := localFrag }

/-- The group's fragment count is one the bitmap and the disk have room
for. -/
def limitOk (sb : Superblock) (c : Nat) (cg : Cg) : Prop :=
  cg.ndblk ≤ sb.fragsPerGroup ∧
    c * sb.fragsPerGroup + cg.ndblk ≤ sb.fragCount ∧
    CG_FREE_OFF + (cg.ndblk + 7) / 8 ≤ sb.cgSize

instance (sb : Superblock) (c : Nat) (cg : Cg) :
    Decidable (limitOk sb c cg) := by
  unfold limitOk
  infer_instance

/-- Group step of `allocateFragsInGroup`: a partly free block first, then a
wholly free one. -/
def claimFrags (sb : Superblock) (c n : Nat) (now : UInt32) (cg : Cg) :
    Except Errno (GroupUpdate Nat) :=
  if ¬limitOk sb c cg then
    .error .EINVAL
  else
    match if n < sb.fragsPerBlock ∧ n ≤ cg.cs.nffree.toNat then
        findPartialRun sb cg n else none with
    | some (base, start) => .ok (takePartialRun sb n base start now cg)
    | none =>
      if cg.cs.nbfree = 0 then
        .error .ENOSPC
      else
        match findFreeBlock sb cg with
        | some localFrag => .ok (splitFreeBlock sb n localFrag now cg)
        | none => .error .ENOSPC

/-- `nextufs__allocate_frags_in_group`. -/
def allocateFragsInGroup (sb : Superblock) (c n : Nat) : Op Nat :=
  if n = 0 ∨ sb.fragsPerBlock < n then
    throw .EINVAL
  else do
    let start ← updateGroup c (claimFrags sb c n)
    return c * sb.fragsPerGroup + start

/-- The groups still to be tried, by their distance from the preferred
one. -/
def allocateFragsLoop (sb : Superblock) (preferredCg n : Nat) :
    List Nat → Op Nat
  | [] => throw .ENOSPC
  | i :: rest => do
    match ← attempt
        (allocateFragsInGroup sb ((preferredCg + i) % sb.cgCount) n) with
    | .ok frag => return frag
    | .error .ENOSPC => allocateFragsLoop sb preferredCg n rest
    | .error e => throw e

/-- `nextufs__allocate_frags_anycg`. -/
def allocateFragsAnycg (sb : Superblock) (preferredCg n : Nat) : Op Nat :=
  allocateFragsLoop sb preferredCg n (List.range sb.cgCount)

/-- `nextufs__allocate_full_block_anycg`. -/
def allocateFullBlockAnycg (sb : Superblock) (preferredCg : Nat) : Op Nat :=
  allocateFragsAnycg sb preferredCg sb.fragsPerBlock

/-! ## §5. Extending, freeing and moving a run. -/

/-- First fragment of the block that holds `localFrag`. -/
def blockBase (sb : Superblock) (localFrag : Nat) : Nat :=
  localFrag - localFrag % sb.fragsPerBlock

/-- Group step of `extendFragmentRun`. -/
def growRun (sb : Superblock) (localFrag oldFrags newFrags : Nat)
    (now : UInt32) (cg : Cg) : Except Errno (GroupUpdate Unit) :=
  let added := newFrags - oldFrags
  if setRunBits cg.free (localFrag + oldFrags) added = false then
    .error .ENOSPC
  else
    let freeMap := clearBlockBits cg.free (localFrag + oldFrags) added
    .ok
      { cg :=
          { cg with
            free := freeMap
            frsum := frsumAfter sb cg (blockBase sb localFrag) freeMap
            cs := { cg.cs with nffree := cg.cs.nffree - UInt32.ofNat added }
            time := now }
        delta := ⟨0, 0, 0, -UInt32.ofNat added⟩
        result := () }

/-- `nextufs__extend_fragment_run`. -/
def extendFragmentRun (sb : Superblock) (fragBase oldFrags newFrags : Nat) :
    Op Unit :=
  let localFrag := fragBase % sb.fragsPerGroup
  if newFrags ≤ oldFrags ∨ sb.fragsPerBlock < newFrags then
    throw .EINVAL
  else if sb.fragsPerBlock < localFrag % sb.fragsPerBlock + newFrags then
    throw .ENOSPC
  else
    updateGroup (fragBase / sb.fragsPerGroup)
      (growRun sb localFrag oldFrags newFrags)

/-- Group step of `freeFragmentRun`: a fragment that is already free is an
error; a block that becomes wholly free moves from the fragment counts to the
block counts. -/
def releaseRun (sb : Superblock) (localFrag frags : Nat) (now : UInt32)
    (cg : Cg) : Except Errno (GroupUpdate Unit) :=
  if (List.range frags).any fun i => cg.free (localFrag + i) then
    .error .EINVAL
  else
    let base := blockBase sb localFrag
    let freeMap := setRange cg.free localFrag frags
    let cg' :=
      { cg with
        free := freeMap
        frsum := frsumAfter sb cg base freeMap
        time := now }
    let n := UInt32.ofNat frags
    let fpb := UInt32.ofNat sb.fragsPerBlock
    if blockIsFree freeMap base sb.fragsPerBlock then
      .ok
        { cg := moveCylBlocks sb base 1 1
            { cg' with
              cs :=
                { cg.cs with
                  nffree := cg.cs.nffree + n - fpb
                  nbfree := cg.cs.nbfree + 1 } }
          delta := ⟨0, 1, 0, n - fpb⟩
          result := () }
    else
      .ok
        { cg := { cg' with cs := { cg.cs with nffree := cg.cs.nffree + n } }
          delta := ⟨0, 0, 0, n⟩
          result := () }

/-- `nextufs__free_fragment_run`. -/
def freeFragmentRun (sb : Superblock) (fragBase frags : Nat) : Op Unit :=
  if frags = 0 ∨ sb.fragsPerBlock < frags then
    throw .EINVAL
  else
    updateGroup (fragBase / sb.fragsPerGroup)
      (releaseRun sb (fragBase % sb.fragsPerGroup) frags)

/-- Bytes `[off, off + n)` of the data area. -/
def Disk.read (d : Disk) (off n : Nat) : List UInt8 :=
  (List.range n).map fun i => d.data (off + i)

/-- The disk with `bytes` written at `off`. -/
def Disk.write (d : Disk) (off : Nat) (bytes : List UInt8) : Disk :=
  { d with
    data := fun i =>
      if off ≤ i ∧ i < off + bytes.length then bytes.getD (i - off) 0
      else d.data i }

/-- `nextufs__read_exact` in the data area. -/
def readExact (off n : Nat) : Op (List UInt8) := do
  return (← get).read off n

/-- `nextufs__write_exact` in the data area. -/
def writeExact (off : Nat) (bytes : List UInt8) : Op Unit :=
  modify fun d => d.write off bytes

/-- `nextufs__reallocate_fragment_run`: the old run's bytes, padded with
zeros, move to a new run and the old one is freed.  The callers pass
`oldFrags < newFrags`. -/
def reallocateFragmentRun (sb : Superblock)
    (oldFrag oldFrags newFrags preferredCg : Nat) : Op Nat := do
  let oldBytes := oldFrags * sb.fragSize
  let newBytes := newFrags * sb.fragSize
  let tmp ← readExact (oldFrag * sb.fragSize) oldBytes
  let newFrag ← allocateFragsAnycg sb preferredCg newFrags
  writeExact (newFrag * sb.fragSize)
    ((tmp ++ List.replicate (newBytes - oldBytes) 0).take newBytes)
  freeFragmentRun sb oldFrag oldFrags
  return newFrag

end NextUfs
