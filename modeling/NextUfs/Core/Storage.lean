/-
  NextUfs.Core.Storage
  ────────────────────
  **A FILE'S BLOCKS: WRITING, FREEING, READING.**

  The part of `alloc.c` that builds and frees an inode's block tree, and the
  part of `image.c` that reads through it.

    • `allocateDataForInode` — the writer: block by block, a fragment run, a
      pointer to it, then its bytes,
    • `freeFileStorage`      — the data runs by size, then the pointer blocks,
    • `inodeReadData`        — the reader, with its own resolver.

  The writer works on an inode in memory that the caller writes to the inode
  table later, and it leaves that inode changed when it fails; its state is
  `Storing`, the disk with that inode.
-/
import NextUfs.Core.Alloc

namespace NextUfs

open Bits

/-! ## §1. Indirect entries. -/

/-- `nextufs__read_be32`. -/
def readBe32 (p : List UInt8) : Nat :=
  (p.getD 0 0).toNat * 2 ^ 24 + (p.getD 1 0).toNat * 2 ^ 16
    + (p.getD 2 0).toNat * 2 ^ 8 + (p.getD 3 0).toNat

/-- `nextufs__write_be32`. -/
def writeBe32 (v : Nat) : List UInt8 :=
  [UInt8.ofNat (v / 2 ^ 24), UInt8.ofNat (v / 2 ^ 16), UInt8.ofNat (v / 2 ^ 8),
    UInt8.ofNat v]

/-- `nextufs__entries_per_block`. -/
def entriesPerBlock (sb : Superblock) : Nat := sb.blockSize / 4

/-- `nextufs__read_indirect_entry`. -/
def readIndirectEntry (sb : Superblock) (blockFrag entryIndex : Nat) :
    Op Nat :=
  if entriesPerBlock sb ≤ entryIndex then
    throw .EINVAL
  else do
    let raw ← readExact (blockFrag * sb.fragSize + entryIndex * 4) 4
    return readBe32 raw

/-- `nextufs__write_indirect_entry`. -/
def writeIndirectEntry (sb : Superblock)
    (blockFrag entryIndex entryValue : Nat) : Op Unit :=
  if entriesPerBlock sb ≤ entryIndex then
    throw .EINVAL
  else
    writeExact (blockFrag * sb.fragSize + entryIndex * 4)
      (writeBe32 entryValue)

/-- `nextufs__allocate_zeroed_full_block`. -/
def allocateZeroedFullBlock (sb : Superblock) (preferredCg : Nat) :
    Op Nat := do
  let frag ← allocateFullBlockAnycg sb preferredCg
  writeExact (frag * sb.fragSize) (List.replicate sb.blockSize 0)
  return frag

/-- Run `x`; if it fails run `cleanup`, whose own outcome is ignored, and fail
all the same. -/
def orCleanup {σ α : Type} (x : EStateM Errno σ α)
    (cleanup : EStateM Errno σ Unit) : EStateM Errno σ α := fun s =>
  match x s with
  | .ok a s' => .ok a s'
  | .error e s' =>
    match cleanup s' with
    | .ok _ s'' => .error e s''
    | .error _ s'' => .error e s''

/-- The indirect slot of a logical block, counted from the first one that is
not direct, and its index in that slot's tree: the loop over `ib` that the
writer and both resolvers share. -/
def findSlot (entries : Nat) : List (Fin 3) → Nat → Nat → Option (Fin 3 × Nat)
  | [], _, _ => none
  | slot :: rest, span, localIndex =>
    if localIndex < span then some (slot, localIndex)
    else findSlot entries rest (span * entries) (localIndex - span)

/-- The slot of logical block `12 + localIndex`. -/
def indirectSlot (sb : Superblock) (localIndex : Nat) :
    Option (Fin 3 × Nat) :=
  findSlot (entriesPerBlock sb) [0, 1, 2] (entriesPerBlock sb) localIndex

/-! ## §2. The writer. -/

/-- The disk, the inode in memory, and the count of fragments given to it. -/
structure Storing where
  disk : Disk
  ino : Inode
  frags : Nat

/-- An operation on an inode in memory. -/
abbrev Storer := EStateM Errno Storing

/-- An operation on the disk alone. -/
def onDisk {α : Type} (x : Op α) : Storer α := fun s =>
  match x s.disk with
  | .ok a d => .ok a { s with disk := d }
  | .error e d => .error e { s with disk := d }

/-- Add to the count of fragments. -/
def countFrags (n : Nat) : Storer Unit :=
  modify fun s => { s with frags := s.frags + n }

/-- `nextufs__set_indirect_data_block`. -/
def setIndirectDataBlock (sb : Superblock) (preferredCg : Nat) :
    Nat → Nat → Nat → Nat → Storer Unit
  | 0, _, _, _ => throw .EINVAL
  | 1, blockFrag, logicalIndex, dataFrag =>
    onDisk (writeIndirectEntry sb blockFrag logicalIndex dataFrag)
  | level + 2, blockFrag, logicalIndex, dataFrag => do
    let span := entriesPerBlock sb ^ (level + 1)
    let entryIndex := logicalIndex / span
    let nextFrag ← onDisk (readIndirectEntry sb blockFrag entryIndex)
    if nextFrag = 0 then
      let newFrag ← onDisk (allocateZeroedFullBlock sb preferredCg)
      onDisk (orCleanup (writeIndirectEntry sb blockFrag entryIndex newFrag)
        (freeFragmentRun sb newFrag sb.fragsPerBlock))
      countFrags sb.fragsPerBlock
      setIndirectDataBlock sb preferredCg (level + 1) newFrag
        (logicalIndex % span) dataFrag
    else
      setIndirectDataBlock sb preferredCg (level + 1) nextFrag
        (logicalIndex % span) dataFrag

/-- Point slot `slot` of the inode at `frag`. -/
def Inode.setIb (ino : Inode) (slot : Fin 3) (frag : Nat) : Inode :=
  { ino with ib := Function.update ino.ib slot frag }

/-- Point direct block `i` of the inode at `frag`. -/
def Inode.setDb (ino : Inode) (i : Fin 12) (frag : Nat) : Inode :=
  { ino with db := Function.update ino.db i frag }

/-- `nextufs__set_inode_data_block`. -/
def setInodeDataBlock (sb : Superblock) (preferredCg logicalBlock
    dataFrag : Nat) : Storer Unit :=
  if h : logicalBlock < 12 then
    modify fun s => { s with ino := s.ino.setDb ⟨logicalBlock, h⟩ dataFrag }
  else
    match indirectSlot sb (logicalBlock - 12) with
    | none => throw .EFBIG
    | some (slot, localIndex) => do
      let s ← get
      if s.ino.ib slot = 0 then
        let rootFrag ← onDisk (allocateZeroedFullBlock sb preferredCg)
        modify fun s => { s with ino := s.ino.setIb slot rootFrag }
        countFrags sb.fragsPerBlock
        setIndirectDataBlock sb preferredCg (slot + 1) rootFrag localIndex
          dataFrag
      else
        setIndirectDataBlock sb preferredCg (slot + 1) (s.ino.ib slot)
          localIndex dataFrag

/-- Logical blocks of a file of `len` bytes: those that start before its
end. -/
def fileBlocks (sb : Superblock) (len : Nat) : Nat :=
  (len + sb.blockSize - 1) / sb.blockSize

/-- Bytes of a file of `len` bytes in a logical block. -/
def chunkBytes (sb : Superblock) (len logicalBlock : Nat) : Nat :=
  min sb.blockSize (len - logicalBlock * sb.blockSize)

/-- Fragments that hold them: as many as they need among the direct blocks, a
whole block behind them. -/
def fragsNeeded (sb : Superblock) (len logicalBlock : Nat) : Nat :=
  if 12 ≤ logicalBlock then sb.fragsPerBlock
  else (chunkBytes sb len logicalBlock + sb.fragSize - 1) / sb.fragSize

/-- One round of `allocateDataForInode`. -/
def storeBlock (sb : Superblock) (preferredCg : Nat) (data : List UInt8)
    (logicalBlock : Nat) : Storer Unit := do
  let chunk := chunkBytes sb data.length logicalBlock
  let n := fragsNeeded sb data.length logicalBlock
  let allocFrag ← onDisk (allocateFragsAnycg sb preferredCg n)
  orCleanup (setInodeDataBlock sb preferredCg logicalBlock allocFrag)
    (onDisk (freeFragmentRun sb allocFrag n))
  countFrags n
  modify fun s =>
    { s with
      ino :=
        { s.ino with
          size := logicalBlock * sb.blockSize + chunk
          blocks := UInt32.ofNat (s.frags * sb.sectorsPerFrag) } }
  onDisk (writeExact (allocFrag * sb.fragSize)
    ((data.drop (logicalBlock * sb.blockSize)).take chunk
      ++ List.replicate (n * sb.fragSize - chunk) 0))

/-! ## §3. Freeing. -/

/-- `nextufs__resolve_indirect_data_block`.  It is called with levels from 1
on, and stops at 1. -/
def resolveIndirectDataBlock (sb : Superblock) :
    Nat → Nat → Nat → Op Nat
  | 0, blockFrag, _ => if blockFrag = 0 then return 0 else throw .EINVAL
  | level + 1, blockFrag, logicalIndex =>
    if blockFrag = 0 then return 0
    else if level = 0 then readIndirectEntry sb blockFrag logicalIndex
    else do
      let span := entriesPerBlock sb ^ level
      let nextFrag ← readIndirectEntry sb blockFrag (logicalIndex / span)
      resolveIndirectDataBlock sb level nextFrag (logicalIndex % span)

/-- `nextufs__resolve_inode_data_block`. -/
def resolveInodeDataBlock (sb : Superblock) (ino : Inode)
    (logicalBlock : Nat) : Op Nat :=
  if h : logicalBlock < 12 then return ino.db ⟨logicalBlock, h⟩
  else
    match indirectSlot sb (logicalBlock - 12) with
    | none => throw .EFBIG
    | some (slot, localIndex) =>
      resolveIndirectDataBlock sb (slot + 1) (ino.ib slot) localIndex

/-- `nextufs__free_indirect_metadata_tree`. -/
def freeIndirectMetadataTree (sb : Superblock) : Nat → Nat → Op Unit
  | 0, blockFrag =>
    if blockFrag = 0 then return ()
    else freeFragmentRun sb blockFrag sb.fragsPerBlock
  | level + 1, blockFrag =>
    if blockFrag = 0 then return ()
    else do
      if 0 < level then
        (List.range (entriesPerBlock sb)).forM fun i => do
          let childFrag ← readIndirectEntry sb blockFrag i
          if childFrag = 0 then return ()
          else freeIndirectMetadataTree sb level childFrag
      freeFragmentRun sb blockFrag sb.fragsPerBlock

/-- `NEXTUFS_IC_FASTLINK`. -/
def IC_FASTLINK : UInt32 := 1

/-- A symbolic link whose target stands in the inode's pointer area. -/
def isFastLink (ino : Inode) : Bool :=
  ino.mode &&& IFMT == IFLNK && ino.flags &&& IC_FASTLINK != 0

/-- `nextufs__free_file_storage`. -/
def freeFileStorage (sb : Superblock) : Storer Unit := do
  let s ← get
  if isFastLink s.ino then
    set { s with
      ino :=
        { s.ino with
          db := fun _ => 0
          ib := fun _ => 0
          flags := s.ino.flags &&& ~~~IC_FASTLINK
          size := 0
          blocks := 0 } }
  else do
    (List.range (fileBlocks sb s.ino.size)).forM fun logicalBlock => do
      let dataFrag ← onDisk (resolveInodeDataBlock sb s.ino logicalBlock)
      if dataFrag ≠ 0 then
        onDisk (freeFragmentRun sb dataFrag
          (fragsNeeded sb s.ino.size logicalBlock))
    modify fun s => { s with ino := { s.ino with db := fun _ => 0 } }
    [0, 1, 2].forM fun (slot : Fin 3) => do
      onDisk (freeIndirectMetadataTree sb (slot + 1) (s.ino.ib slot))
      modify fun s => { s with ino := s.ino.setIb slot 0 }
    modify fun s => { s with ino := { s.ino with size := 0, blocks := 0 } }

/-- `nextufs__allocate_data_for_inode`. -/
def allocateDataForInode (sb : Superblock) (preferredCg : Nat)
    (data : List UInt8) : Storer Unit :=
  orCleanup
    (do
      (List.range (fileBlocks sb data.length)).forM
        (storeBlock sb preferredCg data)
      modify fun s =>
        { s with
          ino :=
            { s.ino with
              size := data.length
              blocks := UInt32.ofNat (s.frags * sb.sectorsPerFrag) } })
    (freeFileStorage sb)

/-- The writer on a fresh count: the inode it leaves, on success and on
failure. -/
def storeData (sb : Superblock) (preferredCg : Nat) (data : List UInt8)
    (ino : Inode) (d : Disk) : EStateM.Result Errno Storing Unit :=
  allocateDataForInode sb preferredCg data ⟨d, ino, 0⟩

/-! ## §4. The reader. -/

/-- `resolve_indirect_block_frag`. -/
def resolveIndirectBlockFrag (sb : Superblock) : Nat → Nat → Nat → Op Nat
  | 0, _, _ => throw .EINVAL
  | level + 1, blockFrag, logicalIndex =>
    if blockFrag = 0 ∨ entriesPerBlock sb = 0 then throw .EINVAL
    else do
      let span := entriesPerBlock sb ^ level
      match ← attempt
          (readIndirectEntry sb blockFrag (logicalIndex / span)) with
      | .error _ => throw Errno.EIO
      | .ok nextFrag =>
        if level = 0 then return nextFrag
        else if nextFrag = 0 then return 0
        else resolveIndirectBlockFrag sb level nextFrag (logicalIndex % span)

/-- `resolve_file_block_frag`. -/
def resolveFileBlockFrag (sb : Superblock) (ino : Inode)
    (logicalBlockIndex : Nat) : Op Nat :=
  if h : logicalBlockIndex < 12 then return ino.db ⟨logicalBlockIndex, h⟩
  else
    match indirectSlot sb (logicalBlockIndex - 12) with
    | none => throw .EINVAL
    | some (slot, localIndex) =>
      resolveIndirectBlockFrag sb (slot + 1) (ino.ib slot) localIndex

/-- The loop of `inodeReadData`: `remaining` bytes from offset `blockOffset`
of a logical block on.  Every round reads at least one byte, so the bytes
asked for bound the rounds. -/
def readBlocks (sb : Superblock) (ino : Inode) :
    Nat → Nat → Nat → Nat → Op (List UInt8)
  | 0, _, _, _ => return []
  | fuel + 1, logicalBlockIndex, blockOffset, remaining =>
    if remaining = 0 then return []
    else do
      let chunk := min (sb.blockSize - blockOffset) remaining
      let dataFrag ← resolveFileBlockFrag sb ino logicalBlockIndex
      let bytes ←
        if dataFrag = 0 then pure (List.replicate chunk 0)
        else readExact (dataFrag * sb.fragSize + blockOffset) chunk
      let rest ← readBlocks sb ino fuel (logicalBlockIndex + 1) 0
        (remaining - chunk)
      return bytes ++ rest

/-- `nextufs_inode_read_data`: the bytes it puts in the buffer. -/
def inodeReadData (sb : Superblock) (ino : Inode) (start bufSize : Nat) :
    Op (List UInt8) :=
  if ino.size ≤ start then return []
  else
    let remaining := min (ino.size - start) bufSize
    readBlocks sb ino remaining (start / sb.blockSize)
      (start % sb.blockSize) remaining

end NextUfs
