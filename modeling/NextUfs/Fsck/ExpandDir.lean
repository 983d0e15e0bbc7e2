/-
  NextUfs.Fsck.ExpandDir
  ──────────────────────
  **A DIRECTORY THAT GROWS IN THE CHECKER.**

  When a name has no room in a directory, `expanddir` (`dir_repair.c`) puts a
  new block before the last one.  The first chunk of the last block moves to
  the new block; the other chunks of the new block, and the first of the last
  block, become empty.

    • `allocblk`, `freeblk` — blocks taken from the block map and given back,
    • `expanddir`           — the growth,
    • `chunkBlock`, `dirEntries` — a directory as the checker reads it from the
      device,
    • `GoodDir`, `Grown`    — what it is to be before and afterwards.

  `needswap` and the operator's answer are parameters; `preen` answers yes.
-/
import NextUfs.Fsck.DirScanSpec

namespace NextUfs.Fsck

open Window Address

/-! ## §1. The block map. -/

/-- What the repairs of directories work on: the device with the buffer of
directory blocks, `blockmap`, `duplist`, `n_blks`, and whether the block of the
inode is dirty. -/
structure Repair where
  io : DirIo
  blockmap : Nat → Bool
  duplist : List Nat
  nBlks : Int
  inodeDirty : Bool

section Map

variable (sb : Superblock)

/-- The loop over `j`: behind a fragment that is in use the search goes on. -/
def allocIn (blockmap : Nat → Bool) (frags i : Nat) : Nat → Nat → Option Nat
  | 0, _ => none
  | fuel + 1, j =>
    if sb.fragsPerBlock - frags < j then none
    else
      match (List.range frags).find? fun k => blockmap (i + j + k) with
      | some k => allocIn blockmap frags i fuel (j + k + 1)
      | none => some (i + j)

/-- The blocks `i` goes over: `i < fmax - fs_frag`. -/
def allocBlocks : List Nat :=
  (List.range ((sb.fragCount - sb.fragsPerBlock + (sb.fragsPerBlock - 1))
    / sb.fragsPerBlock)).map (· * sb.fragsPerBlock)

/-- `allocblk`; 0 is failure. -/
def allocblk (frags : Nat) (s : Repair) : Nat × Repair :=
  if frags = 0 ∨ sb.fragsPerBlock < frags then (0, s)
  else
    match (allocBlocks sb).findSome? fun i =>
        allocIn sb s.blockmap frags i (sb.fragsPerBlock + 1) 0 with
    | some blk =>
      (blk,
        { s with
          blockmap := fun f => s.blockmap f || decide (blk ≤ f ∧ f < blk + frags)
          nBlks := s.nBlks + frags })
    | none => (0, s)

/-- A fragment on the list of duplicates is taken from it: the first of the list
comes to its place. -/
def dropDup (blkno : Nat) (duplist : List Nat) : Option (List Nat) :=
  if blkno ∈ duplist then some (duplist.replace blkno (duplist.headD 0)).tail
  else none

/-- `pass4check`. -/
def pass4check : Nat → Nat → Repair → Repair
  | 0, _, s => s
  | nfrags + 1, blkno, s =>
    if outrange sb blkno 1 = false ∧ s.blockmap blkno = true then
      match dropDup blkno s.duplist with
      | some duplist => pass4check nfrags (blkno + 1) { s with duplist := duplist }
      | none =>
        pass4check nfrags (blkno + 1)
          { s with
            blockmap := Function.update s.blockmap blkno false
            nBlks := s.nBlks - 1 }
    else pass4check nfrags (blkno + 1) s

/-- `freeblk`. -/
def freeblk (blkno frags : Nat) (s : Repair) : Repair :=
  pass4check sb frags blkno s

end Map

/-! ## §2. The growth. -/

/-- `NDADDR`. -/
def NDADDR : Nat := 12

/-- `emptydir`. -/
def emptydir : Bytes :=
  putLe32 0 ++ putLe16 DIRBLKSIZ ++ putLe16 0 ++ List.replicate 16 0

/-- `emptydir` in chunks 1 to `n`. -/
def emptyChunks : Nat → (Nat → UInt8) → Nat → UInt8
  | 0, buf => buf
  | n + 1, buf => store (emptyChunks n buf) (DIRBLKSIZ * (n + 1)) emptydir

section Expand

variable (sb : Superblock) (needswap yes : Bool)

/-- `lblkno`. -/
def lblkno (size : Nat) : Nat := size / sb.blockSize

/-- `dblksize`. -/
def dblksize (size lbn : Nat) : Nat :=
  if NDADDR ≤ lbn ∨ (lbn + 1) * sb.blockSize ≤ size then sb.blockSize
  else
    (size % sb.blockSize + sb.fragSize - 1) / sb.fragSize * sb.fragSize

/-- `NSPB`. -/
def NSPB : Nat := sb.sectorsPerFrag * sb.fragsPerBlock

namespace Repair

/-- `getblk(&fileblk, blk, size)`. -/
def getblk (blk size : Nat) (s : Repair) : Repair :=
  { s with io := Fsck.getblk sb needswap (BitVec.ofNat 32 blk) size s.io }

/-- `dirblk.b_buf`. -/
def buf (s : Repair) : Nat → UInt8 := s.io.fileblk.buf

/-- Write to `dirblk.b_buf`. -/
def setBuf (s : Repair) (buf : Nat → UInt8) : Repair :=
  { s with io := { s.io with fileblk := { s.io.fileblk with buf := buf } } }

/-- `dirty(&fileblk)`. -/
def dirty (s : Repair) : Repair := { s with io := markDirty s.io }

end Repair

/-- The inode with `newblk` before its last block. -/
def grow (dp : Inode) (newblk : Nat) : Inode :=
  let lastbn := lblkno sb dp.size
  { dp with
    db := Function.update
      (Function.update dp.db (Fin.ofNat 12 (lastbn + 1)) (dp.db (Fin.ofNat 12 lastbn)))
      (Fin.ofNat 12 lastbn) newblk
    size := dp.size + sb.blockSize
    blocks := dp.blocks + UInt32.ofNat (NSPB sb) }

/-- `bad`: the inode `dp`, which has grown, as it was, and the block free. -/
def shrink (dp : Inode) (lastbn newblk : Nat) (s : Repair) :
    Inode × Repair × Bool :=
  ({ dp with
      db := Function.update
        (Function.update dp.db (Fin.ofNat 12 lastbn) (dp.db (Fin.ofNat 12 (lastbn + 1))))
        (Fin.ofNat 12 (lastbn + 1)) 0
      size := dp.size - sb.blockSize
      blocks := dp.blocks - UInt32.ofNat (NSPB sb) },
    freeblk sb newblk sb.fragsPerBlock s, false)

/-- **`expanddir`**: the inode, the state, and whether it has grown. -/
def expanddir (dp : Inode) (s : Repair) : Inode × Repair × Bool :=
  let lastbn := lblkno sb dp.size
  if NDADDR - 1 ≤ lastbn then (dp, s, false)
  else
    let (newblk, s) := allocblk sb sb.fragsPerBlock s
    if newblk = 0 then (dp, s, false)
    else
      let dp := grow sb dp newblk
      let next := dp.db (Fin.ofNat 12 (lastbn + 1))
      let s := s.getblk sb needswap next (dblksize sb dp.size (lastbn + 1))
      if s.io.fileblk.errs ≠ 0 then shrink sb dp lastbn newblk s
      else
        let firstblk := load s.buf 0 DIRBLKSIZ
        let s := s.getblk sb needswap newblk sb.blockSize
        if s.io.fileblk.errs ≠ 0 then shrink sb dp lastbn newblk s
        else
          let s := (s.setBuf (emptyChunks ((sb.blockSize - 1) / DIRBLKSIZ)
            (store s.buf 0 firstblk))).dirty
          let s := s.getblk sb needswap next (dblksize sb dp.size (lastbn + 1))
          if s.io.fileblk.errs ≠ 0 then shrink sb dp lastbn newblk s
          else
            let s := s.setBuf (store s.buf 0 emptydir)
            if yes then (dp, { s.dirty with inodeDirty := true }, true)
            else shrink sb dp lastbn newblk s

end Expand

/-! ## §3. Directories on the device. -/

/-- The entries in use among the records from `lo` to `hi`: inode numbers and
names. -/
def liveFrom (buf : Nat → UInt8) (hi : Nat) : Nat → Nat → List (Nat × Bytes)
  | 0, _ => []
  | fuel + 1, lo =>
    if hi ≤ lo then []
    else
      (if dIno buf lo = 0 then []
        else [(dIno buf lo, load buf (lo + 8) (dNamlen buf lo))])
        ++ liveFrom buf hi fuel (lo + dReclen buf lo)

/-- The entries in use of the chunk at `t`. -/
def liveEntries (buf : Nat → UInt8) (t : Nat) : List (Nat × Bytes) :=
  liveFrom buf (t + DIRBLKSIZ) DIRBLKSIZ t

/-- The chunk at `t` of a block of the device, in the order of the host. -/
def chunkView (needswap : Bool) (block : Nat → UInt8) (t : Nat) : Nat → UInt8 :=
  if needswap then swapRange false t (t + DIRBLKSIZ) block else block

/-- **A chunk on the device** whose lengths tile it and whose records are
good. -/
structure GoodChunk (imax : Nat) (needswap : Bool) (block : Nat → UInt8) (t : Nat) :
    Prop where
  tiled : needswap = true → TiledBy false block t (t + DIRBLKSIZ)
  records : ValidRecords imax (chunkView needswap block t) t (t + DIRBLKSIZ)

section Directory

variable (sb : Superblock) (needswap : Bool) (d : Device) (dp : Inode)

/-- Chunks of a block. -/
def blockChunks : Nat := sb.blockSize / DIRBLKSIZ

/-- The block of chunk `c` of a directory, -/
def chunkBlock (c : Nat) : Nat → UInt8 :=
  d.block sb (BitVec.ofNat 32 (dp.db (Fin.ofNat 12 (c / blockChunks sb))))

/-- and where the chunk starts in it. -/
def chunkStart (c : Nat) : Nat := DIRBLKSIZ * (c % blockChunks sb)

/-- The entries in use of chunk `c`. -/
def chunkEntries (c : Nat) : List (Nat × Bytes) :=
  liveEntries (chunkView needswap (chunkBlock sb d dp c) (chunkStart sb c))
    (chunkStart sb c)

/-- **The entries of a directory.** -/
def dirEntries : List (Nat × Bytes) :=
  (List.range (dp.size / DIRBLKSIZ)).flatMap (chunkEntries sb needswap d dp)

/-- Fragments of a directory's block. -/
def heldFrags (size lbn : Nat) : Nat := dblksize sb size lbn / sb.fragSize

/-- **The size, the block pointers and the block map agree**: there is a pointer
for each block the size needs and for no other one, to fragments of the disk
that are in use, no two blocks share a fragment, and `di_blocks` counts them. -/
structure PointersAgree (blockmap : Nat → Bool) : Prop where
  held : ∀ i : Fin 12, i * sb.blockSize < dp.size → dp.db i ≠ 0 ∧
    dp.db i + heldFrags sb dp.size i ≤ sb.fragCount ∧
    ∀ k < heldFrags sb dp.size i, blockmap (dp.db i + k) = true
  spare : ∀ i : Fin 12, dp.size ≤ i * sb.blockSize → dp.db i = 0
  apart : ∀ i j : Fin 12, i ≠ j → i * sb.blockSize < dp.size →
    j * sb.blockSize < dp.size → ∀ k < heldFrags sb dp.size i,
      ∀ l < heldFrags sb dp.size j, dp.db i + k ≠ dp.db j + l
  blocks : dp.blocks = UInt32.ofNat (sb.sectorsPerFrag *
    (dp.size / sb.blockSize * sb.fragsPerBlock
      + (dp.size % sb.blockSize + sb.fragSize - 1) / sb.fragSize))

/-- **A well-formed directory** that has room for another direct pointer. -/
structure GoodDir (imax : Nat) (blockmap : Nat → Bool) : Prop where
  size_pos : 0 < dp.size
  size_chunks : DIRBLKSIZ ∣ dp.size
  room : lblkno sb dp.size < NDADDR - 1
  pointers : PointersAgree sb dp blockmap
  chunks : ∀ c < dp.size / DIRBLKSIZ,
    GoodChunk imax needswap (chunkBlock sb d dp c) (chunkStart sb c)

/-- The first chunk that growing adds: behind the chunk that moves, or behind
the last block when it is full. -/
def firstAdded : Nat :=
  lblkno sb dp.size * blockChunks sb + if dp.size % sb.blockSize = 0 then 0 else 1

end Directory

/-- **A directory that has grown** from `dp` on `d`, with block map `m`, to `dp'`
on `d'`, with `m'`: the entries are the same, every chunk is good, the chunks
that are new hold no entry, it is one block larger, and its pointers agree with
the block map, which has changed by one block that was free. -/
structure Grown (sb : Superblock) (needswap : Bool) (imax : Nat) (d d' : Device)
    (m m' : Nat → Bool) (dp dp' : Inode) : Prop where
  entries : dirEntries sb needswap d' dp' = dirEntries sb needswap d dp
  chunks : ∀ c < dp'.size / DIRBLKSIZ,
    GoodChunk imax needswap (chunkBlock sb d' dp' c) (chunkStart sb c)
  added : ∀ k < blockChunks sb,
    chunkEntries sb needswap d' dp' (firstAdded sb dp + k) = []
  size : dp'.size = dp.size + sb.blockSize
  pointers : PointersAgree sb dp' m'
  map : ∃ newblk, (∀ k < sb.fragsPerBlock, m (newblk + k) = false) ∧
    ∀ f, m' f = (m f || decide (newblk ≤ f ∧ f < newblk + sb.fragsPerBlock))

end NextUfs.Fsck
