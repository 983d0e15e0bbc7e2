/-
  NextUfs.Mutate.DirGrowth
  ────────────────────────
  **A DIRECTORY GROWS BY ONE CHUNK.**

  `growDirectoryByDirblk` makes room for `DIRBLKSIZ` bytes behind a directory:
  in the fragment that holds its end, in a fragment behind it, in a longer run
  elsewhere, or in a new block.  All four are one growth of one run.

    • `GoodDir`             — a directory in order on a disk in order,
    • `OrderedDir`          — the same of a directory of any length,
    • `growTail_grown`      — a run that holds the end of a directory grows,
    • `growDirectory_ok`    — so does the storage of the directory,
    • `Growing.owned`, `Growing.sectors`, `Growing.runs` — what it claims then,
      and where its blocks are.
-/
import NextUfs.Core.RunGrowth
import NextUfs.Core.StoredBlocks
import NextUfs.Core.StoreFailure
import NextUfs.Core.Holes
import NextUfs.Mutate.DirBlocks
import NextUfs.Mutate.PlaceSpec

namespace NextUfs

open Bits Radix State

/-! ## §1. Directories in order. -/

/-- Geometry of a disk with directories: a fragment is a number of chunks. -/
structure DirGeometry (sb : Superblock) : Prop extends SpaceGeometry sb where
  dirblk : DIRBLKSIZ ∣ sb.fragSize
  inodesPerBlock_pos : 0 < sb.inodesPerBlock

/-- Fragments an inode claims. -/
def claimedFrags (sb : Superblock) (d : Disk) (ino : Inode) : Nat :=
  ∑ f ∈ Finset.range sb.fragCount, blockClaims sb d ino f

/-- Every chunk of a directory is well formed. -/
def WellChunks (sb : Superblock) (d : Disk) (dirino : Inode) : Prop :=
  ∀ x ∈ dirPlaces sb dirino.size, ∃ es, WellChunk (dirChunk sb d dirino x) es

/-- **A directory in order**, of at most twelve blocks, on a disk in order:
free space is counted, every fragment has one owner, the block count is what
the directory claims, its runs do not cross blocks, and its chunks are well
formed. -/
structure GoodDir (sb : Superblock) (live : Finset Nat)
    (modes : Nat → UInt16) (d : Disk) (dirnode : Node) : Prop where
  space : FreeSpace sb modes d
  owned : FragsOwned sb live d
  mem : dirnode.inodeNo ∈ live
  current : d.inodes dirnode.inodeNo = dirnode.inode
  isDir : nodeIsDir dirnode = true
  short : fileBlocks sb dirnode.inode.size ≤ 12
  runs : ∀ lb < fileBlocks sb dirnode.inode.size,
    RunFits sb (blockAt sb d dirnode.inode lb)
      (fragsNeeded sb dirnode.inode.size lb)
  sectors : dirnode.inode.blocks
    = UInt32.ofNat (claimedFrags sb d dirnode.inode * sb.sectorsPerFrag)
  chunks : WellChunks sb d dirnode.inode

/-- **A directory in order, of any length**, on a disk in order. -/
structure OrderedDir (sb : Superblock) (live : Finset Nat)
    (modes : Nat → UInt16) (d : Disk) (dirnode : Node) : Prop where
  space : FreeSpace sb modes d
  owned : FragsOwned sb live d
  mem : dirnode.inodeNo ∈ live
  current : d.inodes dirnode.inodeNo = dirnode.inode
  isDir : nodeIsDir dirnode = true
  runs : ∀ lb < fileBlocks sb dirnode.inode.size,
    RunFits sb (blockAt sb d dirnode.inode lb)
      (fragsNeeded sb dirnode.inode.size lb)
  sectors : dirnode.inode.blocks
    = UInt32.ofNat (claimedFrags sb d dirnode.inode * sb.sectorsPerFrag)
  chunks : WellChunks sb d dirnode.inode

section Good

variable {sb : Superblock} {live : Finset Nat} {modes : Nat → UInt16}
  {d d' : Disk} {dirnode : Node} {k : Nat}

theorem GoodDir.ordered (h : GoodDir sb live modes d dirnode) :
    OrderedDir sb live modes d dirnode :=
  ⟨h.space, h.owned, h.mem, h.current, h.isDir, h.runs, h.sectors, h.chunks⟩

theorem OrderedDir.good (h : OrderedDir sb live modes d dirnode)
    (hshort : fileBlocks sb dirnode.inode.size ≤ 12) :
    GoodDir sb live modes d dirnode :=
  ⟨h.space, h.owned, h.mem, h.current, h.isDir, hshort, h.runs, h.sectors,
    h.chunks⟩

theorem WellChunks.partitioned {dirino : Inode}
    (h : WellChunks sb d dirino) : DirPartitioned sb d dirino := by
  intro x hx
  obtain ⟨es, hes⟩ := h x hx
  exact ⟨es, hes.partitioned⟩

theorem DirGeometry.hasInodes (h : DirGeometry sb) : hasInodes sb := by
  have hipg := h.inodesPerGroup_pos
  have hfpg := h.fragsPerGroup_pos
  have hipb := h.inodesPerBlock_pos
  exact ⟨by omega, by omega, by omega⟩

/-- A directory stores blocks. -/
theorem storesBlocks_of_dir {ino : Inode} (h : isDirMode ino.mode = true) :
    storesBlocks ino = true := by
  have hmode : ino.mode &&& IFMT = IFDIR := by
    unfold isDirMode at h
    exact eq_of_beq h
  have hlink : (IFDIR == IFLNK) = false := by decide
  unfold storesBlocks isFastLink
  rw [hmode, hlink, Bool.false_and]
  decide

theorem OrderedDir.inodeClaims (h : OrderedDir sb live modes d dirnode)
    (f : Nat) :
    NextUfs.inodeClaims sb d (d.inodes dirnode.inodeNo) f
      = blockClaims sb d dirnode.inode f := by
  unfold NextUfs.inodeClaims
  rw [h.current, if_pos (storesBlocks_of_dir h.isDir)]

/-- What the directory claims is not free and claimed once. -/
theorem OrderedDir.claimed_le (h : OrderedDir sb live modes d dirnode)
    (f : Nat) :
    freeAt sb d f + reservedAt sb f + blockClaims sb d dirnode.inode f
      ≤ 1 := by
  have hle := h.owned.sum_le f
  have hsingle := Finset.single_le_sum
    (f := fun m => NextUfs.inodeClaims sb d (d.inodes m) f)
    (fun _ _ => Nat.zero_le _) h.mem
  have heq := h.inodeClaims f
  have hsingle' : NextUfs.inodeClaims sb d (d.inodes dirnode.inodeNo) f
      ≤ ∑ m ∈ live, NextUfs.inodeClaims sb d (d.inodes m) f := hsingle
  omega

/-- The directory claims every fragment at most once. -/
theorem OrderedDir.once (h : OrderedDir sb live modes d dirnode) (f : Nat) :
    blockClaims sb d dirnode.inode f ≤ 1 := by
  have hle := h.claimed_le f
  omega

theorem GoodDir.inodeClaims (h : GoodDir sb live modes d dirnode) (f : Nat) :
    NextUfs.inodeClaims sb d (d.inodes dirnode.inodeNo) f
      = blockClaims sb d dirnode.inode f :=
  h.ordered.inodeClaims f

theorem GoodDir.claimed_le (h : GoodDir sb live modes d dirnode) (f : Nat) :
    freeAt sb d f + reservedAt sb f + blockClaims sb d dirnode.inode f
      ≤ 1 :=
  h.ordered.claimed_le f

/-- Every block of the directory has a direct pointer. -/
theorem GoodDir.direct (hgeo : DirGeometry sb)
    (h : GoodDir sb live modes d dirnode)
    (hk : k < fileBlocks sb dirnode.inode.size) :
    ∃ hk' : k < 12, blockAt sb d dirnode.inode k = dirnode.inode.db ⟨k, hk'⟩ ∧
      blockAt sb d dirnode.inode k ≠ 0 := by
  have hk' : k < 12 := Nat.lt_of_lt_of_le hk h.short
  have hblock : blockAt sb d dirnode.inode k = dirnode.inode.db ⟨k, hk'⟩ :=
    dif_pos hk'
  refine ⟨hk', hblock, ?_⟩
  rw [hblock]
  exact h.chunks.partitioned.db_ne_zero hgeo.blockSize_pos hk' hk

end Good

/-! ## §2. Sizes. -/

/-- Fragments that hold the first `r` bytes of a block. -/
def endFrags (sb : Superblock) (r : Nat) : Nat :=
  (r + sb.fragSize - 1) / sb.fragSize

section Sizes

variable {sb : Superblock} {k r lb : Nat}

/-- A block is a number of chunks. -/
theorem DirGeometry.blockSize_chunks (hgeo : DirGeometry sb) :
    ∃ q, 0 < q ∧ sb.blockSize = q * DIRBLKSIZ := by
  obtain ⟨p, hp⟩ := hgeo.dirblk
  have hpos := hgeo.blockSize_pos
  have hblock : sb.blockSize = sb.fragsPerBlock * p * DIRBLKSIZ := by
    rw [hgeo.blockSize_eq, hp, Nat.mul_comm DIRBLKSIZ, Nat.mul_assoc]
  refine ⟨_, Nat.pos_of_ne_zero fun hzero => ?_, hblock⟩
  rw [hblock, hzero] at hpos
  omega

theorem endFrags_mono {r' : Nat} (h : r ≤ r') :
    endFrags sb r ≤ endFrags sb r' :=
  Nat.div_le_div_right (by omega)

theorem endFrags_zero (hgeo : DirGeometry sb) : endFrags sb 0 = 0 := by
  have hfs := hgeo.fragSize_pos
  unfold endFrags
  exact Nat.div_eq_of_lt (by omega)

/-- A chunk needs one fragment. -/
theorem endFrags_chunk (hgeo : DirGeometry sb) :
    endFrags sb DIRBLKSIZ = 1 := by
  have hfs := hgeo.fragSize_pos
  have hge := Nat.le_of_dvd hfs hgeo.dirblk
  unfold endFrags
  unfold DIRBLKSIZ at hge ⊢
  rw [show 1024 + sb.fragSize - 1 = 1023 + 1 * sb.fragSize by omega,
    Nat.add_mul_div_right _ _ hfs, Nat.div_eq_of_lt (by omega)]

/-- Blocks before the last one are full. -/
theorem chunkBytes_before (hlb : lb < k) :
    chunkBytes sb (k * sb.blockSize + r) lb = sb.blockSize := by
  have hle := Nat.mul_le_mul_right sb.blockSize (Nat.succ_le_of_lt hlb)
  rw [Nat.succ_mul] at hle
  unfold chunkBytes
  omega

theorem chunkBytes_last (hr : r ≤ sb.blockSize) :
    chunkBytes sb (k * sb.blockSize + r) k = r := by
  unfold chunkBytes
  omega

theorem fragsNeeded_last (hk : k < 12) (hr : r ≤ sb.blockSize) :
    fragsNeeded sb (k * sb.blockSize + r) k = endFrags sb r := by
  unfold fragsNeeded endFrags
  rw [if_neg (by omega), chunkBytes_last hr]

/-- Blocks of a file that ends in block `k`, or before it. -/
theorem fileBlocks_end (hr : 0 < r) (hle : r ≤ sb.blockSize) :
    fileBlocks sb (k * sb.blockSize + r) = k + 1 := by
  unfold fileBlocks
  rw [show k * sb.blockSize + r + sb.blockSize - 1
    = k * sb.blockSize + sb.blockSize + (r - 1) by omega, ← Nat.succ_mul]
  exact (block_div_mod (by omega)).1

theorem fileBlocks_full (hbs : 0 < sb.blockSize) :
    fileBlocks sb (k * sb.blockSize) = k := by
  unfold fileBlocks
  rw [Nat.add_sub_assoc hbs]
  exact (block_div_mod (by omega)).1

/-- The chunks of a directory of `k` full blocks and `m` chunks. -/
theorem dirPlaces_eq {q m : Nat} (hq : 0 < q)
    (hblock : sb.blockSize = q * DIRBLKSIZ) (hm : m ≤ q) :
    dirPlaces sb (k * sb.blockSize + m * DIRBLKSIZ)
      = ((List.range k).flatMap fun lb => (List.range q).map (lb, ·))
        ++ (List.range m).map (k, ·) := by
  have hdiv : ∀ n, (n * DIRBLKSIZ + DIRBLKSIZ - 1) / DIRBLKSIZ = n := by
    intro n
    unfold DIRBLKSIZ
    omega
  have hbefore : ∀ lb < k, dirChunks sb (k * sb.blockSize + m * DIRBLKSIZ) lb
      = q := by
    intro lb hlb
    unfold dirChunks
    rw [chunkBytes_before hlb, hblock, hdiv]
  have hmle : m * DIRBLKSIZ ≤ sb.blockSize := by
    rw [hblock]
    exact Nat.mul_le_mul_right _ hm
  have hfull : (List.range k).flatMap (fun lb =>
      (List.range (dirChunks sb (k * sb.blockSize + m * DIRBLKSIZ) lb)).map
        (lb, ·))
      = (List.range k).flatMap fun lb => (List.range q).map (lb, ·) := by
    apply List.flatMap_congr
    intro lb hlb
    rw [hbefore lb (List.mem_range.mp hlb)]
  unfold dirPlaces
  rcases Nat.eq_zero_or_pos m with rfl | hpos
  · rw [Nat.zero_mul, Nat.add_zero] at hfull ⊢
    rw [fileBlocks_full (by rw [hblock]; exact Nat.mul_pos hq (by decide)),
      hfull, List.range_zero, List.map_nil, List.append_nil]
  · rw [fileBlocks_end (Nat.mul_pos hpos (by decide)) hmle, List.range_succ,
      List.flatMap_append, hfull, List.flatMap_singleton]
    congr 2
    unfold dirChunks
    rw [chunkBytes_last hmle, hdiv]

/-- **A directory that grows by one chunk** has one place more. -/
theorem dirPlaces_grown (hgeo : DirGeometry sb) (hr : r < sb.blockSize)
    (hchunk : r % DIRBLKSIZ = 0) :
    dirPlaces sb (k * sb.blockSize + r + DIRBLKSIZ)
      = dirPlaces sb (k * sb.blockSize + r) ++ [(k, r / DIRBLKSIZ)] := by
  obtain ⟨q, hq, hblock⟩ := hgeo.blockSize_chunks
  obtain ⟨m, rfl⟩ := Nat.dvd_of_mod_eq_zero hchunk
  rw [Nat.mul_comm DIRBLKSIZ] at hr ⊢
  have hm : m < q := by
    rw [hblock] at hr
    exact Nat.lt_of_mul_lt_mul_right hr
  rw [Nat.add_assoc, ← Nat.succ_mul, dirPlaces_eq hq hblock hm,
    dirPlaces_eq hq hblock hm.le, Nat.mul_div_cancel m (by decide),
    List.range_succ, List.map_append, List.append_assoc]
  rfl

/-- There is room for a chunk in a block that is not full. -/
theorem chunk_fits (hgeo : DirGeometry sb) (hr : r < sb.blockSize)
    (hchunk : r % DIRBLKSIZ = 0) : r + DIRBLKSIZ ≤ sb.blockSize := by
  obtain ⟨q, hq, hblock⟩ := hgeo.blockSize_chunks
  unfold DIRBLKSIZ at hblock hchunk ⊢
  omega

end Sizes

/-! ## §3. The run of the last block. -/

/-- The inode of a directory whose block `k` has become the run at `b`, of
`more` fragments more. -/
def grownInode (sb : Superblock) (now : UInt32) (dirino : Inode) (k : Fin 12)
    (b more : Nat) : Inode :=
  touched now
    { dirino.setDb k b with
      size := dirino.size + DIRBLKSIZ
      blocks := dirino.blocks + UInt32.ofNat (more * sb.sectorsPerFrag) }

section Grow

variable {sb : Superblock} {live : Finset Nat} {modes : Nat → UInt16}
  {d d' : Disk} {dirnode node : Node} {a b m n k r off preferredCg : Nat}

/-- A call that extends a run and fails leaves the disk as it was. -/
theorem extendFragmentRun_error {e : Errno}
    (h : extendFragmentRun sb a m n d = .error e d') : d' = d := by
  unfold extendFragmentRun at h
  split at h
  · cases h
    rfl
  split at h
  · cases h
    rfl
  exact (updateGroup_error h).1

/-- **A run that holds the end of a directory grows.** -/
theorem growTail_grown (hgeo : SpaceGeometry sb) (hsp : FreeSpace sb modes d)
    (hfits : RunFits sb a m) (hclear : ∀ i < m, freeAt sb d (a + i) = 0)
    (hle : m ≤ n) (h : growTail sb preferredCg a m n d = .ok b d') :
    RunGrown sb d d' a m b n := by
  unfold growTail at h
  split at h
  · cases h
  split at h
  · -- the fragment that holds the end has room
    cases h
    rw [Nat.le_antisymm ‹n ≤ m› hle]
    exact .refl hfits
  obtain ⟨res, d₁, hattempt, h⟩ := bind_eq_ok h
  rcases attempt_ok hattempt with ⟨⟨⟩, rfl, hextend⟩ | ⟨e, rfl, hextend⟩
  · -- the fragments behind it are free
    cases h
    exact extendFragmentRun_grown hgeo hsp hfits hclear hextend
  · obtain rfl := extendFragmentRun_error hextend
    cases e with
    | ENOSPC => exact reallocateFragmentRun_grown hgeo hsp hfits hclear hle h
    | _ => cases h

/-- The fragments of the last block, which may have none yet. -/
theorem GoodDir.tail (hgeo : DirGeometry sb)
    (h : GoodDir sb live modes d dirnode)
    (hsize : dirnode.inode.size = k * sb.blockSize + r)
    (hr : r < sb.blockSize) (hk : k < 12) (hpos : 0 < r) :
    k < fileBlocks sb dirnode.inode.size ∧
      RunFits sb (dirnode.inode.db ⟨k, hk⟩) (endFrags sb r) ∧
      ∀ i < endFrags sb r,
        freeAt sb d (dirnode.inode.db ⟨k, hk⟩ + i) = 0 := by
  have hin : k < fileBlocks sb dirnode.inode.size := by
    rw [hsize, fileBlocks_end hpos hr.le]
    exact Nat.lt_succ_self k
  obtain ⟨hk', hblock, hne⟩ := h.direct hgeo hin
  have hneeded : fragsNeeded sb dirnode.inode.size k = endFrags sb r := by
    rw [hsize]
    exact fragsNeeded_last hk hr.le
  have hfits := h.runs k hin
  rw [hblock, hneeded] at hfits
  refine ⟨hin, hfits, fun i hi => ?_⟩
  have hclaimed := h.claimed_le (dirnode.inode.db ⟨k, hk⟩ + i)
  have hcovers := @covers_le_dataFrags sb d dirnode.inode dirnode.inode.size _
    _ hin hne (dirnode.inode.db ⟨k, hk⟩ + i)
  rw [hblock, hneeded, covers_eq_one ⟨by omega, by omega⟩] at hcovers
  unfold blockClaims at hclaimed
  omega

/-- **The growth of a directory** of `k` blocks and `r` bytes: the run of its
last block, which may have no fragment yet, becomes the run at `b`. -/
structure Growing (sb : Superblock) (live : Finset Nat) (modes : Nat → UInt16)
    (d : Disk) (dirnode : Node) (k r b : Nat) (d₁ : Disk) : Prop where
  good : GoodDir sb live modes d dirnode
  size : dirnode.inode.size = k * sb.blockSize + r
  inside : r < sb.blockSize
  chunk : r % DIRBLKSIZ = 0
  direct : k < 12
  run : RunGrown sb d d₁ (dirnode.inode.db ⟨k, direct⟩) (endFrags sb r) b
    (endFrags sb (r + DIRBLKSIZ))

/-- The node of a directory that has grown. -/
def grownNode (sb : Superblock) (now : UInt32) (dirnode : Node) (k : Fin 12)
    (b r : Nat) : Node :=
  ⟨dirnode.inodeNo, grownInode sb now dirnode.inode k b
    (endFrags sb (r + DIRBLKSIZ) - endFrags sb r)⟩

/-- The disk with a node's inode. -/
def storeNode (d : Disk) (node : Node) : Disk :=
  { d with inodes := Function.update d.inodes node.inodeNo node.inode }

/-- The disk of a directory that has grown, with `raw` behind its old end. -/
def grownDisk (sb : Superblock) (d₁ : Disk) (node : Node) (b r : Nat)
    (raw : Bytes) : Disk :=
  (storeNode d₁ node).write (b * sb.fragSize + r) raw

/-- The end of a directory of at most twelve blocks, as the code computes
it. -/
theorem GoodDir.end_eq (hgeo : DirGeometry sb)
    (h : GoodDir sb live modes d dirnode)
    (hsize : dirnode.inode.size = k * sb.blockSize + r)
    (hr : r < sb.blockSize) :
    dirnode.inode.size / sb.blockSize % 2 ^ 32 = k ∧
      dirnode.inode.size % sb.blockSize = r := by
  have hbs := hgeo.blockSize_pos
  obtain ⟨hdiv, hmod⟩ := @block_div_mod sb k r hr
  have hle := (fileBlocks_le_iff hbs).mp h.short
  have hk : k ≤ 12 := Nat.le_of_mul_le_mul_right
    (show k * sb.blockSize ≤ 12 * sb.blockSize by omega) hbs
  rw [hsize, hdiv, hmod, Nat.mod_eq_of_lt (by omega)]
  exact ⟨rfl, rfl⟩

/-- **What the growth of a directory comes to**: the run of its last block
grows, in one of four ways, and the inode is written. -/
theorem growDirectory_ok (hgeo : DirGeometry sb)
    (h : GoodDir sb live modes d dirnode)
    (hsize : dirnode.inode.size = k * sb.blockSize + r)
    (hr : r < sb.blockSize)
    (hrun : growDirectoryByDirblk sb dirnode d = .ok (node, off) d') :
    ∃ b now d₁, ∃ hg : Growing sb live modes d dirnode k r b d₁,
      node = grownNode sb now dirnode ⟨k, hg.direct⟩ b r ∧
      off = b * sb.fragSize + r ∧ d' = storeNode d₁ node := by
  have hfs := hgeo.fragSize_pos
  obtain ⟨hdiv, hmod⟩ := h.end_eq hgeo hsize hr
  have hone := endFrags_chunk hgeo
  unfold growDirectoryByDirblk at hrun
  dsimp only at hrun
  rw [hmod, hdiv] at hrun
  split at hrun
  · cases hrun
  rename_i haligned
  rw [ne_eq, not_not, hsize] at haligned
  obtain ⟨q, -, hblock⟩ := hgeo.blockSize_chunks
  have hchunk : r % DIRBLKSIZ = 0 := by
    rw [hblock, ← Nat.mul_assoc, Nat.add_comm, Nat.add_mul_mod_self_right]
      at haligned
    exact haligned
  split at hrun
  · rename_i hk
    rcases Nat.eq_zero_or_pos r with rfl | hpos
    · -- a new block
      have hnone := endFrags_zero hgeo
      rw [if_pos rfl] at hrun
      obtain ⟨b, d₁, hfrag, hrun⟩ := bind_eq_ok hrun
      obtain ⟨node', d₂, htimes, hret⟩ := bind_eq_ok hrun
      rw [updateNodeTimes_eq, if_pos hgeo.hasInodes] at htimes
      cases htimes
      cases hret
      have htaken := wp_ok (allocateFragsAnycg_spec hgeo.toDataGeometry
        _ d 1) hfrag
      have hgrown : RunGrown sb d d₁ (dirnode.inode.db ⟨k, hk⟩)
          (endFrags sb 0) b (endFrags sb (0 + DIRBLKSIZ)) := by
        rw [hnone, Nat.zero_add, hone]
        exact htaken.grown _
      refine ⟨b, d₁.clock, d₁, ⟨h, hsize, hr, hchunk, hk, hgrown⟩, ?_, rfl, rfl⟩
      unfold grownNode
      rw [hnone, Nat.zero_add, hone]
      unfold endFrags at hnone
      rw [if_pos rfl, hnone]
      rfl
    · -- the last block has fragments
      obtain ⟨-, hfits, hclear⟩ := h.tail hgeo hsize hr hk hpos
      rw [if_neg hpos.ne', if_neg hpos.ne'] at hrun
      obtain ⟨b, d₁, hfrag, hrun⟩ := bind_eq_ok hrun
      obtain ⟨node', d₂, htimes, hret⟩ := bind_eq_ok hrun
      rw [updateNodeTimes_eq, if_pos hgeo.hasInodes] at htimes
      cases htimes
      cases hret
      have hgrown := growTail_grown hgeo.toSpaceGeometry h.space hfits hclear
        (endFrags_mono (Nat.le_add_right _ _)) hfrag
      exact ⟨b, d₁.clock, d₁, ⟨h, hsize, hr, hchunk, hk, hgrown⟩,
        rfl, rfl, rfl⟩
  · cases hrun

end Grow

/-! ## §4. The directory afterwards. -/

section Grown

variable {sb : Superblock} {live : Finset Nat} {modes : Nat → UInt16}
  {d d₁ : Disk} {dirnode : Node} {k r b : Nat} {now : UInt32} {raw : Bytes}

/-- What the last block had is claimed. -/
theorem Growing.covers_le (hgeo : DirGeometry sb)
    (hg : Growing sb live modes d dirnode k r b d₁) (f : Nat) :
    covers (dirnode.inode.db ⟨k, hg.direct⟩) (endFrags sb r) f
      ≤ dataFrags sb d dirnode.inode dirnode.inode.size
          (fileBlocks sb dirnode.inode.size) f := by
  rcases Nat.eq_zero_or_pos r with rfl | hpos
  · rw [endFrags_zero hgeo, covers_eq_zero (by omega)]
    exact Nat.zero_le _
  · have hin := (hg.good.tail hgeo hg.size hg.inside hg.direct hpos).1
    obtain ⟨hk, hblock, hne⟩ := hg.good.direct hgeo hin
    have hle := @covers_le_dataFrags sb d dirnode.inode dirnode.inode.size _
      k hin hne f
    rw [hblock, hg.size, fragsNeeded_last hk hg.inside.le] at hle
    rw [hg.size]
    exact hle

/-- The new run is not that of fragment 0. -/
theorem Growing.ne_zero (hgeo : DirGeometry sb)
    (hg : Growing sb live modes d dirnode k r b d₁) : b ≠ 0 := by
  rintro rfl
  have hle := hg.good.claimed_le 0
  have hcovers := hg.covers_le hgeo 0
  have hfree := hg.run.free 0
  have hpos := hg.run.fits.pos
  rw [covers_eq_one ⟨le_rfl, by omega⟩] at hfree
  rw [reservedAt_zero hgeo.toDataGeometry] at hle
  unfold blockClaims at hle
  omega

/-- A fragment in use that is not the last block's is as it was, also when a
chunk has been written behind the directory. -/
theorem Growing.same (hgeo : DirGeometry sb)
    (hg : Growing sb live modes d dirnode k r b d₁)
    (hraw : raw.length = DIRBLKSIZ) (node : Node) {f : Nat}
    (hfree : freeAt sb d f = 0)
    (hf : covers (dirnode.inode.db ⟨k, hg.direct⟩) (endFrags sb r) f = 0) :
    SameFrag sb d (grownDisk sb d₁ node b r raw) f := by
  have hbooks := hg.run.free f
  have hout : f < b ∨ b + endFrags sb (r + DIRBLKSIZ) ≤ f := by
    by_contra hin
    rw [covers_eq_one (b := b) (by omega)] at hbooks
    omega
  have hroom : r + raw.length ≤ endFrags sb (r + DIRBLKSIZ) * sb.fragSize := by
    have hfs := hgeo.fragSize_pos
    have hmod := Nat.mod_lt (r + DIRBLKSIZ + sb.fragSize - 1) hfs
    have hsplit := Nat.div_add_mod' (r + DIRBLKSIZ + sb.fragSize - 1)
      sb.fragSize
    unfold endFrags
    omega
  have hstored : SameFrag sb d₁ (storeNode d₁ node) f :=
    SameFrag.of_data_eq rfl f
  exact ((hg.run.same f hfree).trans hstored).trans (sameFrag_write hroom hout)

/-- The direct pointers of the inode that has grown. -/
theorem grownInode_blockAt {d' : Disk} {dirino : Inode} {kk : Fin 12}
    {more lb : Nat} (hlb : lb < 12) :
    blockAt sb d' (grownInode sb now dirino kk b more) lb
      = if lb = kk then b else dirino.db ⟨lb, hlb⟩ := by
  have hblock : blockAt sb d' (grownInode sb now dirino kk b more) lb
      = Function.update dirino.db kk b ⟨lb, hlb⟩ := dif_pos hlb
  rw [hblock, Function.update_apply]
  simp only [Fin.ext_iff]

theorem grownNode_size (hg : Growing sb live modes d dirnode k r b d₁)
    (kk : Fin 12) :
    (grownNode sb now dirnode kk b r).inode.size
      = k * sb.blockSize + (r + DIRBLKSIZ) := by
  show dirnode.inode.size + DIRBLKSIZ = _
  rw [hg.size, Nat.add_assoc]

/-- The blocks before the last one claim the same. -/
theorem Growing.before (hg : Growing sb live modes d dirnode k r b d₁)
    (d' : Disk) (f : Nat) :
    dataFrags sb d' (grownNode sb now dirnode ⟨k, hg.direct⟩ b r).inode
        (k * sb.blockSize + (r + DIRBLKSIZ)) k f
      = dataFrags sb d dirnode.inode (k * sb.blockSize + r) k f := by
  apply Finset.sum_congr rfl
  intro lb hlb
  have hlt := Finset.mem_range.mp hlb
  have hlb12 : lb < 12 := Nat.lt_trans hlt hg.direct
  have hnew : blockAt sb d'
      (grownNode sb now dirnode ⟨k, hg.direct⟩ b r).inode lb
      = dirnode.inode.db ⟨lb, hlb12⟩ := by
    refine (grownInode_blockAt hlb12).trans ?_
    rw [if_neg (show lb ≠ k by omega)]
  have hold : blockAt sb d dirnode.inode lb = dirnode.inode.db ⟨lb, hlb12⟩ :=
    dif_pos hlb12
  have hneeded : fragsNeeded sb (k * sb.blockSize + (r + DIRBLKSIZ)) lb
      = fragsNeeded sb (k * sb.blockSize + r) lb := by
    unfold fragsNeeded
    rw [chunkBytes_before hlt, chunkBytes_before hlt]
  rw [hnew, hold, hneeded]

/-- What the directory's data claims: the blocks before the last one, and the
run of the last one. -/
theorem Growing.data_before (hgeo : DirGeometry sb)
    (hg : Growing sb live modes d dirnode k r b d₁) (f : Nat) :
    dataFrags sb d dirnode.inode dirnode.inode.size
        (fileBlocks sb dirnode.inode.size) f
      = dataFrags sb d dirnode.inode (k * sb.blockSize + r) k f
        + covers (dirnode.inode.db ⟨k, hg.direct⟩) (endFrags sb r) f := by
  rcases Nat.eq_zero_or_pos r with rfl | hpos
  · rw [endFrags_zero hgeo, covers_eq_zero (by omega), hg.size, Nat.add_zero,
      Nat.add_zero, fileBlocks_full hgeo.blockSize_pos]
  · have hin := (hg.good.tail hgeo hg.size hg.inside hg.direct hpos).1
    obtain ⟨hk, hblock, hne⟩ := hg.good.direct hgeo hin
    rw [hg.size, fileBlocks_end hpos hg.inside.le, dataFrags_succ, if_neg hne,
      hblock, fragsNeeded_last hk hg.inside.le]

/-- And afterwards. -/
theorem Growing.data_after (hgeo : DirGeometry sb)
    (hg : Growing sb live modes d dirnode k r b d₁) (d' : Disk) (f : Nat) :
    dataFrags sb d' (grownNode sb now dirnode ⟨k, hg.direct⟩ b r).inode
        (grownNode sb now dirnode ⟨k, hg.direct⟩ b r).inode.size
        (fileBlocks sb (grownNode sb now dirnode ⟨k, hg.direct⟩ b r).inode.size)
        f
      = dataFrags sb d dirnode.inode (k * sb.blockSize + r) k f
        + covers b (endFrags sb (r + DIRBLKSIZ)) f := by
  have hfits := chunk_fits hgeo hg.inside hg.chunk
  have hblock : blockAt sb d'
      (grownNode sb now dirnode ⟨k, hg.direct⟩ b r).inode k = b := by
    refine (grownInode_blockAt hg.direct).trans ?_
    rw [if_pos rfl]
  rw [grownNode_size hg, fileBlocks_end (Nat.lt_add_left _ (by decide)) hfits,
    dataFrags_succ, hg.before, hblock, if_neg (hg.ne_zero hgeo),
    fragsNeeded_last hg.direct hfits]

/-- **What the directory claims**: the new run for the old one. -/
theorem Growing.claims (hgeo : DirGeometry sb)
    (hg : Growing sb live modes d dirnode k r b d₁)
    (hraw : raw.length = DIRBLKSIZ) (node : Node) (f : Nat) :
    blockClaims sb (grownDisk sb d₁ node b r raw)
          (grownNode sb now dirnode ⟨k, hg.direct⟩ b r).inode f
        + covers (dirnode.inode.db ⟨k, hg.direct⟩) (endFrags sb r) f
      = blockClaims sb d dirnode.inode f
        + covers b (endFrags sb (r + DIRBLKSIZ)) f := by
  -- the pointer blocks are claimed, and no data is in them
  have hmeta : metaFrags sb (grownDisk sb d₁ node b r raw)
        (grownNode sb now dirnode ⟨k, hg.direct⟩ b r).inode f
      = metaFrags sb d dirnode.inode f := by
    have hcongr := @metaFrags_congr sb d
      (grownDisk sb d₁ node b r raw) dirnode.inode
      hgeo.toDataGeometry (fun f hf => by
        have hle := hg.good.claimed_le f
        have hcovers := hg.covers_le hgeo f
        unfold blockClaims at hle
        exact hg.same hgeo hraw node (by omega) (by omega)) f
    exact hcongr
  unfold blockClaims
  rw [hmeta, hg.data_after hgeo, hg.data_before hgeo]
  omega

/-- What is in use and not the directory's is as it was. -/
theorem Growing.others (hgeo : DirGeometry sb)
    (hg : Growing sb live modes d dirnode k r b d₁)
    (hraw : raw.length = DIRBLKSIZ) (node : Node) (f : Nat)
    (hfree : freeAt sb d f = 0)
    (hf : inodeClaims sb d (d.inodes dirnode.inodeNo) f = 0) :
    SameFrag sb d (grownDisk sb d₁ node b r raw) f := by
  have hcovers := hg.covers_le hgeo f
  rw [hg.good.inodeClaims] at hf
  unfold blockClaims at hf
  exact hg.same hgeo hraw node hfree (by omega)

/-- The inodes afterwards. -/
theorem Growing.inodes (hg : Growing sb live modes d dirnode k r b d₁)
    (kk : Fin 12) (m : Nat) :
    (grownDisk sb d₁ (grownNode sb now dirnode kk b r) b r raw).inodes m
      = if m = dirnode.inodeNo then (grownNode sb now dirnode kk b r).inode
        else d.inodes m := by
  show Function.update d₁.inodes dirnode.inodeNo _ m = _
  rw [Function.update_apply, hg.run.books.inodes]

/-- **Every fragment still has one owner.** -/
theorem Growing.owned (hgeo : DirGeometry sb)
    (hg : Growing sb live modes d dirnode k r b d₁)
    (hraw : raw.length = DIRBLKSIZ) :
    FragsOwned sb live (grownDisk sb d₁
      (grownNode sb now dirnode ⟨k, hg.direct⟩ b r) b r raw) := by
  apply hg.good.owned.replace hgeo.toDataGeometry hg.good.mem
  · intro n _ hne
    rw [hg.inodes, if_neg hne]
  · exact hg.others hgeo hraw _
  · intro f
    have hfree := hg.run.free f
    have hclaims := @Growing.claims sb live modes d d₁ dirnode k r b now raw
      hgeo hg hraw (grownNode sb now dirnode ⟨k, hg.direct⟩ b r) f
    have hstores : storesBlocks
        (grownNode sb now dirnode ⟨k, hg.direct⟩ b r).inode = true :=
      storesBlocks_of_dir hg.good.isDir
    rw [hg.good.inodeClaims, hg.inodes, if_pos rfl]
    unfold inodeClaims
    rw [if_pos hstores]
    show freeAt sb d₁ f + _ = _
    omega

/-- **The block count is what the directory claims.** -/
theorem Growing.sectors (hgeo : DirGeometry sb)
    (hg : Growing sb live modes d dirnode k r b d₁)
    (hraw : raw.length = DIRBLKSIZ) (node : Node) :
    (grownNode sb now dirnode ⟨k, hg.direct⟩ b r).inode.blocks
      = UInt32.ofNat (claimedFrags sb (grownDisk sb d₁ node b r raw)
          (grownNode sb now dirnode ⟨k, hg.direct⟩ b r).inode
            * sb.sectorsPerFrag) := by
  have hle := @endFrags_mono sb r (r + DIRBLKSIZ) (Nat.le_add_right _ _)
  have hnew := sum_covers hg.run.fits.disk
  have hold : ∑ f ∈ Finset.range sb.fragCount,
      covers (dirnode.inode.db ⟨k, hg.direct⟩) (endFrags sb r) f
        = endFrags sb r := by
    rcases Nat.eq_zero_or_pos r with rfl | hpos
    · rw [endFrags_zero hgeo]
      exact Finset.sum_eq_zero fun f _ => covers_eq_zero (by omega)
    · exact sum_covers
        (hg.good.tail hgeo hg.size hg.inside hg.direct hpos).2.1.disk
  have hsum := Finset.sum_congr (rfl : Finset.range sb.fragCount = _)
    fun f _ => @Growing.claims sb live modes d d₁ dirnode k r b now raw
      hgeo hg hraw node f
  rw [Finset.sum_add_distrib, Finset.sum_add_distrib, hnew, hold] at hsum
  have hclaimed : claimedFrags sb (grownDisk sb d₁ node b r raw)
      (grownNode sb now dirnode ⟨k, hg.direct⟩ b r).inode
      = claimedFrags sb d dirnode.inode
        + (endFrags sb (r + DIRBLKSIZ) - endFrags sb r) := by
    unfold claimedFrags
    omega
  show dirnode.inode.blocks + UInt32.ofNat _ = _
  rw [hclaimed, hg.good.sectors, Nat.add_mul, UInt32.ofNat_add]

/-- The blocks before the last one are blocks of the directory. -/
theorem Growing.block_lt (hgeo : DirGeometry sb)
    (hg : Growing sb live modes d dirnode k r b d₁) {lb : Nat} (hlt : lb < k) :
    lb < fileBlocks sb dirnode.inode.size := by
  apply Nat.lt_of_not_le
  intro hle
  have hend := (fileBlocks_le_iff hgeo.blockSize_pos).mp hle
  have hmul := Nat.mul_le_mul_right sb.blockSize (Nat.succ_le_of_lt hlt)
  have hbs := hgeo.blockSize_pos
  rw [hg.size] at hend
  rw [Nat.succ_mul] at hmul
  omega

/-- The runs of the directory afterwards. -/
theorem Growing.runs (hgeo : DirGeometry sb)
    (hg : Growing sb live modes d dirnode k r b d₁) (d' : Disk) {lb : Nat}
    (hlb : lb < fileBlocks sb
      (grownNode sb now dirnode ⟨k, hg.direct⟩ b r).inode.size) :
    RunFits sb
      (blockAt sb d' (grownNode sb now dirnode ⟨k, hg.direct⟩ b r).inode lb)
      (fragsNeeded sb
        (grownNode sb now dirnode ⟨k, hg.direct⟩ b r).inode.size lb) := by
  have hfits := chunk_fits hgeo hg.inside hg.chunk
  have hdirect := hg.direct
  rw [grownNode_size hg] at hlb ⊢
  rw [fileBlocks_end (Nat.lt_add_left _ (by decide)) hfits] at hlb
  have hlb12 : lb < 12 := by omega
  have hblock : blockAt sb d'
      (grownNode sb now dirnode ⟨k, hg.direct⟩ b r).inode lb
      = if lb = k then b else dirnode.inode.db ⟨lb, hlb12⟩ :=
    grownInode_blockAt hlb12
  rw [hblock]
  split
  · rename_i heq
    rw [heq, fragsNeeded_last hg.direct hfits]
    exact hg.run.fits
  · rename_i hne
    have hlt : lb < k := by omega
    have hin := hg.block_lt hgeo hlt
    have hold := hg.good.runs lb hin
    have hneeded : fragsNeeded sb (k * sb.blockSize + (r + DIRBLKSIZ)) lb
        = fragsNeeded sb dirnode.inode.size lb := by
      unfold fragsNeeded
      rw [hg.size, chunkBytes_before hlt, chunkBytes_before hlt]
    have hsame : blockAt sb d dirnode.inode lb
        = dirnode.inode.db ⟨lb, hlb12⟩ := dif_pos hlb12
    rw [hneeded, ← hsame]
    exact hold

end Grown

end NextUfs
