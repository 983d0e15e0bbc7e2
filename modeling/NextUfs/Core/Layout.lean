/-
  NextUfs.Core.Layout
  ───────────────────
  **WHERE THINGS ARE, AND THE SUMMARY UPDATE.**

  The address arithmetic of `layout.c` that the allocator needs (a group's
  first fragment, the cylinder and the rotational position of a block) and
  `updateSummaryCounts`, the one writer of the superblock totals and of the
  summary table.
-/
import NextUfs.Core.Types

namespace NextUfs

/-! ## §1. Addresses. -/

/-- First fragment of a group's cylinder-staggered metadata. -/
def cgstart (sb : Superblock) (cg : Nat) : Nat :=
  sb.fragsPerGroup * cg + sb.cgDelta * (cg &&& (2 ^ 32 - 1 - sb.cgCycMask))

/-- Bytes of an inode on the disk. -/
def UFS_INODE_SIZE : Nat := 128

/-- Where a fragment is, from the start of the slice. -/
def fragOffset (sb : Superblock) (frag : Nat) : Nat := frag * sb.fragSize

/-- `nextufs__cg_block_offset`, from the start of the slice. -/
def cgBlockOffset (sb : Superblock) (cg : Nat) : Nat :=
  (cgstart sb cg + sb.cgOff) * sb.fragSize % 2 ^ 64

/-- The fragment of an inode's block. -/
def inodeFrag (sb : Superblock) (fragShift inodeNo : Nat) : Nat :=
  cgstart sb (inodeNo / sb.inodesPerGroup) + sb.inoOff
    + (inodeNo % sb.inodesPerGroup / sb.inodesPerBlock) <<< fragShift

/-- `nextufs__inode_offset` of a superblock that has inodes, from the start of
the slice; `fragShift` is `frag_shift`. -/
def inodeOffset (sb : Superblock) (fragShift inodeNo : Nat) : Nat :=
  (inodeFrag sb fragShift inodeNo * sb.fragSize
    + inodeNo % sb.inodesPerGroup % sb.inodesPerBlock * UFS_INODE_SIZE)
      % 2 ^ 64

/-- Cylinder of a fragment of a group, in 32-bit arithmetic. -/
def cylno (sb : Superblock) (localFrag : Nat) : Nat :=
  localFrag * sb.sectorsPerFrag % 2 ^ 32 / sb.sectorsPerCyl

/-- Rotational position of a fragment of a group, in 32-bit arithmetic. -/
def rotpos (sb : Superblock) (localFrag : Nat) : Nat :=
  localFrag * sb.sectorsPerFrag % 2 ^ 32 % sb.sectorsPerCyl % sb.sectorsPerTrack
    * NRPOS % 2 ^ 32 / sb.sectorsPerTrack

/-! ## §2. Summary counts. -/

/-- Add a delta to the superblock totals and to one group's summary entry. -/
def updateSummaryCounts (cg : Nat) (delta : Csum) : Op Unit :=
  modify fun d =>
    { d with
      cstotal := d.cstotal + delta
      sbTime := d.clock
      csum := Function.update d.csum cg (d.csum cg + delta) }

end NextUfs
