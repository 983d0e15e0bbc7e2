/-
  NextUfs.Core.Counts
  ───────────────────
  **WHAT THE COUNTERS SHOULD SAY.**

  The values a group's counters stand for, defined from its two bitmaps and
  the modes of its inodes alone.  Each fragment count is a sum over the blocks
  of the group of a quantity that only reads the bits of that block
  (`Local`), so one theorem, `blockTotal_change`, says how any of them
  moves when the bits of one block change.

    • `freeBlocks`, `freeFrags`, `freeRuns`, `cylBlocks`, `posBlocks`,
    • `freeInodes`, `dirInodes`,
    • `FragCounts`, `InodeCounts` — a group's stored counters are these values,
    • `Accounted` — and so are the summary table and the superblock totals.
-/
import NextUfs.Core.Alloc

namespace NextUfs

open Bits

/-! ## §1. Sums over the blocks of a group. -/

/-- Blocks of a group of `ndblk` fragments, the last one maybe partial. -/
def blockCount (sb : Superblock) (ndblk : Nat) : Nat :=
  (ndblk + sb.fragsPerBlock - 1) / sb.fragsPerBlock

/-- Block `k` of the map is wholly free. -/
def wholeFree (sb : Superblock) (free : Nat → Bool) (k : Nat) : Bool :=
  allSet free (k * sb.fragsPerBlock) sb.fragsPerBlock

/-- The sum of a block quantity over the blocks of a group. -/
def blockTotal (sb : Superblock) (ndblk : Nat)
    (F : (Nat → Bool) → Nat → Nat) (free : Nat → Bool) : Nat :=
  ∑ k ∈ Finset.range (blockCount sb ndblk), F free k

/-- The two maps agree outside block `k`. -/
def SameOffBlock (sb : Superblock) (k : Nat) (free free' : Nat → Bool) :
    Prop :=
  ∀ i, i < k * sb.fragsPerBlock ∨ k * sb.fragsPerBlock + sb.fragsPerBlock ≤ i →
    free' i = free i

/-- `F free k` only reads the bits of block `k`. -/
def Local (sb : Superblock) (F : (Nat → Bool) → Nat → Nat) : Prop :=
  ∀ free free' k,
    (∀ i, k * sb.fragsPerBlock ≤ i →
      i < k * sb.fragsPerBlock + sb.fragsPerBlock → free' i = free i) →
    F free' k = F free k

private theorem SameOffBlock.agree {sb : Superblock} {k k₀ : Nat}
    {free free' : Nat → Bool} (h : SameOffBlock sb k₀ free free')
    (hk : k ≠ k₀) {i : Nat} (h1 : k * sb.fragsPerBlock ≤ i)
    (h2 : i < k * sb.fragsPerBlock + sb.fragsPerBlock) : free' i = free i := by
  refine h i ?_
  rcases Nat.lt_or_gt_of_ne hk with hlt | hgt
  · left
    have := Nat.mul_le_mul_right sb.fragsPerBlock (show k + 1 ≤ k₀ from hlt)
    rw [Nat.succ_mul] at this
    omega
  · right
    have := Nat.mul_le_mul_right sb.fragsPerBlock (show k₀ + 1 ≤ k from hgt)
    rw [Nat.succ_mul] at this
    omega

/-- **A change inside one block moves a total by that block's values.** -/
theorem blockTotal_change {sb : Superblock} {ndblk k₀ : Nat}
    {F : (Nat → Bool) → Nat → Nat} {free free' : Nat → Bool}
    (hF : Local sb F) (hk : k₀ < blockCount sb ndblk)
    (h : SameOffBlock sb k₀ free free') :
    blockTotal sb ndblk F free' + F free k₀
      = blockTotal sb ndblk F free + F free' k₀ :=
  sum_change hk fun k _ hne =>
    hF free free' k fun _ h1 h2 => h.agree hne h1 h2

/-! ## §2. The block quantities. -/

/-- 1 for a wholly free block. -/
def wholeBlock (sb : Superblock) (free : Nat → Bool) (k : Nat) : Nat :=
  (wholeFree sb free k).toNat

/-- Free fragments of a partly free block. -/
def partFrags (sb : Superblock) (free : Nat → Bool) (k : Nat) : Nat :=
  if wholeFree sb free k then 0
  else popRange free (k * sb.fragsPerBlock) sb.fragsPerBlock

/-- Maximal free runs of length `j` of a partly free block. -/
def partRuns (sb : Superblock) (j : Nat) (free : Nat → Bool) (k : Nat) :
    Nat :=
  if wholeFree sb free k then 0
  else runsOf free (k * sb.fragsPerBlock) sb.fragsPerBlock j

/-- 1 for a wholly free block of which `p` holds. -/
def wholeBlockIn (sb : Superblock) (p : Nat → Prop) [DecidablePred p]
    (free : Nat → Bool) (k : Nat) : Nat :=
  if wholeFree sb free k ∧ p (k * sb.fragsPerBlock) then 1 else 0

theorem wholeFree_congr {sb : Superblock} {free free' : Nat → Bool} {k : Nat}
    (h : ∀ i, k * sb.fragsPerBlock ≤ i →
      i < k * sb.fragsPerBlock + sb.fragsPerBlock → free' i = free i) :
    wholeFree sb free' k = wholeFree sb free k :=
  allSet_congr h

theorem local_wholeBlock (sb : Superblock) : Local sb (wholeBlock sb) := by
  intro free free' k h
  unfold wholeBlock
  rw [wholeFree_congr h]

theorem local_partFrags (sb : Superblock) : Local sb (partFrags sb) := by
  intro free free' k h
  unfold partFrags
  rw [wholeFree_congr h, popRange_congr h]

theorem local_partRuns (sb : Superblock) (j : Nat) :
    Local sb (partRuns sb j) := by
  intro free free' k h
  unfold partRuns
  rw [wholeFree_congr h, runsOf_congr fun i hi => h _ (by omega) (by omega)]

theorem local_wholeBlockIn (sb : Superblock) (p : Nat → Prop)
    [DecidablePred p] : Local sb (wholeBlockIn sb p) := by
  intro free free' k h
  unfold wholeBlockIn
  rw [wholeFree_congr h]

/-! ## §3. The values of a group's counters. -/

/-- Wholly free blocks of a group. -/
def freeBlocks (sb : Superblock) (cg : Cg) : Nat :=
  blockTotal sb cg.ndblk (wholeBlock sb) cg.free

/-- Free fragments of a group that are in no wholly free block. -/
def freeFrags (sb : Superblock) (cg : Cg) : Nat :=
  blockTotal sb cg.ndblk (partFrags sb) cg.free

/-- Maximal free runs of length `j` in the partly free blocks of a group. -/
def freeRuns (sb : Superblock) (cg : Cg) (j : Nat) : Nat :=
  blockTotal sb cg.ndblk (partRuns sb j) cg.free

/-- Wholly free blocks of a cylinder. -/
def cylBlocks (sb : Superblock) (cg : Cg) (cyl : Nat) : Nat :=
  blockTotal sb cg.ndblk
    (wholeBlockIn sb fun frag => cylno sb frag = cyl) cg.free

/-- Wholly free blocks of a cylinder at a rotational position. -/
def posBlocks (sb : Superblock) (cg : Cg) (cyl pos : Nat) : Nat :=
  blockTotal sb cg.ndblk
    (wholeBlockIn sb fun frag => cylno sb frag = cyl ∧ rotpos sb frag = pos)
    cg.free

/-- Unused inodes of a group. -/
def freeInodes (sb : Superblock) (cg : Cg) : Nat :=
  ∑ i ∈ Finset.range sb.inodesPerGroup, (!cg.iused i).toNat

/-- Used inodes of group `c` whose mode is a directory's. -/
def dirInodes (sb : Superblock) (modes : Nat → UInt16) (c : Nat) (cg : Cg) :
    Nat :=
  ∑ i ∈ Finset.range sb.inodesPerGroup,
    (cg.iused i && isDirMode (modes (c * sb.inodesPerGroup + i))).toNat

/-! ## §4. The invariant. -/

/-- The fragment counters of a group are what its bitmap says, and no bit past
the group's end is set. -/
structure FragCounts (sb : Superblock) (cg : Cg) : Prop where
  nbfree : cg.cs.nbfree = UInt32.ofNat (freeBlocks sb cg)
  nffree : cg.cs.nffree = UInt32.ofNat (freeFrags sb cg)
  frsum : ∀ j, 1 ≤ j → j < sb.fragsPerBlock →
    cg.frsum j = UInt32.ofNat (freeRuns sb cg j)
  btot : ∀ cyl < MAXCPG, cg.btot cyl = UInt32.ofNat (cylBlocks sb cg cyl)
  b : ∀ cyl < MAXCPG, ∀ pos < NRPOS,
    cg.b cyl pos = UInt16.ofNat (posBlocks sb cg cyl pos)
  pastEnd : ∀ i, cg.ndblk ≤ i → cg.free i = false

/-- The inode counters of group `c` are what its bitmap and the modes of its
inodes say. -/
structure InodeCounts (sb : Superblock) (modes : Nat → UInt16) (c : Nat)
    (cg : Cg) : Prop where
  nifree : cg.cs.nifree = UInt32.ofNat (freeInodes sb cg)
  ndir : cg.cs.ndir = UInt32.ofNat (dirInodes sb modes c cg)

/-- The sum of the summary entries of the first `n` groups. -/
def csumTotal (csum : Nat → Csum) : Nat → Csum
  | 0 => 0
  | n + 1 => csumTotal csum n + csum n

/-- **The accounting invariant of an image**: every group's counters are the
values its bitmaps define, its summary entry repeats them, and the superblock
totals are the sums of the entries. -/
structure Accounted (sb : Superblock) (modes : Nat → UInt16) (d : Disk) :
    Prop where
  frags : ∀ c < sb.cgCount, FragCounts sb (d.cgs c)
  inodes : ∀ c < sb.cgCount, InodeCounts sb modes c (d.cgs c)
  csum : ∀ c < sb.cgCount, d.csum c = (d.cgs c).cs
  total : d.cstotal = csumTotal d.csum sb.cgCount

/-- Geometry the allocator is meant for. -/
structure ValidGeometry (sb : Superblock) : Prop where
  fragsPerBlock : sb.fragsPerBlock ∈ [1, 2, 4, 8]
  fragsPerGroup_pos : 0 < sb.fragsPerGroup
  blocks_of_group : sb.fragsPerBlock ∣ sb.fragsPerGroup
  sectorsPerCyl_pos : 0 < sb.sectorsPerCyl
  sectorsPerTrack_pos : 0 < sb.sectorsPerTrack
  inodesPerGroup_pos : 0 < sb.inodesPerGroup

theorem ValidGeometry.fpb_pos {sb : Superblock} (h : ValidGeometry sb) :
    0 < sb.fragsPerBlock := by
  have := h.fragsPerBlock
  simp only [List.mem_cons, List.not_mem_nil, or_false] at this
  omega

end NextUfs
