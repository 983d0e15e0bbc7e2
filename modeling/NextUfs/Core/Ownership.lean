/-
  NextUfs.Core.Ownership
  ──────────────────────
  **EVERY FRAGMENT HAS ONE OWNER.**

  A fragment of a consistent disk is free in its group's bitmap, or holds
  metadata, or is claimed by one pointer of one allocated inode.  The three
  are counted, and the count is 1 for every fragment of the disk and 0 past
  its end.

    • `FragsOwned`        — the invariant,
    • `FragsOwned.zero`   — fragment 0 is never free, so a pointer is not 0,
    • `FragsOwned.claimed` — a claimed fragment is not free,
    • `FragsOwned.other`  — and no other inode claims it,
    • `FragsOwned.replace` — one inode may change what it claims for what is
      free, and no other inode sees it.
-/
import NextUfs.Core.ReadSpec

namespace NextUfs

open Bits Radix State

/-! ## §1. Metadata. -/

/-- First fragment of a group's metadata. -/
def cgsblock (sb : Superblock) (c : Nat) : Nat := cgstart sb c + sb.sbOff

/-- First fragment after it. -/
def cgdmin (sb : Superblock) (c : Nat) : Nat := cgstart sb c + sb.dataOff

/-- Fragments of the summary table, which follows the first group's
metadata. -/
def csumFrags (sb : Superblock) : Nat :=
  (sb.csumSize + sb.fragSize - 1) / sb.fragSize

/-- Metadata of group `c`: the first group's starts the disk. -/
def GroupReserved (sb : Superblock) (c f : Nat) : Prop :=
  (if c = 0 then 0 else cgsblock sb c) ≤ f ∧
    f < cgdmin sb c + if c = 0 then csumFrags sb else 0

instance (sb : Superblock) (c f : Nat) : Decidable (GroupReserved sb c f) := by
  unfold GroupReserved
  infer_instance

/-- 1 for a fragment of metadata. -/
def reservedAt (sb : Superblock) (f : Nat) : Nat :=
  if ∃ c < sb.cgCount, GroupReserved sb c f then 1 else 0

theorem reservedAt_zero {sb : Superblock} (hgeo : DataGeometry sb) :
    reservedAt sb 0 = 1 := by
  have hdata := hgeo.dataOff_pos
  unfold reservedAt
  refine if_pos ⟨0, hgeo.cgCount_pos, ?_, ?_⟩
  · simp
  · unfold cgdmin
    omega

/-! ## §2. Claims. -/

/-- The inode's data lies in blocks: a file, a directory, or a symbolic link
that is not stored in the pointer area. -/
def storesBlocks (ino : Inode) : Bool :=
  !isFastLink ino && (ino.mode &&& IFMT == IFREG || ino.mode &&& IFMT == IFDIR
    || ino.mode &&& IFMT == IFLNK)

/-- How often an inode claims a fragment: a device node and a symbolic link
stored in the pointer area claim none. -/
def inodeClaims (sb : Superblock) (d : Disk) (ino : Inode) (f : Nat) : Nat :=
  if storesBlocks ino then blockClaims sb d ino f else 0

/-- **Every fragment has one owner**, `live` being the allocated inodes. -/
structure FragsOwned (sb : Superblock) (live : Finset Nat) (d : Disk) :
    Prop where
  once : ∀ f, freeAt sb d f + reservedAt sb f
    + ∑ m ∈ live, inodeClaims sb d (d.inodes m) f
      = if f < sb.fragCount then 1 else 0

section Owned

variable {sb : Superblock} {live : Finset Nat} {d : Disk}

theorem FragsOwned.sum_le (h : FragsOwned sb live d) (f : Nat) :
    freeAt sb d f + reservedAt sb f
      + ∑ m ∈ live, inodeClaims sb d (d.inodes m) f ≤ 1 := by
  rw [h.once f]
  split <;> omega

/-- Fragment 0 is metadata. -/
theorem FragsOwned.zero (h : FragsOwned sb live d) (hgeo : DataGeometry sb) :
    freeAt sb d 0 = 0 := by
  have hle := h.sum_le 0
  rw [reservedAt_zero hgeo] at hle
  omega

/-- A claimed fragment is not free. -/
theorem FragsOwned.claimed (h : FragsOwned sb live d) {m f : Nat}
    (hm : m ∈ live) (hf : 0 < inodeClaims sb d (d.inodes m) f) :
    freeAt sb d f = 0 := by
  have hle := h.sum_le f
  have hsingle := Finset.single_le_sum
    (f := fun m => inodeClaims sb d (d.inodes m) f)
    (fun _ _ => Nat.zero_le _) hm
  omega

/-- No other inode claims a claimed fragment. -/
theorem FragsOwned.other (h : FragsOwned sb live d) {m n f : Nat}
    (hm : m ∈ live) (hn : n ∈ live) (hne : n ≠ m)
    (hf : 0 < inodeClaims sb d (d.inodes n) f) :
    inodeClaims sb d (d.inodes m) f = 0 := by
  have hle := h.sum_le f
  have hpair := Finset.sum_le_sum_of_subset
    (f := fun m => inodeClaims sb d (d.inodes m) f)
    (show {n, m} ⊆ live by
      intro x hx
      rw [Finset.mem_insert, Finset.mem_singleton] at hx
      rcases hx with rfl | rfl <;> assumption)
  rw [Finset.sum_pair hne] at hpair
  omega

/-- What an inode claims is seen in the fragments it claims. -/
theorem inodeClaims_congr (hgeo : DataGeometry sb) {d' : Disk} {ino : Inode}
    (h : ∀ f, 0 < inodeClaims sb d ino f → SameFrag sb d d' f) (f : Nat) :
    inodeClaims sb d' ino f = inodeClaims sb d ino f := by
  unfold inodeClaims at h ⊢
  split
  · rename_i hblocks
    simp only [if_pos hblocks] at h
    have hmeta : ∀ f, 0 < metaFrags sb d ino f → SameFrag sb d d' f :=
      fun f hf => h f (Nat.lt_of_lt_of_le hf (Nat.le_add_right _ _))
    unfold blockClaims dataFrags
    rw [metaFrags_congr hgeo hmeta, blockAt_congr hgeo hmeta]
  · rfl

/-- **One inode changes what it claims for what is free.**  The fragments of
the others stay as they are. -/
theorem FragsOwned.replace (h : FragsOwned sb live d) (hgeo : DataGeometry sb)
    {d' : Disk} {m : Nat} (hm : m ∈ live)
    (hinodes : ∀ n ∈ live, n ≠ m → d'.inodes n = d.inodes n)
    (hsame : ∀ f, freeAt sb d f = 0 → inodeClaims sb d (d.inodes m) f = 0 →
      SameFrag sb d d' f)
    (hclaims : ∀ f, freeAt sb d' f + inodeClaims sb d' (d'.inodes m) f
      = freeAt sb d f + inodeClaims sb d (d.inodes m) f) :
    FragsOwned sb live d' := by
  constructor
  intro f
  have hothers : ∑ n ∈ live.erase m, inodeClaims sb d' (d'.inodes n) f
      = ∑ n ∈ live.erase m, inodeClaims sb d (d.inodes n) f := by
    refine Finset.sum_congr rfl fun n hn => ?_
    obtain ⟨hne, hlive⟩ := Finset.mem_erase.mp hn
    rw [hinodes n hlive hne]
    exact inodeClaims_congr hgeo (fun f hf =>
      hsame f (h.claimed hlive hf) (h.other hm hlive hne hf)) f
  have hsum := Finset.add_sum_erase live
    (fun n => inodeClaims sb d (d.inodes n) f) hm
  have hsum' := Finset.add_sum_erase live
    (fun n => inodeClaims sb d' (d'.inodes n) f) hm
  have honce := h.once f
  have hf := hclaims f
  have hmine : inodeClaims sb d' (d'.inodes m) f
      + ∑ n ∈ live.erase m, inodeClaims sb d' (d'.inodes n) f
      = ∑ n ∈ live, inodeClaims sb d' (d'.inodes n) f := hsum'
  have hmine' : inodeClaims sb d (d.inodes m) f
      + ∑ n ∈ live.erase m, inodeClaims sb d (d.inodes n) f
      = ∑ n ∈ live, inodeClaims sb d (d.inodes n) f := hsum
  rw [hothers] at hmine
  omega

/-- **The other inodes read what they read.** -/
theorem FragsOwned.others_read (h : FragsOwned sb live d)
    (hgeo : DataGeometry sb) {d' : Disk} {m : Nat} (hm : m ∈ live)
    (hsame : ∀ f, freeAt sb d f = 0 → inodeClaims sb d (d.inodes m) f = 0 →
      SameFrag sb d d' f)
    {n : Nat} (hn : n ∈ live) (hne : n ≠ m)
    (hblocks : storesBlocks (d.inodes n) = true) (start len : Nat) :
    outcome (inodeReadData sb (d.inodes n) start len) d'
      = outcome (inodeReadData sb (d.inodes n) start len) d := by
  refine inodeReadData_congr hgeo (fun f hf => ?_) start len
  have hpos : 0 < inodeClaims sb d (d.inodes n) f := by
    unfold inodeClaims
    rwa [if_pos hblocks]
  exact hsame f (h.claimed hn hpos) (h.other hm hn hne hpos)

/-- **A change of free fragments is not seen by any inode.** -/
theorem FragsOwned.unseen (h : FragsOwned sb live d) (hgeo : DataGeometry sb)
    {d' : Disk} (hframe : ∀ f, freeAt sb d f = 0 → SameFrag sb d d' f)
    {m : Nat} (hm : m ∈ live) (hblocks : storesBlocks (d.inodes m) = true)
    (start n : Nat) :
    outcome (inodeReadData sb (d.inodes m) start n) d'
      = outcome (inodeReadData sb (d.inodes m) start n) d := by
  refine inodeReadData_congr hgeo (fun f hf => hframe f ?_) start n
  refine h.claimed hm ?_
  unfold inodeClaims
  rwa [if_pos hblocks]

/-- Direct blocks that end at or before `n` claim nothing from there on. -/
theorem inodeClaims_past {ino : Inode} {n f : Nat}
    (hib : ∀ slot, ino.ib slot = 0)
    (hend : ∀ lb < fileBlocks sb ino.size,
      blockAt sb d ino lb + fragsNeeded sb ino.size lb ≤ n)
    (hf : n ≤ f) : inodeClaims sb d ino f = 0 := by
  have hmeta : metaFrags sb d ino f = 0 := by
    refine Finset.sum_eq_zero fun slot _ => ?_
    rw [hib, treeFrags_zero_root]
  have hdata : dataFrags sb d ino ino.size (fileBlocks sb ino.size) f = 0 := by
    refine Finset.sum_eq_zero fun lb hlb => ?_
    have hle := hend lb (Finset.mem_range.mp hlb)
    rw [covers_eq_zero (by omega), ite_self]
  unfold inodeClaims blockClaims
  rw [hmeta, hdata, ite_self]

end Owned

end NextUfs
