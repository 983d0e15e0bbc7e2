/-
  NextUfs.Core.InodeAccounting
  ────────────────────────────
  **INODES KEEP A GROUP'S COUNTERS.**

  `nifree` counts the unused inodes of a group and `ndir` the used ones whose
  mode is a directory's.  The mode is the one the inode was allocated with: the
  allocator takes it as an argument and never reads the inode table, so the
  books are kept relative to a record `modes` of those arguments.
-/
import NextUfs.Core.AllocSpec
import NextUfs.Core.Counts

namespace NextUfs

open Bits

/-! ## §1. Inodes. -/

section Inodes

variable {sb : Superblock} {modes : Nat → UInt16} {c : Nat} {cg cg' : Cg}

/-- A step that leaves the inode bitmap and its counters alone. -/
theorem InodeCounts.congr (h : InodeCounts sb modes c cg)
    (hused : cg'.iused = cg.iused) (hnifree : cg'.cs.nifree = cg.cs.nifree)
    (hndir : cg'.cs.ndir = cg.cs.ndir) : InodeCounts sb modes c cg' := by
  constructor
  · rw [hnifree, h.nifree]
    unfold freeInodes
    rw [hused]
  · rw [hndir, h.ndir]
    unfold dirInodes
    rw [hused]

/-- Numbers of inodes of one group are told apart by their position. -/
theorem inode_inj {ipg c c' i i' : Nat} (hi : i < ipg) (hi' : i' < ipg)
    (h : c * ipg + i = c' * ipg + i') : c = c' ∧ i = i' := by
  have hdiv : ∀ a j, j < ipg → (a * ipg + j) / ipg = a := by
    intro a j hj
    rw [Nat.mul_comm, Nat.mul_add_div (by omega), Nat.div_eq_of_lt hj,
      Nat.add_zero]
  have hc : c = c' := by
    rw [← hdiv c i hi, h, hdiv c' i' hi']
  subst hc
  exact ⟨rfl, by omega⟩

/-- The mode of an inode of another group is not this group's matter. -/
theorem InodeCounts.of_update {c' i : Nat} {mode : UInt16} (hc : c' ≠ c)
    (hi : i < sb.inodesPerGroup) (h : InodeCounts sb modes c' cg) :
    InodeCounts sb
      (Function.update modes (c * sb.inodesPerGroup + i) mode) c' cg := by
  refine ⟨h.nifree, ?_⟩
  rw [h.ndir]
  unfold dirInodes
  congr 1
  refine Finset.sum_congr rfl fun j hj => ?_
  have hj := Finset.mem_range.mp hj
  rw [Function.update_of_ne]
  exact fun he => hc (inode_inj hj hi he).1

private theorem free_inode_of_ne (iused : Nat → Bool) (i : Nat) (v : Bool)
    {n : Nat} : ∀ j < n, j ≠ i →
      (!Function.update iused i v j).toNat = (!iused j).toNat := by
  intro j _ hne
  rw [Function.update_of_ne hne]

private theorem dir_inode_of_ne (iused : Nat → Bool) (modes : Nat → UInt16)
    (first i : Nat) (v : Bool) (mode : UInt16) {n : Nat} : ∀ j < n, j ≠ i →
      (Function.update iused i v j && isDirMode
        (Function.update modes (first + i) mode (first + j))).toNat
        = (iused j && isDirMode (modes (first + j))).toNat := by
  intro j _ hne
  rw [Function.update_of_ne hne, Function.update_of_ne (by omega)]

theorem dirDelta_eq (mode : UInt16) :
    dirDelta mode = UInt32.ofNat (isDirMode mode).toNat := by
  unfold dirDelta
  cases isDirMode mode <;> rfl

/-- An allocated inode leaves the free ones, and joins the directories when
its mode says so. -/
theorem claimInode_inodeCounts {mode : UInt16} {now : UInt32}
    {u : GroupUpdate Nat} (h : InodeCounts sb modes c cg)
    (hu : claimInode sb mode now cg = .ok u) :
    InodeCounts sb
        (Function.update modes (c * sb.inodesPerGroup + u.result) mode) c u.cg
      ∧ u.cg.cs = cg.cs + u.delta := by
  obtain ⟨hlt, hunused, -, hdelta, hcg⟩ := claimInode_ok hu
  rw [hcg, hdelta]
  generalize u.result = i at *
  have hfree : freeInodes sb
      { cg with iused := Function.update cg.iused i true }
        + 1 = freeInodes sb cg := by
    have := sum_change hlt (free_inode_of_ne cg.iused i true)
    simpa [hunused, freeInodes] using this
  have hdirs : dirInodes sb
      (Function.update modes (c * sb.inodesPerGroup + i) mode) c
      { cg with iused := Function.update cg.iused i true }
        = dirInodes sb modes c cg + (isDirMode mode).toNat := by
    have := sum_change hlt
      (dir_inode_of_ne cg.iused modes (c * sb.inodesPerGroup) i true mode)
    simpa [hunused, dirInodes] using this
  constructor
  · constructor
    · have h32 := congrArg UInt32.ofNat hfree
      simp only [UInt32.ofNat_add] at h32
      have hn := h.nifree
      change cg.cs.nifree - 1 = UInt32.ofNat (freeInodes sb
        { cg with iused := Function.update cg.iused i true })
      grind
    · change cg.cs.ndir + dirDelta mode = UInt32.ofNat (dirInodes sb _ c
        { cg with iused := Function.update cg.iused i true })
      rw [hdirs, UInt32.ofNat_add, h.ndir, dirDelta_eq]
  · ext : 1 <;> simp
    grind

/-- A freed inode joins the free ones, and leaves the directories when the
mode it was allocated with says so. -/
theorem releaseInode_inodeCounts {i : Nat} {mode : UInt16} {now : UInt32}
    {u : GroupUpdate Unit} (h : InodeCounts sb modes c cg)
    (hi : i < sb.inodesPerGroup)
    (hmode : isDirMode mode = isDirMode (modes (c * sb.inodesPerGroup + i)))
    (hu : releaseInode i mode now cg = .ok u) :
    InodeCounts sb modes c u.cg ∧ u.cg.cs = cg.cs + u.delta := by
  obtain ⟨hused, hdelta, hcg⟩ := releaseInode_ok hu
  rw [hcg, hdelta]
  have hfree : freeInodes sb
      { cg with iused := Function.update cg.iused i false }
        = freeInodes sb cg + 1 := by
    have := sum_change hi (free_inode_of_ne cg.iused i false)
    simpa [hused, freeInodes] using this
  have hdirs : dirInodes sb modes c
      { cg with iused := Function.update cg.iused i false }
        + (isDirMode mode).toNat = dirInodes sb modes c cg := by
    have := sum_change hi
      (dir_inode_of_ne cg.iused modes (c * sb.inodesPerGroup) i false
        (modes (c * sb.inodesPerGroup + i)))
    rw [Function.update_eq_self] at this
    simpa [hused, ← hmode, dirInodes] using this
  constructor
  · constructor
    · change cg.cs.nifree + 1 = UInt32.ofNat (freeInodes sb
        { cg with iused := Function.update cg.iused i false })
      rw [hfree, UInt32.ofNat_add, h.nifree]
      rfl
    · have h32 := congrArg UInt32.ofNat hdirs
      simp only [UInt32.ofNat_add] at h32
      have hn := h.ndir
      have hd := dirDelta_eq mode
      change cg.cs.ndir - dirDelta mode = UInt32.ofNat (dirInodes sb modes c
        { cg with iused := Function.update cg.iused i false })
      grind
  · ext : 1 <;> simp
    grind

end Inodes

end NextUfs
