/-
  NextUfs.Core.Accounting
  ───────────────────────
  **ALLOCATION KEEPS THE BOOKS.**

  From one group to the whole disk, and from one call to any sequence of
  them.

    • `Accounted.groupStep` — a group step that keeps its group's counters
      keeps the summary table and the totals,
    • `Call`, `Calls`       — sequences of calls that succeed,
    • `accounted_of_calls`  — the invariant over any such sequence,
    • `accounting_needs_promises` — what goes wrong without the promises.
-/
import NextUfs.Core.FragAccounting
import NextUfs.Core.InodeAccounting

namespace NextUfs

open Bits

/-! ## §1. From a group to the disk. -/

theorem csumTotal_update {csum : Nat → Csum} {c : Nat} (v : Csum) :
    ∀ {n : Nat}, n ≤ c →
      csumTotal (Function.update csum c v) n = csumTotal csum n
  | 0, _ => rfl
  | n + 1, h => by
    unfold csumTotal
    rw [csumTotal_update v (by omega), Function.update_of_ne (by omega)]

/-- A delta added to one entry is added to the total. -/
theorem csumTotal_add {csum : Nat → Csum} {c : Nat} (delta : Csum) :
    ∀ {n : Nat}, c < n →
      csumTotal (Function.update csum c (csum c + delta)) n
        = csumTotal csum n + delta
  | 0, h => by omega
  | n + 1, h => by
    unfold csumTotal
    rcases Nat.lt_or_eq_of_le (Nat.le_of_lt_succ h) with hlt | rfl
    · rw [csumTotal_add delta hlt, Function.update_of_ne (by omega)]
      ext : 1 <;> simp <;> grind
    · rw [csumTotal_update _ le_rfl, Function.update_self]
      ext : 1 <;> simp <;> grind

section Disk

variable {sb : Superblock} {modes modes' : Nat → UInt16} {d d' : Disk}
  {c : Nat}

/-- **From a group to the disk**: a group operation that keeps its own group's
counters, and whose delta is what it added to them, keeps the books. -/
theorem Accounted.groupStep {α : Type} {u : GroupUpdate α}
    (h : Accounted sb modes d) (hc : c < sb.cgCount)
    (hfrags : FragCounts sb u.cg) (hinodes : InodeCounts sb modes' c u.cg)
    (hcs : u.cg.cs = (d.cgs c).cs + u.delta)
    (hother : ∀ c' ≠ c, InodeCounts sb modes c' (d.cgs c') →
      InodeCounts sb modes' c' (d.cgs c')) :
    Accounted sb modes' (d.withGroup c u) := by
  constructor
  · intro c' hc'
    by_cases he : c' = c
    · subst he
      rwa [withGroup_cgs_self]
    · rw [withGroup_cgs_of_ne _ _ _ he]
      exact h.frags c' hc'
  · intro c' hc'
    by_cases he : c' = c
    · subst he
      rwa [withGroup_cgs_self]
    · rw [withGroup_cgs_of_ne _ _ _ he]
      exact hother c' he (h.inodes c' hc')
  · intro c' hc'
    by_cases he : c' = c
    · subst he
      rw [withGroup_cgs_self, hcs, ← h.csum c' hc']
      exact Function.update_self ..
    · rw [withGroup_cgs_of_ne _ _ _ he, ← h.csum c' hc']
      exact Function.update_of_ne he _ _
  · change d.cstotal + u.delta = csumTotal (Function.update _ _ _) _
    rw [csumTotal_add u.delta hc, h.total]

/-- A fragment operation on one group: the inode side comes for free. -/
theorem Accounted.fragStep {α : Type} {u : GroupUpdate α}
    (h : Accounted sb modes d) (hc : c < sb.cgCount)
    (hfrags : FragCounts sb u.cg)
    (hcs : u.cg.cs = (d.cgs c).cs + u.delta)
    (hused : u.cg.iused = (d.cgs c).iused)
    (hndir : u.delta.ndir = 0) (hnifree : u.delta.nifree = 0) :
    Accounted sb modes (d.withGroup c u) := by
  refine h.groupStep hc hfrags ((h.inodes c hc).congr hused ?_ ?_) hcs
    fun c' _ hc' => hc'
  · simp [hcs, hnifree]
  · simp [hcs, hndir]

theorem Accounted.write (h : Accounted sb modes d) (off : Nat)
    (bytes : List UInt8) : Accounted sb modes (d.write off bytes) :=
  ⟨h.frags, h.inodes, h.csum, h.total⟩

/-! ## §2. The calls. -/

theorem accounted_allocateInode {mode : UInt16} {ino : Nat}
    (h : Accounted sb modes d) (hc : c < sb.cgCount)
    (hrun : allocateInodeInGroup sb c mode d = .ok ino d') :
    Accounted sb (Function.update modes ino mode) d' := by
  obtain ⟨u, hu, rfl, rfl⟩ := allocateInodeInGroup_ok hrun
  obtain ⟨hino, hcs⟩ := claimInode_inodeCounts (h.inodes c hc) hu
  obtain ⟨hlt, -, -, hdelta, hcg⟩ := claimInode_ok hu
  have hf := h.frags c hc
  refine h.groupStep hc ?_ hino hcs fun c' hne hc' => hc'.of_update hne hlt
  rw [hcg]
  exact ⟨hf.nbfree, hf.nffree, hf.frsum, hf.btot, hf.b, hf.pastEnd⟩

theorem accounted_freeInode {mode : UInt16} {ino : Nat}
    (hgeo : ValidGeometry sb) (h : Accounted sb modes d)
    (hc : ino / sb.inodesPerGroup < sb.cgCount)
    (hmode : isDirMode mode = isDirMode (modes ino))
    (hrun : freeInodeInGroup sb ino mode d = .ok () d') :
    Accounted sb modes d' := by
  obtain ⟨u, hu, rfl⟩ := freeInodeInGroup_ok hrun
  have hmode' : isDirMode mode
      = isDirMode (modes (ino / sb.inodesPerGroup * sb.inodesPerGroup
          + ino % sb.inodesPerGroup)) := by
    rw [Nat.div_add_mod', hmode]
  obtain ⟨hino, hcs⟩ := releaseInode_inodeCounts (h.inodes _ hc)
    (Nat.mod_lt _ hgeo.inodesPerGroup_pos) hmode' hu
  obtain ⟨-, -, hcg⟩ := releaseInode_ok hu
  have hf := h.frags _ hc
  refine h.groupStep hc ?_ hino hcs fun c' _ hc' => hc'
  rw [hcg]
  exact ⟨hf.nbfree, hf.nffree, hf.frsum, hf.btot, hf.b, hf.pastEnd⟩

theorem accounted_allocateFragsInGroup {n frag : Nat}
    (hgeo : ValidGeometry sb) (h : Accounted sb modes d) (hc : c < sb.cgCount)
    (hrun : allocateFragsInGroup sb c n d = .ok frag d') :
    Accounted sb modes d' := by
  have hfpb := hgeo.fpb_pos
  obtain ⟨hn0, hn, u, hu, -, rfl⟩ := allocateFragsInGroup_ok hrun
  have hf := h.frags c hc
  obtain ⟨-, ⟨base, start, hpart, -, rfl⟩ | ⟨localFrag, hblock, rfl⟩⟩ :=
    claimFrags_ok hu
  · obtain ⟨k, rfl, hlim, hlo, hhi, -, hset, hw⟩ :=
      findPartialRun_some hfpb hn0 hf.pastEnd hpart
    have hk : k < blockCount sb (d.cgs c).ndblk := by
      have := lt_blockCount hfpb hlim
      rwa [Nat.mul_div_cancel _ hfpb] at this
    refine h.fragStep hc (takePartialRun_fragCounts hf hk hlo hhi hset hw)
      ?_ rfl rfl rfl
    ext : 1 <;> simp [takePartialRun]
    grind
  · obtain ⟨k, rfl, hlim, hw⟩ := findFreeBlock_some hblock
    have hk : k < blockCount sb (d.cgs c).ndblk := by
      have := lt_blockCount hfpb
        (show k * sb.fragsPerBlock < (d.cgs c).ndblk by omega)
      rwa [Nat.mul_div_cancel _ hfpb] at this
    refine h.fragStep hc
      (splitFreeBlock_fragCounts hf hgeo.sectorsPerTrack_pos hk hn0 hn hw)
      ?_ ?_ rfl rfl
    · ext : 1 <;> simp [splitFreeBlock]
      grind
    · simp [splitFreeBlock]

theorem accounted_allocateFrags {preferredCg n frag : Nat}
    (hgeo : ValidGeometry sb) (h : Accounted sb modes d)
    (hrun : allocateFragsAnycg sb preferredCg n d = .ok frag d') :
    Accounted sb modes d' := by
  obtain ⟨c, hc, hgroup⟩ := allocateFragsAnycg_ok hrun
  exact accounted_allocateFragsInGroup hgeo h hc hgroup

/-- A run of `n` fragments from `fragBase` on lies inside one block of one
group. -/
def RunInside (sb : Superblock) (d : Disk) (fragBase n : Nat) : Prop :=
  fragBase / sb.fragsPerGroup < sb.cgCount ∧
    InOneBlock sb (fragBase % sb.fragsPerGroup) n ∧
    fragBase % sb.fragsPerGroup + n
      ≤ (d.cgs (fragBase / sb.fragsPerGroup)).ndblk

/-- No fragment of the run is free. -/
def RunAllocated (sb : Superblock) (d : Disk) (fragBase n : Nat) : Prop :=
  ∀ i < n, (d.cgs (fragBase / sb.fragsPerGroup)).free
    (fragBase % sb.fragsPerGroup + i) = false

theorem accounted_extend {fragBase old new : Nat} (hgeo : ValidGeometry sb)
    (h : Accounted sb modes d) (hc : fragBase / sb.fragsPerGroup < sb.cgCount)
    (hold : 0 < old) (halloc : RunAllocated sb d fragBase old)
    (hrun : extendFragmentRun sb fragBase old new d = .ok () d') :
    Accounted sb modes d' := by
  obtain ⟨hlt, -, hone, u, hu, rfl⟩ := extendFragmentRun_ok hrun
  obtain ⟨hfrags, hcs⟩ := growRun_fragCounts (h.frags _ hc) hgeo.fpb_pos hold
    hlt hone halloc hu
  unfold growRun at hu
  dsimp only at hu
  split at hu
  · cases hu
  · cases hu
    exact h.fragStep hc hfrags hcs rfl rfl rfl

theorem accounted_freeRun {fragBase n : Nat} (hgeo : ValidGeometry sb)
    (h : Accounted sb modes d) (hin : RunInside sb d fragBase n)
    (hrun : freeFragmentRun sb fragBase n d = .ok () d') :
    Accounted sb modes d' := by
  obtain ⟨hc, hone, hend⟩ := hin
  obtain ⟨hn, -, u, hu, rfl⟩ := freeFragmentRun_ok hrun
  obtain ⟨hfrags, hcs⟩ := releaseRun_fragCounts (h.frags _ hc) hgeo hn hone
    hend hu
  unfold releaseRun at hu
  split at hu
  · cases hu
  dsimp only at hu
  split at hu
  · cases hu
    exact h.fragStep hc hfrags hcs (by simp) rfl rfl
  · cases hu
    exact h.fragStep hc hfrags hcs rfl rfl rfl

/-- An allocation changes no group's size. -/
theorem allocateFragsAnycg_ndblk {preferredCg n frag : Nat}
    (hrun : allocateFragsAnycg sb preferredCg n d = .ok frag d') (c' : Nat) :
    (d'.cgs c').ndblk = (d.cgs c').ndblk := by
  obtain ⟨c, -, hgroup⟩ := allocateFragsAnycg_ok hrun
  obtain ⟨-, -, u, hu, -, rfl⟩ := allocateFragsInGroup_ok hgroup
  by_cases hne : c' = c
  · subst hne
    rw [withGroup_cgs_self]
    obtain ⟨-, ⟨base, start, -, -, rfl⟩ | ⟨localFrag, -, rfl⟩⟩ :=
      claimFrags_ok hu
    · rfl
    · simp [splitFreeBlock]
  · rw [withGroup_cgs_of_ne _ _ _ hne]

theorem accounted_reallocate {oldFrag old new preferredCg newFrag : Nat}
    (hgeo : ValidGeometry sb) (h : Accounted sb modes d)
    (hin : RunInside sb d oldFrag old)
    (hrun : reallocateFragmentRun sb oldFrag old new preferredCg d
      = .ok newFrag d') :
    Accounted sb modes d' := by
  obtain ⟨d₁, halloc, hfree⟩ := reallocateFragmentRun_ok hrun
  have h₁ := accounted_allocateFrags hgeo h halloc
  refine accounted_freeRun hgeo (h₁.write _ _) ?_ hfree
  obtain ⟨hc, hone, hend⟩ := hin
  refine ⟨hc, hone, ?_⟩
  change _ ≤ (d₁.cgs _).ndblk
  rwa [allocateFragsAnycg_ndblk halloc]

end Disk

/-! ## §3. Sequences of calls. -/

/-- One allocator call that succeeds, with what its caller promises: groups of
the disk, runs inside one block, an extended run that is allocated, and a freed
inode's own mode.  `modes` records the mode each inode was allocated with. -/
inductive Call (sb : Superblock) :
    Disk × (Nat → UInt16) → Disk × (Nat → UInt16) → Prop
  | allocateInode {d d' : Disk} {modes : Nat → UInt16} {c : Nat}
      {mode : UInt16} {ino : Nat} (hc : c < sb.cgCount)
      (hrun : allocateInodeInGroup sb c mode d = .ok ino d') :
      Call sb (d, modes) (d', Function.update modes ino mode)
  | freeInode {d d' : Disk} {modes : Nat → UInt16} {ino : Nat}
      {mode : UInt16} (hc : ino / sb.inodesPerGroup < sb.cgCount)
      (hmode : isDirMode mode = isDirMode (modes ino))
      (hrun : freeInodeInGroup sb ino mode d = .ok () d') :
      Call sb (d, modes) (d', modes)
  | allocateFrags {d d' : Disk} {modes : Nat → UInt16}
      {preferredCg n frag : Nat}
      (hrun : allocateFragsAnycg sb preferredCg n d = .ok frag d') :
      Call sb (d, modes) (d', modes)
  | extend {d d' : Disk} {modes : Nat → UInt16} {fragBase old new : Nat}
      (hc : fragBase / sb.fragsPerGroup < sb.cgCount) (hold : 0 < old)
      (halloc : RunAllocated sb d fragBase old)
      (hrun : extendFragmentRun sb fragBase old new d = .ok () d') :
      Call sb (d, modes) (d', modes)
  | freeRun {d d' : Disk} {modes : Nat → UInt16} {fragBase n : Nat}
      (hin : RunInside sb d fragBase n)
      (hrun : freeFragmentRun sb fragBase n d = .ok () d') :
      Call sb (d, modes) (d', modes)
  | reallocate {d d' : Disk} {modes : Nat → UInt16}
      {oldFrag old new preferredCg newFrag : Nat}
      (hin : RunInside sb d oldFrag old)
      (hrun : reallocateFragmentRun sb oldFrag old new preferredCg d
        = .ok newFrag d') :
      Call sb (d, modes) (d', modes)

/-- A finite sequence of successful calls. -/
inductive Calls (sb : Superblock) :
    Disk × (Nat → UInt16) → Disk × (Nat → UInt16) → Prop
  | nil (s : Disk × (Nat → UInt16)) : Calls sb s s
  | snoc {s t t' : Disk × (Nat → UInt16)} (hrun : Calls sb s t)
      (hcall : Call sb t t') : Calls sb s t'

/-- One call keeps the books. -/
theorem accounted_of_call {sb : Superblock}
    {s s' : Disk × (Nat → UInt16)} (hgeo : ValidGeometry sb)
    (h : Accounted sb s.2 s.1) (hcall : Call sb s s') :
    Accounted sb s'.2 s'.1 := by
  cases hcall with
  | allocateInode hc hrun => exact accounted_allocateInode h hc hrun
  | freeInode hc hmode hrun => exact accounted_freeInode hgeo h hc hmode hrun
  | allocateFrags hrun => exact accounted_allocateFrags hgeo h hrun
  | extend hc hold halloc hrun =>
    exact accounted_extend hgeo h hc hold halloc hrun
  | freeRun hin hrun => exact accounted_freeRun hgeo h hin hrun
  | reallocate hin hrun => exact accounted_reallocate hgeo h hin hrun

/-- **The accounting invariant over a run of the allocator**: any sequence of
successful calls leaves every counter, summary entry and total at the value the
bitmaps define. -/
theorem accounted_of_calls {sb : Superblock} {s s' : Disk × (Nat → UInt16)}
    (hgeo : ValidGeometry sb) (h : Accounted sb s.2 s.1)
    (hrun : Calls sb s s') : Accounted sb s'.2 s'.1 := by
  induction hrun with
  | nil => exact h
  | snoc _ hcall ih => exact accounted_of_call hgeo ih hcall

/-! ## §4. One block, by hand. -/

/-- Geometry of a disk with one group of one block. -/
def oneBlockSb : Superblock where
  sbOff := 0
  cgOff := 0
  inoOff := 0
  dataOff := 0
  cgDelta := 0
  cgCycMask := 0
  fragCount := 8
  cgCount := 1
  blockSize := 8192
  fragSize := 1024
  fragsPerBlock := 8
  sectorsPerFrag := 1
  cylSummaryAddr := 0
  csumSize := 1024
  cgSize := 8192
  sectorsPerTrack := 16
  sectorsPerCyl := 16
  ncyl := 1
  cpg := 1
  inodesPerGroup := 2
  inodesPerBlock := 64
  fragsPerGroup := 8

/-- Its disk: the block is free, inode 0 is a file and inode 1 is unused. -/
def oneBlockDisk : Disk where
  cstotal := ⟨0, 1, 1, 0⟩
  sbTime := 0
  csum := fun _ => ⟨0, 1, 1, 0⟩
  cgs := fun _ =>
    { link := 0, rlink := 0, time := 0, cgx := 0, ncyl := 1, niblk := 2, ndblk := 8
      cs := ⟨0, 1, 1, 0⟩, rotor := 0, frotor := 0, irotor := 0
      frsum := fun _ => 0
      btot := fun cyl => if cyl = 0 then 1 else 0
      b := fun cyl pos => if cyl = 0 ∧ pos = 0 then 1 else 0
      iused := fun i => i == 0
      magic := CG_MAGIC
      free := fun i => decide (i < 8) }
  inodes := fun _ =>
    { mode := IFREG, nlink := 1, uid := 0, gid := 0, size := 0, atime := 0
      mtime := 0, ctime := 0, db := fun _ => 0, ib := fun _ => 0, flags := 0
      blocks := 0, gen := 0 }
  data := fun _ => 0
  clock := 0

theorem oneBlock_geometry : ValidGeometry oneBlockSb := by
  constructor <;> decide

theorem oneBlock_accounted :
    Accounted oneBlockSb (fun _ => IFREG) oneBlockDisk := by
  have hruns : ∀ j < 8, 1 ≤ j → (oneBlockDisk.cgs 0).frsum j
      = UInt32.ofNat (freeRuns oneBlockSb (oneBlockDisk.cgs 0) j) := by
    decide
  constructor
  · intro c hc
    obtain rfl : c = 0 := Nat.lt_one_iff.mp hc
    constructor
    · decide
    · decide
    · exact fun j hj1 hj => hruns j hj hj1
    · decide
    · decide +kernel
    · intro i hi
      simpa [oneBlockDisk] using hi
  · intro c hc
    obtain rfl : c = 0 := Nat.lt_one_iff.mp hc
    constructor <;> decide
  · intro c _
    rfl
  · rfl

/-- A directory is made, a run of three is taken, grown to five, and two of
its fragments move. -/
theorem accounted_of_calls_oneBlock :
    ∃ s, Calls oneBlockSb (oneBlockDisk, fun _ => IFREG) s ∧
      s.1.cstotal = ⟨1, 0, 0, 2⟩ ∧ Accounted oneBlockSb s.2 s.1 := by
  have hrun : Calls oneBlockSb (oneBlockDisk, fun _ => IFREG) _ :=
    .snoc (.snoc (.snoc (.snoc (.nil _)
      (@Call.allocateInode _ _ _ _ 0 IFDIR 1 (by decide) rfl))
      (@Call.allocateFrags _ _ _ _ 0 3 0 rfl))
      (@Call.extend _ _ _ _ 0 3 5 (by decide) (by decide)
        (by unfold RunAllocated; decide) rfl))
      (@Call.reallocate _ _ _ _ 0 2 3 0 5
        ⟨by decide, by unfold InOneBlock; decide, by decide⟩ rfl)
  exact ⟨_, hrun, rfl,
    accounted_of_calls oneBlock_geometry oneBlock_accounted hrun⟩

/-- **What the callers promise is needed**: extending a run that was never
allocated takes fragments off `nffree` that were counted in `nbfree`, and
freeing a file as a directory takes off `ndir` what was never added. -/
theorem accounting_needs_promises :
    ¬(∀ (sb : Superblock) (modes : Nat → UInt16) (d d' : Disk)
      (fragBase old new : Nat), ValidGeometry sb → Accounted sb modes d →
      RunInside sb d fragBase old → RunInside sb d fragBase new →
      extendFragmentRun sb fragBase old new d = .ok () d' →
      Accounted sb modes d') ∧
    ¬(∀ (sb : Superblock) (modes : Nat → UInt16) (d d' : Disk)
      (ino : Nat) (mode : UInt16), ValidGeometry sb → Accounted sb modes d →
      ino / sb.inodesPerGroup < sb.cgCount →
      freeInodeInGroup sb ino mode d = .ok () d' → Accounted sb modes d') := by
  constructor
  · intro h
    have hbad := h oneBlockSb (fun _ => IFREG) oneBlockDisk _ 0 1 2
      oneBlock_geometry oneBlock_accounted
      ⟨by decide, by unfold InOneBlock; decide, by decide⟩
      ⟨by decide, by unfold InOneBlock; decide, by decide⟩ rfl
    have hnffree := (hbad.frags 0 (by decide)).nffree
    revert hnffree
    decide
  · intro h
    have hbad := h oneBlockSb (fun _ => IFREG) oneBlockDisk _ 0 IFDIR
      oneBlock_geometry oneBlock_accounted (by decide) rfl
    have hndir := (hbad.inodes 0 (by decide)).ndir
    revert hndir
    decide

end NextUfs
