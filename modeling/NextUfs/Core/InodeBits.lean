/-
  NextUfs.Core.InodeBits
  ──────────────────────
  **INODES TAKEN, INODES GIVEN BACK.**

  The inode side of the allocator, and what the two bitmaps determine.

    • `allocateInodeInGroup_spec` — an unused inode is taken, or every inode
      of the group is in use,
    • `freeInodeInGroup_spec`     — an inode in use is given back,
    • `sameCounters`              — two disks in order with the same bitmaps
      have the same counters.
-/
import NextUfs.Core.Space

namespace NextUfs

open Bits State

/-! ## §1. The inode bitmap of the disk. -/

/-- Inode `m` is in use in its group's bitmap. -/
def inodeUsed (sb : Superblock) (d : Disk) (m : Nat) : Bool :=
  (d.cgs (m / sb.inodesPerGroup)).iused (m % sb.inodesPerGroup)

/-- Number of inodes of the disk. -/
def inodeCount (sb : Superblock) : Nat := sb.cgCount * sb.inodesPerGroup

section Inodes

variable {sb : Superblock} {modes modes' : Nat → UInt16} {d d' : Disk}
  {mode : UInt16} {c m : Nat}

/-- The inode of group `c` at `i`. -/
theorem div_mod_inodesPerGroup {i : Nat} (hi : i < sb.inodesPerGroup) :
    (c * sb.inodesPerGroup + i) / sb.inodesPerGroup = c ∧
      (c * sb.inodesPerGroup + i) % sb.inodesPerGroup = i := by
  constructor
  · rw [Nat.mul_comm, Nat.mul_add_div (by omega), Nat.div_eq_of_lt hi,
      Nat.add_zero]
  · rw [Nat.mul_comm, Nat.mul_add_mod, Nat.mod_eq_of_lt hi]

/-- One bit of one group changes. -/
theorem inodeUsed_update {α : Type} {u : GroupUpdate α} {i : Nat} {v : Bool}
    (hi : i < sb.inodesPerGroup)
    (hu : u.cg.iused = Function.update (d.cgs c).iused i v) (m : Nat) :
    inodeUsed sb (d.withGroup c u) m
      = if m = c * sb.inodesPerGroup + i then v else inodeUsed sb d m := by
  unfold inodeUsed
  by_cases hc : m / sb.inodesPerGroup = c
  · rw [hc, withGroup_cgs_self, hu, Function.update_apply]
    have hsplit := Nat.div_add_mod' m sb.inodesPerGroup
    rw [hc] at hsplit
    by_cases hmod : m % sb.inodesPerGroup = i
    · rw [if_pos hmod, if_pos (by omega)]
    · rw [if_neg hmod, if_neg (by omega)]
  · rw [withGroup_cgs_of_ne _ _ _ hc, if_neg]
    rintro rfl
    exact hc (div_mod_inodesPerGroup hi).1

/-- From `d` to `d'` inode `m` was taken for an inode of this mode. -/
structure InodeTaken (sb : Superblock) (d d' : Disk) (m : Nat)
    (mode : UInt16) : Prop where
  unused : inodeUsed sb d m = false
  group : m / sb.inodesPerGroup < sb.cgCount
  iused : ∀ m', inodeUsed sb d' m'
    = if m' = m then true else inodeUsed sb d m'
  free : ∀ c, (d'.cgs c).free = (d.cgs c).free
  data : d'.data = d.data
  inodes : d'.inodes = d.inodes
  space : ∀ modes, FreeSpace sb modes d →
    FreeSpace sb (Function.update modes m mode) d'

/-- From `d` to `d'` inode `m`, whose mode was this, was given back. -/
structure InodeGiven (sb : Superblock) (d d' : Disk) (m : Nat)
    (mode : UInt16) : Prop where
  iused : ∀ m', inodeUsed sb d' m'
    = if m' = m then false else inodeUsed sb d m'
  free : ∀ c, (d'.cgs c).free = (d.cgs c).free
  data : d'.data = d.data
  inodes : d'.inodes = d.inodes
  space : ∀ modes, isDirMode mode = isDirMode (modes m) →
    FreeSpace sb modes d → FreeSpace sb modes d'

/-- A field of the groups that a step keeps. -/
theorem withGroup_field {α β : Type} {u : GroupUpdate α} (g : Cg → β)
    (hu : g u.cg = g (d.cgs c)) (c' : Nat) :
    g ((d.withGroup c u).cgs c') = g (d.cgs c') := by
  by_cases hne : c' = c
  · subst hne
    rw [withGroup_cgs_self, hu]
  · rw [withGroup_cgs_of_ne _ _ _ hne]

/-! ## §2. Taking an inode. -/

/-- The count of unused inodes fits its counter. -/
theorem freeInodes_le (sb : Superblock) (cg : Cg) :
    freeInodes sb cg ≤ sb.inodesPerGroup := by
  calc freeInodes sb cg
      ≤ ∑ _i ∈ Finset.range sb.inodesPerGroup, 1 :=
        Finset.sum_le_sum fun i _ => Bool.toNat_le _
    _ = sb.inodesPerGroup := by simp

/-- A group with an unused inode gives one. -/
theorem claimInode_complete {cg : Cg} {now : UInt32} {i : Nat}
    (hipg : sb.inodesPerGroup < 2 ^ 32)
    (hnifree : cg.cs.nifree = UInt32.ofNat (freeInodes sb cg))
    (hi : i < sb.inodesPerGroup) (hunused : cg.iused i = false) :
    ∃ u, claimInode sb mode now cg = .ok u := by
  have hcount : 0 < freeInodes sb cg := by
    have hsingle := Finset.single_le_sum (f := fun i => (!cg.iused i).toNat)
      (fun _ _ => Nat.zero_le _) (Finset.mem_range.mpr hi)
    simp only [hunused] at hsingle
    exact hsingle
  have hne : cg.cs.nifree ≠ 0 := by
    rw [hnifree]
    intro h0
    have hzero := congrArg UInt32.toNat h0
    have hle := freeInodes_le sb cg
    simp only [UInt32.toNat_ofNat', UInt32.toNat_zero] at hzero
    omega
  unfold claimInode
  rw [if_neg hne]
  dsimp only
  generalize hstart : (if sb.inodesPerGroup ≤ cg.irotor then 0
    else cg.irotor) = start
  have hlt : start < sb.inodesPerGroup := by
    rw [← hstart]
    split <;> omega
  -- the walk from the rotor comes round to position `i`
  have hfound : ((List.range sb.inodesPerGroup).find? fun j =>
      !cg.iused ((start + j) % sb.inodesPerGroup)).isSome = true := by
    rw [List.find?_isSome]
    refine ⟨(i + (sb.inodesPerGroup - start)) % sb.inodesPerGroup,
      List.mem_range.mpr (Nat.mod_lt _ (by omega)), ?_⟩
    rw [Nat.add_mod_mod, show start + (i + (sb.inodesPerGroup - start))
      = i + sb.inodesPerGroup by omega, Nat.add_mod_right,
      Nat.mod_eq_of_lt hi, hunused]
    rfl
  obtain ⟨j, hj⟩ := Option.isSome_iff_exists.mp hfound
  rw [hj]
  exact ⟨_, rfl⟩

/-- **Taking an inode**: an unused one is taken; or the disk is as it was. -/
theorem allocateInodeInGroup_spec (hc : c < sb.cgCount) (mode : UInt16)
    (d : Disk) :
    wp (allocateInodeInGroup sb c mode)
      (fun m d' => InodeTaken sb d d' m mode) (fun _ d' => d' = d) d := by
  unfold wp
  cases hrun : allocateInodeInGroup sb c mode d with
  | error e d' => exact allocateInodeInGroup_error hrun
  | ok m d' =>
    have haccounted : ∀ modes, FreeSpace sb modes d →
        Accounted sb (Function.update modes m mode) d' :=
      fun modes h => accounted_allocateInode h.accounted hc hrun
    obtain ⟨u, hu, rfl, rfl⟩ := allocateInodeInGroup_ok hrun
    obtain ⟨hlt, hunused, -, -, hcg⟩ := claimInode_ok hu
    obtain ⟨hdiv, hmod⟩ := @div_mod_inodesPerGroup sb c _ hlt
    have hmagic := @withGroup_field d c _ _ u Cg.magic (by rw [hcg])
    have hndblk := @withGroup_field d c _ _ u Cg.ndblk (by rw [hcg])
    refine ⟨?_, by rwa [hdiv], inodeUsed_update hlt (by rw [hcg]),
      withGroup_field Cg.free (by rw [hcg]), rfl, rfl, fun modes h =>
        ⟨haccounted modes h, fun c' hc' => ?_, fun c' hc' => ?_⟩⟩
    · unfold inodeUsed
      rw [hdiv, hmod, hunused]
    · exact (hmagic c').trans (h.magic c' hc')
    · exact (hndblk c').trans (h.ndblk c' hc')

/-- **An inode is found exactly where there is one**: in the group that was
asked for. -/
theorem allocateInodeInGroup_iff (hgeo : ValidGeometry sb)
    (hipg : sb.inodesPerGroup < 2 ^ 32) (hsp : FreeSpace sb modes d) (hc : c < sb.cgCount) :
    (∃ m d', allocateInodeInGroup sb c mode d = .ok m d') ↔
      ∃ m, m / sb.inodesPerGroup = c ∧ inodeUsed sb d m = false := by
  constructor
  · rintro ⟨m, d', hrun⟩
    obtain ⟨u, hu, rfl, -⟩ := allocateInodeInGroup_ok hrun
    obtain ⟨hlt, hunused, -⟩ := claimInode_ok hu
    obtain ⟨hdiv, hmod⟩ := @div_mod_inodesPerGroup sb c _ hlt
    refine ⟨_, hdiv, ?_⟩
    unfold inodeUsed
    rw [hdiv, hmod, hunused]
  · rintro ⟨m, rfl, hunused⟩
    have hlt := Nat.mod_lt m hgeo.inodesPerGroup_pos
    obtain ⟨u, hu⟩ := @claimInode_complete sb mode _ d.clock _ hipg
      (hsp.accounted.inodes _ hc).nifree hlt hunused
    refine ⟨_, _, bind_of_ok (updateGroup_of_ok (hsp.magic _ hc) hu)⟩

/-! ## §3. Giving an inode back. -/

/-- An inode in use can be released. -/
theorem releaseInode_of_used {cg : Cg} {now : UInt32} {i : Nat}
    (h : cg.iused i = true) : ∃ u, releaseInode i mode now cg = .ok u := by
  unfold releaseInode
  rw [h, if_neg Bool.noConfusion]
  exact ⟨_, rfl⟩

/-- **Giving an inode back.** -/
theorem freeInodeInGroup_spec (hgeo : ValidGeometry sb)
    (hsp : FreeSpace sb modes d)
    (hc : m / sb.inodesPerGroup < sb.cgCount)
    (hused : inodeUsed sb d m = true) (mode : UInt16) :
    ∃ d', freeInodeInGroup sb m mode d = .ok () d' ∧
      InodeGiven sb d d' m mode := by
  obtain ⟨u, hu⟩ := @releaseInode_of_used mode _ d.clock _ hused
  obtain ⟨-, -, hcg⟩ := releaseInode_ok hu
  have hrun : freeInodeInGroup sb m mode d = .ok () _ :=
    updateGroup_of_ok (hsp.magic _ hc) hu
  have hlt := Nat.mod_lt m hgeo.inodesPerGroup_pos
  have hmagic := @withGroup_field d _ _ _ u Cg.magic (by rw [hcg])
  have hndblk := @withGroup_field d _ _ _ u Cg.ndblk (by rw [hcg])
  refine ⟨_, hrun, fun m' => ?_, withGroup_field Cg.free (by rw [hcg]), rfl,
    rfl, fun modes' hmode h => ⟨accounted_freeInode hgeo h.accounted hc hmode
      hrun, fun c' hc' => ?_, fun c' hc' => ?_⟩⟩
  · rw [inodeUsed_update hlt (by rw [hcg]), Nat.div_add_mod']
  · exact (hmagic c').trans (h.magic c' hc')
  · exact (hndblk c').trans (h.ndblk c' hc')

/-! ## §4. What the bitmaps determine. -/

/-- Every free-space counter is the same on both disks. -/
structure SameCounters (sb : Superblock) (d d' : Disk) : Prop where
  cs : ∀ c < sb.cgCount, (d'.cgs c).cs = (d.cgs c).cs
  frsum : ∀ c < sb.cgCount, ∀ j, 1 ≤ j → j < sb.fragsPerBlock →
    (d'.cgs c).frsum j = (d.cgs c).frsum j
  btot : ∀ c < sb.cgCount, ∀ cyl < MAXCPG,
    (d'.cgs c).btot cyl = (d.cgs c).btot cyl
  b : ∀ c < sb.cgCount, ∀ cyl < MAXCPG, ∀ pos < NRPOS,
    (d'.cgs c).b cyl pos = (d.cgs c).b cyl pos
  csum : ∀ c < sb.cgCount, d'.csum c = d.csum c
  total : d'.cstotal = d.cstotal

/-- The bitmap of a group in order is what `freeAt` says of the group's
fragments. -/
theorem FreeSpace.free_eq (hgeo : SpaceGeometry sb)
    (h : FreeSpace sb modes d) (h' : FreeSpace sb modes' d')
    (hfree : ∀ f, freeAt sb d' f = freeAt sb d f) (hc : c < sb.cgCount) :
    (d'.cgs c).free = (d.cgs c).free := by
  have hstart := hgeo.groups_start c hc
  funext i
  by_cases hi : i < cgFrags sb c
  · have hlt : i < sb.fragsPerGroup := Nat.lt_of_lt_of_le hi
      (Nat.min_le_left _ _)
    have hdisk : c * sb.fragsPerGroup + i < sb.fragCount := by
      unfold cgFrags at hi
      omega
    obtain ⟨hdiv, hmod⟩ := @div_mod_fragsPerGroup sb c i hlt
    have hbit := hfree (c * sb.fragsPerGroup + i)
    unfold freeAt at hbit
    rw [if_pos hdisk, if_pos hdisk, hdiv, hmod] at hbit
    revert hbit
    cases (d'.cgs c).free i <;> cases (d.cgs c).free i <;> decide
  · rw [(h.accounted.frags c hc).pastEnd i (by rw [h.ndblk c hc]; omega),
      (h'.accounted.frags c hc).pastEnd i (by rw [h'.ndblk c hc]; omega)]

theorem csumTotal_congr {csum csum' : Nat → Csum} : ∀ {n : Nat},
    (∀ c < n, csum' c = csum c) → csumTotal csum' n = csumTotal csum n
  | 0, _ => rfl
  | n + 1, h => by
    unfold csumTotal
    rw [csumTotal_congr fun c hc => h c (by omega), h n (by omega)]

/-- **The bitmaps determine the counters.** -/
theorem sameCounters (hgeo : SpaceGeometry sb) (h : FreeSpace sb modes d)
    (h' : FreeSpace sb modes' d')
    (hfree : ∀ f, freeAt sb d' f = freeAt sb d f)
    (hused : ∀ m < inodeCount sb, inodeUsed sb d' m = inodeUsed sb d m)
    (hmodes : ∀ m < inodeCount sb, inodeUsed sb d m = true →
      isDirMode (modes' m) = isDirMode (modes m)) : SameCounters sb d d' := by
  have hndblk : ∀ c < sb.cgCount, (d'.cgs c).ndblk = (d.cgs c).ndblk :=
    fun c hc => (h'.ndblk c hc).trans (h.ndblk c hc).symm
  have hbits : ∀ c < sb.cgCount, (d'.cgs c).free = (d.cgs c).free :=
    fun c hc => h.free_eq hgeo h' hfree hc
  have hinode : ∀ c < sb.cgCount, ∀ i < sb.inodesPerGroup,
      c * sb.inodesPerGroup + i < inodeCount sb ∧
      inodeUsed sb d (c * sb.inodesPerGroup + i) = (d.cgs c).iused i ∧
      inodeUsed sb d' (c * sb.inodesPerGroup + i) = (d'.cgs c).iused i := by
    intro c hc i hi
    obtain ⟨hdiv, hmod⟩ := @div_mod_inodesPerGroup sb c i hi
    have hle := Nat.mul_le_mul_right sb.inodesPerGroup (Nat.succ_le_of_lt hc)
    rw [Nat.succ_mul] at hle
    unfold inodeUsed inodeCount
    rw [hdiv, hmod]
    exact ⟨by omega, rfl, rfl⟩
  have hiused : ∀ c < sb.cgCount, ∀ i < sb.inodesPerGroup,
      (d'.cgs c).iused i = (d.cgs c).iused i := by
    intro c hc i hi
    obtain ⟨hlt, h1, h2⟩ := hinode c hc i hi
    rw [← h1, ← h2, hused _ hlt]
  have hcs : ∀ c < sb.cgCount, (d'.cgs c).cs = (d.cgs c).cs := by
    intro c hc
    have hf := h.accounted.frags c hc
    have hf' := h'.accounted.frags c hc
    have hi := h.accounted.inodes c hc
    have hi' := h'.accounted.inodes c hc
    ext1
    · rw [hi'.ndir, hi.ndir]
      congr 1
      refine Finset.sum_congr rfl fun i hlt => ?_
      have hlt := Finset.mem_range.mp hlt
      obtain ⟨hm, h1, -⟩ := hinode c hc i hlt
      rw [hiused c hc i hlt]
      cases hb : (d.cgs c).iused i with
      | false => rfl
      | true => rw [hmodes _ hm (h1.trans hb)]
    · rw [hf'.nbfree, hf.nbfree, freeBlocks, hndblk c hc, hbits c hc,
        freeBlocks]
    · rw [hi'.nifree, hi.nifree]
      congr 1
      refine Finset.sum_congr rfl fun i hlt => ?_
      rw [hiused c hc i (Finset.mem_range.mp hlt)]
    · rw [hf'.nffree, hf.nffree, freeFrags, hndblk c hc, hbits c hc,
        freeFrags]
  have hcsum : ∀ c < sb.cgCount, d'.csum c = d.csum c := by
    intro c hc
    rw [h'.accounted.csum c hc, h.accounted.csum c hc, hcs c hc]
  refine ⟨hcs, fun c hc j h1 hj => ?_, fun c hc cyl hcyl => ?_,
    fun c hc cyl hcyl pos hpos => ?_, hcsum, ?_⟩
  · rw [(h'.accounted.frags c hc).frsum j h1 hj,
      (h.accounted.frags c hc).frsum j h1 hj, freeRuns, hndblk c hc,
      hbits c hc, freeRuns]
  · rw [(h'.accounted.frags c hc).btot cyl hcyl,
      (h.accounted.frags c hc).btot cyl hcyl, cylBlocks, hndblk c hc,
      hbits c hc, cylBlocks]
  · rw [(h'.accounted.frags c hc).b cyl hcyl pos hpos,
      (h.accounted.frags c hc).b cyl hcyl pos hpos, posBlocks, hndblk c hc,
      hbits c hc, posBlocks]
  · rw [h'.accounted.total, h.accounted.total]
    exact csumTotal_congr hcsum

end Inodes

end NextUfs
