/-
  NextUfs.Core.AllocSpec
  ──────────────────────
  **WHAT A SUCCESSFUL ALLOCATOR CALL DID.**

  One inversion lemma for each function of `Alloc`; everything later cites
  these and never unfolds the functions again.

    • `updateGroup_ok` / `updateGroup_error` — a group operation rewrites its
      group and the summaries, or changes nothing,
    • `findPartialRun_some`, `findFreeBlock_some` — what the searches find,
    • `claimFrags_ok` — the two ways a group gives fragments,
    • `allocateFragsAnycg_ok` — the groups that failed left no trace.
-/
import NextUfs.Core.Alloc

namespace NextUfs

open Bits State

/-! ## §1. The group operation. -/

/-- The disk after a group operation computed `u` for group `c`. -/
def Disk.withGroup {α : Type} (d : Disk) (c : Nat) (u : GroupUpdate α) :
    Disk :=
  { d with
    cgs := Function.update d.cgs c u.cg
    cstotal := d.cstotal + u.delta
    sbTime := d.clock
    csum := Function.update d.csum c (d.csum c + u.delta) }

section WithGroup

variable {α : Type} (d : Disk) (c : Nat) (u : GroupUpdate α)

@[simp] theorem withGroup_data : (d.withGroup c u).data = d.data := rfl

@[simp] theorem withGroup_inodes : (d.withGroup c u).inodes = d.inodes := rfl

@[simp] theorem withGroup_clock : (d.withGroup c u).clock = d.clock := rfl

@[simp] theorem withGroup_cgs_self : (d.withGroup c u).cgs c = u.cg :=
  Function.update_self ..

theorem withGroup_cgs_of_ne {c' : Nat} (h : c' ≠ c) :
    (d.withGroup c u).cgs c' = d.cgs c' :=
  Function.update_of_ne h _ _

end WithGroup

theorem updateGroup_ok {α : Type} {c : Nat}
    {f : UInt32 → Cg → Except Errno (GroupUpdate α)} {d d' : Disk} {a : α}
    (h : updateGroup c f d = .ok a d') :
    ∃ u, (d.cgs c).magic = CG_MAGIC ∧ f d.clock (d.cgs c) = .ok u ∧
      a = u.result ∧ d' = d.withGroup c u := by
  obtain ⟨d₀, _, hget, h⟩ := bind_eq_ok h
  cases hget
  split at h
  · cases h
  · rename_i hmagic
    cases hu : f d.clock (d.cgs c) with
    | error e =>
      rw [hu] at h
      cases h
    | ok u =>
      rw [hu] at h
      cases h
      exact ⟨u, not_not.mp hmagic, rfl, rfl, rfl⟩

theorem updateGroup_error {α : Type} {c : Nat}
    {f : UInt32 → Cg → Except Errno (GroupUpdate α)} {d d' : Disk} {e : Errno}
    (h : updateGroup c f d = .error e d') :
    d' = d ∧ ((d.cgs c).magic ≠ CG_MAGIC ∧ e = .EINVAL ∨
      (d.cgs c).magic = CG_MAGIC ∧ f d.clock (d.cgs c) = .error e) := by
  rcases bind_eq_error h with h | ⟨d₀, _, hget, h⟩
  · cases h
  cases hget
  split at h
  · rename_i hmagic
    cases h
    exact ⟨rfl, Or.inl ⟨hmagic, rfl⟩⟩
  · rename_i hmagic
    cases hu : f d.clock (d.cgs c) with
    | error e' =>
      rw [hu] at h
      cases h
      exact ⟨rfl, Or.inr ⟨not_not.mp hmagic, rfl⟩⟩
    | ok u =>
      rw [hu] at h
      cases h

/-- A group whose step succeeds. -/
theorem updateGroup_of_ok {α : Type} {c : Nat}
    {f : UInt32 → Cg → Except Errno (GroupUpdate α)} {d : Disk}
    {u : GroupUpdate α} (hmagic : (d.cgs c).magic = CG_MAGIC)
    (hu : f d.clock (d.cgs c) = .ok u) :
    updateGroup c f d = .ok u.result (d.withGroup c u) := by
  unfold updateGroup
  refine (bind_of_ok (show (get : Op Disk) d = .ok d d from rfl)).trans ?_
  rw [if_neg (not_not.mpr hmagic), hu]
  rfl

/-- A group whose step fails. -/
theorem updateGroup_of_error {α : Type} {c : Nat}
    {f : UInt32 → Cg → Except Errno (GroupUpdate α)} {d : Disk} {e : Errno}
    (hmagic : (d.cgs c).magic = CG_MAGIC)
    (he : f d.clock (d.cgs c) = .error e) :
    updateGroup c f d = .error e d := by
  unfold updateGroup
  refine (bind_of_ok (show (get : Op Disk) d = .ok d d from rfl)).trans ?_
  rw [if_neg (not_not.mpr hmagic), he]
  rfl

/-! ## §2. Inodes. -/

/-- The inode a group gives was unused. -/
theorem claimInode_ok {sb : Superblock} {mode : UInt16} {now : UInt32}
    {cg : Cg} {u : GroupUpdate Nat} (h : claimInode sb mode now cg = .ok u) :
    u.result < sb.inodesPerGroup ∧ cg.iused u.result = false ∧
      cg.cs.nifree ≠ 0 ∧
      u.delta = ⟨dirDelta mode, 0, -1, 0⟩ ∧
      u.cg =
        { cg with
          iused := Function.update cg.iused u.result true
          irotor := u.result
          time := now
          cs :=
            { cg.cs with
              nifree := cg.cs.nifree - 1
              ndir := cg.cs.ndir + dirDelta mode } } := by
  unfold claimInode at h
  split at h
  · cases h
  · rename_i hfree
    dsimp only at h
    split at h
    · cases h
    · rename_i i hi
      cases h
      have hused := List.find?_some hi
      have hmem := List.mem_range.mp (List.mem_of_find?_eq_some hi)
      exact ⟨Nat.mod_lt _ (by omega), by simpa using hused, hfree, rfl, rfl⟩

theorem allocateInodeInGroup_ok {sb : Superblock} {c : Nat} {mode : UInt16}
    {d d' : Disk} {ino : Nat}
    (h : allocateInodeInGroup sb c mode d = .ok ino d') :
    ∃ u, claimInode sb mode d.clock (d.cgs c) = .ok u ∧
      ino = c * sb.inodesPerGroup + u.result ∧ d' = d.withGroup c u := by
  obtain ⟨ipref, d₁, hgroup, hret⟩ := bind_eq_ok h
  obtain ⟨u, _, hu, rfl, rfl⟩ := updateGroup_ok hgroup
  cases hret
  exact ⟨u, hu, rfl, rfl⟩

theorem allocateInodeInGroup_error {sb : Superblock} {c : Nat} {mode : UInt16}
    {d d' : Disk} {e : Errno}
    (h : allocateInodeInGroup sb c mode d = .error e d') : d' = d := by
  rcases bind_eq_error h with h | ⟨_, _, _, h⟩
  · exact (updateGroup_error h).1
  · cases h

/-- A freed inode was in use. -/
theorem releaseInode_ok {localIno : Nat} {mode : UInt16} {now : UInt32}
    {cg : Cg} {u : GroupUpdate Unit}
    (h : releaseInode localIno mode now cg = .ok u) :
    cg.iused localIno = true ∧ u.delta = ⟨-dirDelta mode, 0, 1, 0⟩ ∧
      u.cg =
        { cg with
          iused := Function.update cg.iused localIno false
          time := now
          cs :=
            { cg.cs with
              nifree := cg.cs.nifree + 1
              ndir := cg.cs.ndir - dirDelta mode } } := by
  unfold releaseInode at h
  split at h
  · cases h
  · rename_i hused
    cases h
    exact ⟨by simpa using hused, rfl, rfl⟩

theorem freeInodeInGroup_ok {sb : Superblock} {inodeNo : Nat} {mode : UInt16}
    {d d' : Disk} {a : Unit}
    (h : freeInodeInGroup sb inodeNo mode d = .ok a d') :
    ∃ u, releaseInode (inodeNo % sb.inodesPerGroup) mode d.clock
        (d.cgs (inodeNo / sb.inodesPerGroup)) = .ok u ∧
      d' = d.withGroup (inodeNo / sb.inodesPerGroup) u := by
  obtain ⟨u, _, hu, _, rfl⟩ := updateGroup_ok h
  exact ⟨u, hu, rfl⟩

/-! ## §3. The searches. -/

/-- A partial run is a run of free fragments inside one block of the group,
and that block is not wholly free. -/
theorem findPartialRun_some {sb : Superblock} {cg : Cg} {n base start : Nat}
    (hfpb : 0 < sb.fragsPerBlock) (hn : 0 < n)
    (hpast : ∀ i, cg.ndblk ≤ i → cg.free i = false)
    (h : findPartialRun sb cg n = some (base, start)) :
    ∃ k, base = k * sb.fragsPerBlock ∧ base < cg.ndblk ∧ base ≤ start ∧
      start + n ≤ base + sb.fragsPerBlock ∧ start + n ≤ cg.ndblk ∧
      allSet cg.free start n = true ∧
      allSet cg.free base sb.fragsPerBlock = false := by
  unfold findPartialRun at h
  obtain ⟨k, hk, hfind⟩ := List.exists_of_findSome?_eq_some h
  dsimp only at hfind
  split at hfind
  · cases hfind
  rename_i hwhole
  obtain ⟨j, hj, heq⟩ := Option.map_eq_some_iff.mp hfind
  cases heq
  have hrun := List.find?_some hj
  have hjr := List.mem_range.mp (List.mem_of_find?_eq_some hj)
  refine ⟨k, rfl, ?_, by omega, by omega, by omega, hrun, ?_⟩
  · omega
  · refine Bool.eq_false_iff.mpr fun hall => hwhole ⟨?_, hall⟩
    -- a wholly free block reaches no bit past the group's end
    rw [allSet_iff] at hall
    by_contra hshort
    have h1 := hall (sb.fragsPerBlock - 1) (by omega)
    have h2 := hpast (k * sb.fragsPerBlock + (sb.fragsPerBlock - 1))
      (by omega)
    simp [h1] at h2

/-- A free block is a wholly free block that lies inside the group. -/
theorem findFreeBlock_some {sb : Superblock} {cg : Cg} {localFrag : Nat}
    (h : findFreeBlock sb cg = some localFrag) :
    ∃ k, localFrag = k * sb.fragsPerBlock ∧
      localFrag + sb.fragsPerBlock ≤ cg.ndblk ∧
      allSet cg.free localFrag sb.fragsPerBlock = true := by
  unfold findFreeBlock at h
  obtain ⟨k, hk, rfl⟩ := Option.map_eq_some_iff.mp h
  have hfree := List.find?_some hk
  have hkr := List.mem_range.mp (List.mem_of_find?_eq_some hk)
  refine ⟨k, rfl, ?_, hfree⟩
  have hmul := Nat.mul_le_mul_right sb.fragsPerBlock
    (show k + 1 ≤ cg.ndblk / sb.fragsPerBlock from hkr)
  have hdiv := Nat.div_mul_le_self cg.ndblk sb.fragsPerBlock
  rw [Nat.succ_mul] at hmul
  omega

/-! ## §4. Allocation of a run. -/

/-- **The two ways a group gives fragments.** -/
theorem claimFrags_ok {sb : Superblock} {c n : Nat} {now : UInt32} {cg : Cg}
    {u : GroupUpdate Nat} (h : claimFrags sb c n now cg = .ok u) :
    limitOk sb c cg ∧
      ((∃ base start, findPartialRun sb cg n = some (base, start) ∧
          n < sb.fragsPerBlock ∧ u = takePartialRun sb n base start now cg) ∨
        (∃ localFrag, findFreeBlock sb cg = some localFrag ∧
          u = splitFreeBlock sb n localFrag now cg)) := by
  unfold claimFrags at h
  split at h
  · cases h
  rename_i hlimit
  refine ⟨not_not.mp hlimit, ?_⟩
  split at h
  · rename_i base start hpart
    cases h
    split at hpart
    · rename_i hcond
      exact Or.inl ⟨base, start, hpart, hcond.1, rfl⟩
    · cases hpart
  · split at h
    · cases h
    · split at h
      · rename_i localFrag hblock
        cases h
        exact Or.inr ⟨localFrag, hblock, rfl⟩
      · cases h

theorem allocateFragsInGroup_ok {sb : Superblock} {c n : Nat} {d d' : Disk}
    {frag : Nat} (h : allocateFragsInGroup sb c n d = .ok frag d') :
    0 < n ∧ n ≤ sb.fragsPerBlock ∧
      ∃ u, claimFrags sb c n d.clock (d.cgs c) = .ok u ∧
        frag = c * sb.fragsPerGroup + u.result ∧ d' = d.withGroup c u := by
  unfold allocateFragsInGroup at h
  split at h
  · cases h
  · rename_i hn
    obtain ⟨start, d₁, hgroup, hret⟩ := bind_eq_ok h
    obtain ⟨u, _, hu, rfl, rfl⟩ := updateGroup_ok hgroup
    cases hret
    exact ⟨by omega, by omega, u, hu, rfl, rfl⟩

theorem allocateFragsInGroup_error {sb : Superblock} {c n : Nat} {d d' : Disk}
    {e : Errno} (h : allocateFragsInGroup sb c n d = .error e d') : d' = d := by
  unfold allocateFragsInGroup at h
  split at h
  · cases h
    rfl
  · rcases bind_eq_error h with h | ⟨_, _, _, h⟩
    · exact (updateGroup_error h).1
    · cases h

/-- A group that gives a run. -/
theorem allocateFragsInGroup_of_ok {sb : Superblock} {c n : Nat} {d : Disk}
    {u : GroupUpdate Nat} (hn : 0 < n) (hn' : n ≤ sb.fragsPerBlock)
    (hmagic : (d.cgs c).magic = CG_MAGIC)
    (hu : claimFrags sb c n d.clock (d.cgs c) = .ok u) :
    allocateFragsInGroup sb c n d
      = .ok (c * sb.fragsPerGroup + u.result) (d.withGroup c u) := by
  unfold allocateFragsInGroup
  rw [if_neg (by omega), bind_of_ok (updateGroup_of_ok hmagic hu)]
  rfl

/-- A group that gives none. -/
theorem allocateFragsInGroup_of_error {sb : Superblock} {c n : Nat} {d : Disk}
    {e : Errno} (hn : 0 < n) (hn' : n ≤ sb.fragsPerBlock)
    (hmagic : (d.cgs c).magic = CG_MAGIC)
    (he : claimFrags sb c n d.clock (d.cgs c) = .error e) :
    allocateFragsInGroup sb c n d = .error e d := by
  unfold allocateFragsInGroup
  rw [if_neg (by omega), bind_of_error (updateGroup_of_error hmagic he)]

theorem attempt_of_ok {α : Type} {x : Op α} {d d' : Disk} {a : α}
    (h : x d = .ok a d') : attempt x d = .ok (.ok a) d' := by
  unfold attempt
  rw [h]

theorem attempt_of_error {α : Type} {x : Op α} {d d' : Disk} {e : Errno}
    (h : x d = .error e d') : attempt x d = .ok (.error e) d' := by
  unfold attempt
  rw [h]

theorem attempt_ok {α : Type} {x : Op α} {d d' : Disk} {r : Except Errno α}
    (h : attempt x d = .ok r d') :
    (∃ a, r = .ok a ∧ x d = .ok a d') ∨
      (∃ e, r = .error e ∧ x d = .error e d') := by
  unfold attempt at h
  split at h
  · rename_i a d₁ hx
    cases h
    exact Or.inl ⟨a, rfl, hx⟩
  · rename_i e d₁ hx
    cases h
    exact Or.inr ⟨e, rfl, hx⟩

theorem attempt_ne_error {α : Type} {x : Op α} {d d' : Disk} {e : Errno} :
    attempt x d ≠ .error e d' := by
  unfold attempt
  split <;> simp

private theorem allocateFragsLoop_cases (sb : Superblock)
    (preferredCg n : Nat) (d : Disk) : ∀ rest,
    (∀ frag d', allocateFragsLoop sb preferredCg n rest d = .ok frag d' →
      ∃ i ∈ rest, allocateFragsInGroup sb ((preferredCg + i) % sb.cgCount) n d
        = .ok frag d') ∧
    (∀ e d', allocateFragsLoop sb preferredCg n rest d = .error e d' →
      d' = d)
  | [] => by
    constructor
    · intro frag d' h
      cases h
    · intro e d' h
      cases h
      rfl
  | i :: rest => by
    obtain ⟨ihok, iherr⟩ := allocateFragsLoop_cases sb preferredCg n d rest
    constructor
    · intro frag d' h
      obtain ⟨r, d₁, hr, hnext⟩ := bind_eq_ok h
      rcases attempt_ok hr with ⟨a, rfl, ha⟩ | ⟨e, rfl, he⟩
      · cases hnext
        exact ⟨i, List.mem_cons_self, ha⟩
      · rw [allocateFragsInGroup_error he] at hnext
        cases e with
        | ENOSPC =>
          obtain ⟨j, hj, hok⟩ := ihok frag d' hnext
          exact ⟨j, List.mem_cons_of_mem i hj, hok⟩
        | _ => cases hnext
    · intro e d' h
      rcases bind_eq_error h with hattempt | ⟨r, d₁, hr, hnext⟩
      · exact absurd hattempt attempt_ne_error
      rcases attempt_ok hr with ⟨a, rfl, ha⟩ | ⟨e', rfl, he⟩
      · cases hnext
      · rw [allocateFragsInGroup_error he] at hnext
        cases e' with
        | ENOSPC => exact iherr e d' hnext
        | _ =>
          cases hnext
          rfl

/-- **The group that gave the run**: the ones tried before it left the disk as
it was. -/
theorem allocateFragsAnycg_ok {sb : Superblock} {preferredCg n : Nat}
    {d d' : Disk} {frag : Nat}
    (h : allocateFragsAnycg sb preferredCg n d = .ok frag d') :
    ∃ c < sb.cgCount, allocateFragsInGroup sb c n d = .ok frag d' := by
  obtain ⟨i, hi, hok⟩ :=
    (allocateFragsLoop_cases sb preferredCg n d _).1 frag d' h
  have := List.mem_range.mp hi
  exact ⟨_, Nat.mod_lt _ (by omega), hok⟩

theorem allocateFragsAnycg_error {sb : Superblock} {preferredCg n : Nat}
    {d d' : Disk} {e : Errno}
    (h : allocateFragsAnycg sb preferredCg n d = .error e d') : d' = d :=
  (allocateFragsLoop_cases sb preferredCg n d _).2 e d' h

/-! ## §5. Extending, freeing and moving a run. -/

theorem extendFragmentRun_ok {sb : Superblock} {fragBase old new : Nat}
    {d d' : Disk} {a : Unit}
    (h : extendFragmentRun sb fragBase old new d = .ok a d') :
    old < new ∧ new ≤ sb.fragsPerBlock ∧
      fragBase % sb.fragsPerGroup % sb.fragsPerBlock + new
        ≤ sb.fragsPerBlock ∧
      ∃ u, growRun sb (fragBase % sb.fragsPerGroup) old new d.clock
          (d.cgs (fragBase / sb.fragsPerGroup)) = .ok u ∧
        d' = d.withGroup (fragBase / sb.fragsPerGroup) u := by
  unfold extendFragmentRun at h
  split at h
  · cases h
  split at h
  · cases h
  obtain ⟨u, _, hu, _, rfl⟩ := updateGroup_ok h
  exact ⟨by omega, by omega, by omega, u, hu, rfl⟩

theorem freeFragmentRun_ok {sb : Superblock} {fragBase frags : Nat}
    {d d' : Disk} {a : Unit}
    (h : freeFragmentRun sb fragBase frags d = .ok a d') :
    0 < frags ∧ frags ≤ sb.fragsPerBlock ∧
      ∃ u, releaseRun sb (fragBase % sb.fragsPerGroup) frags d.clock
          (d.cgs (fragBase / sb.fragsPerGroup)) = .ok u ∧
        d' = d.withGroup (fragBase / sb.fragsPerGroup) u := by
  unfold freeFragmentRun at h
  split at h
  · cases h
  obtain ⟨u, _, hu, _, rfl⟩ := updateGroup_ok h
  exact ⟨by omega, by omega, u, hu, rfl⟩

/-- A move is an allocation, a write of the new run and a release of the old
one. -/
theorem reallocateFragmentRun_ok {sb : Superblock}
    {oldFrag old new preferredCg : Nat} {d d' : Disk} {newFrag : Nat}
    (h : reallocateFragmentRun sb oldFrag old new preferredCg d
      = .ok newFrag d') :
    ∃ d₁, allocateFragsAnycg sb preferredCg new d = .ok newFrag d₁ ∧
      freeFragmentRun sb oldFrag old
        (d₁.write (newFrag * sb.fragSize)
          ((d.read (oldFrag * sb.fragSize) (old * sb.fragSize)
            ++ List.replicate (new * sb.fragSize - old * sb.fragSize) 0).take
              (new * sb.fragSize))) = .ok () d' := by
  unfold reallocateFragmentRun at h
  obtain ⟨tmp, d₀, hread, h⟩ := bind_eq_ok h
  cases hread
  obtain ⟨frag, d₁, halloc, h⟩ := bind_eq_ok h
  obtain ⟨_, d₂, hwrite, h⟩ := bind_eq_ok h
  cases hwrite
  obtain ⟨_, d₃, hfree, h⟩ := bind_eq_ok h
  cases h
  exact ⟨d₁, halloc, hfree⟩

end NextUfs
