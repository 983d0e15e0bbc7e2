/-
  NextUfs.Core.RunSearch
  ──────────────────────
  **THE SEARCH FOR A RUN: SOUND AND COMPLETE.**

  The allocator on any groups it can work on, whatever their sizes: only the
  bitmaps and the counters that summarise them are looked at.

    • `WorkableGroups`   — groups with their magic number, a fragment count
      the disk has room for, and counters equal to what the bitmaps say,
    • `GroupRun`         — consecutive free fragments inside one block,
    • `claimFrags_found` — what a group gives is such a run, and its bits are
      the only ones that change,
    • `allocateFragsAnycg_search` — the search over all groups.
-/
import NextUfs.Core.Space

namespace NextUfs

open Bits State

/-! ## §1. Groups and runs. -/

/-- Groups the allocator can work on. -/
structure WorkableGroups (sb : Superblock) (d : Disk) : Prop where
  magic : ∀ c < sb.cgCount, (d.cgs c).magic = CG_MAGIC
  limit : ∀ c < sb.cgCount, limitOk sb c (d.cgs c)
  counts : ∀ c < sb.cgCount, FragCounts sb (d.cgs c)

/-- The `n` fragments from `s` on are free, lie inside one block and inside
the group. -/
structure GroupRun (sb : Superblock) (cg : Cg) (s n : Nat) : Prop where
  block : InOneBlock sb s n
  inside : s + n ≤ cg.ndblk
  free : ∀ i < n, cg.free (s + i) = true

/-- **The run `[s, s + n)` of group `c` was taken**: its bits are cleared and
every other bit of every group is as it was. -/
structure BitsTaken (d d' : Disk) (c s n : Nat) : Prop where
  cleared : ∀ i, s ≤ i → i < s + n → (d'.cgs c).free i = false
  kept : ∀ i, i < s ∨ s + n ≤ i → (d'.cgs c).free i = (d.cgs c).free i
  others : ∀ c', c' ≠ c → d'.cgs c' = d.cgs c'

section Search

variable {sb : Superblock} {d d' : Disk} {n : Nat}

/-! ## §2. One group. -/

/-- **What a group gives was free**, and exactly its bits are cleared. -/
theorem claimFrags_found (hgeo : ValidGeometry sb) {c : Nat} {now : UInt32}
    {cg : Cg} {u : GroupUpdate Nat} (hn : n ≤ sb.fragsPerBlock)
    (h : claimFrags sb c n now cg = .ok u) :
    GroupRun sb cg u.result n ∧ u.cg.free = clearRange cg.free u.result n := by
  have hone := claimFrags_inOneBlock hgeo hn h
  obtain ⟨hinside, hset, hfree⟩ := claimFrags_free hn h
  exact ⟨⟨hone, hinside, (allSet_iff _ _ _).mp hset⟩, hfree⟩

/-- The bits of a disk one group of which gave a run. -/
theorem BitsTaken.of_clearRange {c s : Nat} {u : GroupUpdate Nat}
    (h : u.cg.free = clearRange (d.cgs c).free s n) :
    BitsTaken d (d.withGroup c u) c s n where
  cleared i hlo hhi := by
    rw [withGroup_cgs_self, h]
    exact clearRange_of_mem ⟨hlo, hhi⟩
  kept i hi := by
    rw [withGroup_cgs_self, h]
    exact clearRange_of_not_mem (by omega)
  others c' hc' := withGroup_cgs_of_ne _ _ _ hc'

/-! ## §3. All groups. -/

/-- **The group of the run**: what the search returns is a run of one group,
and it is taken there and nowhere else. -/
theorem allocateFragsAnycg_found (hgeo : ValidGeometry sb)
    {preferredCg frag : Nat}
    (h : allocateFragsAnycg sb preferredCg n d = .ok frag d') :
    ∃ c < sb.cgCount, ∃ s, frag = c * sb.fragsPerGroup + s ∧
      GroupRun sb (d.cgs c) s n ∧ BitsTaken d d' c s n := by
  obtain ⟨c, hc, hgroup⟩ := allocateFragsAnycg_ok h
  obtain ⟨-, hn, u, hu, rfl, rfl⟩ := allocateFragsInGroup_ok hgroup
  obtain ⟨hrun, hfree⟩ := claimFrags_found hgeo hn hu
  exact ⟨c, hc, u.result, rfl, hrun, .of_clearRange hfree⟩

/-- A search that fails over groups it can work on found them all full. -/
theorem allocateFragsLoop_full {preferredCg : Nat} (hn : 0 < n)
    (hn' : n ≤ sb.fragsPerBlock) (hcg : 0 < sb.cgCount)
    (hgroups : WorkableGroups sb d) {e : Errno} :
    ∀ rest : List Nat,
      allocateFragsLoop sb preferredCg n rest d = .error e d' → e = .ENOSPC
  | [], h => by
    cases h
    rfl
  | i :: rest, h => by
    have hc := Nat.mod_lt (preferredCg + i) hcg
    have hmagic := hgroups.magic _ hc
    unfold allocateFragsLoop at h
    cases hclaim : claimFrags sb ((preferredCg + i) % sb.cgCount) n d.clock
        (d.cgs ((preferredCg + i) % sb.cgCount)) with
    | ok u =>
      rw [bind_of_ok (attempt_of_ok
        (allocateFragsInGroup_of_ok hn hn' hmagic hclaim))] at h
      cases h
    | error e' =>
      obtain rfl := claimFrags_error (hgroups.limit _ hc) hclaim
      rw [bind_of_ok (attempt_of_error
        (allocateFragsInGroup_of_error hn hn' hmagic hclaim))] at h
      exact allocateFragsLoop_full hn hn' hcg hgroups rest h

/-- **A run of any group is found**: neither the counters nor the bounds of
the searches hide one. -/
theorem allocateFragsAnycg_finds (hgeo : ValidGeometry sb)
    (hcount : sb.fragCount < 2 ^ 32) (hgroups : WorkableGroups sb d)
    (preferredCg : Nat) (hn : 0 < n) (hn' : n ≤ sb.fragsPerBlock) {c s : Nat}
    (hc : c < sb.cgCount) (hrun : GroupRun sb (d.cgs c) s n) :
    ∃ frag d', allocateFragsAnycg sb preferredCg n d = .ok frag d' := by
  have hset : allSet (d.cgs c).free s n = true :=
    (allSet_iff _ _ _).mpr hrun.free
  obtain ⟨u, hu⟩ : ∃ u, claimFrags sb c n d.clock (d.cgs c) = .ok u :=
    claimFrags_complete hgeo.fpb_pos hcount (hgroups.counts c hc)
      (hgroups.limit c hc) hn hrun.block hrun.inside hset
  obtain ⟨i, hi, hgroup⟩ := rotation_covers preferredCg hc
  refine allocateFragsLoop_complete hn hn' (by omega) hgroups.magic
    hgroups.limit _ ⟨i, List.mem_range.mpr hi, u, ?_⟩
  rw [hgroup]
  exact hu

/-! ## §4. The search. -/

/-- **The search for a run is sound and complete.**  A run that is returned
was free, lies inside one block and inside its group, and its bits are the
only ones that change; the search answers `ENOSPC`, with the disk as it was,
exactly where no group has such a run, and it gives no other answer. -/
theorem allocateFragsAnycg_search (hgeo : ValidGeometry sb)
    (hcount : sb.fragCount < 2 ^ 32) (hgroups : WorkableGroups sb d)
    {preferredCg : Nat} (hpreferred : preferredCg < sb.cgCount) (hn : 1 ≤ n)
    (hn' : n ≤ sb.fragsPerBlock) :
    (∀ frag d', allocateFragsAnycg sb preferredCg n d = .ok frag d' →
      ∃ c < sb.cgCount, ∃ s, frag = c * sb.fragsPerGroup + s ∧
        GroupRun sb (d.cgs c) s n ∧ BitsTaken d d' c s n) ∧
    (allocateFragsAnycg sb preferredCg n d = .error .ENOSPC d ↔
      ∀ c < sb.cgCount, ∀ s, ¬GroupRun sb (d.cgs c) s n) ∧
    (∀ e d', allocateFragsAnycg sb preferredCg n d = .error e d' →
      e = .ENOSPC ∧ d' = d) := by
  have hcg : 0 < sb.cgCount := by omega
  have herror : ∀ e d', allocateFragsAnycg sb preferredCg n d = .error e d' →
      e = .ENOSPC ∧ d' = d := by
    intro e d' h
    exact ⟨allocateFragsLoop_full hn hn' hcg hgroups _ h,
      allocateFragsAnycg_error h⟩
  refine ⟨fun frag d' h => allocateFragsAnycg_found hgeo h, ?_, herror⟩
  constructor
  · intro hfull c hc s hrun
    obtain ⟨frag, d', hfound⟩ := allocateFragsAnycg_finds hgeo hcount hgroups
      preferredCg hn hn' hc hrun
    rw [hfull] at hfound
    cases hfound
  · intro hnone
    cases hrun : allocateFragsAnycg sb preferredCg n d with
    | ok frag d' =>
      obtain ⟨c, hc, s, -, hgroupRun, -⟩ :=
        allocateFragsAnycg_found hgeo hrun
      exact absurd hgroupRun (hnone c hc s)
    | error e d' =>
      obtain ⟨rfl, rfl⟩ := herror e d' hrun
      rfl

end Search

/-- The one block of the small disk: a run of three is found in it. -/
theorem allocateFragsAnycg_search_oneBlock :
    (∃ d', allocateFragsAnycg oneBlockSb 0 3 oneBlockDisk = .ok 0 d' ∧
      BitsTaken oneBlockDisk d' 0 0 3) ∧
    ¬∀ c < oneBlockSb.cgCount, ∀ s,
      ¬GroupRun oneBlockSb (oneBlockDisk.cgs c) s 3 := by
  have hgroups : WorkableGroups oneBlockSb oneBlockDisk := by
    refine ⟨fun c hc => rfl, fun c hc => ?_, oneBlock_accounted.frags⟩
    obtain rfl : c = 0 := Nat.lt_one_iff.mp hc
    decide
  have hsearch := @allocateFragsAnycg_search oneBlockSb oneBlockDisk 3
    oneBlock_geometry (by decide) hgroups 0 (by decide) (by decide) (by decide)
  have hrun : allocateFragsAnycg oneBlockSb 0 3 oneBlockDisk = .ok 0 _ := rfl
  constructor
  · obtain ⟨c, hc, s, heq, -, htaken⟩ := hsearch.1 0 _ hrun
    obtain rfl : c = 0 := Nat.lt_one_iff.mp hc
    obtain rfl : s = 0 := by omega
    exact ⟨_, hrun, htaken⟩
  · intro hnone
    have hfull := hsearch.2.1.mpr hnone
    rw [hrun] at hfull
    cases hfull

end NextUfs
