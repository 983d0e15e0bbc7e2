/-
  NextUfs.Core.Space
  ──────────────────
  **FREE SPACE: RUNS TAKEN, RUNS GIVEN BACK.**

  The allocator on a disk whose groups are sound.  Taking a run and giving it
  back are inverse on the free bitmaps, and neither touches anything but the
  books.

    • `FreeSpace`               — groups the allocator can work on, with exact
      counters,
    • `BooksKept`               — what no allocator call changes,
    • `allocateFragsAnycg_spec` — a run is taken, or the disk is as it was,
    • `allocateFragsAnycg_iff`  — a run is found exactly where there is one,
    • `freeFragmentRun_spec`    — a run that is in use is given back.
-/
import NextUfs.Core.Accounting
import NextUfs.Core.FragData

namespace NextUfs

open Bits Radix State

/-! ## §1. Sound groups. -/

/-- Geometry whose groups cover the disk. -/
structure SpaceGeometry (sb : Superblock) : Prop extends DataGeometry sb where
  groups_cover : sb.fragCount ≤ sb.cgCount * sb.fragsPerGroup
  groups_start : ∀ c < sb.cgCount, c * sb.fragsPerGroup ≤ sb.fragCount
  bitmap_fits : CG_FREE_OFF + (sb.fragsPerGroup + 7) / 8 ≤ sb.cgSize

/-- Fragments of group `c`: the last group may be shorter. -/
def cgFrags (sb : Superblock) (c : Nat) : Nat :=
  min sb.fragsPerGroup (sb.fragCount - c * sb.fragsPerGroup)

/-- **Free space in order**: every group can be worked on, and its counters
are exact. -/
structure FreeSpace (sb : Superblock) (modes : Nat → UInt16) (d : Disk) :
    Prop where
  accounted : Accounted sb modes d
  magic : ∀ c < sb.cgCount, (d.cgs c).magic = CG_MAGIC
  ndblk : ∀ c < sb.cgCount, (d.cgs c).ndblk = cgFrags sb c

/-- Every group carries its magic number: the library reads it. -/
def GroupsReadable (sb : Superblock) (d : Disk) : Prop :=
  ∀ c < sb.cgCount, (d.cgs c).magic = CG_MAGIC

/-- A run of `n` fragments of the disk, inside one block. -/
structure RunFits (sb : Superblock) (a n : Nat) : Prop where
  pos : 0 < n
  block : a % sb.fragsPerBlock + n ≤ sb.fragsPerBlock
  disk : a + n ≤ sb.fragCount

section Runs

variable {sb : Superblock} {modes : Nat → UInt16} {d d' : Disk} {a n : Nat}

theorem SpaceGeometry.group_lt (hgeo : SpaceGeometry sb) {f : Nat}
    (hf : f < sb.fragCount) : f / sb.fragsPerGroup < sb.cgCount := by
  rw [Nat.div_lt_iff_lt_mul hgeo.fragsPerGroup_pos]
  exact Nat.lt_of_lt_of_le hf hgeo.groups_cover

theorem RunFits.le (h : RunFits sb a n) : n ≤ sb.fragsPerBlock := by
  have := h.block
  omega

/-- A position in a group is as far into its block as on the disk. -/
theorem ValidGeometry.mod_mod (hgeo : ValidGeometry sb) (a : Nat) :
    a % sb.fragsPerGroup % sb.fragsPerBlock = a % sb.fragsPerBlock :=
  Nat.mod_mod_of_dvd a hgeo.blocks_of_group

/-- A run inside one block is inside one group. -/
theorem RunFits.group (hgeo : ValidGeometry sb) (h : RunFits sb a n) :
    a % sb.fragsPerGroup + n ≤ sb.fragsPerGroup := by
  obtain ⟨q, hq⟩ := hgeo.blocks_of_group
  have hlt := Nat.mod_lt a hgeo.fragsPerGroup_pos
  have hsplit := Nat.div_add_mod' (a % sb.fragsPerGroup) sb.fragsPerBlock
  rw [hgeo.mod_mod] at hsplit
  have hblock := h.block
  -- the block of the run starts below the group's end, so it ends at or below
  have hk : a % sb.fragsPerGroup / sb.fragsPerBlock < q := by
    rw [Nat.div_lt_iff_lt_mul hgeo.fpb_pos, Nat.mul_comm, ← hq]
    exact hlt
  have hle := Nat.mul_le_mul_right sb.fragsPerBlock (Nat.succ_le_of_lt hk)
  rw [Nat.succ_mul, Nat.mul_comm q, ← hq] at hle
  omega

theorem FreeSpace.runInside (hgeo : SpaceGeometry sb)
    (hsp : FreeSpace sb modes d) (h : RunFits sb a n) :
    RunInside sb d a n := by
  have hpos := h.pos
  have hdisk := h.disk
  have hc := hgeo.group_lt (show a < sb.fragCount by omega)
  refine ⟨hc, ?_, ?_⟩
  · show a % sb.fragsPerGroup % sb.fragsPerBlock + n ≤ sb.fragsPerBlock
    rw [hgeo.mod_mod]
    exact h.block
  · have hgroup := h.group hgeo.toValidGeometry
    have hsplit := Nat.div_add_mod' a sb.fragsPerGroup
    rw [hsp.ndblk _ hc]
    unfold cgFrags
    omega

theorem FreeSpace.limitOk (hgeo : SpaceGeometry sb)
    (hsp : FreeSpace sb modes d) {c : Nat} (hc : c < sb.cgCount) :
    limitOk sb c (d.cgs c) := by
  have hstart := hgeo.groups_start c hc
  have hbitmap := hgeo.bitmap_fits
  unfold NextUfs.limitOk
  rw [hsp.ndblk c hc]
  unfold cgFrags
  omega

/-- The run's bits in its group are its fragments' on the disk. -/
theorem freeAt_run (hgeo : ValidGeometry sb) (h : RunFits sb a n) {i : Nat}
    (hi : i < n) :
    freeAt sb d (a + i)
      = ((d.cgs (a / sb.fragsPerGroup)).free
          (a % sb.fragsPerGroup + i)).toNat := by
  have hgroup := h.group hgeo
  have hdisk := h.disk
  have hsplit := Nat.div_add_mod' a sb.fragsPerGroup
  obtain ⟨hdiv, hmod⟩ := @div_mod_fragsPerGroup sb (a / sb.fragsPerGroup)
    (a % sb.fragsPerGroup + i) (by omega)
  rw [← Nat.add_assoc, hsplit] at hdiv hmod
  unfold freeAt
  rw [if_pos (by omega), hdiv, hmod]

/-! ## §2. What no call changes. -/

/-- An entry of `cg_frsum` that counts runs: runs are shorter than a block. -/
def CountsRuns (sb : Superblock) (j : Nat) : Prop :=
  1 ≤ j ∧ j < sb.fragsPerBlock

/-- **The books are kept**: the inode table, the inode bitmaps and the entries
of `cg_frsum` that count nothing are as they were, and free space is in order
if it was. -/
structure BooksKept (sb : Superblock) (d d' : Disk) : Prop where
  inodes : d'.inodes = d.inodes
  iused : ∀ c, (d'.cgs c).iused = (d.cgs c).iused
  frsum : ∀ c j, ¬CountsRuns sb j → (d'.cgs c).frsum j = (d.cgs c).frsum j
  space : ∀ modes, FreeSpace sb modes d → FreeSpace sb modes d'

theorem BooksKept.refl (sb : Superblock) (d : Disk) : BooksKept sb d d :=
  ⟨rfl, fun _ => rfl, fun _ _ _ => rfl, fun _ h => h⟩

theorem BooksKept.trans {d₁ : Disk} (h₁ : BooksKept sb d d₁)
    (h₂ : BooksKept sb d₁ d') : BooksKept sb d d' where
  inodes := h₂.inodes.trans h₁.inodes
  iused c := (h₂.iused c).trans (h₁.iused c)
  frsum c j hj := (h₂.frsum c j hj).trans (h₁.frsum c j hj)
  space modes h := h₂.space modes (h₁.space modes h)

theorem BooksKept.write (sb : Superblock) (d : Disk) (off : Nat)
    (bytes : List UInt8) : BooksKept sb d (d.write off bytes) :=
  ⟨rfl, fun _ => rfl, fun _ _ _ => rfl, fun _ h =>
    ⟨h.accounted.write off bytes, h.magic, h.ndblk⟩⟩

/-- What a group step leaves of a group: its inode bitmap, its magic number,
its size and the entries of `cg_frsum` that count nothing. -/
structure HeadKept (sb : Superblock) (cg cg' : Cg) : Prop where
  iused : cg'.iused = cg.iused
  magic : cg'.magic = cg.magic
  ndblk : cg'.ndblk = cg.ndblk
  frsum : ∀ j, ¬CountsRuns sb j → cg'.frsum j = cg.frsum j

/-- A step of one group keeps the books if it keeps the group's head and the
counters. -/
theorem BooksKept.withGroup {α : Type} {c : Nat} {u : GroupUpdate α}
    (hhead : HeadKept sb (d.cgs c) u.cg)
    (hspace : ∀ modes, FreeSpace sb modes d →
      Accounted sb modes (d.withGroup c u)) :
    BooksKept sb d (d.withGroup c u) := by
  have hcases : ∀ c', (d.withGroup c u).cgs c' = u.cg ∧ c' = c ∨
      (d.withGroup c u).cgs c' = d.cgs c' := by
    intro c'
    by_cases hne : c' = c
    · subst hne
      exact Or.inl ⟨withGroup_cgs_self .., rfl⟩
    · exact Or.inr (withGroup_cgs_of_ne _ _ _ hne)
  refine ⟨rfl, fun c' => ?_, fun c' j hj => ?_, fun modes h =>
    ⟨hspace modes h, fun c' hc' => ?_, fun c' hc' => ?_⟩⟩
  · rcases hcases c' with ⟨he, rfl⟩ | he
    · rw [he, hhead.iused]
    · rw [he]
  · rcases hcases c' with ⟨he, rfl⟩ | he
    · rw [he, hhead.frsum j hj]
    · rw [he]
  · rcases hcases c' with ⟨he, rfl⟩ | he
    · rw [he, hhead.magic]
      exact h.magic c' hc'
    · rw [he]
      exact h.magic c' hc'
  · rcases hcases c' with ⟨he, rfl⟩ | he
    · rw [he, hhead.ndblk]
      exact h.ndblk c' hc'
    · rw [he]
      exact h.ndblk c' hc'

/-! ## §3. Taking a run. -/

/-- From `d` to `d'` the run `[a, a + n)` was taken out of free space. -/
structure RunTaken (sb : Superblock) (d d' : Disk) (a n : Nat) : Prop where
  fits : RunFits sb a n
  free : ∀ f, freeAt sb d' f + covers a n f = freeAt sb d f
  data : d'.data = d.data
  books : BooksKept sb d d'

/-- Every fragment of a run that was taken was free. -/
theorem RunTaken.wasFree (h : RunTaken sb d d' a n) {i : Nat} (hi : i < n) :
    freeAt sb d (a + i) = 1 := by
  have hsum := h.free (a + i)
  have hle := freeAt_le sb d (a + i)
  rw [covers_eq_one (by omega)] at hsum
  omega

/-- And it is not free afterwards. -/
theorem RunTaken.inUse (h : RunTaken sb d d' a n) {f : Nat}
    (hf : a ≤ f ∧ f < a + n) : freeAt sb d' f = 0 := by
  have hsum := h.free f
  have hle := freeAt_le sb d f
  rw [covers_eq_one hf] at hsum
  omega

theorem moveCylBlocks_head (sb : Superblock) (localFrag : Nat) (d32 : UInt32)
    (d16 : UInt16) (cg : Cg) :
    HeadKept sb cg (moveCylBlocks sb localFrag d32 d16 cg) := by
  unfold moveCylBlocks
  dsimp only
  split
  · exact ⟨rfl, rfl, rfl, fun _ _ => rfl⟩
  · exact ⟨rfl, rfl, rfl, fun _ _ => rfl⟩

/-- The counts of runs move where runs are counted. -/
theorem frsumAfter_uncounted {cg : Cg} {base : Nat} {freeMap : Nat → Bool}
    {j : Nat} (hj : ¬CountsRuns sb j) :
    frsumAfter sb cg base freeMap j = cg.frsum j :=
  if_neg hj

/-- Both ways of taking a run keep the group's head. -/
theorem claimFrags_head {c : Nat} {now : UInt32} {cg : Cg}
    {u : GroupUpdate Nat} (hn : 0 < n)
    (h : claimFrags sb c n now cg = .ok u) : HeadKept sb cg u.cg := by
  obtain ⟨-, ⟨base, start, -, -, rfl⟩ | ⟨localFrag, -, rfl⟩⟩ :=
    claimFrags_ok h
  · exact ⟨rfl, rfl, rfl, fun j hj => frsumAfter_uncounted hj⟩
  · have hmove := moveCylBlocks_head sb localFrag (-1) (-1)
      { cg with
        free := clearBlockBits cg.free localFrag n
        rotor := localFrag
        cs :=
          { cg.cs with
            nbfree := cg.cs.nbfree - 1
            nffree := cg.cs.nffree + UInt32.ofNat (sb.fragsPerBlock - n) }
        frsum :=
          if 0 < sb.fragsPerBlock - n then
            Function.update cg.frsum (sb.fragsPerBlock - n)
              (cg.frsum (sb.fragsPerBlock - n) + 1)
          else cg.frsum
        time := now }
    refine ⟨hmove.iused, hmove.magic, hmove.ndblk, fun j hj => ?_⟩
    refine (hmove.frsum j hj).trans ?_
    show (if 0 < sb.fragsPerBlock - n then _ else _ : Nat → UInt32) j = _
    split
    · -- what is left of the block is a run shorter than the block
      rename_i hleft
      refine Function.update_of_ne (fun heq => hj ?_) _ _
      exact ⟨by omega, by omega⟩
    · rfl

/-- The run a group gives lies inside one of its blocks. -/
theorem claimFrags_inOneBlock (hgeo : ValidGeometry sb) {c : Nat}
    {now : UInt32} {cg : Cg} {u : GroupUpdate Nat}
    (hn : n ≤ sb.fragsPerBlock) (h : claimFrags sb c n now cg = .ok u) :
    InOneBlock sb u.result n := by
  have hfpb := hgeo.fpb_pos
  obtain ⟨-, ⟨base, start, hpart, -, rfl⟩ | ⟨localFrag, hblock, rfl⟩⟩ :=
    claimFrags_ok h
  · unfold findPartialRun at hpart
    obtain ⟨k, -, hfind⟩ := List.exists_of_findSome?_eq_some hpart
    dsimp only at hfind
    split at hfind
    · cases hfind
    obtain ⟨j, hj, heq⟩ := Option.map_eq_some_iff.mp hfind
    cases heq
    have hjr := List.mem_range.mp (List.mem_of_find?_eq_some hj)
    show (k * sb.fragsPerBlock + j) % sb.fragsPerBlock + n ≤ _
    rw [Nat.mul_comm, Nat.mul_add_mod]
    have := Nat.mod_le j sb.fragsPerBlock
    omega
  · obtain ⟨k, rfl, -, -⟩ := findFreeBlock_some hblock
    show k * sb.fragsPerBlock % sb.fragsPerBlock + n ≤ _
    rw [Nat.mul_mod_left]
    omega

/-- **Taking a run**: it is out of free space and nothing else has changed; or
the disk is as it was. -/
theorem allocateFragsAnycg_spec (hgeo : DataGeometry sb) (preferredCg : Nat)
    (d : Disk) (n : Nat) :
    wp (allocateFragsAnycg sb preferredCg n)
      (fun a d' => RunTaken sb d d' a n) (fun _ d' => d' = d) d := by
  unfold wp
  cases hrun : allocateFragsAnycg sb preferredCg n d with
  | error e d' => exact allocateFragsAnycg_error hrun
  | ok a d' =>
    obtain ⟨hfree, hend, hn0, hdata, hinodes⟩ := allocateFragsAnycg_free hrun
    obtain ⟨c, hc, hgroup⟩ := allocateFragsAnycg_ok hrun
    have hbooks : BooksKept sb d d' := by
      have hspace : ∀ modes, FreeSpace sb modes d → Accounted sb modes d' :=
        fun modes h => accounted_allocateFrags hgeo.toValidGeometry
          h.accounted hrun
      obtain ⟨-, -, u, hu, -, rfl⟩ := allocateFragsInGroup_ok hgroup
      exact .withGroup (claimFrags_head hn0 hu) hspace
    obtain ⟨-, hn, u, hu, rfl, -⟩ := allocateFragsInGroup_ok hgroup
    refine ⟨⟨hn0, ?_, hend⟩, hfree, hdata, hbooks⟩
    have hone := claimFrags_inOneBlock hgeo.toValidGeometry hn hu
    obtain ⟨q, hq⟩ := hgeo.blocks_of_group
    have hmod : (c * sb.fragsPerGroup + u.result) % sb.fragsPerBlock
        = u.result % sb.fragsPerBlock := by
      rw [hq, Nat.mul_left_comm, Nat.mul_add_mod]
    rw [hmod]
    exact hone

/-! ## §4. Where there is a run it is found. -/

/-- The bits of `m` blocks, block by block. -/
theorem sum_popRange (free : Nat → Bool) (w m : Nat) :
    ∑ k ∈ Finset.range m, popRange free (k * w) w = popRange free 0 (m * w) := by
  induction m with
  | zero => simp [popRange]
  | succ m ih =>
    rw [Finset.sum_range_succ, ih, Nat.succ_mul, popRange_add, Nat.zero_add]

/-- No more fragments are free than the group has. -/
theorem FragCounts.sum_le {cg : Cg} (h : FragCounts sb cg)
    (hfpb : 0 < sb.fragsPerBlock) :
    ∑ k ∈ Finset.range (blockCount sb cg.ndblk),
      popRange cg.free (k * sb.fragsPerBlock) sb.fragsPerBlock
      ≤ cg.ndblk := by
  have hcover : cg.ndblk ≤ blockCount sb cg.ndblk * sb.fragsPerBlock := by
    have hsplit := Nat.div_add_mod' (cg.ndblk + sb.fragsPerBlock - 1)
      sb.fragsPerBlock
    have hmod := Nat.mod_lt (cg.ndblk + sb.fragsPerBlock - 1) hfpb
    unfold blockCount
    omega
  obtain ⟨r, hr⟩ := Nat.exists_eq_add_of_le hcover
  rw [sum_popRange, hr, popRange_add, Nat.zero_add,
    popRange_eq_zero fun i _ => h.pastEnd _ (Nat.le_add_right _ _)]
  exact popRange_le _ _ _

theorem FragCounts.freeFrags_le {cg : Cg} (h : FragCounts sb cg)
    (hfpb : 0 < sb.fragsPerBlock) : freeFrags sb cg ≤ cg.ndblk := by
  refine le_trans ?_ (h.sum_le hfpb)
  show ∑ k ∈ Finset.range _, partFrags sb cg.free k ≤ _
  refine Finset.sum_le_sum fun k _ => ?_
  unfold partFrags
  split
  · exact Nat.zero_le _
  · exact le_rfl

theorem FragCounts.freeBlocks_le {cg : Cg} (h : FragCounts sb cg)
    (hfpb : 0 < sb.fragsPerBlock) : freeBlocks sb cg ≤ cg.ndblk := by
  refine le_trans ?_ (h.sum_le hfpb)
  show ∑ k ∈ Finset.range _, wholeBlock sb cg.free k ≤ _
  refine Finset.sum_le_sum fun k _ => ?_
  unfold wholeBlock
  cases hw : wholeFree sb cg.free k with
  | false => exact Nat.zero_le _
  | true =>
    rw [popRange_of_allSet hw]
    exact hfpb

/-- **A group that has a run gives one.** -/
theorem claimFrags_complete (hfpb : 0 < sb.fragsPerBlock)
    (hcount : sb.fragCount < 2 ^ 32) {c s : Nat} {now : UInt32} {cg : Cg}
    (h : FragCounts sb cg) (hlimit : limitOk sb c cg)
    (hn : 0 < n) (hone : InOneBlock sb s n) (hend : s + n ≤ cg.ndblk)
    (hset : allSet cg.free s n = true) :
    ∃ u, claimFrags sb c n now cg = .ok u := by
  have hsmall : cg.ndblk < 2 ^ 32 := by
    have := hlimit.2.1
    omega
  have hk := lt_blockCount hfpb (show s < cg.ndblk by omega)
  obtain ⟨hlo, hhi⟩ := hone.le
  generalize hkdef : s / sb.fragsPerBlock = k at *
  unfold claimFrags
  rw [if_neg (not_not.mpr hlimit)]
  split
  · exact ⟨_, rfl⟩
  · rename_i hnone
    by_cases hw : wholeFree sb cg.free k = true
    · -- the run's block is wholly free, so some block is
      have hfit : k * sb.fragsPerBlock + sb.fragsPerBlock ≤ cg.ndblk := by
        by_contra hshort
        have hbit := (allSet_iff _ _ _).mp hw (sb.fragsPerBlock - 1)
          (by omega)
        rw [h.pastEnd _ (by omega)] at hbit
        cases hbit
      have hcount : 0 < freeBlocks sb cg := by
        have hsingle := Finset.single_le_sum
          (f := fun k => wholeBlock sb cg.free k)
          (fun _ _ => Nat.zero_le _) (Finset.mem_range.mpr hk)
        have hone : wholeBlock sb cg.free k = 1 := by
          unfold wholeBlock
          rw [hw]
          rfl
        simp only [hone] at hsingle
        exact hsingle
      have hnb : cg.cs.nbfree ≠ 0 := by
        rw [h.nbfree]
        intro h0
        have hzero := congrArg UInt32.toNat h0
        have hle := h.freeBlocks_le hfpb
        simp only [UInt32.toNat_ofNat', UInt32.toNat_zero] at hzero
        omega
      rw [if_neg hnb]
      have hfound : (findFreeBlock sb cg).isSome = true := by
        unfold findFreeBlock
        rw [Option.isSome_map, List.find?_isSome]
        refine ⟨k, List.mem_range.mpr ?_, hw⟩
        rw [Nat.lt_iff_add_one_le, Nat.le_div_iff_mul_le hfpb, Nat.succ_mul]
        exact hfit
      obtain ⟨localFrag, hsome⟩ := Option.isSome_iff_exists.mp hfound
      rw [hsome]
      exact ⟨_, rfl⟩
    · -- the block is partly free: it counts at least `n` fragments
      exfalso
      have hpart : n ≤ partFrags sb cg.free k := by
        unfold partFrags
        rw [if_neg hw, ← popRange_clearRange hlo hhi hset]
        omega
      have hcount : n ≤ freeFrags sb cg := by
        refine le_trans hpart (Finset.single_le_sum
          (f := fun k => partFrags sb cg.free k)
          (fun _ _ => Nat.zero_le _) (Finset.mem_range.mpr hk))
      have hnf : n ≤ cg.cs.nffree.toNat := by
        have hle := h.freeFrags_le hfpb
        rw [h.nffree, UInt32.toNat_ofNat', Nat.mod_eq_of_lt (by omega)]
        exact hcount
      have hlt : n < sb.fragsPerBlock := by
        by_contra hge
        refine hw ((allSet_iff _ _ _).mpr fun i hi => ?_)
        have hbit := (allSet_iff _ _ _).mp hset i (by omega)
        rwa [show s = k * sb.fragsPerBlock by omega] at hbit
      rw [if_pos ⟨hlt, hnf⟩] at hnone
      have hfound : (findPartialRun sb cg n).isSome = true := by
        unfold findPartialRun
        rw [List.findSome?_isSome_iff]
        refine ⟨k, List.mem_range.mpr hk, ?_⟩
        dsimp only
        rw [if_neg fun hall => hw hall.2, Option.isSome_map, List.find?_isSome]
        refine ⟨s - k * sb.fragsPerBlock, List.mem_range.mpr (by omega), ?_⟩
        rw [show k * sb.fragsPerBlock + (s - k * sb.fragsPerBlock) = s
          by omega]
        exact hset
      rw [hnone] at hfound
      cases hfound

/-- A group that can be worked on and gives nothing is full. -/
theorem claimFrags_error {c : Nat} {now : UInt32} {cg : Cg} {e : Errno}
    (hlimit : limitOk sb c cg) (h : claimFrags sb c n now cg = .error e) :
    e = .ENOSPC := by
  unfold claimFrags at h
  rw [if_neg (not_not.mpr hlimit)] at h
  split at h
  · cases h
  split at h
  · cases h
    rfl
  split at h
  · cases h
  · cases h
    rfl

/-- The search goes on to the next group after every group that is full. -/
theorem allocateFragsLoop_complete {preferredCg : Nat} (hn : 0 < n)
    (hn' : n ≤ sb.fragsPerBlock) (hcg : 0 < sb.cgCount)
    (hmagic : ∀ c < sb.cgCount, (d.cgs c).magic = CG_MAGIC)
    (hlimit : ∀ c < sb.cgCount, limitOk sb c (d.cgs c)) :
    ∀ rest : List Nat, (∃ i ∈ rest, ∃ u,
      claimFrags sb ((preferredCg + i) % sb.cgCount) n d.clock
        (d.cgs ((preferredCg + i) % sb.cgCount)) = .ok u) →
      ∃ a d', allocateFragsLoop sb preferredCg n rest d = .ok a d'
  | [], ⟨_, hi, _⟩ => absurd hi List.not_mem_nil
  | i :: rest, ⟨j, hj, hu⟩ => by
    have hc := Nat.mod_lt (preferredCg + i) hcg
    unfold allocateFragsLoop
    cases hclaim : claimFrags sb ((preferredCg + i) % sb.cgCount) n d.clock
        (d.cgs ((preferredCg + i) % sb.cgCount)) with
    | ok u =>
      have hrun := allocateFragsInGroup_of_ok hn hn' (hmagic _ hc) hclaim
      rw [bind_of_ok (attempt_of_ok hrun)]
      exact ⟨_, _, rfl⟩
    | error e =>
      have hrun := allocateFragsInGroup_of_error hn hn' (hmagic _ hc) hclaim
      obtain rfl := claimFrags_error (hlimit _ hc) hclaim
      rw [bind_of_ok (attempt_of_error hrun)]
      refine allocateFragsLoop_complete hn hn' hcg hmagic hlimit rest ⟨j, ?_, hu⟩
      rcases List.mem_cons.mp hj with rfl | hj
      · obtain ⟨u, hu⟩ := hu
        rw [hclaim] at hu
        cases hu
      · exact hj

/-- Every group is tried, whichever comes first. -/
theorem rotation_covers {count c : Nat} (preferred : Nat) (hc : c < count) :
    ∃ i < count, (preferred + i) % count = c := by
  have hpos : 0 < count := by omega
  have hlt := Nat.mod_lt preferred hpos
  refine ⟨(c + (count - preferred % count)) % count, Nat.mod_lt _ hpos, ?_⟩
  rw [Nat.add_mod, Nat.mod_mod, ← Nat.add_mod, ← Nat.mod_add_mod,
    show preferred % count + (c + (count - preferred % count)) = c + count
      by omega,
    Nat.add_mod_right, Nat.mod_eq_of_lt hc]

/-- There are `n` free fragments in a row inside one block of the disk. -/
def HasRun (sb : Superblock) (d : Disk) (n : Nat) : Prop :=
  ∃ a, RunFits sb a n ∧ ∀ i < n, freeAt sb d (a + i) = 1

/-- **A run is found exactly where there is one.** -/
theorem allocateFragsAnycg_iff (hgeo : SpaceGeometry sb)
    (hsp : FreeSpace sb modes d) (preferredCg : Nat) :
    (∃ a d', allocateFragsAnycg sb preferredCg n d = .ok a d') ↔
      HasRun sb d n := by
  constructor
  · rintro ⟨a, d', hrun⟩
    have htaken := wp_ok (allocateFragsAnycg_spec hgeo.toDataGeometry
      preferredCg d n) hrun
    exact ⟨a, htaken.fits, fun i hi => htaken.wasFree hi⟩
  · rintro ⟨a, hfits, hfree⟩
    have hvalid := hgeo.toValidGeometry
    obtain ⟨hc, hone, hend⟩ := hsp.runInside hgeo hfits
    have hset : allSet (d.cgs (a / sb.fragsPerGroup)).free
        (a % sb.fragsPerGroup) n = true := by
      rw [allSet_iff]
      intro i hi
      have hbit := hfree i hi
      rw [freeAt_run hvalid hfits hi] at hbit
      cases hb : (d.cgs (a / sb.fragsPerGroup)).free
          (a % sb.fragsPerGroup + i) with
      | true => rfl
      | false =>
        rw [hb] at hbit
        cases hbit
    obtain ⟨u, hu⟩ : ∃ u, claimFrags sb (a / sb.fragsPerGroup) n d.clock
        (d.cgs (a / sb.fragsPerGroup)) = .ok u :=
      claimFrags_complete hgeo.fpb_pos hgeo.fragCount_lt
        (hsp.accounted.frags _ hc) (hsp.limitOk hgeo hc) hfits.pos hone hend hset
    -- the group of the run is tried, whichever group comes first
    obtain ⟨i, hi, hgroup⟩ := rotation_covers preferredCg hc
    refine allocateFragsLoop_complete hfits.pos hfits.le hgeo.cgCount_pos
      hsp.magic (fun c hc => hsp.limitOk hgeo hc) _
      ⟨i, List.mem_range.mpr hi, u, ?_⟩
    rw [hgroup]
    exact hu

/-! ## §5. Giving a run back. -/

/-- **A run set in one group** is a run into `freeAt`. -/
theorem freeAt_set {u : GroupUpdate Unit} (hgeo : ValidGeometry sb)
    (h : RunFits sb a n) (hclear : ∀ i < n, freeAt sb d (a + i) = 0)
    (hfree : u.cg.free = setRange (d.cgs (a / sb.fragsPerGroup)).free
      (a % sb.fragsPerGroup) n) (f : Nat) :
    freeAt sb (d.withGroup (a / sb.fragsPerGroup) u) f
      = freeAt sb d f + covers a n f := by
  have hdisk := h.disk
  have hgroup := h.group hgeo
  have hsplit := Nat.div_add_mod' a sb.fragsPerGroup
  by_cases hf : a ≤ f ∧ f < a + n
  · obtain ⟨i, rfl⟩ := Nat.exists_eq_add_of_le hf.1
    have hi : i < n := by omega
    rw [freeAt_run hgeo h hi, withGroup_cgs_self, hfree,
      setRange_of_mem (by omega), hclear i hi, covers_eq_one hf]
    rfl
  · rw [covers_eq_zero (by omega), Nat.add_zero]
    unfold freeAt
    split
    · by_cases hc : f / sb.fragsPerGroup = a / sb.fragsPerGroup
      · have hsplit' := Nat.div_add_mod' f sb.fragsPerGroup
        rw [hc] at hsplit' ⊢
        rw [withGroup_cgs_self, hfree, setRange_of_not_mem (by omega)]
      · rw [withGroup_cgs_of_ne _ _ _ hc]
    · rfl

/-- From `d` to `d'` fragments were given back to free space, each as often as
`claims` says. -/
structure Given (sb : Superblock) (d d' : Disk) (claims : Nat → Nat) :
    Prop where
  free : ∀ f, freeAt sb d' f = freeAt sb d f + claims f
  data : d'.data = d.data
  magic : ∀ c, (d'.cgs c).magic = (d.cgs c).magic
  books : BooksKept sb d d'

theorem Given.refl (sb : Superblock) (d : Disk) :
    Given sb d d fun _ => 0 :=
  ⟨fun _ => rfl, rfl, fun _ => rfl, BooksKept.refl sb d⟩

theorem Given.trans {d₁ : Disk} {claims claims' : Nat → Nat}
    (h₁ : Given sb d d₁ claims) (h₂ : Given sb d₁ d' claims') :
    Given sb d d' fun f => claims f + claims' f where
  free f := by
    rw [h₂.free f, h₁.free f, Nat.add_assoc]
  data := h₂.data.trans h₁.data
  magic c := (h₂.magic c).trans (h₁.magic c)
  books := h₁.books.trans h₂.books

theorem Given.congr {claims claims' : Nat → Nat}
    (h : Given sb d d' claims) (hclaims : ∀ f, claims f = claims' f) :
    Given sb d d' claims' :=
  ⟨fun f => by rw [h.free f, hclaims f], h.data, h.magic, h.books⟩

theorem Given.readable {claims : Nat → Nat} (h : Given sb d d' claims)
    (hread : GroupsReadable sb d) : GroupsReadable sb d' :=
  fun c hc => (h.magic c).trans (hread c hc)

/-- What a group step of a release computes when no fragment is free. -/
theorem releaseRun_of_inUse {localFrag : Nat} {now : UInt32} {cg : Cg}
    (h : ∀ i < n, cg.free (localFrag + i) = false) :
    ∃ u, releaseRun sb localFrag n now cg = .ok u ∧
      u.cg.free = setRange cg.free localFrag n ∧ HeadKept sb cg u.cg := by
  have hany : ¬((List.range n).any fun i => cg.free (localFrag + i)) = true := by
    intro hany
    obtain ⟨i, hi, hbit⟩ := List.any_eq_true.mp hany
    rw [h i (List.mem_range.mp hi)] at hbit
    cases hbit
  unfold releaseRun
  rw [if_neg hany]
  dsimp only
  split
  · have hmove := moveCylBlocks_head sb (blockBase sb localFrag) 1 1
      { cg with
        free := setRange cg.free localFrag n
        frsum := frsumAfter sb cg (blockBase sb localFrag)
          (setRange cg.free localFrag n)
        time := now
        cs :=
          { cg.cs with
            nffree := cg.cs.nffree + UInt32.ofNat n
              - UInt32.ofNat sb.fragsPerBlock
            nbfree := cg.cs.nbfree + 1 } }
    exact ⟨_, rfl, moveCylBlocks_free .., hmove.iused, hmove.magic,
      hmove.ndblk, fun j hj =>
        (hmove.frsum j hj).trans (frsumAfter_uncounted hj)⟩
  · exact ⟨_, rfl, rfl, rfl, rfl, rfl, fun j hj => frsumAfter_uncounted hj⟩

/-- **Giving a run back**: a run no fragment of which is free goes back into
free space, and nothing else changes. -/
theorem freeFragmentRun_spec (hgeo : SpaceGeometry sb)
    (hread : GroupsReadable sb d) (h : RunFits sb a n)
    (hclear : ∀ i < n, freeAt sb d (a + i) = 0) :
    ∃ d', freeFragmentRun sb a n d = .ok () d' ∧
      Given sb d d' (covers a n) := by
  have hvalid := hgeo.toValidGeometry
  have hpos := h.pos
  have hle := h.le
  have hdisk := h.disk
  have hc := hgeo.group_lt (show a < sb.fragCount by omega)
  have hbits : ∀ i < n, (d.cgs (a / sb.fragsPerGroup)).free
      (a % sb.fragsPerGroup + i) = false := by
    intro i hi
    have hbit := hclear i hi
    rw [freeAt_run hvalid h hi] at hbit
    cases hb : (d.cgs (a / sb.fragsPerGroup)).free
        (a % sb.fragsPerGroup + i) with
    | false => rfl
    | true =>
      rw [hb] at hbit
      cases hbit
  obtain ⟨u, hu, hfree, hhead⟩ :=
    @releaseRun_of_inUse sb n (a % sb.fragsPerGroup) d.clock _ hbits
  have hrun : freeFragmentRun sb a n d
      = .ok () (d.withGroup (a / sb.fragsPerGroup) u) := by
    unfold freeFragmentRun
    rw [if_neg (by omega)]
    exact updateGroup_of_ok (hread _ hc) hu
  refine ⟨_, hrun, freeAt_set hvalid h hclear hfree, rfl, fun c => ?_,
    .withGroup hhead fun modes' hsp' => ?_⟩
  · by_cases hne : c = a / sb.fragsPerGroup
    · rw [hne, withGroup_cgs_self]
      exact hhead.magic
    · rw [withGroup_cgs_of_ne _ _ _ hne]
  exact accounted_freeRun hvalid hsp'.accounted (hsp'.runInside hgeo h) hrun

end Runs

end NextUfs
