/-
  NextUfs.Fsck.ExpectedFrags
  ──────────────────────────
  **THE FRAGMENT COUNTS PASS 5 EXPECTS.**

  `countFrags` fills the fragment bitmap and the fragment counters of `newcg`
  block by block and then, for a partial last block, fragment by fragment.

    • `copyFree_eq`      — what the copying loop sets and counts,
    • `countBlock_done`  — one block of the loop,
    • `blocksDone_range` — the whole blocks, by induction,
    • `countTail_spec`   — the tail completes the counts, which are then the
      ones the allocator's own definition gives.
-/
import NextUfs.Fsck.Pass5

namespace NextUfs.Fsck

open Bits State

/-! ## §1. Copying the block map. -/

section CopyFree

variable {blockmap : Nat → Bool} {dbase i n : Nat} {free : Nat → Bool}

/-- The fragments of a group that the block map leaves free. -/
def freeIn (blockmap : Nat → Bool) (dbase : Nat) : Nat → Bool :=
  fun i => !blockmap (dbase + i)

/-- The loop sets the free fragments of its range and counts them. -/
theorem copyFree_eq (hclear : ∀ j < n, free (i + j) = false) :
    copyFree blockmap (dbase + i) i n free
      = (fun b => if i ≤ b ∧ b < i + n then freeIn blockmap dbase b
          else free b,
        popRange (freeIn blockmap dbase) i n) := by
  induction n with
  | zero =>
    refine Prod.ext (funext fun b => ?_) rfl
    dsimp only
    rw [if_neg (by omega)]
    rfl
  | succ n ih =>
    unfold copyFree at ih ⊢
    rw [List.range_succ, List.foldl_append, ih fun j hj => hclear j (by omega)]
    have hpop : popRange (freeIn blockmap dbase) i (n + 1)
        = popRange (freeIn blockmap dbase) i n
          + (freeIn blockmap dbase (i + n)).toNat :=
      Finset.sum_range_succ _ n
    have hlast := hclear n (Nat.lt_succ_self n)
    have haddr : dbase + i + n = dbase + (i + n) := by omega
    rw [hpop]
    simp only [List.foldl_cons, List.foldl_nil, haddr]
    cases hb : blockmap (dbase + (i + n)) with
    | true =>
      have hf : freeIn blockmap dbase (i + n) = false := by
        simp [freeIn, hb]
      rw [if_pos rfl, hf]
      refine Prod.ext (funext fun b => ?_) rfl
      -- the new position of the range keeps its clear bit
      by_cases hbn : b = i + n
      · subst hbn
        dsimp only
        rw [if_neg (by omega), if_pos (by omega), hf]
        exact hlast
      · dsimp only
        by_cases hin : i ≤ b ∧ b < i + n
        · rw [if_pos hin, if_pos (by omega)]
        · rw [if_neg hin, if_neg (by omega)]
    | false =>
      have hf : freeIn blockmap dbase (i + n) = true := by
        simp [freeIn, hb]
      rw [if_neg (by decide), hf]
      refine Prod.ext (funext fun b => ?_) rfl
      by_cases hbn : b = i + n
      · subst hbn
        dsimp only
        rw [Function.update_self, if_pos (by omega), hf]
      · dsimp only
        rw [Function.update_of_ne hbn]
        by_cases hin : i ≤ b ∧ b < i + n
        · rw [if_pos hin, if_pos (by omega)]
        · rw [if_neg hin, if_neg (by omega)]

end CopyFree

/-! ## §2. The whole blocks. -/

/-- A geometry in which 32-bit sector arithmetic does not wrap, so that the
macros of the checker and of the allocator compute the same. -/
structure CheckedGeometry (sb : Superblock) : Prop extends
    ValidGeometry sb where
  sectors_lt : sb.fragsPerGroup * sb.sectorsPerFrag < 2 ^ 31
  track_le : sb.sectorsPerTrack * NRPOS ≤ 2 ^ 31
  reserved_le : ROOTINO ≤ sb.inodesPerGroup
  inodes_le : sb.inodesPerGroup ≤ MAXIPG

/-- Free runs of length `j` the allocator's scanner finds in block `k`. -/
def scannedRuns (sb : Superblock) (j : Nat) (free : Nat → Bool) (k : Nat) :
    Nat :=
  countFreeRunsInBlock free (k * sb.fragsPerBlock) sb.fragsPerBlock j

section Blocks

variable {sb : Superblock} {blockmap : Nat → Bool} {dbase n : Nat} {cg : Cg}

theorem groupFrags_le (sb : Superblock) (c : Nat) :
    groupFrags sb c ≤ sb.fragsPerGroup := by
  unfold groupFrags
  omega

theorem cbtocylno_eq (hgeo : CheckedGeometry sb) {frag : Nat}
    (h : frag < sb.fragsPerGroup) : cbtocylno sb frag = cylno sb frag := by
  have hmul := Nat.mul_le_mul_right sb.sectorsPerFrag (Nat.le_of_lt h)
  have := hgeo.sectors_lt
  unfold cbtocylno cylno
  rw [Nat.mod_eq_of_lt (show frag * sb.sectorsPerFrag < 2 ^ 32 by omega)]

theorem cbtorpos_eq (hgeo : CheckedGeometry sb) {frag : Nat}
    (h : frag < sb.fragsPerGroup) : cbtorpos sb frag = rotpos sb frag := by
  have hmul := Nat.mul_le_mul_right sb.sectorsPerFrag (Nat.le_of_lt h)
  have := hgeo.sectors_lt
  have htrack := hgeo.track_le
  have hlt := Nat.mod_lt
    (frag * sb.sectorsPerFrag % sb.sectorsPerCyl) hgeo.sectorsPerTrack_pos
  have hpos := Nat.mul_lt_mul_of_pos_right hlt (show 0 < NRPOS by decide)
  unfold cbtorpos rotpos
  rw [Nat.mod_eq_of_lt (show frag * sb.sectorsPerFrag < 2 ^ 32 by omega)]
  congr 1
  exact (Nat.mod_eq_of_lt (by omega)).symm

theorem local_scannedRuns (sb : Superblock) (j : Nat) :
    Local sb (scannedRuns sb j) := by
  intro free free' k h
  unfold scannedRuns
  by_cases hj : j < sb.fragsPerBlock
  · rw [countFreeRunsInBlock_eq _ _ hj, countFreeRunsInBlock_eq _ _ hj]
    exact runsOf_congr fun i hi => h _ (by omega) (by omega)
  · rw [countFreeRunsInBlock_of_le _ _ (by omega),
      countFreeRunsInBlock_of_le _ _ (by omega)]

/-- A wholly free block has no run short of itself. -/
theorem scannedRuns_whole {free : Nat → Bool} {k : Nat}
    (h : wholeFree sb free k = true) (j : Nat) :
    scannedRuns sb j free k = 0 := by
  unfold scannedRuns
  by_cases hj : j < sb.fragsPerBlock
  · rw [countFreeRuns_eq_partRuns free k hj]
    unfold partRuns
    rw [if_pos h]
  · exact countFreeRunsInBlock_of_le _ _ (by omega)

/-- A block without a free fragment has no run. -/
theorem scannedRuns_empty {free : Nat → Bool} {k : Nat}
    (h : popRange free (k * sb.fragsPerBlock) sb.fragsPerBlock = 0)
    (j : Nat) : scannedRuns sb j free k = 0 := by
  have hclr : ∀ i < sb.fragsPerBlock,
      free (k * sb.fragsPerBlock + i) = false := by
    intro i hi
    unfold popRange at h
    have := Finset.sum_eq_zero_iff.mp h i (Finset.mem_range.mpr hi)
    simpa using this
  unfold scannedRuns
  by_cases hj : j < sb.fragsPerBlock
  · rw [countFreeRunsInBlock_eq _ _ hj,
      runsOf_suffix le_rfl hclr fun i hi hlt => by omega, if_neg (by omega)]
  · exact countFreeRunsInBlock_of_le _ _ (by omega)

/-- **After `n` blocks**: the bits of these blocks, and the sums over them of
the values the block map defines. -/
structure BlocksDone (sb : Superblock) (free : Nat → Bool) (n : Nat)
    (cg : Cg) : Prop where
  bits : ∀ i, cg.free i = (decide (i < n * sb.fragsPerBlock) && free i)
  nbfree : cg.cs.nbfree
    = UInt32.ofNat (∑ k ∈ Finset.range n, wholeBlock sb free k)
  nffree : cg.cs.nffree
    = UInt32.ofNat (∑ k ∈ Finset.range n, partFrags sb free k)
  frsum : ∀ j, cg.frsum j
    = UInt32.ofNat (∑ k ∈ Finset.range n, scannedRuns sb j free k)
  btot : ∀ cyl, cg.btot cyl
    = UInt32.ofNat (∑ k ∈ Finset.range n,
        wholeBlockIn sb (fun f => cylno sb f = cyl) free k)
  b : ∀ cyl pos, cg.b cyl pos
    = UInt16.ofNat (∑ k ∈ Finset.range n,
        wholeBlockIn sb (fun f => cylno sb f = cyl ∧ rotpos sb f = pos) free k)

/-- The bits after one more block. -/
private theorem BlocksDone.bits_succ {free : Nat → Bool}
    (h : BlocksDone sb free n cg) (i : Nat) :
    (if n * sb.fragsPerBlock ≤ i ∧
        i < n * sb.fragsPerBlock + sb.fragsPerBlock then free i else cg.free i)
      = (decide (i < (n + 1) * sb.fragsPerBlock) && free i) := by
  rw [h.bits i, Nat.succ_mul]
  by_cases hlo : i < n * sb.fragsPerBlock
  · rw [if_neg (by omega), decide_eq_true hlo, decide_eq_true (by omega)]
  · by_cases hhi : i < n * sb.fragsPerBlock + sb.fragsPerBlock
    · rw [if_pos (by omega), decide_eq_true hhi, Bool.true_and]
    · rw [if_neg (by omega), decide_eq_false hlo, decide_eq_false hhi]

/-- **One block of the loop.** -/
theorem countBlock_done (hgeo : CheckedGeometry sb)
    (h : BlocksDone sb (freeIn blockmap dbase) n cg)
    (hn : n * sb.fragsPerBlock < sb.fragsPerGroup) :
    BlocksDone sb (freeIn blockmap dbase) (n + 1)
      (countBlock sb blockmap dbase cg n) := by
  set F := freeIn blockmap dbase with hF
  have hclear : ∀ j < sb.fragsPerBlock,
      cg.free (n * sb.fragsPerBlock + j) = false := by
    intro j _
    rw [h.bits, decide_eq_false (by omega), Bool.false_and]
  have hcopy : copyFree blockmap (dbase + n * sb.fragsPerBlock)
      (n * sb.fragsPerBlock) sb.fragsPerBlock cg.free = (_, _) :=
    copyFree_eq hclear
  rw [← hF] at hcopy
  have hbits : ∀ i, (if n * sb.fragsPerBlock ≤ i ∧
      i < n * sb.fragsPerBlock + sb.fragsPerBlock then F i else cg.free i)
      = (decide (i < (n + 1) * sb.fragsPerBlock) && F i) := h.bits_succ
  unfold countBlock
  dsimp only
  rw [hcopy, cbtocylno_eq hgeo hn, cbtorpos_eq hgeo hn]
  dsimp only
  by_cases hw : wholeFree sb F n = true
  · -- a wholly free block: the block counts move
    rw [if_pos (popRange_of_allSet hw)]
    refine ⟨hbits, ?_, ?_, ?_, ?_, ?_⟩
    · rw [Finset.sum_range_succ, UInt32.ofNat_add, ← h.nbfree]
      simp [wholeBlock, hw]
    · rw [Finset.sum_range_succ, UInt32.ofNat_add, ← h.nffree]
      simp [partFrags, hw]
    · intro j
      rw [Finset.sum_range_succ, UInt32.ofNat_add, ← h.frsum,
        scannedRuns_whole hw]
      simp
    · intro cyl
      rw [Finset.sum_range_succ, UInt32.ofNat_add, ← h.btot]
      by_cases hc : cylno sb (n * sb.fragsPerBlock) = cyl
      · simp [wholeBlockIn, hw, hc]
      · have hc' : cyl ≠ cylno sb (n * sb.fragsPerBlock) :=
          fun he => hc he.symm
        simp [wholeBlockIn, hc, Function.update_of_ne hc']
    · intro cyl pos
      rw [Finset.sum_range_succ, UInt16.ofNat_add, ← h.b]
      by_cases hc : cyl = cylno sb (n * sb.fragsPerBlock)
      · subst hc
        by_cases hp : pos = rotpos sb (n * sb.fragsPerBlock)
        · subst hp
          simp [wholeBlockIn, hw]
        · have hp' : rotpos sb (n * sb.fragsPerBlock) ≠ pos :=
            fun he => hp he.symm
          simp [wholeBlockIn, hp', Function.update_of_ne hp]
      · have hc' : cylno sb (n * sb.fragsPerBlock) ≠ cyl :=
          fun he => hc he.symm
        simp [wholeBlockIn, hc', Function.update_of_ne hc]
  · -- a partly free block: the fragment counts move
    have hw' : wholeFree sb F n = false := Bool.eq_false_iff.mpr hw
    have hlt : popRange F (n * sb.fragsPerBlock) sb.fragsPerBlock
        < sb.fragsPerBlock := popRange_lt_of_not_allSet hw'
    rw [if_neg (by omega)]
    have hbt : ∀ cyl, cg.btot cyl
        = UInt32.ofNat (∑ k ∈ Finset.range (n + 1),
            wholeBlockIn sb (fun f => cylno sb f = cyl) F k) := by
      intro cyl
      rw [Finset.sum_range_succ, UInt32.ofNat_add, ← h.btot]
      simp [wholeBlockIn, hw']
    have hb : ∀ cyl pos, cg.b cyl pos
        = UInt16.ofNat (∑ k ∈ Finset.range (n + 1), wholeBlockIn sb
            (fun f => cylno sb f = cyl ∧ rotpos sb f = pos) F k) := by
      intro cyl pos
      rw [Finset.sum_range_succ, UInt16.ofNat_add, ← h.b]
      simp [wholeBlockIn, hw']
    have hnb : cg.cs.nbfree
        = UInt32.ofNat (∑ k ∈ Finset.range (n + 1), wholeBlock sb F k) := by
      rw [Finset.sum_range_succ, UInt32.ofNat_add, ← h.nbfree]
      simp [wholeBlock, hw']
    have hnf : cg.cs.nffree + UInt32.ofNat
        (popRange F (n * sb.fragsPerBlock) sb.fragsPerBlock)
        = UInt32.ofNat (∑ k ∈ Finset.range (n + 1), partFrags sb F k) := by
      rw [Finset.sum_range_succ, UInt32.ofNat_add, ← h.nffree]
      simp [partFrags, hw']
    split
    · refine ⟨hbits, hnb, hnf, ?_, hbt, hb⟩
      intro j
      dsimp only
      rw [fragacct_eq hgeo.fragsPerBlock _ ⟨n, Nat.mul_comm _ _⟩,
        Finset.sum_range_succ, UInt32.ofNat_add, ← h.frsum]
      congr 2
      refine local_scannedRuns sb j F _ n fun i hlo hhi => ?_
      rw [if_pos ⟨hlo, hhi⟩]
    · rename_i hzero
      have hpop : popRange F (n * sb.fragsPerBlock) sb.fragsPerBlock = 0 := by
        omega
      refine ⟨hbits, hnb, ?_, ?_, hbt, hb⟩
      · rw [hpop] at hnf
        simpa using hnf
      · intro j
        rw [Finset.sum_range_succ, UInt32.ofNat_add, ← h.frsum,
          scannedRuns_empty hpop]
        simp

/-- The whole blocks, by induction on their number. -/
theorem blocksDone_range (hgeo : CheckedGeometry sb)
    (h : BlocksDone sb (freeIn blockmap dbase) 0 cg) :
    ∀ n, n * sb.fragsPerBlock ≤ sb.fragsPerGroup →
      BlocksDone sb (freeIn blockmap dbase) n
        ((List.range n).foldl (countBlock sb blockmap dbase) cg)
  | 0, _ => h
  | n + 1, hn => by
    have hfpb := hgeo.fpb_pos
    rw [Nat.succ_mul] at hn
    rw [List.range_succ, List.foldl_append]
    exact countBlock_done hgeo (blocksDone_range hgeo h n (by omega))
      (by omega)

end Blocks

/-! ## §3. The tail. -/

section Tail

variable {sb : Superblock} {blockmap : Nat → Bool} {dbase ndblk : Nat}
  {cg : Cg}

/-- The bits of a group of `ndblk` fragments. -/
def groupMap (free : Nat → Bool) (ndblk : Nat) : Nat → Bool :=
  fun i => decide (i < ndblk) && free i

theorem blockCount_eq (hfpb : 0 < sb.fragsPerBlock) (ndblk : Nat) :
    blockCount sb ndblk = ndblk / sb.fragsPerBlock
      + if ndblk % sb.fragsPerBlock = 0 then 0 else 1 := by
  have hdiv := Nat.div_add_mod ndblk sb.fragsPerBlock
  have hmod := Nat.mod_lt ndblk hfpb
  unfold blockCount
  split
  · rename_i h0
    have hn : ndblk + sb.fragsPerBlock - 1 = sb.fragsPerBlock - 1
        + sb.fragsPerBlock * (ndblk / sb.fragsPerBlock) := by
      omega
    rw [hn, Nat.add_mul_div_left _ _ hfpb, Nat.div_eq_of_lt (by omega)]
    omega
  · have hn : ndblk + sb.fragsPerBlock - 1
        = ndblk % sb.fragsPerBlock - 1
          + sb.fragsPerBlock * (ndblk / sb.fragsPerBlock + 1) := by
      rw [Nat.mul_add]
      omega
    rw [hn, Nat.add_mul_div_left _ _ hfpb, Nat.div_eq_of_lt (by omega)]
    omega

/-- A total over a group: its whole blocks, and its tail if it has one. -/
theorem blockTotal_groupMap {Q : (Nat → Bool) → Nat → Nat}
    (hfpb : 0 < sb.fragsPerBlock) (hQ : Local sb Q) (free : Nat → Bool) :
    blockTotal sb ndblk Q (groupMap free ndblk)
      = ∑ k ∈ Finset.range (ndblk / sb.fragsPerBlock), Q free k
        + if ndblk % sb.fragsPerBlock = 0 then 0
          else Q (groupMap free ndblk) (ndblk / sb.fragsPerBlock) := by
  have hwhole : ∀ k ∈ Finset.range (ndblk / sb.fragsPerBlock),
      Q (groupMap free ndblk) k = Q free k := by
    intro k hk
    have hk := Finset.mem_range.mp hk
    have hmul := Nat.mul_le_mul_right sb.fragsPerBlock
      (show k + 1 ≤ ndblk / sb.fragsPerBlock from hk)
    have hdiv := Nat.div_mul_le_self ndblk sb.fragsPerBlock
    rw [Nat.succ_mul] at hmul
    refine hQ free _ k fun i _ hi => ?_
    show (decide (i < ndblk) && free i) = free i
    rw [decide_eq_true (by omega), Bool.true_and]
  unfold blockTotal
  rw [blockCount_eq hfpb]
  split
  · rw [Nat.add_zero, Nat.add_zero]
    exact Finset.sum_congr rfl hwhole
  · rw [Finset.sum_range_succ, Finset.sum_congr rfl hwhole]

/-- The fragment counters of a group are what the allocator's own definition
gives for its bitmap. -/
structure ScannedCounts (sb : Superblock) (cg : Cg) : Prop where
  nbfree : cg.cs.nbfree = UInt32.ofNat (freeBlocks sb cg)
  nffree : cg.cs.nffree = UInt32.ofNat (freeFrags sb cg)
  frsum : ∀ j < MAXFRAG, cg.frsum j
    = UInt32.ofNat (blockTotal sb cg.ndblk (scannedRuns sb j) cg.free)
  btot : ∀ cyl < MAXCPG, cg.btot cyl = UInt32.ofNat (cylBlocks sb cg cyl)
  b : ∀ cyl < MAXCPG, ∀ pos < NRPOS,
    cg.b cyl pos = UInt16.ofNat (posBlocks sb cg cyl pos)

/-- The fields that counting fragments leaves alone. -/
def restOf (cg : Cg) : Cg :=
  { cg with
    cs := { cg.cs with nbfree := 0, nffree := 0 }
    frsum := fun _ => 0
    btot := fun _ => 0
    b := fun _ _ => 0
    free := fun _ => false }

theorem countBlock_rest (k : Nat) :
    restOf (countBlock sb blockmap dbase cg k) = restOf cg := by
  unfold countBlock
  dsimp only
  split
  · rfl
  · split <;> rfl

theorem countTail_rest :
    restOf (countTail sb blockmap dbase ndblk cg) = restOf cg := by
  unfold countTail
  dsimp only
  split <;> rfl

theorem foldl_countBlock_rest (ks : List Nat) :
    restOf (ks.foldl (countBlock sb blockmap dbase) cg) = restOf cg := by
  induction ks generalizing cg with
  | nil => rfl
  | cons k ks ih =>
    rw [List.foldl_cons, ih, countBlock_rest]

/-- The copy of the tail makes the bits of the group whole. -/
theorem BlocksDone.tail_copied (hfpb : 0 < sb.fragsPerBlock)
    (h : BlocksDone sb (freeIn blockmap dbase) (ndblk / sb.fragsPerBlock) cg) :
    copyFree blockmap (dbase + ndblk / sb.fragsPerBlock * sb.fragsPerBlock)
        (ndblk / sb.fragsPerBlock * sb.fragsPerBlock) (ndblk % sb.fragsPerBlock)
        cg.free
      = (groupMap (freeIn blockmap dbase) ndblk,
        popRange (freeIn blockmap dbase)
          (ndblk / sb.fragsPerBlock * sb.fragsPerBlock)
          (ndblk % sb.fragsPerBlock)) := by
  have hdiv := Nat.div_add_mod' ndblk sb.fragsPerBlock
  have hmod := Nat.mod_lt ndblk hfpb
  rw [copyFree_eq]
  · refine Prod.ext (funext fun i => ?_) rfl
    dsimp only
    unfold groupMap
    rw [h.bits i]
    by_cases hlo : i < ndblk / sb.fragsPerBlock * sb.fragsPerBlock
    · rw [if_neg (by omega), decide_eq_true hlo, decide_eq_true (by omega)]
    · by_cases hhi : i < ndblk
      · rw [if_pos (by omega), decide_eq_true hhi, Bool.true_and]
      · rw [if_neg (by omega), decide_eq_false hlo, decide_eq_false hhi]
  · intro j _
    rw [h.bits, decide_eq_false (by omega), Bool.false_and]

/-- The free fragments of the tail are those of its block. -/
theorem popRange_tail (hfpb : 0 < sb.fragsPerBlock) (free : Nat → Bool) :
    popRange (groupMap free ndblk) (ndblk / sb.fragsPerBlock * sb.fragsPerBlock)
        sb.fragsPerBlock
      = popRange free (ndblk / sb.fragsPerBlock * sb.fragsPerBlock)
          (ndblk % sb.fragsPerBlock) := by
  have hdiv := Nat.div_add_mod' ndblk sb.fragsPerBlock
  have hmod := Nat.mod_lt ndblk hfpb
  have hsplit := popRange_add (groupMap free ndblk)
    (ndblk / sb.fragsPerBlock * sb.fragsPerBlock) (ndblk % sb.fragsPerBlock)
    (sb.fragsPerBlock - ndblk % sb.fragsPerBlock)
  have hpast : popRange (groupMap free ndblk)
      (ndblk / sb.fragsPerBlock * sb.fragsPerBlock + ndblk % sb.fragsPerBlock)
      (sb.fragsPerBlock - ndblk % sb.fragsPerBlock) = 0 := by
    refine popRange_eq_zero fun i _ => ?_
    show (decide _ && _) = false
    rw [decide_eq_false (by omega), Bool.false_and]
  have hin : popRange (groupMap free ndblk)
      (ndblk / sb.fragsPerBlock * sb.fragsPerBlock) (ndblk % sb.fragsPerBlock)
      = popRange free (ndblk / sb.fragsPerBlock * sb.fragsPerBlock)
          (ndblk % sb.fragsPerBlock) := by
    refine popRange_congr fun i _ hi => ?_
    show (decide _ && _) = _
    rw [decide_eq_true (by omega), Bool.true_and]
  rw [Nat.add_sub_cancel' (Nat.le_of_lt hmod), hpast, hin,
    Nat.add_zero] at hsplit
  exact hsplit

/-- The block of the tail is not whole. -/
theorem tail_not_whole (hfpb : 0 < sb.fragsPerBlock) (free : Nat → Bool) :
    wholeFree sb (groupMap free ndblk) (ndblk / sb.fragsPerBlock) = false := by
  refine Bool.eq_false_iff.mpr fun hall => ?_
  unfold wholeFree at hall
  rw [allSet_iff] at hall
  have := hall (ndblk % sb.fragsPerBlock) (Nat.mod_lt ndblk hfpb)
  simp [groupMap, Nat.div_add_mod'] at this

/-- **What the tail changes**: the bits, the free fragments, and the runs of its
block if there is one. -/
theorem BlocksDone.tail (hfpb : 0 < sb.fragsPerBlock)
    (h : BlocksDone sb (freeIn blockmap dbase) (ndblk / sb.fragsPerBlock) cg) :
    countTail sb blockmap dbase ndblk cg =
      { cg with
        free := groupMap (freeIn blockmap dbase) ndblk
        cs :=
          { cg.cs with
            nffree := cg.cs.nffree + UInt32.ofNat (popRange
              (groupMap (freeIn blockmap dbase) ndblk)
              (ndblk / sb.fragsPerBlock * sb.fragsPerBlock) sb.fragsPerBlock) }
        frsum :=
          if ndblk % sb.fragsPerBlock = 0 then cg.frsum
          else fragacct sb.fragsPerBlock (blkmap sb.fragsPerBlock
            (groupMap (freeIn blockmap dbase) ndblk)
            (ndblk / sb.fragsPerBlock * sb.fragsPerBlock)) cg.frsum 1 } := by
  unfold countTail
  dsimp only
  rw [h.tail_copied hfpb, popRange_tail hfpb]
  dsimp only
  by_cases h0 : ndblk % sb.fragsPerBlock = 0
  · rw [if_neg (not_not.mpr h0), if_pos h0]
  · rw [if_pos h0, if_neg h0]

/-- A total that only whole blocks add to has nothing from the tail. -/
theorem blockTotal_whole {Q : (Nat → Bool) → Nat → Nat}
    (hfpb : 0 < sb.fragsPerBlock) (hQ : Local sb Q) (free : Nat → Bool)
    (hwhole : ∀ free k, wholeFree sb free k = false → Q free k = 0) :
    blockTotal sb ndblk Q (groupMap free ndblk)
      = ∑ k ∈ Finset.range (ndblk / sb.fragsPerBlock), Q free k := by
  rw [blockTotal_groupMap hfpb hQ, hwhole _ _ (tail_not_whole hfpb free), ite_self,
    Nat.add_zero]

/-- The free fragments of the group: those of the tail and of the blocks before
it. -/
theorem partFrags_tail (hfpb : 0 < sb.fragsPerBlock) (free : Nat → Bool) :
    (if ndblk % sb.fragsPerBlock = 0 then 0
        else partFrags sb (groupMap free ndblk) (ndblk / sb.fragsPerBlock))
      = popRange (groupMap free ndblk)
          (ndblk / sb.fragsPerBlock * sb.fragsPerBlock) sb.fragsPerBlock := by
  split
  · rename_i h0
    rw [popRange_tail hfpb, h0]
    rfl
  · unfold partFrags
    rw [tail_not_whole hfpb]
    rfl

/-- **The tail of the group** completes the counts. -/
theorem countTail_spec (hgeo : CheckedGeometry sb)
    (h : BlocksDone sb (freeIn blockmap dbase) (ndblk / sb.fragsPerBlock) cg)
    (hnd : cg.ndblk = ndblk) :
    (countTail sb blockmap dbase ndblk cg).free
        = groupMap (freeIn blockmap dbase) ndblk ∧
      ScannedCounts sb (countTail sb blockmap dbase ndblk cg) := by
  have hfpb := hgeo.fpb_pos
  rw [h.tail hfpb]
  refine ⟨rfl, ?_, ?_, fun j _ => ?_, fun cyl _ => ?_, fun cyl _ pos _ => ?_⟩
  · unfold freeBlocks
    dsimp only
    rw [hnd, blockTotal_whole hfpb (local_wholeBlock sb), h.nbfree]
    intro free k hk
    simp [wholeBlock, hk]
  · unfold freeFrags
    dsimp only
    rw [hnd, blockTotal_groupMap hfpb (local_partFrags sb), h.nffree,
      partFrags_tail hfpb, UInt32.ofNat_add]
  · dsimp only
    rw [hnd, blockTotal_groupMap hfpb (local_scannedRuns sb j), UInt32.ofNat_add,
      ← h.frsum]
    by_cases h0 : ndblk % sb.fragsPerBlock = 0
    · rw [if_pos h0, if_pos h0]
      exact (UInt32.add_zero _).symm
    · rw [if_neg h0, if_neg h0]
      exact fragacct_eq hgeo.fragsPerBlock _ ⟨_, Nat.mul_comm _ _⟩ _ j
  · unfold cylBlocks
    dsimp only
    rw [hnd, blockTotal_whole hfpb (local_wholeBlockIn sb _), h.btot]
    intro free k hk
    simp [wholeBlockIn, hk]
  · unfold posBlocks
    dsimp only
    rw [hnd, blockTotal_whole hfpb (local_wholeBlockIn sb _), h.b]
    intro free k hk
    simp [wholeBlockIn, hk]

end Tail

end NextUfs.Fsck
