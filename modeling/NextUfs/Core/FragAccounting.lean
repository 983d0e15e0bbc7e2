/-
  NextUfs.Core.FragAccounting
  ───────────────────────────
  **FRAGMENT RUNS KEEP A GROUP'S COUNTERS.**

  The four things the allocator does to a fragment bitmap, each shown to keep
  `FragCounts`:

    • `takePartialRun_fragCounts` — out of a partly free block,
    • `splitFreeBlock_fragCounts` — out of a wholly free one,
    • `growRun_fragCounts`        — behind an allocated run,
    • `releaseRun_fragCounts`     — back, where the block may become whole.
-/
import NextUfs.Core.BlockChange

namespace NextUfs

open Bits

/-! ## §1. Fragment runs. -/

section Runs

variable {sb : Superblock} {cg cg' : Cg} {k s n : Nat}

theorem sameOffBlock_clearRange (free : Nat → Bool)
    (h1 : k * sb.fragsPerBlock ≤ s)
    (h2 : s + n ≤ k * sb.fragsPerBlock + sb.fragsPerBlock) :
    SameOffBlock sb k free (clearRange free s n) :=
  fun _ hi => clearRange_of_not_mem (by omega)

theorem sameOffBlock_setRange (free : Nat → Bool)
    (h1 : k * sb.fragsPerBlock ≤ s)
    (h2 : s + n ≤ k * sb.fragsPerBlock + sb.fragsPerBlock) :
    SameOffBlock sb k free (setRange free s n) :=
  fun _ hi => setRange_of_not_mem (by omega)

theorem clearRange_pastEnd {free : Nat → Bool} {limit : Nat}
    (h : ∀ i, limit ≤ i → free i = false) (i : Nat) (hi : limit ≤ i) :
    clearRange free s n i = false := by
  unfold clearRange
  split
  · rfl
  · exact h i hi

theorem wholeFree_eq_false {free : Nat → Bool} {i : Nat}
    (h1 : k * sb.fragsPerBlock ≤ i)
    (h2 : i < k * sb.fragsPerBlock + sb.fragsPerBlock)
    (hi : free i = false) : wholeFree sb free k = false := by
  refine Bool.eq_false_iff.mpr fun hw => ?_
  unfold wholeFree at hw
  rw [allSet_iff] at hw
  have := hw (i - k * sb.fragsPerBlock) (by omega)
  rw [Nat.add_sub_cancel' h1, hi] at this
  cases this

theorem wholeFree_clearRange {free : Nat → Bool}
    (h : wholeFree sb free k = false) :
    wholeFree sb (clearRange free s n) k = false := by
  refine Bool.eq_false_iff.mpr fun hw => ?_
  have hall : wholeFree sb free k = true := by
    unfold wholeFree at hw ⊢
    rw [allSet_iff] at hw ⊢
    intro i hi
    have := hw i hi
    unfold clearRange at this
    split at this
    · cases this
    · exact this
  simp [hall] at h

/-- **Taking free fragments out of a partly free block** keeps the counters
right. -/
theorem FragCounts.clear_part (h : FragCounts sb cg)
    (hk : k < blockCount sb cg.ndblk) (h1 : k * sb.fragsPerBlock ≤ s)
    (h2 : s + n ≤ k * sb.fragsPerBlock + sb.fragsPerBlock)
    (hset : allSet cg.free s n = true)
    (hw : wholeFree sb cg.free k = false)
    (hfree : cg'.free = clearRange cg.free s n)
    (hnd : cg'.ndblk = cg.ndblk)
    (hnb : cg'.cs.nbfree = cg.cs.nbfree)
    (hnf : cg'.cs.nffree = cg.cs.nffree - UInt32.ofNat n)
    (hfr : cg'.frsum = frsumAfter sb cg (k * sb.fragsPerBlock) cg'.free)
    (hbt : cg'.btot = cg.btot) (hb : cg'.b = cg.b) : FragCounts sb cg' := by
  refine h.change_part hnd hk ?_ ?_ hw ?_ hnb ?_ hfr hbt hb
  · rw [hfree]
    exact sameOffBlock_clearRange _ h1 h2
  · rw [hfree]
    exact clearRange_pastEnd h.pastEnd
  · rw [hfree]
    exact wholeFree_clearRange hw
  · have hpop := popRange_clearRange h1 h2 hset
    rw [hnf, hfree, ← hpop]
    simp only [UInt32.ofNat_add]
    grind

theorem takePartialRun_fragCounts (h : FragCounts sb cg) {now : UInt32}
    (hk : k < blockCount sb cg.ndblk) (h1 : k * sb.fragsPerBlock ≤ s)
    (h2 : s + n ≤ k * sb.fragsPerBlock + sb.fragsPerBlock)
    (hset : allSet cg.free s n = true)
    (hw : wholeFree sb cg.free k = false) :
    FragCounts sb
      (takePartialRun sb n (k * sb.fragsPerBlock) s now cg).cg :=
  h.clear_part hk h1 h2 hset hw rfl rfl rfl rfl rfl rfl rfl

/-- Cutting a wholly free block keeps the counters right. -/
theorem splitFreeBlock_fragCounts (h : FragCounts sb cg) {now : UInt32}
    (hspt : 0 < sb.sectorsPerTrack) (hk : k < blockCount sb cg.ndblk)
    (hn0 : 0 < n) (hn : n ≤ sb.fragsPerBlock)
    (hw : wholeFree sb cg.free k = true) :
    FragCounts sb (splitFreeBlock sb n (k * sb.fragsPerBlock) now cg).cg := by
  set base := k * sb.fragsPerBlock with hbase
  have hall : ∀ i < sb.fragsPerBlock, cg.free (base + i) = true := by
    have := hw
    unfold wholeFree at this
    rwa [allSet_iff] at this
  have hw' : wholeFree sb (clearRange cg.free base n) k = false :=
    wholeFree_eq_false (i := base) (by omega) (by omega)
      (clearRange_of_mem (by omega))
  have hpop : popRange (clearRange cg.free base n) base sb.fragsPerBlock
      = sb.fragsPerBlock - n := by
    have hset : allSet cg.free base n = true := by
      rw [allSet_iff]
      intro i hi
      exact hall i (by omega)
    have h1 : popRange (clearRange cg.free base n) base sb.fragsPerBlock + n
        = popRange cg.free base sb.fragsPerBlock :=
      popRange_clearRange le_rfl (by omega) hset
    have h2 : popRange cg.free base sb.fragsPerBlock = sb.fragsPerBlock :=
      popRange_of_allSet (by rwa [allSet_iff])
    omega
  have hruns : ∀ j, partRuns sb j (clearRange cg.free base n) k
      = if j = sb.fragsPerBlock - n ∧ n < sb.fragsPerBlock then 1 else 0 := by
    intro j
    unfold partRuns
    rw [hw', ← hbase]
    refine runsOf_suffix hn (fun i hi => clearRange_of_mem (by omega)) ?_
    intro i hi hiw
    rw [clearRange_of_not_mem (by omega)]
    exact hall i hiw
  have hfree : (splitFreeBlock sb n base now cg).cg.free
      = clearRange cg.free base n := by
    simp [splitFreeBlock, clearBlockBits]
  refine h.change (k := k) ?_ hk ?_ ?_ ?_ ?_ ?_ ?_ ?_
  · simp [splitFreeBlock]
  · rw [hfree]
    exact sameOffBlock_clearRange _ (by omega) (by omega)
  · rw [hfree]
    exact clearRange_pastEnd h.pastEnd
  · rw [hfree]
    simp [splitFreeBlock, wholeBlock, hw, hw']
    grind
  · rw [hfree]
    simp [splitFreeBlock, partFrags, hw, hw', ← hbase, hpop]
  · intro j hj1 hj
    rw [hfree, hruns]
    have h0 : partRuns sb j cg.free k = 0 := by
      unfold partRuns
      rw [if_pos hw]
    rw [h0]
    simp only [splitFreeBlock, moveCylBlocks_frsum]
    by_cases hj' : j = sb.fragsPerBlock - n
    · subst hj'
      rw [if_pos (by omega), if_pos ⟨rfl, by omega⟩, Function.update_self]
      grind
    · have hne : ¬(j = sb.fragsPerBlock - n ∧ n < sb.fragsPerBlock) :=
        fun hc => hj' hc.1
      rw [if_neg hne]
      split
      · rw [Function.update_of_ne hj']
        simp
      · simp
  · intro cyl hcyl
    rw [hfree]
    simp only [splitFreeBlock, moveCylBlocks_btot hspt hcyl, wholeBlockIn, hw,
      hw', ← hbase]
    by_cases hc : cylno sb base = cyl
    · simp [hc]
    · simp [hc]
  · intro cyl hcyl pos _
    rw [hfree]
    simp only [splitFreeBlock, moveCylBlocks_b hspt hcyl, wholeBlockIn, hw,
      hw', ← hbase]
    by_cases hc : cylno sb base = cyl ∧ rotpos sb base = pos
    · simp [hc]
    · simp [hc]

/-- The block that holds a run, read off the run's first fragment. -/
theorem blockBase_eq (sb : Superblock) (localFrag : Nat) :
    blockBase sb localFrag
      = localFrag / sb.fragsPerBlock * sb.fragsPerBlock := by
  have := Nat.div_add_mod' localFrag sb.fragsPerBlock
  unfold blockBase
  omega

theorem lt_blockCount {localFrag ndblk : Nat} (hfpb : 0 < sb.fragsPerBlock)
    (h : localFrag < ndblk) :
    localFrag / sb.fragsPerBlock < blockCount sb ndblk := by
  unfold blockCount
  rw [Nat.lt_iff_add_one_le, Nat.le_div_iff_mul_le hfpb, Nat.add_mul]
  have := Nat.div_mul_le_self localFrag sb.fragsPerBlock
  omega

/-- A run `[localFrag, localFrag + frags)` inside one block. -/
def InOneBlock (sb : Superblock) (localFrag frags : Nat) : Prop :=
  localFrag % sb.fragsPerBlock + frags ≤ sb.fragsPerBlock

theorem InOneBlock.le (h : InOneBlock sb s n) :
    s / sb.fragsPerBlock * sb.fragsPerBlock ≤ s ∧
      s + n ≤ s / sb.fragsPerBlock * sb.fragsPerBlock + sb.fragsPerBlock := by
  have := Nat.div_add_mod' s sb.fragsPerBlock
  unfold InOneBlock at h
  omega

/-- Group step of an extension of an allocated run. -/
theorem growRun_fragCounts (h : FragCounts sb cg) {now : UInt32}
    {old new : Nat} {u : GroupUpdate Unit} (hfpb : 0 < sb.fragsPerBlock)
    (hold : 0 < old) (hlt : old < new) (hone : InOneBlock sb s new)
    (halloc : ∀ i < old, cg.free (s + i) = false)
    (hu : growRun sb s old new now cg = .ok u) :
    FragCounts sb u.cg ∧ u.cg.cs = cg.cs + u.delta := by
  unfold growRun at hu
  dsimp only at hu
  split at hu
  · cases hu
  · rename_i hset
    cases hu
    have hset' : allSet cg.free (s + old) (new - old) = true := by
      unfold setRunBits at hset
      simpa using hset
    -- a free fragment lies below the group's end
    have hend : s < cg.ndblk := by
      by_contra hge
      rw [allSet_iff] at hset'
      have h1 := hset' 0 (by omega)
      have h2 := h.pastEnd (s + old + 0) (by omega)
      rw [h1] at h2
      cases h2
    obtain ⟨hlo, hhi⟩ := hone.le
    refine ⟨h.clear_part (lt_blockCount hfpb hend) (s := s + old)
      (n := new - old) (by omega) (by omega) hset' ?_ rfl rfl rfl rfl ?_
      rfl rfl, ?_⟩
    · exact wholeFree_eq_false hlo (by omega) (halloc 0 hold)
    · simp only [blockBase_eq]
    · ext : 1 <;> simp
      grind

/-- Group step of a freed run: the block becomes wholly free or stays partly
free, and the counters follow. -/
theorem releaseRun_fragCounts (h : FragCounts sb cg) {now : UInt32}
    {u : GroupUpdate Unit} (hgeo : ValidGeometry sb) (hn : 0 < n)
    (hone : InOneBlock sb s n) (hend : s + n ≤ cg.ndblk)
    (hu : releaseRun sb s n now cg = .ok u) :
    FragCounts sb u.cg ∧ u.cg.cs = cg.cs + u.delta := by
  have hfpb := hgeo.fpb_pos
  have hspt := hgeo.sectorsPerTrack_pos
  obtain ⟨hlo, hhi⟩ := hone.le
  set k := s / sb.fragsPerBlock with hkdef
  have hk : k < blockCount sb cg.ndblk := lt_blockCount hfpb (by omega)
  unfold releaseRun at hu
  split at hu
  · cases hu
  rename_i hany
  have hclr : ∀ i < n, cg.free (s + i) = false := by
    simpa using hany
  have hw : wholeFree sb cg.free k = false :=
    wholeFree_eq_false hlo (by omega) (hclr 0 hn)
  have hpop := popRange_setRange hlo hhi hclr
  have hoff : SameOffBlock sb k cg.free (setRange cg.free s n) :=
    sameOffBlock_setRange _ hlo hhi
  have hpast : ∀ i, cg.ndblk ≤ i → setRange cg.free s n i = false := by
    intro i hi
    rw [setRange_of_not_mem (by omega)]
    exact h.pastEnd i hi
  simp only [blockBase_eq, ← hkdef] at hu
  split at hu
  · rename_i hwhole
    cases hu
    have hw' : wholeFree sb (setRange cg.free s n) k = true := hwhole
    have hfull : popRange cg.free (k * sb.fragsPerBlock) sb.fragsPerBlock + n
        = sb.fragsPerBlock := by
      rw [← hpop]
      exact popRange_of_allSet hwhole
    have hfull32 := congrArg UInt32.ofNat hfull
    simp only [UInt32.ofNat_add] at hfull32
    refine ⟨h.change (k := k) ?_ hk ?_ ?_ ?_ ?_ ?_ ?_ ?_, ?_⟩
    · simp
    · simpa using hoff
    · simpa using hpast
    · simp [wholeBlock, hw, hw']
    · simp only [moveCylBlocks_cs, moveCylBlocks_free, partFrags, hw, hw']
      simp only [if_true, Bool.false_eq_true, if_false]
      grind
    · intro j hj1 hj
      simp only [moveCylBlocks_frsum, moveCylBlocks_free]
      exact frsumAfter_eq cg _ k hj1 hj
    · intro cyl hcyl
      simp only [moveCylBlocks_btot hspt hcyl, moveCylBlocks_free,
        wholeBlockIn, hw, hw']
      by_cases hc : cylno sb (k * sb.fragsPerBlock) = cyl
      · simp [hc]
      · simp [hc]
    · intro cyl hcyl pos _
      simp only [moveCylBlocks_b hspt hcyl, moveCylBlocks_free,
        wholeBlockIn, hw, hw']
      by_cases hc : cylno sb (k * sb.fragsPerBlock) = cyl ∧
          rotpos sb (k * sb.fragsPerBlock) = pos
      · simp [hc]
      · simp [hc]
    · ext : 1 <;> simp
      grind
  · rename_i hpart
    cases hu
    have hw' : wholeFree sb (setRange cg.free s n) k = false := by
      unfold wholeFree
      unfold blockIsFree at hpart
      exact Bool.eq_false_iff.mpr hpart
    refine ⟨h.change_part (k := k) rfl hk hoff hpast hw hw' rfl ?_ rfl rfl
      rfl, ?_⟩
    · dsimp only
      rw [hpop]
      simp only [UInt32.ofNat_add]
      grind
    · ext : 1 <;> simp

end Runs

end NextUfs
