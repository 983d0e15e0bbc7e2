/-
  NextUfs.Bounds.GeometryNeeded
  ─────────────────────────────
  **THE SAFE GEOMETRIES ARE THE ONLY ONES.**

  For every part of `SafeGeometry` there is a call, on a group that is all
  zeros but for its magic number (or for two bytes more), that faults without
  it.

    • `header_needed_inodes`, `inodes_needed` — the header and the inode map,
    • `block_needed`   — a block of more than eight fragments overruns the run
      arrays, or the `memset` that clears them,
    • `bitmap_needed`  — the last fragments of a group are past its map,
    • `cylinders_needed` — a block that becomes free is counted by cylinder,
    • `callsSafe_iff`  — the geometry is safe exactly when every call is,
    • `opened_callsSafe_iff` — the opener's own checks do not come into it.
-/
import NextUfs.Bounds.SafeGeometry
import NextUfs.Label.BackupTaken

namespace NextUfs.Bounds

open Checked Fields State

/-! ## §1. Runs that go through. -/

section Runs

variable {sb : Superblock} {s : Nat → UInt8}

theorem readBe_needs {off n : Nat} (h : SoundAt (readBe sb off n) s) :
    off + n ≤ sb.cgSize :=
  (soundAt_need_bind.1 h).1

theorem bitSet_needs {map bit : Nat} (h : SoundAt (bitSet sb map bit) s) :
    map + bit / 8 < sb.cgSize :=
  (soundAt_need_bind.1 (soundAt_first h)).1

theorem divBy_needs {σ : Type} {s : σ} {a b : Nat}
    (h : SoundAt (divBy a b : EStateM (Halt Errno) σ Nat) s) : b ≠ 0 :=
  (soundAt_need_bind.1 h).1

theorem modBy_needs {σ : Type} {s : σ} {a b : Nat}
    (h : SoundAt (modBy a b : EStateM (Halt Errno) σ Nat) s) : b ≠ 0 :=
  (soundAt_need_bind.1 h).1

theorem need_bind_completes {σ α : Type} {s : σ} {p : Prop} [Decidable p]
    {f : Unit → EStateM (Halt Errno) σ α} {Q : α → σ → Prop}
    (h : p → Completes (f ()) Q s) : Completes (need p >>= f) Q s := by
  refine .bind (Q := fun _ t => p ∧ t = s) (.need p fun hp => ⟨hp, rfl⟩) ?_
  rintro ⟨⟩ t ⟨hp, rfl⟩
  exact h hp

theorem readBe_completes (off n : Nat) :
    Completes (readBe sb off n) (fun v t => v = beAt s off n ∧ t = s) s :=
  need_bind_completes fun _ => ⟨rfl, rfl⟩

theorem writeBe_completes (off n v : Nat) :
    Completes (writeBe sb off n v) (fun _ t => t = putBe s off n v) s :=
  need_bind_completes fun _ => rfl

theorem readByte_completes (i : Nat) :
    Completes (readByte sb i) (fun b t => b = s i ∧ t = s) s :=
  need_bind_completes fun _ => ⟨rfl, rfl⟩

theorem writeByte_completes (i : Nat) (b : UInt8) :
    Completes (writeByte sb i b) (fun _ t => t = Function.update s i b) s :=
  need_bind_completes fun _ => rfl

theorem addBe_completes (off n d : Nat) :
    Completes (addBe sb off n d)
      (fun _ t => ∃ v, t = putBe s off n v) s := by
  refine .bind (readBe_completes off n) ?_
  rintro v t ⟨rfl, rfl⟩
  exact (writeBe_completes off n _).mono fun _ _ h => ⟨_, h⟩

/-! ## §2. Bits. -/

/-- The value of a bit of a map. -/
def bitAt (s : Nat → UInt8) (map bit : Nat) : Bool :=
  (s (map + bit / 8)).toNat.testBit (bit % 8)

theorem bitSet_completes (map bit : Nat) :
    Completes (bitSet sb map bit) (fun b t => b = bitAt s map bit ∧ t = s) s := by
  refine .bind (readByte_completes _) ?_
  rintro b t ⟨rfl, rfl⟩
  exact ⟨rfl, rfl⟩

/-- The buffer with a bit set. -/
def withBit (s : Nat → UInt8) (map bit : Nat) : Nat → UInt8 :=
  Function.update s (map + bit / 8)
    (s (map + bit / 8) ||| UInt8.ofNat (2 ^ (bit % 8)))

theorem setBit_completes (map bit : Nat) :
    Completes (setBit sb map bit) (fun _ t => t = withBit s map bit) s := by
  refine .bind (readByte_completes _) ?_
  rintro b t ⟨rfl, rfl⟩
  exact writeByte_completes _ _

/-- A bit of a byte in which one is set. -/
theorem testBit_or_ofNat (b : UInt8) {k m : Nat} (hk : k < 8) :
    (b ||| UInt8.ofNat (2 ^ k)).toNat.testBit m
      = (b.toNat.testBit m || decide (k = m)) := by
  have hpow : 2 ^ k < 2 ^ 8 := Nat.pow_lt_pow_right (by decide) hk
  have hnat : (UInt8.ofNat (2 ^ k)).toNat = 2 ^ k := by
    rw [UInt8.toNat_ofNat']
    exact Nat.mod_eq_of_lt hpow
  rw [UInt8.toNat_or, Nat.testBit_or, hnat, Nat.testBit_two_pow]

/-- **Setting a bit changes that bit alone.** -/
theorem bitAt_withBit (s : Nat → UInt8) (map bit x : Nat) :
    bitAt (withBit s map bit) map x = (bitAt s map x || decide (bit = x)) := by
  unfold bitAt withBit
  by_cases hbyte : x / 8 = bit / 8
  · rw [hbyte, Function.update_self,
      testBit_or_ofNat _ (Nat.mod_lt bit (by decide))]
    congr 1
    rw [decide_eq_decide]
    omega
  · rw [Function.update_of_ne (by omega)]
    have hne : decide (bit = x) = false := by
      rw [decide_eq_false_iff_not]
      rintro rfl
      exact hbyte rfl
    rw [hne, Bool.or_false]

/-! ## §3. The walks over the map. -/

/-- A run that ends at a clear bit. -/
theorem runLength_completes {base k : Nat}
    (hclear : bitAt s CG_FREE_OFF (w32 (base + k)) = false) :
    ∀ left run, run ≤ k → k < run + left →
      (∀ j, run ≤ j → j < k → bitAt s CG_FREE_OFF (w32 (base + j)) = true) →
      Completes (runLength sb base left run) (fun r t => r = k ∧ t = s) s := by
  intro left
  induction left with
  | zero =>
    intro run hle hlt _
    exact absurd hlt (by omega)
  | succ left ih =>
    intro run hle hlt hset
    refine .bind (bitSet_completes _ _) ?_
    rintro b t ⟨rfl, rfl⟩
    by_cases hrun : run = k
    · rw [hrun, hclear]
      exact ⟨rfl, rfl⟩
    · rw [hset run le_rfl (by omega)]
      exact ih (run + 1) (by omega) (by omega)
        fun j hj hjk => hset j (by omega) hjk

/-- A run that goes to the end of the block. -/
theorem runLength_full {base : Nat} : ∀ left run,
    (∀ j, run ≤ j → j < run + left →
      bitAt s CG_FREE_OFF (w32 (base + j)) = true) →
    Completes (runLength sb base left run)
      (fun r t => r = run + left ∧ t = s) s := by
  intro left
  induction left with
  | zero =>
    intro run _
    exact ⟨rfl, rfl⟩
  | succ left ih =>
    intro run hset
    refine .bind (bitSet_completes _ _) ?_
    rintro b t ⟨rfl, rfl⟩
    rw [hset run le_rfl (by omega)]
    refine (ih (run + 1) fun j hj hjl => hset j (by omega) (by omega)).mono ?_
    rintro r t ⟨hr, ht⟩
    exact ⟨by omega, ht⟩

/-- A block that is wholly in use has no free runs. -/
theorem countFreeRunsLoop_clear {base : Nat}
    (hclear : ∀ j < sb.fragsPerBlock,
      bitAt s CG_FREE_OFF (w32 (base + j)) = false) :
    ∀ rounds i counts, Completes (countFreeRunsLoop sb base rounds i counts)
      (fun c t => c = counts ∧ t = s) s := by
  intro rounds
  induction rounds with
  | zero =>
    intro i counts
    exact ⟨rfl, rfl⟩
  | succ rounds ih =>
    intro i counts
    rw [countFreeRunsLoop]
    refine .ite (fun hi => ?_) fun _ => ⟨rfl, rfl⟩
    have hfirst : bitAt s CG_FREE_OFF (w32 (base + i + 0)) = false := hclear i hi
    have hrun : Completes (runLength sb (base + i) (sb.fragsPerBlock - i) 0)
        (fun r t => r = 0 ∧ t = s) s :=
      runLength_completes hfirst _ _ le_rfl (by omega)
        fun j _ hj => absurd hj (by omega)
    refine .bind hrun ?_
    rintro r t ⟨rfl, rfl⟩
    have hcount : Completes (countRun sb counts 0)
        (fun c t' => c = counts ∧ t' = t) t := by
      unfold countRun
      rw [if_neg (fun h => Nat.lt_irrefl 0 h.1)]
      exact ⟨rfl, rfl⟩
    refine .bind hcount ?_
    rintro c t' ⟨rfl, rfl⟩
    exact ih _ _

/-- Nor has one that is wholly free: its run is not shorter than a block. -/
theorem countFreeRunsLoop_full {base : Nat}
    (hset : ∀ j < sb.fragsPerBlock,
      bitAt s CG_FREE_OFF (w32 (base + j)) = true) (rounds : Nat)
    (counts : Nat → Nat) :
    Completes (countFreeRunsLoop sb base rounds 0 counts)
      (fun c t => c = counts ∧ t = s) s := by
  cases rounds with
  | zero => exact ⟨rfl, rfl⟩
  | succ rounds =>
    rw [countFreeRunsLoop]
    refine .ite (fun hpos => ?_) fun _ => ⟨rfl, rfl⟩
    have hrun : Completes (runLength sb (base + 0) (sb.fragsPerBlock - 0) 0)
        (fun r t => r = sb.fragsPerBlock ∧ t = s) s := by
      refine (runLength_full _ _ fun j _ hj => hset j (by omega)).mono ?_
      rintro r t ⟨hr, ht⟩
      exact ⟨by omega, ht⟩
    refine .bind hrun ?_
    rintro r t ⟨rfl, rfl⟩
    have hcount : Completes (countRun sb counts sb.fragsPerBlock)
        (fun c t' => c = counts ∧ t' = t) t := by
      unfold countRun
      rw [if_neg (fun h => Nat.lt_irrefl _ h.2)]
      exact ⟨rfl, rfl⟩
    refine .bind hcount ?_
    rintro c t' ⟨rfl, rfl⟩
    rw [if_pos hpos, Nat.zero_add]
    cases rounds with
    | zero => exact ⟨rfl, rfl⟩
    | succ rounds =>
      rw [countFreeRunsLoop, if_neg (Nat.lt_irrefl _)]
      exact ⟨rfl, rfl⟩

/-- A first run shorter than a block has a counter. -/
theorem countFreeRunsLoop_needs {base k rounds : Nat} {counts : Nat → Nat}
    (hrounds : 0 < rounds) (hpos : 0 < k) (hk : k < sb.fragsPerBlock)
    (hset : ∀ j < k, bitAt s CG_FREE_OFF (w32 (base + j)) = true)
    (hclear : bitAt s CG_FREE_OFF (w32 (base + k)) = false)
    (h : SoundAt (countFreeRunsLoop sb base rounds 0 counts) s) :
    k < RUN_COUNTS := by
  obtain ⟨n, rfl⟩ := Nat.exists_eq_succ_of_ne_zero (Nat.ne_of_gt hrounds)
  rw [Nat.succ_eq_add_one, countFreeRunsLoop, if_pos (by omega)] at h
  have hrun : Completes (runLength sb (base + 0) (sb.fragsPerBlock - 0) 0)
      (fun r t => r = k ∧ t = s) s :=
    runLength_completes hclear _ _ (Nat.zero_le k) (by omega)
      fun j _ hj => hset j hj
  obtain ⟨r, t, ⟨rfl, rfl⟩, hrest⟩ := hrun.soundAt h
  have hcount := soundAt_first hrest
  unfold countRun at hcount
  rw [if_pos ⟨hpos, hk⟩] at hcount
  exact (soundAt_need_bind.1 hcount).1

/-- The counts of a block whose bits are alike. -/
theorem countFreeRuns_alike {base : Nat} {b : Bool}
    (hbits : ∀ j < sb.fragsPerBlock,
      bitAt s CG_FREE_OFF (w32 (base + j)) = b) :
    Completes (countFreeRuns sb base)
      (fun c t => c = (fun _ => 0) ∧ t = s) s := by
  refine need_bind_completes fun _ => ?_
  cases b with
  | false => exact countFreeRunsLoop_clear hbits _ _ _
  | true => exact countFreeRunsLoop_full hbits _ _

/-- All of a run is set. -/
theorem allSet_full {base : Nat} : ∀ n i,
    (∀ j, i ≤ j → j < i + n → bitAt s CG_FREE_OFF (w32 (base + j)) = true) →
    Completes (allSet sb base n i) (fun b t => b = true ∧ t = s) s := by
  intro n
  induction n with
  | zero =>
    intro i _
    exact ⟨rfl, rfl⟩
  | succ n ih =>
    intro i hset
    refine .bind (bitSet_completes _ _) ?_
    rintro b t ⟨rfl, rfl⟩
    rw [hset i le_rfl (by omega)]
    exact ih (i + 1) fun j hj hjn => hset j (by omega) (by omega)

/-! ## §4. Freeing a run. -/

section FreeBits

variable {start frags : Nat}

/-- How far the loop of `freeBits` has come. -/
def Freed (start frags i : Nat) (t : Nat → UInt8) : Prop :=
  (∀ j < i, bitAt t CG_FREE_OFF (w32 (start + j)) = true) ∧
    ∀ j, i ≤ j → j < frags → bitAt t CG_FREE_OFF (w32 (start + j)) = false

/-- One round, where no bit number comes twice. -/
theorem freeBit_completes
    (hapart : ∀ i j, i < j → j < frags → w32 (start + i) ≠ w32 (start + j))
    {i : Nat} (hi : i < frags) {s : Nat → UInt8} (h : Freed start frags i s) :
    Completes (do
      let bit := w32 (start + i)
      let set ← bitSet sb CG_FREE_OFF bit
      if set then throw (.error .EINVAL) else setBit sb CG_FREE_OFF bit)
      (fun _ t => Freed start frags (i + 1) t) s := by
  refine .bind (bitSet_completes _ _) ?_
  rintro b t ⟨rfl, rfl⟩
  rw [h.2 i le_rfl hi]
  refine (setBit_completes _ _).mono ?_
  rintro _ t' rfl
  constructor
  · intro j hj
    rw [bitAt_withBit]
    by_cases hji : j = i
    · rw [hji, decide_eq_true rfl, Bool.or_true]
    · rw [h.1 j (by omega), Bool.true_or]
  · intro j hj hjf
    rw [bitAt_withBit, h.2 j (by omega) hjf,
      decide_eq_false (hapart i j (by omega) hjf)]
    rfl

variable (hclear : ∀ j < frags, bitAt s CG_FREE_OFF (w32 (start + j)) = false)
include hclear

theorem freed_start : Freed start frags 0 s :=
  ⟨fun j hj => absurd hj (Nat.not_lt_zero j), fun j _ hj => hclear j hj⟩

variable
  (hapart : ∀ i j, i < j → j < frags → w32 (start + i) ≠ w32 (start + j))
include hapart

theorem freeBits_completes :
    Completes (freeBits sb start frags)
      (fun _ t => Freed start frags frags t) s :=
  .forM_range (fun _ hi _ h => freeBit_completes hapart hi h)
    (freed_start hclear)

theorem freeBits_needs (h : SoundAt (freeBits sb start frags) s) :
    ∀ i < frags, CG_FREE_OFF + w32 (start + i) / 8 < sb.cgSize := by
  intro i hi
  obtain ⟨t, -, hround⟩ := soundAt_forM_range
    (fun _ hi _ h => freeBit_completes hapart hi h)
    (freed_start hclear) h i hi
  exact bitSet_needs (soundAt_first hround)

end FreeBits

/-- Counts that have not changed move nothing. -/
theorem applyCgFrsumDelta_same (counts : Nat → Nat) :
    Completes (applyCgFrsumDelta sb counts counts) (fun _ t => t = s) s := by
  refine .forM_range (I := fun _ t => t = s) (fun i _ t ht => ?_) rfl
  subst ht
  refine .bind (readBe_completes _ _) ?_
  rintro v t' ⟨-, rfl⟩
  refine need_bind_completes fun _ => ?_
  rw [if_neg (not_not.mpr rfl)]
  rfl

theorem moveCylBlocks_needs {localFrag d4 d2 : Nat}
    (h : SoundAt (moveCylBlocks sb localFrag d4 d2) s) :
    sb.sectorsPerCyl ≠ 0 ∧ sb.sectorsPerTrack ≠ 0 := by
  unfold moveCylBlocks at h
  have hcyl := divBy_needs (soundAt_first h)
  rw [divBy_bind hcyl, modBy_bind hcyl] at h
  exact ⟨hcyl, modBy_needs (soundAt_first h)⟩

/-- The header that was read has the magic number. -/
theorem checkMagic_completes (hmagic : beAt s CG_MAGIC_OFF 4 = CG_MAGIC) :
    Completes (checkMagic sb) (fun _ t => t = s) s := by
  refine .bind (readBe_completes _ _) ?_
  rintro v t ⟨rfl, rfl⟩
  rw [if_neg (not_not.mpr hmagic)]
  rfl

theorem checkMagic_needs (h : SoundAt (checkMagic sb) s) :
    CG_FREE_OFF ≤ sb.cgSize :=
  readBe_needs (soundAt_first h)

/-- What `freeFragmentRun` does once the group has been read. -/
def freeRunBody (sb : Superblock) (localFrag blockFragBase frags now : Nat) :
    BufOp Unit := do
  let before ← countFreeRuns sb blockFragBase
  freeBits sb localFrag frags
  let after ← countFreeRuns sb blockFragBase
  applyCgFrsumDelta sb before after
  let free ← blockIsFree sb blockFragBase sb.fragsPerBlock
  countFreed sb blockFragBase frags free
  writeBe sb CG_TIME_OFF 4 now

theorem freeFragmentRun_needs {fragBase frags now : Nat} (hpos : 0 < frags)
    (hle : frags ≤ sb.fragsPerBlock) (hmagic : beAt s CG_MAGIC_OFF 4 = CG_MAGIC)
    (h : SoundAt (freeFragmentRun sb fragBase frags now) s) :
    sb.fragsPerGroup ≠ 0 ∧ CG_FREE_OFF ≤ sb.cgSize ∧
      SoundAt (freeRunBody sb (fragBase % sb.fragsPerGroup)
        (fragBase % sb.fragsPerGroup
          - fragBase % sb.fragsPerGroup % sb.fragsPerBlock) frags now) s := by
  unfold freeFragmentRun at h
  rw [if_neg (by omega)] at h
  have hgroup := divBy_needs (soundAt_first h)
  have hblock : sb.fragsPerBlock ≠ 0 := by omega
  rw [divBy_bind hgroup, modBy_bind hgroup, modBy_bind hblock] at h
  refine ⟨hgroup, checkMagic_needs (soundAt_first h), ?_⟩
  obtain ⟨_, t, rfl, hbody⟩ := (checkMagic_completes hmagic).soundAt h
  exact hbody

end Runs

/-! ## §5. What each part is needed for. -/

/-- A group of zeros, but for its magic number. -/
def emptyGroup : Nat → UInt8 := putBe (fun _ => 0) CG_MAGIC_OFF 4 CG_MAGIC

theorem emptyGroup_magic : beAt emptyGroup CG_MAGIC_OFF 4 = CG_MAGIC :=
  beAt_putBe_of_lt (by decide)

/-- Its fragment map is clear. -/
theorem emptyGroup_clear (x : Nat) : bitAt emptyGroup CG_FREE_OFF x = false := by
  unfold bitAt emptyGroup
  have hout : CG_MAGIC_OFF + 4 ≤ CG_FREE_OFF + x / 8 :=
    Nat.le_add_right CG_FREE_OFF (x / 8)
  rw [putBe_out (Or.inr hout)]
  exact Nat.zero_testBit _

/-- A free run of sixteen fragments at the start of the map. -/
def sixteenFree : Nat → UInt8 :=
  putBe emptyGroup CG_FREE_OFF 2 0xffff

theorem sixteenFree_magic : beAt sixteenFree CG_MAGIC_OFF 4 = CG_MAGIC := by
  rw [← emptyGroup_magic]
  exact beAt_putBe_out (by decide)

theorem sixteenFree_bits : (∀ j < 16, bitAt sixteenFree CG_FREE_OFF (w32 j) = true)
    ∧ bitAt sixteenFree CG_FREE_OFF (w32 16) = false := by
  decide +kernel

/-- Bit numbers of a short run do not meet, not even around 2^32. -/
theorem w32_apart {n : Nat} (hn : n ≤ 8) (start : Nat) :
    ∀ i j, i < j → j < n → w32 (start + i) ≠ w32 (start + j) := by
  intro i j hij hj
  unfold w32
  omega

section Needed

variable {sb : Superblock} (hcalls : CallsSafe sb)
include hcalls

theorem header_needed_inodes (hcg : 0 < sb.cgCount) :
    CG_FREE_OFF ≤ sb.cgSize := by
  have h := (hcalls (.allocateInode 0 false) hcg 0 0).soundAt emptyGroup
  exact checkMagic_needs (soundAt_first (soundAt_first h))

/-- **The inode map**: freeing the last inode of group 0 reads its bit. -/
theorem inodes_needed (hcg : 0 < sb.cgCount) (hipg : 0 < sb.inodesPerGroup)
    (hfit : sb.inodesPerGroup ≤ 2 ^ 32) :
    CG_IUSED_OFF + (sb.inodesPerGroup - 1) / 8 < sb.cgSize := by
  have hrange : sb.inodesPerGroup - 1 < 2 ^ 32 ∧
      sb.inodesPerGroup - 1 < sb.cgCount * sb.inodesPerGroup := by
    have hone := Nat.le_mul_of_pos_left sb.inodesPerGroup hcg
    omega
  have h : SoundAt (freeInodeInGroup sb (sb.inodesPerGroup - 1) false 0)
      emptyGroup :=
    (hcalls (.freeInode (sb.inodesPerGroup - 1) false) hrange 0 0).soundAt _
  unfold freeInodeInGroup at h
  rw [divBy_bind (by omega), modBy_bind (by omega),
    Nat.mod_eq_of_lt (by omega)] at h
  obtain ⟨_, t, rfl, hrest⟩ := (checkMagic_completes emptyGroup_magic).soundAt h
  exact bitSet_needs (soundAt_first hrest)

/-- A run that is freed in a group whose magic number is right. -/
theorem freeRun_needs {s : Nat → UInt8}
    (hmagic : beAt s CG_MAGIC_OFF 4 = CG_MAGIC) {fragBase frags : Nat}
    (hlt : fragBase < sb.fragCount) (hpos : 0 < frags)
    (hle : frags ≤ sb.fragsPerBlock) :
    sb.fragsPerGroup ≠ 0 ∧ CG_FREE_OFF ≤ sb.cgSize ∧
      SoundAt (freeRunBody sb (fragBase % sb.fragsPerGroup)
        (fragBase % sb.fragsPerGroup
          - fragBase % sb.fragsPerGroup % sb.fragsPerBlock) frags 0) s :=
  freeFragmentRun_needs hpos hle hmagic
    ((hcalls (.freeRun fragBase frags) hlt 0 0).soundAt s)

/-- **The run arrays.**  With more than eight fragments to a block the `memset`
overruns them, unless `frags_per_block + 1` is cut to 0: then a free run of
sixteen is counted past their end. -/
theorem block_needed (hcount : 0 < sb.fragCount) (hpos : 0 < sb.fragsPerBlock)
    (hfit : sb.fragsPerBlock < 2 ^ 32) : sb.fragsPerBlock ≤ 8 := by
  obtain ⟨-, -, hbody⟩ := freeRun_needs hcalls sixteenFree_magic hcount
    Nat.one_pos hpos
  rw [Nat.zero_mod, Nat.zero_mod] at hbody
  obtain ⟨hmemset, hloop⟩ := soundAt_need_bind.1 (soundAt_first hbody)
  by_contra hbig
  have hmax : sb.fragsPerBlock = 2 ^ 32 - 1 := by
    unfold w32 RUN_COUNTS at hmemset
    omega
  have hrun := countFreeRunsLoop_needs hpos (by decide : 0 < 16) (by omega)
    (fun j hj => by rw [Nat.zero_sub, Nat.zero_add]; exact sixteenFree_bits.1 j hj)
    (by rw [Nat.zero_sub, Nat.zero_add]; exact sixteenFree_bits.2) hloop
  exact absurd hrun (by decide)

/-- **The fragment map**: freeing a block's worth from the last fragment sets
every bit up to `lastBit`. -/
theorem bitmap_needed (hcount : 0 < sb.fragCount) (hpos : 0 < sb.fragsPerBlock)
    (hblock : sb.fragsPerBlock ≤ 8) (hfit : sb.fragCount < 2 ^ 32) :
    CG_FREE_OFF + lastBit sb / 8 < sb.cgSize := by
  obtain ⟨hgroup, -, -⟩ := freeRun_needs hcalls emptyGroup_magic hcount
    Nat.one_pos hpos
  have hlocal : lastLocal sb < sb.fragCount ∧ lastLocal sb < sb.fragsPerGroup := by
    unfold lastLocal
    omega
  obtain ⟨-, -, hbody⟩ := freeRun_needs hcalls emptyGroup_magic hlocal.1 hpos le_rfl
  rw [Nat.mod_eq_of_lt hlocal.2] at hbody
  obtain ⟨_, t, ⟨-, rfl⟩, hrest⟩ := (countFreeRuns_alike
    fun j _ => emptyGroup_clear _).soundAt hbody
  have hbits := freeBits_needs (fun j _ => emptyGroup_clear _)
    (w32_apart hblock (lastLocal sb)) (soundAt_first hrest)
  -- the run ends at the last bit, or goes past the last 32-bit number
  by_cases hwrap : lastLocal sb + sb.fragsPerBlock - 1 < 2 ^ 32
  · have hlast := hbits (sb.fragsPerBlock - 1) (by omega)
    have hbit : w32 (lastLocal sb + (sb.fragsPerBlock - 1)) = lastBit sb := by
      unfold w32 lastBit
      omega
    rwa [hbit] at hlast
  · have hlast := hbits (2 ^ 32 - 1 - lastLocal sb) (by omega)
    have hbit : w32 (lastLocal sb + (2 ^ 32 - 1 - lastLocal sb)) = lastBit sb := by
      unfold w32 lastBit
      omega
    rwa [hbit] at hlast

/-- **The cylinder divisors**: freeing the first block makes it wholly free. -/
theorem cylinders_needed (hcount : 0 < sb.fragCount)
    (hpos : 0 < sb.fragsPerBlock) (hblock : sb.fragsPerBlock ≤ 8) :
    sb.sectorsPerCyl ≠ 0 ∧ sb.sectorsPerTrack ≠ 0 := by
  obtain ⟨-, -, hbody⟩ := freeRun_needs hcalls emptyGroup_magic hcount hpos le_rfl
  rw [Nat.zero_mod, Nat.zero_mod, Nat.sub_zero] at hbody
  obtain ⟨before, t₁, ⟨rfl, rfl⟩, h₁⟩ := (countFreeRuns_alike
    fun j _ => emptyGroup_clear _).soundAt hbody
  obtain ⟨_, freed, ⟨hset, -⟩, h₂⟩ := (freeBits_completes
    (fun j _ => emptyGroup_clear _) (w32_apart hblock 0)).soundAt h₁
  obtain ⟨after, t₃, ⟨rfl, rfl⟩, h₃⟩ := (countFreeRuns_alike hset).soundAt h₂
  obtain ⟨_, t₄, rfl, h₄⟩ := (applyCgFrsumDelta_same _).soundAt h₃
  have hwhole : Completes (blockIsFree sb 0 sb.fragsPerBlock)
      (fun b t => b = true ∧ t = t₄) t₄ :=
    allSet_full _ _ fun j _ hj => hset j (by omega)
  obtain ⟨free, t₅, ⟨rfl, rfl⟩, h₅⟩ := hwhole.soundAt h₄
  have h₆ := soundAt_first h₅
  unfold countFreed at h₆
  rw [if_pos rfl] at h₆
  obtain ⟨_, t₇, -, h₇⟩ := (addBe_completes _ _ _).soundAt h₆
  obtain ⟨_, t₈, -, h₈⟩ := (addBe_completes _ _ _).soundAt h₇
  exact moveCylBlocks_needs h₈

/-- **Safe calls need a safe geometry.** -/
theorem safeGeometry_of_calls (hblock : sb.fragsPerBlock < 2 ^ 32)
    (hfrags : sb.fragCount < 2 ^ 32) (hinodes : sb.inodesPerGroup < 2 ^ 32) :
    SafeGeometry sb where
  header hor := by
    rcases hor with hcg | ⟨hcount, hpos⟩
    · exact header_needed_inodes hcalls hcg
    · exact (freeRun_needs hcalls emptyGroup_magic hcount Nat.one_pos hpos).2.1
  inodes hcg hipg := inodes_needed hcalls hcg hipg hinodes.le
  frags hcount hpos := by
    have height := block_needed hcalls hcount hpos hblock
    obtain ⟨hcyl, htrack⟩ := cylinders_needed hcalls hcount hpos height
    obtain ⟨hgroup, -, -⟩ := freeRun_needs hcalls emptyGroup_magic hcount
      Nat.one_pos hpos
    exact ⟨Nat.pos_of_ne_zero hgroup, height, hcyl, htrack,
      bitmap_needed hcalls hcount hpos height hfrags⟩

end Needed

/-- **The geometry is safe exactly when every call is.** -/
theorem callsSafe_iff {sb : Superblock} (hblock : sb.fragsPerBlock < 2 ^ 32)
    (hfrags : sb.fragCount < 2 ^ 32) (hinodes : sb.inodesPerGroup < 2 ^ 32) :
    CallsSafe sb ↔ SafeGeometry sb :=
  ⟨fun h => safeGeometry_of_calls h hblock hfrags hinodes,
    fun h => h.callsSafe hblock⟩

/-! ## §6. Images that are opened. -/

open Label Host Format

/-- The superblock of an open image was decoded from bytes. -/
theorem openFile_superblock {parents : List Vdi.Backend} {f : ByteFile}
    {opened : OpenImage} (h : openFile parents f = .ok opened) :
    ∃ sbuf, decodeSuperblock sbuf = opened.sb := by
  unfold openFile at h
  cases hinit : Vdi.initBackend f with
  | error e =>
    rw [hinit] at h
    cases h
  | ok backend =>
    rw [hinit] at h
    cases backend with
    | none =>
      obtain ⟨sbuf, -, -, hsb⟩ := openWithMode_superblock h
      exact ⟨sbuf, hsb⟩
    | some v =>
      obtain ⟨sbuf, -, -, hsb⟩ := openWithMode_superblock h
      exact ⟨sbuf, hsb⟩

/-- **What the opener accepts is safe exactly when its geometry is.** -/
theorem opened_callsSafe_iff (parents : List Vdi.Backend) (f : ByteFile)
    (opened : OpenImage) (h : openFile parents f = .ok opened) :
    CallsSafe opened.sb ↔ SafeGeometry opened.sb := by
  obtain ⟨sbuf, hsb⟩ := openFile_superblock h
  rw [← hsb]
  exact callsSafe_iff (beAt_lt sbuf 0x38 4) (beAt_lt sbuf 0x24 4)
    (beAt_lt sbuf 0xb8 4)

/-- An image that is its superblock. -/
def superImage (fs : Fs) : ByteFile where
  size := 0x4000
  byte i := if i < UFS_SBLOCK_OFFSET then 0
    else superblockBytes fs (fun _ => 0) (i - UFS_SBLOCK_OFFSET)

theorem superImage_quiet (fs : Fs) : Quiet (superImage fs) := by
  intro i hi
  change (if i < UFS_SBLOCK_OFFSET then (0 : UInt8) else _) = 0
  by_cases hboot : i < UFS_SBLOCK_OFFSET
  · rw [if_pos hboot]
  · rw [if_neg hboot]
    apply superblockBytes_quiet
    unfold DEV_SECTOR_SIZE UFS_SBLOCK_OFFSET at *
    omega

/-- It is opened with the superblock that stands in it. -/
theorem superImage_opens {fs : Fs} (haccept : superblockAccepted
      (areaAt (superImage fs) UFS_SBLOCK_OFFSET) = true) :
    ∃ opened, openFile [] (superImage fs) = .ok opened ∧
      opened.sb = decodeSuperblock (areaAt (superImage fs) UFS_SBLOCK_OFFSET) := by
  have hquiet := superImage_quiet fs
  obtain ⟨opened, hopen, hbase⟩ := opens_at_zero hquiet.raw hquiet.noLabel []
    (by decide : UFS_SBLOCK_OFFSET + SUPER_READ_SIZE ≤ 0x4000) haccept
  refine ⟨opened, hopen, ?_⟩
  have hraw : openWithMode (rawBacking (superImage fs)) = .ok opened := by
    have hinit : Vdi.initBackend (superImage fs) = .ok none :=
      initBackend_raw (by decide : 512 ≤ 0x4000) hquiet.raw
    rw [← hopen]
    unfold openFile
    rw [hinit]
  obtain ⟨sbuf, hread, -, hsb⟩ := openWithMode_superblock hraw
  rw [hbase] at hread
  have hread' : (.ok (areaAt (superImage fs) UFS_SBLOCK_OFFSET) :
      Except Errno (Nat → UInt8)) = .ok sbuf := by
    rw [← hread]
    rfl
  rw [← hsb]
  cases hread'
  rfl

/-- A superblock as the formatter writes it is safe. -/
theorem opened_callsSafe_megabyte :
    ∃ opened, openFile [] (superImage megabyteFs) = .ok opened ∧
      CallsSafe opened.sb := by
  obtain ⟨opened, hopen, hsb⟩ := @superImage_opens megabyteFs
    (by decide +kernel)
  refine ⟨opened, hopen, (opened_callsSafe_iff [] _ opened hopen).2 ?_⟩
  rw [hsb]
  refine ⟨?_, ?_, fun _ _ => ⟨?_, ?_, ?_, ?_, ?_⟩⟩
  all_goals decide +kernel

/-- **No fragments per group**: the image is opened, and freeing fragment 0
divides by zero. -/
theorem opened_callsSafe_not : ¬∀ (parents : List Vdi.Backend) (f : ByteFile)
    (opened : OpenImage), openFile parents f = .ok opened →
      CallsSafe opened.sb := by
  intro hall
  obtain ⟨opened, hopen, hsb⟩ := @superImage_opens
    { megabyteFs with fpg := 0 } (by decide +kernel)
  have hcalls := hall [] _ opened hopen
  rw [hsb] at hcalls
  obtain ⟨hgroup, -, -⟩ := freeRun_needs hcalls emptyGroup_magic
    (by decide +kernel : 0 < _) Nat.one_pos (by decide +kernel)
  exact hgroup (by decide +kernel)

end NextUfs.Bounds
