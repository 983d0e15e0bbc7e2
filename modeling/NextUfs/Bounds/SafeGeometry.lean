/-
  NextUfs.Bounds.SafeGeometry
  ───────────────────────────
  **WHICH GEOMETRIES ARE SAFE.**

  The opener accepts any superblock with the magic number and two sizes that
  are not zero.  Whether the allocator then stays inside its buffers is decided
  by other fields, which nothing checks.  The condition is

    • `SafeGeometry` — the group's header and bitmaps lie in its buffer, a block
      has at most eight fragments, and no divisor is zero,

  each part only where there is a call that comes to it.  This file shows that
  it is enough:

    • `safe_allocateInodeInGroup`, `safe_freeInodeInGroup` — inodes,
    • `safe_allocateFragsInGroup`  — through both loops, whose counters are
      32-bit sums,
    • `safe_extendFragmentRun`, `safe_freeFragmentRun` — runs,
    • `SafeGeometry.callsSafe`     — every call, on every group.
-/
import NextUfs.Bounds.GroupBuffer

namespace NextUfs.Bounds

open Checked Fields State

/-! ## §1. The condition. -/

/-- The last fragment of a group that has a number below `frag_count`. -/
def lastLocal (sb : Superblock) : Nat := min sb.fragCount sb.fragsPerGroup - 1

/-- The last bit of the fragment map a run from there can reach. -/
def lastBit (sb : Superblock) : Nat :=
  min (lastLocal sb + sb.fragsPerBlock - 1) (2 ^ 32 - 1)

/-- What the calls on fragments rest on. -/
structure FragGeometry (sb : Superblock) : Prop where
  group_pos : 0 < sb.fragsPerGroup
  block_le : sb.fragsPerBlock ≤ 8
  cyl : sb.sectorsPerCyl ≠ 0
  track : sb.sectorsPerTrack ≠ 0
  bitmap : CG_FREE_OFF + lastBit sb / 8 < sb.cgSize

/-- **What the allocator needs of a superblock.**  There are calls on a group
if there are groups, and calls on a run if there are fragments and a block is
not empty. -/
structure SafeGeometry (sb : Superblock) : Prop where
  header : 0 < sb.cgCount ∨ (0 < sb.fragCount ∧ 0 < sb.fragsPerBlock) →
    CG_FREE_OFF ≤ sb.cgSize
  inodes : 0 < sb.cgCount → 0 < sb.inodesPerGroup →
    CG_IUSED_OFF + (sb.inodesPerGroup - 1) / 8 < sb.cgSize
  frags : 0 < sb.fragCount → 0 < sb.fragsPerBlock → FragGeometry sb

/-! ## §2. The calls. -/

/-- A call of the allocator, on the group it reads. -/
inductive Call where
  | allocateInode (cg : Nat) (isDir : Bool)
  | freeInode (inodeNo : Nat) (isDir : Bool)
  | allocateFrags (cg needed : Nat)
  | extendRun (fragBase oldFrags newFrags : Nat)
  | freeRun (fragBase frags : Nat)

/-- The call's numbers are below the superblock's counts. -/
def Call.InRange (sb : Superblock) : Call → Prop
  | .allocateInode cg _ => cg < sb.cgCount
  | .freeInode inodeNo _ =>
    inodeNo < 2 ^ 32 ∧ inodeNo < sb.cgCount * sb.inodesPerGroup
  | .allocateFrags cg _ => cg < sb.cgCount
  | .extendRun fragBase _ _ => fragBase < sb.fragCount
  | .freeRun fragBase _ => fragBase < sb.fragCount

/-- What the call does to the buffer. -/
def Call.run (sb : Superblock) (fuel now : Nat) : Call → BufOp Unit
  | .allocateInode _ isDir => do
    let _ ← allocateInodeInGroup sb isDir now
    pure ()
  | .freeInode inodeNo isDir => freeInodeInGroup sb inodeNo isDir now
  | .allocateFrags cg needed => do
    let _ ← allocateFragsInGroup sb fuel cg needed now
    pure ()
  | .extendRun fragBase oldFrags newFrags =>
    extendFragmentRun sb fragBase oldFrags newFrags now
  | .freeRun fragBase frags => freeFragmentRun sb fragBase frags now

/-- **No call, on no group, comes to a fault.** -/
def CallsSafe (sb : Superblock) : Prop :=
  ∀ c : Call, c.InRange sb → ∀ fuel now, Safe (c.run sb fuel now)

/-! ## §3. Accesses that are safe. -/

section Accesses

variable {sb : Superblock} {off n bit map : Nat}

theorem safe_readByte {i : Nat} (h : i < sb.cgSize) : Safe (readByte sb i) :=
  .bind (.need h) fun _ => .bind .get fun _ => .pure _

theorem safe_writeByte {i : Nat} (h : i < sb.cgSize) (b : UInt8) :
    Safe (writeByte sb i b) :=
  .bind (.need h) fun _ => .modify _

theorem safe_readBe (h : off + n ≤ sb.cgSize) : Safe (readBe sb off n) :=
  .bind (.need h) fun _ => .bind .get fun _ => .pure _

theorem safe_writeBe (h : off + n ≤ sb.cgSize) (v : Nat) :
    Safe (writeBe sb off n v) :=
  .bind (.need h) fun _ => .modify _

theorem safe_addBe (h : off + n ≤ sb.cgSize) (d : Nat) : Safe (addBe sb off n d) :=
  .bind (safe_readBe h) fun _ => safe_writeBe h _

theorem safe_bitSet (h : map + bit / 8 < sb.cgSize) : Safe (bitSet sb map bit) :=
  .bind (safe_readByte h) fun _ => .pure _

theorem safe_setBit (h : map + bit / 8 < sb.cgSize) : Safe (setBit sb map bit) :=
  .bind (safe_readByte h) fun _ => safe_writeByte h _

theorem safe_clearBit (h : map + bit / 8 < sb.cgSize) :
    Safe (clearBit sb map bit) :=
  .bind (safe_readByte h) fun _ => safe_writeByte h _

end Accesses

section Header

variable {sb : Superblock} (hsize : CG_FREE_OFF ≤ sb.cgSize)

include hsize

/-- A field of the header. -/
theorem header_in {off n : Nat} (h : off + n ≤ CG_FREE_OFF) : off + n ≤ sb.cgSize :=
  Nat.le_trans h hsize

theorem safe_checkMagic : Safe (checkMagic sb) :=
  .bind (safe_readBe (header_in hsize (by decide))) fun _ =>
    .ite (fun _ => .error _) fun _ => .pure ()

theorem safe_addDirs (isDir : Bool) (d : Nat) : Safe (addDirs sb isDir d) :=
  .ite (fun _ => safe_addBe (header_in hsize (by decide)) d) fun _ => .pure ()

/-- The cylinder counts lie in the header. -/
theorem safe_moveCylBlocks (hcyl : sb.sectorsPerCyl ≠ 0)
    (htrack : sb.sectorsPerTrack ≠ 0) (localFrag d4 d2 : Nat) :
    Safe (moveCylBlocks sb localFrag d4 d2) := by
  unfold moveCylBlocks
  refine .bind (.divBy _ hcyl) fun cylno => .bind (.modBy _ hcyl) fun _ =>
    .bind (.modBy _ htrack) fun _ => .bind (.divBy _ htrack) fun rotpos =>
      .ite (fun hroom => ?_) fun _ => .pure ()
  unfold NRPOS at hroom
  refine .bind (safe_addBe (header_in hsize ?_) d4) fun _ =>
    safe_addBe (header_in hsize ?_) d2
  · unfold CG_BTOT_OFF CG_FREE_OFF
    omega
  · unfold CG_BPOS_OFF CG_FREE_OFF NRPOS
    omega

/-- The counts of runs shorter than a block of eight lie in the header. -/
theorem safe_applyCgFrsumDelta (hblock : sb.fragsPerBlock ≤ 8)
    (before after : Nat → Nat) : Safe (applyCgFrsumDelta sb before after) := by
  refine .forM _ fun k hk => ?_
  have hlt := List.mem_range.1 hk
  have hoff : w32 (CG_FRSUM_OFF + (k + 1) * 4) + 4 ≤ sb.cgSize := by
    apply header_in hsize
    unfold w32 CG_FRSUM_OFF CG_FREE_OFF
    omega
  refine .bind (safe_readBe hoff) fun _ => .bind (.need ?_) fun _ =>
    .ite (fun _ => safe_writeBe hoff _) fun _ => .pure ()
  unfold RUN_COUNTS
  omega

theorem safe_addFrsum {freeFrags : Nat} (h : freeFrags ≤ 8) :
    Safe (addFrsum sb freeFrags) := by
  refine .ite (fun _ => safe_addBe (header_in hsize ?_) 1) fun _ => .pure ()
  unfold w32 CG_FRSUM_OFF CG_FREE_OFF
  omega

/-! ## §4. Inodes. -/

omit hsize in
/-- The inode map lies in the buffer. -/
theorem safe_claimInode
    (hmap : CG_IUSED_OFF + (sb.inodesPerGroup - 1) / 8 < sb.cgSize)
    (hpos : 0 < sb.inodesPerGroup) (start : Nat) :
    ∀ left i, Safe (claimInode sb start left i) := by
  intro left
  induction left with
  | zero => exact fun i => .pure none
  | succ left ih =>
    intro i
    have hne : sb.inodesPerGroup ≠ 0 := by omega
    have hbit : CG_IUSED_OFF + w32 (start + i) % sb.inodesPerGroup / 8 <
        sb.cgSize := by
      have hlt := Nat.mod_lt (w32 (start + i)) hpos
      omega
    unfold claimInode
    rw [modBy_bind hne]
    exact .bind (safe_bitSet hbit) fun _ => .ite (fun _ => ih (i + 1)) fun _ =>
      .bind (safe_setBit hbit) fun _ => .pure _

theorem safe_allocateInodeInGroup
    (hmap : 0 < sb.inodesPerGroup →
      CG_IUSED_OFF + (sb.inodesPerGroup - 1) / 8 < sb.cgSize)
    (isDir : Bool) (now : Nat) : Safe (allocateInodeInGroup sb isDir now) := by
  have hclaim : ∀ start, Safe (claimInode sb start sb.inodesPerGroup 0) := by
    intro start
    rcases Nat.eq_zero_or_pos sb.inodesPerGroup with h0 | hpos
    · rw [h0]
      exact .pure none
    · exact safe_claimInode (hmap hpos) hpos start _ _
  refine .bind (safe_checkMagic hsize) fun _ =>
    .bind (safe_readBe (header_in hsize (by decide))) fun nifree =>
      .ite (fun _ => .error _) fun _ =>
        .bind (safe_readBe (header_in hsize (by decide))) fun irotor =>
          .bind (hclaim _) fun found => ?_
  cases found with
  | none => exact .error _
  | some ipref =>
    exact .bind (safe_writeBe (header_in hsize (by decide)) _) fun _ =>
      .bind (safe_addBe (header_in hsize (by decide)) _) fun _ =>
        .bind (safe_writeBe (header_in hsize (by decide)) _) fun _ =>
          .bind (safe_addDirs hsize isDir 1) fun _ => .pure _

theorem safe_freeInodeInGroup
    (hmap : CG_IUSED_OFF + (sb.inodesPerGroup - 1) / 8 < sb.cgSize)
    (hpos : 0 < sb.inodesPerGroup) (inodeNo : Nat) (isDir : Bool) (now : Nat) :
    Safe (freeInodeInGroup sb inodeNo isDir now) := by
  have hne : sb.inodesPerGroup ≠ 0 := by omega
  have hbit : CG_IUSED_OFF + inodeNo % sb.inodesPerGroup / 8 < sb.cgSize := by
    have hlt := Nat.mod_lt inodeNo hpos
    omega
  unfold freeInodeInGroup
  rw [divBy_bind hne, modBy_bind hne]
  exact .bind (safe_checkMagic hsize) fun _ => .bind (safe_bitSet hbit) fun used =>
    .ite (fun _ => .error _) fun _ => .bind (safe_clearBit hbit) fun _ =>
      .bind (safe_addBe (header_in hsize (by decide)) _) fun _ =>
        .bind (safe_writeBe (header_in hsize (by decide)) _) fun _ =>
          safe_addDirs hsize isDir _

end Header

/-! ## §5. The fragment map. -/

/-- A bit number, as the functions compute it, lies in the buffer. -/
def InMap (sb : Superblock) (x : Nat) : Prop := CG_FREE_OFF + w32 x / 8 < sb.cgSize

section Map

variable {sb : Superblock} {base n : Nat}

theorem InMap.lt {x : Nat} (h : InMap sb x) : CG_FREE_OFF + w32 x / 8 < sb.cgSize := h

theorem safe_allSet : ∀ (n i : Nat), (∀ j, i ≤ j → j < i + n → InMap sb (base + j)) →
    Safe (allSet sb base n i) := by
  intro n
  induction n with
  | zero => exact fun i _ => .pure true
  | succ n ih =>
    intro i h
    exact .bind (safe_bitSet (h i (Nat.le_refl i) (by omega)).lt) fun _ =>
      .ite (fun _ => ih (i + 1) fun j hlo hhi => h j (by omega) (by omega))
        fun _ => .pure false

/-- The run is tested bit by bit. -/
theorem safe_setRunBits (h : ∀ j < n, InMap sb (base + j)) :
    Safe (setRunBits sb base n) :=
  safe_allSet n 0 fun j _ hj => h j (by omega)

theorem safe_blockIsFree (h : ∀ j < n, InMap sb (base + j)) :
    Safe (blockIsFree sb base n) :=
  safe_allSet n 0 fun j _ hj => h j (by omega)

theorem safe_clearBlockBits (h : ∀ j < n, InMap sb (base + j)) :
    Safe (clearBlockBits sb base n) :=
  .forM _ fun j hj => safe_clearBit (h j (List.mem_range.1 hj)).lt

theorem safe_freeBits (h : ∀ j < n, InMap sb (base + j)) :
    Safe (freeBits sb base n) :=
  .forM _ fun j hj => .bind (safe_bitSet (h j (List.mem_range.1 hj)).lt) fun _ =>
    .ite (fun _ => .error _) fun _ => safe_setBit (h j (List.mem_range.1 hj)).lt

theorem safe_runLength : ∀ (left run : Nat),
    (∀ j, run ≤ j → j < run + left → InMap sb (base + j)) →
    Safe (runLength sb base left run) := by
  intro left
  induction left with
  | zero => exact fun run _ => .pure run
  | succ left ih =>
    intro run h
    exact .bind (safe_bitSet (h run (Nat.le_refl run) (by omega)).lt) fun _ =>
      .ite (fun _ => ih (run + 1) fun j hlo hhi => h j (by omega) (by omega))
        fun _ => .pure run

variable (hblock : sb.fragsPerBlock ≤ 8)
variable (hin : ∀ j < sb.fragsPerBlock, InMap sb (base + j))

include hblock

theorem safe_countRun (counts : Nat → Nat) (run : Nat) :
    Safe (countRun sb counts run) := by
  refine .ite (fun hrun => .bind (.need ?_) fun _ => .pure _) fun _ => .pure _
  unfold RUN_COUNTS
  omega

include hin

theorem safe_countFreeRunsLoop : ∀ (rounds i : Nat) (counts : Nat → Nat),
    Safe (countFreeRunsLoop sb base rounds i counts) := by
  intro rounds
  induction rounds with
  | zero => exact fun i counts => .pure counts
  | succ rounds ih =>
    intro i counts
    refine .ite (fun hi => .bind (safe_runLength _ 0 fun j _ hj => ?_) fun run =>
      .bind (safe_countRun hblock counts run) fun _ => ih _ _) fun _ => .pure counts
    rw [Nat.add_assoc]
    exact hin (i + j) (by omega)

/-- A block of at most eight fragments has room for its counts. -/
theorem safe_countFreeRuns : Safe (countFreeRuns sb base) := by
  refine .bind (.need ?_) fun _ => safe_countFreeRunsLoop hblock hin _ _ _
  unfold w32 RUN_COUNTS
  omega

end Map

/-! ## §6. Runs of fragments. -/

section Fragments

variable {sb : Superblock}

/-- **The bits a call can come to.**  Either the whole range of a 32-bit number
lies in the buffer, or no sum that is formed is cut. -/
theorem FragGeometry.reach (h : FragGeometry sb) :
    (∀ x, InMap sb x) ∨ (lastLocal sb + sb.fragsPerBlock - 1 < 2 ^ 32 - 8
      ∧ ∀ x ≤ lastLocal sb + sb.fragsPerBlock - 1, InMap sb x) := by
  have hmap := h.bitmap
  unfold lastBit at hmap
  unfold InMap w32
  by_cases hwide : 2 ^ 32 - 8 ≤ lastLocal sb + sb.fragsPerBlock - 1
  · left
    intro x
    omega
  · right
    refine ⟨by omega, fun x hx => ?_⟩
    omega

theorem FragGeometry.inMap (h : FragGeometry sb) {x : Nat}
    (hx : x ≤ lastLocal sb + sb.fragsPerBlock - 1) : InMap sb x := by
  rcases h.reach with hwide | ⟨-, hnarrow⟩
  · exact hwide x
  · exact hnarrow x hx

/-- A fragment below `frag_count` has a place in its group. -/
theorem local_le {fragBase : Nat} (hlt : fragBase < sb.fragCount)
    (hpos : 0 < sb.fragsPerGroup) :
    fragBase % sb.fragsPerGroup ≤ lastLocal sb := by
  have hmod := Nat.mod_lt fragBase hpos
  have hle := Nat.mod_le fragBase sb.fragsPerGroup
  unfold lastLocal
  omega

/-- The counter of a loop over the fragments below `limit`. -/
def Below (sb : Superblock) (limit start : Nat) : Prop :=
  (∀ x, InMap sb x) ∨ (limit + sb.fragsPerBlock < 2 ^ 32
    ∧ (∀ x < limit, InMap sb x) ∧ start ≤ limit)

/-- A run that ends below the limit, as far as 32 bits show. -/
theorem Below.run {limit start n : Nat} (h : Below sb limit start)
    (hn : n ≤ sb.fragsPerBlock) (hend : w32 (start + n) ≤ limit) :
    (∀ j < n, InMap sb (start + j)) ∧
      ∀ m ≤ n, Below sb limit (w32 (start + m)) := by
  rcases h with hwide | ⟨hsum, hmap, hstart⟩
  · exact ⟨fun j _ => hwide _, fun m _ => Or.inl hwide⟩
  · have hexact : ∀ m ≤ n, w32 (start + m) = start + m := fun m hm =>
      Nat.mod_eq_of_lt (by omega)
    rw [hexact n (Nat.le_refl n)] at hend
    refine ⟨fun j hj => hmap _ (by omega), fun m hm => Or.inr ⟨hsum, hmap, ?_⟩⟩
    rw [hexact m hm]
    omega

/-- A limit the group's check lets through. -/
theorem FragGeometry.below (h : FragGeometry sb) {limit : Nat}
    (hlimit : limit ≤ lastLocal sb + 1) (hpos : 0 < sb.fragsPerBlock) {start : Nat}
    (hstart : start ≤ limit) : Below sb limit start := by
  rcases h.reach with hwide | ⟨hsum, hmap⟩
  · exact Or.inl hwide
  · exact Or.inr ⟨by omega, fun x hx => hmap x (by omega), hstart⟩

variable (hsize : CG_FREE_OFF ≤ sb.cgSize) (hg : FragGeometry sb)

include hsize hg

/-- What the two calls on a run have in common once its bits are in order. -/
theorem safe_takeRun {needed localFrag start : Nat} (now : Nat)
    (hlocal : localFrag ≤ lastLocal sb)
    (hrun : ∀ j < needed, InMap sb (start + j)) :
    Safe (takeRun sb needed localFrag start now) := by
  have hcount : Safe (countFreeRuns sb localFrag) :=
    safe_countFreeRuns hg.block_le fun j hj => hg.inMap (by omega)
  exact .bind hcount fun _ => .bind (safe_clearBlockBits hrun) fun _ =>
    .bind hcount fun _ => .bind (safe_applyCgFrsumDelta hsize hg.block_le _ _)
      fun _ => .bind (safe_addBe (header_in hsize (by decide)) _) fun _ =>
        safe_writeBe (header_in hsize (by decide)) _

omit hsize hg in
/-- **The search of one block** gives a run inside the map. -/
theorem yields_findRun {needed limit last : Nat} (hneeded : 0 < needed)
    (hblock : needed ≤ sb.fragsPerBlock) (hlast : last ≤ limit) :
    ∀ rounds start, Below sb limit start →
      Yields (fun found => ∀ run, found = some run →
        ∀ j < needed, InMap sb (run + j)) (findRun sb needed last rounds start) := by
  intro rounds
  induction rounds with
  | zero => exact fun start _ => .unfinished
  | succ rounds ih =>
    intro start hbelow
    refine .ite (fun hend => ?_) fun _ => .pure (by rintro run ⟨⟩)
    obtain ⟨hbits, hnext⟩ := hbelow.run hblock (Nat.le_trans hend hlast)
    refine .bind (safe_setRunBits hbits) fun free => .ite (fun _ => .pure ?_)
      fun _ => ih _ (hnext 1 hneeded)
    rintro run ⟨⟩
    exact hbits

theorem safe_allocatePartial {needed limit : Nat} (now fuel : Nat)
    (hneeded : 0 < needed) (hblock : needed ≤ sb.fragsPerBlock)
    (hlimit : limit ≤ lastLocal sb + 1) :
    ∀ rounds localFrag,
      Safe (allocatePartial sb needed limit now fuel rounds localFrag) := by
  intro rounds
  induction rounds with
  | zero => exact fun localFrag => .unfinished
  | succ rounds ih =>
    intro localFrag
    refine .ite (fun hlocal => ?_) fun _ => .pure none
    have hwhole : ∀ last, Safe (isWhole sb localFrag last) := fun last =>
      .ite (fun _ => safe_blockIsFree fun j hj => hg.inMap (by omega))
        fun _ => .pure false
    have hsearch : Yields (fun found => ∀ run, found = some run →
        ∀ j < needed, InMap sb (run + j))
        (searchBlock sb needed limit fuel localFrag) := by
      refine .bind (hwhole _) fun whole => .ite (fun _ => .pure (by rintro run ⟨⟩))
        fun _ => yields_findRun hneeded hblock ?_ _ _
          (hg.below hlimit (by omega) (Nat.le_of_lt hlocal))
      split <;> omega
    refine hsearch.safe_bind fun found hfound => ?_
    cases found with
    | none => exact ih _
    | some start =>
      exact .bind (safe_takeRun hsize hg now (by omega) (hfound start rfl))
        fun _ => .pure _

theorem safe_splitBlock {needed localFrag : Nat} (now : Nat)
    (hbits : ∀ j < needed, InMap sb (localFrag + j)) :
    Safe (splitBlock sb needed localFrag now) :=
  .bind (safe_clearBlockBits hbits) fun _ =>
    .bind (safe_writeBe (header_in hsize (by decide)) _) fun _ =>
      .bind (safe_addBe (header_in hsize (by decide)) _) fun _ =>
        .bind (safe_addBe (header_in hsize (by decide)) _) fun _ =>
          .bind (safe_addFrsum hsize (by have := hg.block_le; omega)) fun _ =>
            .bind (safe_writeBe (header_in hsize (by decide)) _) fun _ =>
              safe_moveCylBlocks hsize hg.cyl hg.track _ _ _

theorem safe_allocateWhole {needed limit : Nat} (now : Nat)
    (hblock : needed ≤ sb.fragsPerBlock) :
    ∀ rounds localFrag, Below sb limit localFrag →
      Safe (allocateWhole sb needed limit now rounds localFrag) := by
  intro rounds
  induction rounds with
  | zero => exact fun localFrag _ => .unfinished
  | succ rounds ih =>
    intro localFrag hbelow
    refine .ite (fun hend => ?_) fun _ => .error _
    obtain ⟨hbits, hnext⟩ := hbelow.run (Nat.le_refl _) hend
    exact .bind (safe_blockIsFree hbits) fun free => .ite
      (fun _ => .bind (safe_splitBlock hsize hg now fun j hj =>
        hbits j (Nat.lt_of_lt_of_le hj hblock)) fun _ => .pure _)
      fun _ => ih _ (hnext _ (Nat.le_refl _))

theorem safe_extendFragmentRun {fragBase : Nat} (hlt : fragBase < sb.fragCount)
    (oldFrags newFrags now : Nat) :
    Safe (extendFragmentRun sb fragBase oldFrags newFrags now) := by
  have hgroup : sb.fragsPerGroup ≠ 0 := by have := hg.group_pos; omega
  have hlocal := local_le hlt hg.group_pos
  refine .ite (fun _ => .error _) fun hlen => ?_
  have hblock : sb.fragsPerBlock ≠ 0 := by omega
  rw [divBy_bind hgroup, modBy_bind hgroup, modBy_bind hblock]
  have hbits : ∀ j < newFrags - oldFrags,
      InMap sb (w32 (fragBase % sb.fragsPerGroup + oldFrags) + j) := by
    intro j hj
    have hcut : w32 (w32 (fragBase % sb.fragsPerGroup + oldFrags) + j) =
        w32 (fragBase % sb.fragsPerGroup + (oldFrags + j)) := by
      unfold w32
      omega
    have hin : InMap sb (fragBase % sb.fragsPerGroup + (oldFrags + j)) :=
      hg.inMap (by omega)
    unfold InMap at hin ⊢
    rwa [hcut]
  have hcount : Safe (countFreeRuns sb (fragBase % sb.fragsPerGroup
      - fragBase % sb.fragsPerGroup % sb.fragsPerBlock)) :=
    safe_countFreeRuns hg.block_le fun j hj => hg.inMap (by omega)
  exact .ite (fun _ => .error _) fun _ => .bind (safe_checkMagic hsize) fun _ =>
    .bind (safe_setRunBits hbits) fun free => .ite (fun _ => .error _) fun _ =>
      .bind hcount fun _ => .bind (safe_clearBlockBits hbits) fun _ =>
        .bind hcount fun _ => .bind (safe_applyCgFrsumDelta hsize hg.block_le _ _)
          fun _ => .bind (safe_addBe (header_in hsize (by decide)) _) fun _ =>
            safe_writeBe (header_in hsize (by decide)) _

theorem safe_freeFragmentRun {fragBase : Nat} (hlt : fragBase < sb.fragCount)
    (frags now : Nat) : Safe (freeFragmentRun sb fragBase frags now) := by
  have hgroup : sb.fragsPerGroup ≠ 0 := by have := hg.group_pos; omega
  have hlocal := local_le hlt hg.group_pos
  refine .ite (fun _ => .error _) fun hlen => ?_
  have hblock : sb.fragsPerBlock ≠ 0 := by omega
  rw [divBy_bind hgroup, modBy_bind hgroup, modBy_bind hblock]
  have hbits : ∀ j < frags, InMap sb (fragBase % sb.fragsPerGroup + j) :=
    fun j hj => hg.inMap (by omega)
  have hin : ∀ j < sb.fragsPerBlock, InMap sb (fragBase % sb.fragsPerGroup
      - fragBase % sb.fragsPerGroup % sb.fragsPerBlock + j) :=
    fun j hj => hg.inMap (by omega)
  have hcount := safe_countFreeRuns hg.block_le hin
  have hfreed : ∀ free, Safe (countFreed sb (fragBase % sb.fragsPerGroup
      - fragBase % sb.fragsPerGroup % sb.fragsPerBlock) frags free) := fun free =>
    .ite (fun _ => .bind (safe_addBe (header_in hsize (by decide)) _) fun _ =>
      .bind (safe_addBe (header_in hsize (by decide)) _) fun _ =>
        safe_moveCylBlocks hsize hg.cyl hg.track _ _ _)
      fun _ => safe_addBe (header_in hsize (by decide)) _
  exact .bind (safe_checkMagic hsize) fun _ => .bind hcount fun _ =>
    .bind (safe_freeBits hbits) fun _ => .bind hcount fun _ =>
      .bind (safe_applyCgFrsumDelta hsize hg.block_le _ _) fun _ =>
        .bind (safe_blockIsFree hin) fun free => .bind (hfreed free) fun _ =>
          safe_writeBe (header_in hsize (by decide)) _

end Fragments

/-! ## §7. Every call. -/

section Calls

variable {sb : Superblock}

/-- The check of `cg_ndblk` keeps the limit below the counts. -/
theorem limit_le {limit cg : Nat} (hgroup : limit ≤ sb.fragsPerGroup)
    (hcount : cg * sb.fragsPerGroup + limit ≤ sb.fragCount) :
    limit ≤ lastLocal sb + 1 := by
  have hle : limit ≤ sb.fragCount := Nat.le_trans (Nat.le_add_left _ _) hcount
  unfold lastLocal
  omega

/-- Where there are no fragments the loops end at once. -/
theorem safe_allocateEmpty {needed : Nat} (now fuel : Nat)
    (hblock : 0 < sb.fragsPerBlock) (hfit : sb.fragsPerBlock < 2 ^ 32) :
    (∀ nffree, Yields (fun found => ∀ run, found = some run → False)
      (tryPartial sb needed 0 now fuel nffree))
      ∧ Safe (allocateWhole sb needed 0 now fuel 0) := by
  have hragged : Yields (fun found => ∀ run, found = some run → False)
      (allocatePartial sb needed 0 now fuel fuel 0) := by
    cases fuel with
    | zero => exact .unfinished
    | succ fuel =>
      unfold allocatePartial
      rw [if_neg (Nat.lt_irrefl 0)]
      exact .pure (by rintro run ⟨⟩)
  refine ⟨fun nffree => .ite (fun _ => hragged) fun _ => .pure (by rintro run ⟨⟩), ?_⟩
  cases fuel with
  | zero => exact .unfinished
  | succ fuel =>
    have hcut : w32 (0 + sb.fragsPerBlock) = sb.fragsPerBlock := by
      unfold w32
      omega
    refine .ite (fun h => ?_) fun _ => .error _
    rw [hcut] at h
    omega

theorem safe_allocateFragsInGroup (hsize : CG_FREE_OFF ≤ sb.cgSize)
    (hg : 0 < sb.fragCount → 0 < sb.fragsPerBlock → FragGeometry sb)
    (hfit : sb.fragsPerBlock < 2 ^ 32) (fuel cg needed now : Nat) :
    Safe (allocateFragsInGroup sb fuel cg needed now) := by
  refine .ite (fun _ => .error _) fun hneeded => .bind (safe_checkMagic hsize)
    fun _ => .bind (safe_readBe (header_in hsize (by decide))) fun limit =>
      .ite (fun _ => .error _) fun hchecks =>
        .bind (safe_readBe (header_in hsize (by decide))) fun nffree => ?_
  have hcount : cg * sb.fragsPerGroup + limit ≤ sb.fragCount := by omega
  have hlimit : limit ≤ lastLocal sb + 1 := limit_le (by omega) hcount
  have hpos : 0 < sb.fragsPerBlock := by omega
  have hparts : Safe (tryPartial sb needed limit now fuel nffree)
      ∧ Safe (allocateWhole sb needed limit now fuel 0) := by
    rcases Nat.eq_zero_or_pos sb.fragCount with hnone | hsome
    · have h0 : limit = 0 := by omega
      rw [h0]
      obtain ⟨hragged, hwhole⟩ := safe_allocateEmpty now fuel hpos hfit
      exact ⟨fun s => wp_mono (hragged nffree s) (fun _ _ _ => trivial)
        fun _ _ h => h, hwhole⟩
    · have hfrag := hg hsome hpos
      exact ⟨.ite (fun _ => safe_allocatePartial hsize hfrag now fuel (by omega)
          (by omega) hlimit fuel 0) fun _ => .pure none,
        safe_allocateWhole hsize hfrag now (by omega) fuel 0
          (hfrag.below hlimit hpos (Nat.zero_le _))⟩
  refine .bind hparts.1 fun found => ?_
  cases found with
  | some start => exact .pure _
  | none =>
    exact .bind (safe_readBe (header_in hsize (by decide))) fun nbfree =>
      .ite (fun _ => .error _) fun _ => .bind hparts.2 fun _ => .pure _

/-- **A safe geometry is safe**: no call on any group comes to a fault. -/
theorem SafeGeometry.callsSafe (h : SafeGeometry sb)
    (hfit : sb.fragsPerBlock < 2 ^ 32) : CallsSafe sb := by
  intro c hc fuel now
  -- a run of no length, or longer than a block, is refused first
  have hfrags : ∀ fragBase, fragBase < sb.fragCount → 0 < sb.fragsPerBlock →
      CG_FREE_OFF ≤ sb.cgSize ∧ FragGeometry sb := fun fragBase hlt hpos =>
    ⟨h.header (Or.inr ⟨by omega, hpos⟩), h.frags (by omega) hpos⟩
  cases c with
  | allocateInode cg isDir =>
    have hgroups : 0 < sb.cgCount := Nat.lt_of_le_of_lt (Nat.zero_le cg) hc
    exact .bind (safe_allocateInodeInGroup (h.header (Or.inl hgroups))
      (h.inodes hgroups) isDir now) fun _ => .pure ()
  | freeInode inodeNo isDir =>
    obtain ⟨-, hlt⟩ := hc
    have hprod : 0 < sb.cgCount * sb.inodesPerGroup :=
      Nat.lt_of_le_of_lt (Nat.zero_le _) hlt
    have hgroups := Nat.pos_of_mul_pos_right hprod
    have hinodes := Nat.pos_of_mul_pos_left hprod
    exact safe_freeInodeInGroup (h.header (Or.inl hgroups))
      (h.inodes hgroups hinodes) hinodes inodeNo isDir now
  | allocateFrags cg needed =>
    have hgroups : 0 < sb.cgCount := Nat.lt_of_le_of_lt (Nat.zero_le cg) hc
    exact .bind (safe_allocateFragsInGroup (h.header (Or.inl hgroups)) h.frags
      hfit fuel cg needed now) fun _ => .pure ()
  | extendRun fragBase oldFrags newFrags =>
    rcases Nat.eq_zero_or_pos sb.fragsPerBlock with h0 | hpos
    · exact .ite (fun _ => .error _) fun hlen => absurd h0 (by omega)
    · obtain ⟨hsize, hg⟩ := hfrags fragBase hc hpos
      exact safe_extendFragmentRun hsize hg hc oldFrags newFrags now
  | freeRun fragBase frags =>
    rcases Nat.eq_zero_or_pos sb.fragsPerBlock with h0 | hpos
    · exact .ite (fun _ => .error _) fun hlen => absurd h0 (by omega)
    · obtain ⟨hsize, hg⟩ := hfrags fragBase hc hpos
      exact safe_freeFragmentRun hsize hg hc frags now

end Calls

end NextUfs.Bounds
