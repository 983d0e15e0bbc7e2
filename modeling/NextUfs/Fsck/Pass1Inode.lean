/-
  NextUfs.Fsck.Pass1Inode
  ───────────────────────
  **THE CHECKER VISITS WHAT AN INODE CLAIMS.**

  Direct blocks by the tail-fragment rule, trees by `iblock_spec`; together
  they are the claims of `Core.Ownership`, when the inode ends at its size.

    • `directFrags_eq`              — the two tail rules agree,
    • `EndsAtSize`                  — pointers past the size are 0,
    • `EndsAtSize.blockClaims_eq`   — the claims, in the order of the walk,
    • `ckinode_spec`                — the inode: exactly what it claims.
-/
import NextUfs.Fsck.Pass1Spec
import NextUfs.Core.StoreFailure

namespace NextUfs.Fsck

open State Radix

/-! ## §1. Direct blocks. -/

/-- Geometry both programs work on: `MINBSIZE`, `MAXBSIZE`, and a superblock
copy ahead of each group's data. -/
structure FsckGeometry (sb : Superblock) : Prop extends SpaceGeometry sb where
  blockSize_ge : 4096 ≤ sb.blockSize
  blockSize_le : sb.blockSize ≤ 8192
  sbOff_lt : sb.sbOff < sb.dataOff

section Direct

variable {sb : Superblock}

/-- A block that is full needs all its fragments. -/
theorem fragsNeeded_full (hgeo : DataGeometry sb) {len lb : Nat}
    (h : (lb + 1) * sb.blockSize ≤ len) :
    fragsNeeded sb len lb = sb.fragsPerBlock := by
  have hchunk : chunkBytes sb len lb = sb.fragsPerBlock * sb.fragSize := by
    rw [Nat.succ_mul] at h
    unfold chunkBytes
    rw [← hgeo.blockSize_eq]
    omega
  have hpos := hgeo.fragSize_pos
  unfold fragsNeeded
  split
  · rfl
  · rw [hchunk, Nat.add_sub_assoc hpos, Nat.mul_comm,
      Nat.mul_add_div hpos, Nat.div_eq_of_lt (by omega), Nat.add_zero]

/-- A block starts before the end of the file or it is none of it. -/
theorem lt_fileBlocks_iff (hbs : 0 < sb.blockSize) {len m : Nat} :
    m < fileBlocks sb len ↔ m * sb.blockSize < len := by
  rw [← not_le, fileBlocks_le_iff hbs, not_le]

/-- `howmany` in `int`, as far as the tail rule asks: where it overflows the
file has more than twelve blocks. -/
theorem sizeBlocks_eq_iff (hgeo : FsckGeometry sb) {size i : Nat}
    (hsize : size < 2 ^ 31) (hi : i < 12) :
    sizeBlocks sb size - (i + 1) = 0 ↔ fileBlocks sb size = i + 1 := by
  have hge := hgeo.blockSize_ge
  have hle := hgeo.blockSize_le
  have hcast : (size : Int) + ((sb.blockSize : Int) - 1)
      = ((size + sb.blockSize - 1 : Nat) : Int) := by omega
  unfold sizeBlocks fileBlocks
  rw [hcast]
  rcases Nat.lt_or_ge (size + sb.blockSize - 1) (2 ^ 31) with hlt | hover
  · have hdiv : ((size + sb.blockSize - 1 : Nat) : Int).tdiv sb.blockSize
        = (((size + sb.blockSize - 1) / sb.blockSize : Nat) : Int) := rfl
    rw [int32_eq (by omega) (by omega), hdiv]
    generalize (size + sb.blockSize - 1) / sb.blockSize = q
    omega
  · have hneg : int32 ((size + sb.blockSize - 1 : Nat) : Int) ≤ 0 := by
      unfold int32
      rw [Int.bmod_def]
      omega
    have hquot := Int.tdiv_nonneg (Int.neg_nonneg.mpr hneg)
      (Int.natCast_nonneg sb.blockSize)
    rw [Int.neg_tdiv] at hquot
    have hmany : 13 ≤ (size + sb.blockSize - 1) / sb.blockSize := by
      rw [Nat.le_div_iff_mul_le (by omega)]
      omega
    omega

/-- **The tail-fragment rules agree**: the checker decides by the number of
blocks, the library by the bytes that are left. -/
theorem directFrags_eq (hgeo : FsckGeometry sb) {size i : Nat}
    (hsize : size < 2 ^ 31) (hi : i < fileBlocks sb size) (hi12 : i < 12) :
    directFrags sb size i = fragsNeeded sb size i := by
  have hbs := hgeo.toDataGeometry.blockSize_pos
  have hmodeq := Nat.div_add_mod' size sb.blockSize
  have hmod := Nat.mod_lt size hbs
  have hstart : i * sb.blockSize < size := (lt_fileBlocks_iff hbs).mp hi
  unfold directFrags
  dsimp only
  simp only [sizeBlocks_eq_iff hgeo hsize hi12]
  by_cases hlast : fileBlocks sb size = i + 1 ∧ size % sb.blockSize ≠ 0
  · -- the last block, and it is not full
    obtain ⟨hblocks, hoff⟩ := hlast
    have hend : size < (i + 1) * sb.blockSize := by
      have hpast : ¬i + 1 < fileBlocks sb size := by omega
      rw [lt_fileBlocks_iff hbs] at hpast
      apply Nat.lt_of_le_of_ne (by omega)
      intro heq
      rw [heq, Nat.mul_mod_left] at hoff
      exact hoff rfl
    have hdiv : size / sb.blockSize = i :=
      Nat.div_eq_of_lt_le hstart.le hend
    have hchunk : chunkBytes sb size i = size % sb.blockSize := by
      rw [hdiv] at hmodeq
      unfold chunkBytes
      omega
    rw [if_pos ⟨hblocks, hoff⟩, Nat.mul_div_cancel _ hgeo.fragSize_pos]
    unfold fragsNeeded
    rw [if_neg (by omega), hchunk]
  · rw [if_neg hlast]
    refine (fragsNeeded_full hgeo.toDataGeometry ?_).symm
    by_cases hblocks : fileBlocks sb size = i + 1
    · -- the last block is full
      have hoff : size % sb.blockSize = 0 := by
        by_contra hne
        exact hlast ⟨hblocks, hne⟩
      rw [hoff, Nat.add_zero] at hmodeq
      rw [← hmodeq] at hstart ⊢
      exact Nat.mul_le_mul_right _ (Nat.lt_of_mul_lt_mul_right hstart)
    · exact ((lt_fileBlocks_iff hbs).mp (by omega)).le

end Direct

/-! ## §2. What an inode claims, as the walk sees it. -/

section Claims

variable {sb : Superblock} {d : Disk} {ino : Inode}

/-- Pointers past the inode's size are 0, in the inode and in its trees. -/
structure EndsAtSize (sb : Superblock) (d : Disk) (ino : Inode) : Prop where
  direct : ∀ i : Fin 12, fileBlocks sb ino.size ≤ i → ino.db i = 0
  trees : ∀ slot : Fin 3,
    EndsAt (entry sb d) (entriesPerBlock sb) (slot + 1) (ino.ib slot)
      (fileBlocks sb ino.size - (12 + slotBase sb slot))

theorem indirectSlot_at {slot : Fin 3} {i : Nat}
    (hi : i < treeSpan sb (slot + 1)) :
    indirectSlot sb (slotBase sb slot + i) = some (slot, i) := by
  rw [indirectSlot_eq]
  match slot with
  | 0 =>
    have hi : i < entriesPerBlock sb := by simpa using hi
    rw [show slotBase sb 0 = 0 from rfl, Nat.zero_add, if_pos hi]
  | 1 =>
    have hi : i < entriesPerBlock sb * entriesPerBlock sb := by
      simpa [pow_succ] using hi
    rw [show slotBase sb 1 = entriesPerBlock sb from rfl, if_neg (by omega),
      Nat.add_sub_cancel_left, if_pos hi]
  | 2 =>
    have hi : i < entriesPerBlock sb * entriesPerBlock sb
        * entriesPerBlock sb := by
      simpa [pow_succ] using hi
    have hbase : slotBase sb 2
        = entriesPerBlock sb + entriesPerBlock sb * entriesPerBlock sb := rfl
    rw [hbase, if_neg (by omega), if_neg (by omega), Nat.add_assoc,
      Nat.add_sub_cancel_left, Nat.add_sub_cancel_left, if_pos hi]

/-- A block behind the direct ones is a value of its slot's tree. -/
theorem blockAt_slot {slot : Fin 3} {i : Nat}
    (hi : i < treeSpan sb (slot + 1)) :
    blockAt sb d ino (12 + (slotBase sb slot + i))
      = treeAt sb d (slot + 1) (ino.ib slot) i := by
  unfold blockAt blockOf
  rw [dif_neg (by omega), Nat.add_sub_cancel_left, indirectSlot_at hi]
  rfl

/-- Where the inode ends its map does. -/
theorem EndsAtSize.blockAt_eq_zero (h : EndsAtSize sb d ino) {lb : Nat}
    (hlb : fileBlocks sb ino.size ≤ lb) : blockAt sb d ino lb = 0 := by
  rcases Nat.lt_or_ge lb (mapSpan sb) with hspan | hspan
  · by_cases hlb12 : lb < 12
    · unfold blockAt blockOf
      rw [dif_pos hlb12]
      exact h.direct ⟨lb, hlb12⟩ hlb
    · obtain ⟨slot, i, hs⟩ := indirectSlot_isSome
        (show 12 + (lb - 12) < mapSpan sb by omega)
      have hbase := indirectSlot_base hs
      have hi := indirectSlot_lt hs
      have hval := (h.trees slot).lookup_eq_zero (i := i) (by omega) hi
      have hslot : lb = 12 + (slotBase sb slot + i) := by omega
      rw [hslot, blockAt_slot hi]
      exact hval
  · exact blockAt_past hspan

/-- The fragments of logical block `lb`. -/
def blockFrags (sb : Superblock) (d : Disk) (ino : Inode) (lb f : Nat) : Nat :=
  if blockAt sb d ino lb = 0 then 0
  else covers (blockAt sb d ino lb) (fragsNeeded sb ino.size lb) f

/-- A slot's tree with its data blocks: one level more of the tree. -/
theorem treeFrags_values (slot : Fin 3) (f : Nat) :
    treeFrags sb d (slot + 2) (ino.ib slot) f
      = treeFrags sb d (slot + 1) (ino.ib slot) f
        + ∑ i ∈ Finset.range (treeSpan sb (slot + 1)),
            blockFrags sb d ino (12 + (slotBase sb slot + i)) f := by
  refine (footprint_values _ _ _).trans ?_
  congr 1
  apply Finset.sum_congr rfl
  intro i hi
  unfold blockFrags fragsNeeded
  rw [blockAt_slot (Finset.mem_range.mp hi),
    if_pos (Nat.le_add_right 12 (slotBase sb slot + i))]
  rfl

/-- **The claims of an inode that ends at its size**: its direct blocks, and
its trees with the blocks they point to. -/
theorem EndsAtSize.blockClaims_eq (h : EndsAtSize sb d ino) (f : Nat) :
    blockClaims sb d ino f
      = ∑ i ∈ Finset.range 12, blockFrags sb d ino i f
        + ∑ slot : Fin 3, treeFrags sb d (slot + 2) (ino.ib slot) f := by
  -- blocks past the end claim nothing, and neither do blocks past the map
  have hspan : dataFrags sb d ino ino.size (fileBlocks sb ino.size) f
      = ∑ lb ∈ Finset.range (mapSpan sb), blockFrags sb d ino lb f := by
    show ∑ lb ∈ Finset.range (fileBlocks sb ino.size), blockFrags sb d ino lb f
      = _
    rcases Nat.le_total (fileBlocks sb ino.size) (mapSpan sb) with hle | hle
    · apply Finset.sum_subset (Finset.range_subset_range.mpr hle)
      intro lb _ hout
      have hlb : ¬lb < fileBlocks sb ino.size :=
        fun hlt => hout (Finset.mem_range.mpr hlt)
      unfold blockFrags
      rw [if_pos (h.blockAt_eq_zero (by omega))]
    · symm
      apply Finset.sum_subset (Finset.range_subset_range.mpr hle)
      intro lb _ hout
      have hlb : ¬lb < mapSpan sb := fun hlt => hout (Finset.mem_range.mpr hlt)
      unfold blockFrags
      rw [if_pos (blockAt_past (by omega))]
  unfold blockClaims metaFrags
  rw [hspan, mapSpan, Finset.sum_range_add, Finset.sum_range_add,
    Finset.sum_range_add, Fin.sum_univ_three, Fin.sum_univ_three,
    treeFrags_values, treeFrags_values, treeFrags_values]
  have h0 : treeSpan sb ((0 : Fin 3) + 1) = entriesPerBlock sb := by simp
  have h1 : treeSpan sb ((1 : Fin 3) + 1)
      = entriesPerBlock sb * entriesPerBlock sb := by simp [pow_succ]
  have h2 : treeSpan sb ((2 : Fin 3) + 1)
      = entriesPerBlock sb * entriesPerBlock sb * entriesPerBlock sb := by
    simp [pow_succ]
  rw [h0, h1, h2]
  have hbase0 : ∀ i, slotBase sb 0 + i = i := fun i => Nat.zero_add i
  have hbase1 : ∀ i, slotBase sb 1 + i = entriesPerBlock sb + i := fun _ => rfl
  have hbase2 : ∀ i, slotBase sb 2 + i
      = entriesPerBlock sb + entriesPerBlock sb * entriesPerBlock sb + i :=
    fun _ => rfl
  simp only [hbase0, hbase1, hbase2, Nat.add_assoc]
  omega

/-- What an inode claims can be given back, and none of it is metadata. -/
structure ClaimsSound (sb : Superblock) (d : Disk) (ino : Inode) : Prop
    extends Freeable sb d ino where
  unreserved : ∀ f, 0 < blockClaims sb d ino f → reservedAt sb f = 0

/-- A run of data fragments is not out of range. -/
theorem outrange_eq_false (hgeo : FsckGeometry sb) {a n : Nat}
    (hfits : RunFits sb a n)
    (hdata : ∀ f, a ≤ f → f < a + n → reservedAt sb f = 0) :
    outrange sb a n = false := by
  have hpos := hfits.pos
  have hdisk := hfits.disk
  have hgroup := hfits.group hgeo.toValidGeometry
  have hc := hgeo.toSpaceGeometry.group_lt (show a < sb.fragCount by omega)
  have hsplit := Nat.div_add_mod' a sb.fragsPerGroup
  unfold outrange
  dsimp only
  rw [if_neg (by omega)]
  generalize a / sb.fragsPerGroup = c at *
  split
  · rename_i hbefore
    -- the run does not reach the group's superblock copy
    apply decide_eq_false
    intro hreach
    have hreserved : reservedAt sb (max a (cgsblock sb c)) = 1 := by
      have hlt := hgeo.sbOff_lt
      have hsb : cgsblock sb c < cgdmin sb c := by
        unfold cgsblock cgdmin
        omega
      refine if_pos ⟨c, hc, ?_, by omega⟩
      split <;> omega
    rw [hdata _ (Nat.le_max_left _ _) (by omega)] at hreserved
    cases hreserved
  · apply decide_eq_false
    rw [Nat.mul_succ, Nat.mul_comm]
    omega

/-- The blocks of a slot's tree, data blocks included, are in range. -/
theorem ClaimsSound.treeInRange (hgeo : FsckGeometry sb)
    (hends : EndsAtSize sb d ino) (h : ClaimsSound sb d ino) (slot : Fin 3) :
    TreeInRange sb d (slot + 2) (ino.ib slot) := by
  intro x hx
  have hfits : RunFits sb x sb.fragsPerBlock := by
    rcases inTree_values hx with htree | ⟨i, hi, hval, hne⟩
    · exact h.inside slot x htree
    · have hblock := @blockAt_slot sb d ino slot i hi
      have hblock : blockAt sb d ino (12 + (slotBase sb slot + i)) = x :=
        hblock.trans hval
      have hlb : 12 + (slotBase sb slot + i) < fileBlocks sb ino.size := by
        by_contra hpast
        rw [hends.blockAt_eq_zero (by omega)] at hblock
        exact hne hblock.symm
      have hruns := h.runs _ hlb (by rw [hblock]; exact hne)
      unfold fragsNeeded at hruns
      rw [hblock, if_pos (Nat.le_add_right 12 (slotBase sb slot + i))] at hruns
      exact hruns
  apply outrange_eq_false hgeo hfits
  intro f h1 h2
  apply h.unreserved
  rw [hends.blockClaims_eq]
  have hpos : 0 < treeFrags sb d (slot + 2) (ino.ib slot) f :=
    hx.footprint_pos ⟨h1, h2⟩
  have hle := Finset.single_le_sum
    (f := fun slot : Fin 3 => treeFrags sb d (slot + 2) (ino.ib slot) f)
    (fun _ _ => Nat.zero_le _) (Finset.mem_univ slot)
  exact Nat.lt_of_lt_of_le hpos (hle.trans (Nat.le_add_left _ _))

end Claims

/-! ## §3. The inode. -/

section Inode

variable {sb : Superblock} {op : Operator} {inumber : Nat} {d : Disk}
  {ino : Inode}

theorem lowerSpan_eq (sb : Superblock) (slot : Fin 3) :
    lowerSpan sb slot = slotBase sb slot := by
  match slot with
  | 0 => rfl
  | 1 =>
    show 0 + NINDIR sb ^ 1 = entriesPerBlock sb
    rw [Nat.zero_add, pow_one]
    rfl
  | 2 =>
    show 0 + NINDIR sb ^ 1 + NINDIR sb ^ 2
      = entriesPerBlock sb + entriesPerBlock sb * entriesPerBlock sb
    rw [Nat.zero_add, pow_one, pow_two]
    rfl

theorem storesBlocks_not_special (h : storesBlocks ino = true) :
    special ino = false := by
  unfold storesBlocks at h
  rw [Bool.and_eq_true] at h
  have hmode := h.2
  unfold special
  simp only [Bool.or_eq_true, beq_iff_eq] at hmode
  rcases hmode with (hreg | hdir) | hlnk
  · rw [hreg]
    rfl
  · rw [hdir]
    rfl
  · rw [hlnk]
    rfl

/-- **One slot of the inode.** -/
theorem slot_spec (hgeo : FsckGeometry sb) (hsize : ino.size < 2 ^ 31)
    (hends : EndsAtSize sb d ino) (hsound : ClaimsSound sb d ino)
    {slot : Fin 3} {s : Pass1} (hdisk : s.disk = d)
    (hnew : Unclaimed s (treeFrags sb d (slot + 2) (ino.ib slot))) :
    ∃ s', (if ino.ib slot = 0 then (return .keepon)
        else iblock sb op inumber (slot + 1) (ino.ib slot)
          (ino.size - int32 (sb.blockSize * 12)) : Pass1Op Ret) s
        = .ok .keepon s'
      ∧ Visited s s' (treeFrags sb d (slot + 2) (ino.ib slot)) := by
  subst hdisk
  by_cases hroot : ino.ib slot = 0
  · rw [if_pos hroot]
    refine ⟨s, rfl, (Visited.refl s).congr fun f => ?_⟩
    rw [hroot, treeFrags_zero_root]
  rw [if_neg hroot]
  have hbs := hgeo.toDataGeometry.blockSize_pos
  have hge := hgeo.blockSize_ge
  have hle := hgeo.blockSize_le
  have hstart : 12 + slotBase sb slot < fileBlocks sb ino.size := by
    by_contra hpast
    exact hroot ((hends.trees slot).root (Nat.sub_eq_zero_of_le (by omega)))
  have hlast : (fileBlocks sb ino.size - 1) * sb.blockSize < ino.size :=
    (lt_fileBlocks_iff hbs).mp (by omega)
  have hrem := rest_lt hstart hlast
  have hbefore := Nat.mul_le_mul_right sb.blockSize
    (show 12 + slotBase sb slot ≤ fileBlocks sb ino.size - 1 by omega)
  have hsplit : (12 + slotBase sb slot) * sb.blockSize
      = 12 * sb.blockSize + lowerSpan sb slot * sb.blockSize := by
    rw [lowerSpan_eq, Nat.add_mul]
  have hisize : (ino.size : Int) - int32 (sb.blockSize * 12)
      = ((ino.size - (12 + slotBase sb slot) * sb.blockSize
          + lowerSpan sb slot * sb.blockSize : Nat) : Int) := by
    rw [int32_eq (by omega) (by omega)]
    omega
  have hentries : 0 < NINDIR sb := Nat.div_pos (by omega) (by decide)
  rw [hisize]
  exact iblock_spec hbs hentries slot hroot (hends.trees slot) hrem (by omega)
    (hsound.treeInRange hgeo hends slot) hnew

/-- **One direct block of the inode.** -/
theorem direct_spec (hgeo : FsckGeometry sb) (hsize : ino.size < 2 ^ 31)
    (hends : EndsAtSize sb d ino) (hsound : ClaimsSound sb d ino)
    {i : Fin 12} {s : Pass1}
    (hnew : Unclaimed s (blockFrags sb d ino i)) :
    ∃ s', (if ino.db i = 0 then (return .keepon)
        else pass1check sb op inumber (ino.db i) (directFrags sb ino.size i)
          : Pass1Op Ret) s = .ok .keepon s'
      ∧ Visited s s' (blockFrags sb d ino i) := by
  have hblock : blockAt sb d ino i = ino.db i := by
    unfold blockAt blockOf
    rw [dif_pos i.isLt]
  by_cases hhole : ino.db i = 0
  · rw [if_pos hhole]
    refine ⟨s, rfl, (Visited.refl s).congr fun f => ?_⟩
    unfold blockFrags
    rw [if_pos (hblock.trans hhole)]
  rw [if_neg hhole]
  have hlb : (i : Nat) < fileBlocks sb ino.size := by
    by_contra hpast
    exact hhole (hends.direct i (by omega))
  have hclaims : ∀ f, blockFrags sb d ino i f
      = covers (ino.db i) (directFrags sb ino.size i) f := by
    intro f
    unfold blockFrags
    rw [if_neg (by rw [hblock]; exact hhole), hblock,
      directFrags_eq hgeo hsize hlb i.isLt]
  have hruns := hsound.runs i hlb (by rw [hblock]; exact hhole)
  have hin : outrange sb (ino.db i) (directFrags sb ino.size i) = false := by
    rw [directFrags_eq hgeo hsize hlb i.isLt]
    rw [hblock] at hruns
    apply outrange_eq_false hgeo hruns
    intro f h1 h2
    apply hsound.unreserved
    have hle := @covers_le_dataFrags sb d ino ino.size _ _ hlb
      (by rw [hblock]; exact hhole) f
    rw [hblock, covers_eq_one ⟨h1, h2⟩] at hle
    exact Nat.lt_of_lt_of_le hle (Nat.le_add_left _ _)
  obtain ⟨s', hrun, hvisited⟩ := pass1check_spec hin (hnew.mono fun f => (hclaims f).ge)
  exact ⟨s', hrun, hvisited.congr fun f => (hclaims f).symm⟩

/-- **The checker visits what the inode claims**, and reports nothing. -/
theorem ckinode_spec (hgeo : FsckGeometry sb)
    (hblocks : storesBlocks ino = true) (hsize : ino.size < 2 ^ 31)
    (hends : EndsAtSize sb d ino) (hsound : ClaimsSound sb d ino)
    {s : Pass1} (hdisk : s.disk = d)
    (hmap : ∀ f, 0 < blockClaims sb d ino f → s.blockmap f = false) :
    ∃ s', ckinode sb op inumber ino s = .ok .keepon s'
      ∧ Visited { s with idFix := .dontknow, visited := [] } s'
          (blockClaims sb d ino) := by
  obtain ⟨s₀, hs₀⟩ : ∃ s₀ : Pass1,
      s₀ = { s with idFix := .dontknow, visited := [] } := ⟨_, rfl⟩
  have hdisk₀ : s₀.disk = d := by rw [hs₀]; exact hdisk
  have hdirect : ∀ f, ((List.finRange 12).map fun i : Fin 12 =>
        blockFrags sb d ino i f).sum
      = ∑ i ∈ Finset.range 12, blockFrags sb d ino i f := by
    intro f
    rw [← Fin.sum_univ_def]
    exact Fin.sum_univ_eq_sum_range (fun i => blockFrags sb d ino i f) 12
  have htrees : ∀ f, (([0, 1, 2] : List (Fin 3)).map fun slot : Fin 3 =>
        treeFrags sb d (slot + 2) (ino.ib slot) f).sum
      = ∑ slot : Fin 3, treeFrags sb d (slot + 2) (ino.ib slot) f := by
    intro f
    rw [Fin.sum_univ_def]
    rfl
  have hall : Unclaimed s₀ fun f =>
      ((List.finRange 12).map fun i : Fin 12 => blockFrags sb d ino i f).sum
        + (([0, 1, 2] : List (Fin 3)).map fun slot : Fin 3 =>
          treeFrags sb d (slot + 2) (ino.ib slot) f).sum := by
    intro f
    show (s₀.blockmap f).toNat + (_ + _) ≤ 1
    rw [hdirect, htrees, ← hends.blockClaims_eq]
    have hone := hsound.owned f
    rcases Nat.eq_zero_or_pos (blockClaims sb d ino f) with hzero | hpos
    · rw [hzero]
      exact Bool.toNat_le _
    · have hbit : s₀.blockmap f = false := by
        rw [hs₀]
        exact hmap f hpos
      rw [hbit]
      show 0 + _ ≤ 1
      omega
  obtain ⟨s₁, hrun₁, hvisited₁⟩ := untilStop_visits (s := s₀)
    (f := fun i : Fin 12 => if ino.db i = 0 then (return .keepon)
      else pass1check sb op inumber (ino.db i) (directFrags sb ino.size i))
    (hall.mono fun f => Nat.le_add_right _ _)
    fun i _ t _ hnew => direct_spec hgeo hsize hends hsound hnew
  obtain ⟨s', hrun₂, hvisited₂⟩ := untilStop_visits (s := s₁)
    (f := fun slot : Fin 3 => if ino.ib slot = 0 then (return .keepon)
      else iblock sb op inumber (slot + 1) (ino.ib slot)
        (ino.size - int32 (sb.blockSize * 12)))
    (hall.after hvisited₁)
    fun slot _ t ht hnew => slot_spec hgeo hsize hends hsound
      (ht.trans (hvisited₁.disk.trans hdisk₀)) hnew
  refine ⟨s', ?_, ?_⟩
  · unfold ckinode
    rw [bind_modify, if_neg (by rw [storesBlocks_not_special hblocks]; decide),
      ← hs₀, bind_of_ok hrun₁, if_neg (by decide)]
    exact hrun₂
  · rw [← hs₀]
    refine (hvisited₁.trans hvisited₂).congr fun f => ?_
    rw [hdirect, htrees, ← hends.blockClaims_eq]

end Inode

end NextUfs.Fsck
