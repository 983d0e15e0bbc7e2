/-
  NextUfs.Fsck.ExpandDirFails
  ───────────────────────────
  **A GROWTH THAT FAILS.**

  `expanddir` takes a block first, and gives it back when one of its reads fails
  or the operator refuses.  The inode and the block map are then what they were,
  and so is everything in use on the device.  The buffer is not: `emptydir` has
  been put in it before the operator was asked.

    • `freeblk_withBlock`  — a block that is given back,
    • `expanddir_cases`    — what it has come to then,
    • `UsedSame`           — what is in use on the device is as it was,
    • `expanddir_fails`    — what a growth that fails has left.
-/
import NextUfs.Fsck.ExpandDirKeeps

namespace NextUfs.Fsck

open Window Address

/-! ## §1. A block that is given back. -/

/-- **The block map marks what is not to be had**: fragment 0, metadata, and the
fragments on the list of duplicates. -/
structure MapMarks (sb : Superblock) (s : Repair) : Prop where
  zero : s.blockmap 0 = true
  outside : ∀ f < sb.fragCount, outrange sb f 1 = true → s.blockmap f = true
  dups : ∀ f ∈ s.duplist, s.blockmap f = true

section Free

variable {sb : Superblock} {s : Repair} {blk n : Nat}

/-- **Fragments with one claim** are cleared in the block map. -/
theorem pass4check_clears : ∀ (n : Nat) {blk : Nat} {s : Repair},
    (∀ k < n, outrange sb (blk + k) 1 = false ∧ s.blockmap (blk + k) = true ∧
      blk + k ∉ s.duplist) →
    pass4check sb n blk s =
      { s with
        blockmap := fun f => s.blockmap f && !decide (blk ≤ f ∧ f < blk + n)
        nBlks := s.nBlks - n } := by
  intro n
  induction n with
  | zero =>
    intro blk s _
    have hmap : (fun f => s.blockmap f && !decide (blk ≤ f ∧ f < blk + 0))
        = s.blockmap := by
      funext f
      rw [decide_eq_false (by omega), Bool.not_false, Bool.and_true]
    rw [hmap, Int.natCast_zero, Int.sub_zero]
    rfl
  | succ n ih =>
    intro blk s h
    obtain ⟨hin, hused, honce⟩ := h 0 (Nat.succ_pos n)
    rw [Nat.add_zero] at hin hused honce
    have hdrop : dropDup blk s.duplist = none := if_neg honce
    unfold pass4check
    rw [if_pos ⟨hin, hused⟩, hdrop]
    dsimp only
    rw [ih fun k hk => ?_]
    · have hmap : (fun f => Function.update s.blockmap blk false f
            && !decide (blk + 1 ≤ f ∧ f < blk + 1 + n))
          = fun f => s.blockmap f && !decide (blk ≤ f ∧ f < blk + (n + 1)) := by
        funext f
        by_cases hf : f = blk
        · have hin : blk ≤ blk ∧ blk < blk + (n + 1) := by omega
          rw [hf, Function.update_self, decide_eq_true hin, Bool.false_and,
            Bool.not_true, Bool.and_false]
        · rw [Function.update_of_ne hf]
          congr 2
          exact decide_eq_decide.mpr (by omega)
      have hcount : s.nBlks - 1 - (n : Int) = s.nBlks - ((n + 1 : Nat) : Int) := by omega
      rw [hmap, hcount]
    · obtain ⟨hin', hused', honce'⟩ := h (k + 1) (Nat.succ_lt_succ hk)
      rw [Nat.add_right_comm, Nat.add_assoc]
      refine ⟨hin', ?_, honce'⟩
      show Function.update s.blockmap blk false (blk + (k + 1)) = true
      rw [Function.update_of_ne (by omega)]
      exact hused'

/-- **A block that was free, taken and given back**, leaves no trace in the map. -/
theorem freeblk_withBlock (hmarks : MapMarks sb s) (hin : blk + n ≤ sb.fragCount)
    (hfree : ∀ k < n, s.blockmap (blk + k) = false) (io : DirIo) :
    freeblk sb blk n { s.withBlock blk n with io := io } = { s with io := io } := by
  have hclears := @pass4check_clears sb n blk { s.withBlock blk n with io := io }
    fun k hk => ?_
  · unfold freeblk
    rw [hclears]
    have hmap : (fun f => (s.blockmap f || decide (blk ≤ f ∧ f < blk + n))
        && !decide (blk ≤ f ∧ f < blk + n)) = s.blockmap := by
      funext f
      by_cases hf : blk ≤ f ∧ f < blk + n
      · have hnot := hfree (f - blk) (by omega)
        rw [Nat.add_sub_cancel' hf.1] at hnot
        rw [decide_eq_true hf, hnot]
        rfl
      · rw [decide_eq_false hf, Bool.or_false, Bool.not_false, Bool.and_true]
    have hcount : s.nBlks + (n : Int) - (n : Int) = s.nBlks := Int.add_sub_cancel _ _
    unfold Repair.withBlock
    dsimp only
    rw [hmap, hcount]
  · have hnot := hfree k hk
    refine ⟨Bool.eq_false_iff.mpr fun hout => ?_, ?_, fun hdup => ?_⟩
    · rw [hmarks.outside _ (by omega) hout] at hnot
      cases hnot
    · show (s.blockmap (blk + k) || decide _) = true
      rw [decide_eq_true (by omega), Bool.or_true]
    · rw [hmarks.dups _ hdup] at hnot
      cases hnot

end Free

/-! ## §2. Where a growth stops. -/

section Cases

variable {sb : Superblock} {needswap yes : Bool} {dp : Inode} {newblk : Nat}
  {s : Repair} {io : DirIo}

/-- An inode that has grown and is made smaller again. -/
theorem shrink_grow (hroom : lblkno sb dp.size < NDADDR - 1)
    (hspare : dp.db (Fin.ofNat 12 (lblkno sb dp.size + 1)) = 0) (s : Repair) :
    shrink sb (grow sb dp newblk) (lblkno sb dp.size) newblk s
      = (dp, freeblk sb newblk sb.fragsPerBlock s, false) := by
  obtain ⟨-, hmoved, hkept⟩ := grow_db hroom newblk
  have hdb : Function.update (Function.update (grow sb dp newblk).db
        (Fin.ofNat 12 (lblkno sb dp.size))
        ((grow sb dp newblk).db (Fin.ofNat 12 (lblkno sb dp.size + 1))))
      (Fin.ofNat 12 (lblkno sb dp.size + 1)) 0 = dp.db := by
    funext i
    by_cases hnext : i = Fin.ofNat 12 (lblkno sb dp.size + 1)
    · rw [hnext, Function.update_self, hspare]
    · rw [Function.update_of_ne hnext]
      by_cases hlast : i = Fin.ofNat 12 (lblkno sb dp.size)
      · rw [hlast, Function.update_self, hmoved]
      · rw [Function.update_of_ne hlast, hkept i hlast hnext]
  have hsize : (grow sb dp newblk).size - sb.blockSize = dp.size :=
    Nat.add_sub_cancel ..
  have hblocks : (grow sb dp newblk).blocks - UInt32.ofNat (NSPB sb) = dp.blocks :=
    UInt32.add_sub_cancel ..
  unfold shrink
  rw [hdb, hsize, hblocks]
  rfl

/-- **What a growth comes to**: there is no block for it; or one of its three
requests fails, or the operator refuses, and all but the buffer is as before; or
it succeeds. -/
theorem expanddir_cases (hmarks : MapMarks sb s)
    (hspare : dp.db (Fin.ofNat 12 (lblkno sb dp.size + 1)) = 0) :
    (∀ yes, expanddir sb needswap yes dp s = (dp, s, false)) ∨
      ∃ newblk, newblk ≠ 0 ∧ newblk + sb.fragsPerBlock ≤ sb.fragCount ∧
        (∀ k < sb.fragsPerBlock, s.blockmap (newblk + k) = false) ∧
        ∀ yes, expanddir sb needswap yes dp s =
          if (askedLast sb needswap dp s.io).fileblk.errs ≠ 0 then
            (dp, { s with io := askedLast sb needswap dp s.io }, false)
          else if (askedNew sb needswap dp newblk s.io).fileblk.errs ≠ 0 then
            (dp, { s with io := askedNew sb needswap dp newblk s.io }, false)
          else if (askedAgain sb needswap dp newblk s.io).fileblk.errs ≠ 0 then
            (dp, { s with io := askedAgain sb needswap dp newblk s.io }, false)
          else if yes then
            (grow sb dp newblk,
              { s.withBlock newblk sb.fragsPerBlock with
                io := markDirty (refused sb needswap dp newblk s.io)
                inodeDirty := true }, true)
          else (dp, { s with io := refused sb needswap dp newblk s.io }, false) := by
  by_cases hroom : NDADDR - 1 ≤ lblkno sb dp.size
  · refine .inl fun yes => ?_
    unfold expanddir
    exact if_pos hroom
  rcases allocblk_cases sb sb.fragsPerBlock s with
    hnone | ⟨newblk, hpos, hin, hfree, halloc⟩
  · refine .inl fun yes => ?_
    unfold expanddir
    dsimp only
    rw [if_neg hroom, hnone]
    exact if_pos rfl
  have hlast := not_le.mp hroom
  have hne : newblk ≠ 0 := by
    intro hzero
    have hfirst := hfree 0 hpos
    rw [hzero, hmarks.zero] at hfirst
    cases hfirst
  refine .inr ⟨newblk, hne, hin, hfree, fun yes => ?_⟩
  -- the block is marked and cleared again, and the inode grows and shrinks
  have hback : ∀ io', shrink sb (grow sb dp newblk) (lblkno sb dp.size) newblk
      { s.withBlock newblk sb.fragsPerBlock with io := io' }
        = (dp, { s with io := io' }, false) := fun io' => by
    rw [shrink_grow hlast hspare, freeblk_withBlock hmarks hin hfree]
  rw [expanddir_eq hlast halloc hne]
  dsimp only
  rw [hback, hback, hback, hback]

end Cases

/-! ## §3. What is left. -/

section Left

variable {sb : Superblock} {needswap yes : Bool} {imax newblk : Nat} {dp : Inode}
  {s : Repair} {d d' : Device} {blockmap : Nat → Bool}

/-- **The fragments in use are as they were.** -/
def UsedSame (sb : Superblock) (blockmap : Nat → Bool) (d d' : Device) : Prop :=
  ∀ f < sb.fragCount, blockmap f = true → ∀ i < sb.fragSize,
    d'.data (f * sb.fragSize + i) = d.data (f * sb.fragSize + i)

/-- A block that was free is all that has been written. -/
theorem UsedSame.of_outside (hgeo : GrowGeometry sb)
    (hin : newblk + sb.fragsPerBlock ≤ sb.fragCount)
    (hfree : ∀ k < sb.fragsPerBlock, blockmap (newblk + k) = false)
    (h : ∀ a, a < byteOffset sb (BitVec.ofNat 32 newblk) ∨
      byteOffset sb (BitVec.ofNat 32 newblk) + sb.blockSize ≤ a →
      d'.data a = d.data a) : UsedSame sb blockmap d d' := by
  intro f _ hused i hi
  refine h _ ?_
  rw [hgeo.byteOffset_frag (a := newblk) (by
    have := hgeo.fpb_pos
    omega), hgeo.blockSize_eq]
  refine bytes_apart (runs_apart Nat.one_pos hgeo.fpb_pos fun k hk l hl heq => ?_)
    (by rwa [Nat.one_mul])
  have hnot := hfree l hl
  rw [← heq, Nat.lt_one_iff.mp hk, Nat.add_zero, hused] at hnot
  cases hnot

/-- **Where a chunk of a directory lies**: in a run of fragments in use. -/
theorem GoodDir.chunk_held (h : GoodDir sb needswap d dp imax blockmap)
    (hgeo : GrowGeometry sb) {c : Nat} (hc : c < dp.size / DIRBLKSIZ) :
    ∃ p n, dp.db (Fin.ofNat 12 (c / blockChunks sb)) = p ∧ 0 < n ∧
      p + n ≤ sb.fragCount ∧ (∀ k < n, blockmap (p + k) = true) ∧
      chunkStart sb c + DIRBLKSIZ ≤ n * sb.fragSize := by
  have hpos := hgeo.block_chunks.2
  rw [hgeo.dir_chunks h.size_chunks] at hc
  have hk := Nat.mod_lt c hpos
  have hdiv := Nat.div_add_mod c (blockChunks sb)
  have hstart : chunkStart sb c = DIRBLKSIZ * (c % blockChunks sb) := rfl
  obtain hlt | hge := Nat.lt_or_ge (c / blockChunks sb) (lblkno sb dp.size)
  · -- the block is whole
    obtain ⟨-, hfrags, hin⟩ := h.whole hgeo hlt
    obtain ⟨-, hend, hused⟩ := h.pointers.held _ hin
    rw [hfrags] at hend hused
    refine ⟨_, _, rfl, hgeo.fpb_pos, hend, hused, ?_⟩
    rw [← hgeo.blockSize_eq, hgeo.block_chunks.1, hstart, ← Nat.mul_succ]
    exact Nat.mul_le_mul_left _ hk
  · -- the block is the last one
    have hmul := Nat.mul_le_mul_left (blockChunks sb) hge
    rw [Nat.mul_comm (blockChunks sb) (lblkno sb dp.size)] at hmul
    have hindex : c / blockChunks sb = lblkno sb dp.size := by
      refine Nat.le_antisymm (Nat.le_of_lt_succ ?_) hge
      rw [Nat.div_lt_iff_lt_mul hpos, Nat.succ_mul]
      have hlast := hgeo.lastChunks_lt h.size_chunks
      omega
    rw [hindex, Nat.mul_comm] at hdiv
    have hchunk : c % blockChunks sb < lastChunks sb dp := by omega
    obtain ⟨n, hn, -, hsize, -, hend, hused, -⟩ :=
      h.last_held hgeo (Nat.zero_lt_of_lt hchunk)
    rw [hindex]
    refine ⟨_, n, rfl, hn, hend, hused, ?_⟩
    rw [← hsize, hstart, ← Nat.mul_succ]
    exact (Nat.mul_le_mul_left _ hchunk).trans (hgeo.le_lastSize h.size_chunks h.room)

/-- **A directory in fragments in use** has its chunks. -/
theorem UsedSame.chunks (hsame : UsedSame sb blockmap d d')
    (h : GoodDir sb needswap d dp imax blockmap) (hgeo : GrowGeometry sb) {c : Nat}
    (hc : c < dp.size / DIRBLKSIZ) :
    Same (chunkBlock sb d dp c) (chunkBlock sb d' dp c) (chunkStart sb c)
      (chunkStart sb c + DIRBLKSIZ) := by
  obtain ⟨p, n, hp, hn, hend, hused, hroom⟩ := h.chunk_held hgeo hc
  intro j _ hj
  unfold chunkBlock Device.block
  rw [hp, hgeo.byteOffset_frag (a := p) (by omega)]
  have hk : j / sb.fragSize < n :=
    (Nat.div_lt_iff_lt_mul hgeo.fragSize_pos).mpr (Nat.lt_of_lt_of_le hj hroom)
  have hat : p * sb.fragSize + j
      = (p + j / sb.fragSize) * sb.fragSize + j % sb.fragSize := by
    have hdiv := Nat.div_add_mod j sb.fragSize
    rw [Nat.add_mul, Nat.mul_comm (j / sb.fragSize), Nat.add_assoc, hdiv]
  rw [hat]
  exact (hsame _ (by omega) (hused _ hk) _ (Nat.mod_lt _ hgeo.fragSize_pos)).symm

/-- **It is as well-formed as it was, with the same entries.** -/
theorem UsedSame.dir (hsame : UsedSame sb blockmap d d')
    (h : GoodDir sb needswap d dp imax blockmap) (hgeo : GrowGeometry sb) :
    GoodDir sb needswap d' dp imax blockmap ∧
      dirEntries sb needswap d' dp = dirEntries sb needswap d dp :=
  ⟨{ h with chunks := fun c hc => (h.chunks c hc).congr (hsame.chunks h hgeo hc) },
    flatMap_range_congr fun c hc => (liveEntries_congr (h.chunks c hc).records
      (chunkView_congr (hsame.chunks h hgeo hc))).symm⟩

/-- The new block is in the buffer, and nothing has been written but what was
there before. -/
theorem filledNew_left {io : DirIo}
    (hne : fsbtodb sb (lastBlock sb dp) ≠ fsbtodb sb (BitVec.ofNat 32 newblk)) :
    (filledNew sb needswap dp newblk io).dev = (flush needswap io).dev ∧
      (filledNew sb needswap dp newblk io).fileblk.bno
        = fsbtodb sb (BitVec.ofNat 32 newblk) ∧
      (filledNew sb needswap dp newblk io).fileblk.size = sb.blockSize := by
  obtain ⟨hdev₁, hbno₁⟩ :=
    flush_after_getblk sb needswap (lastBlock sb dp) (lastSize sb dp) io
  have hbno₁ : (askedLast sb needswap dp io).fileblk.bno = fsbtodb sb (lastBlock sb dp) :=
    hbno₁
  obtain ⟨hdev₂, hbno₂, hsize₂, -⟩ := @getblk_miss sb needswap
    (askedLast sb needswap dp io) (BitVec.ofNat 32 newblk) sb.blockSize
    (by rw [hbno₁]; exact hne)
  exact ⟨hdev₂.trans hdev₁, hbno₂, hsize₂⟩

/-- **The last request** is for another block than the one in the buffer: the new
block has been written, and the buffer is clean. -/
theorem askedAgain_left {io : DirIo}
    (hne : fsbtodb sb (lastBlock sb dp) ≠ fsbtodb sb (BitVec.ofNat 32 newblk)) :
    (askedAgain sb needswap dp newblk io).fileblk.dirty = false ∧
      (askedAgain sb needswap dp newblk io).fileblk.bno = fsbtodb sb (lastBlock sb dp) ∧
      ∀ a, a < byteOffset sb (BitVec.ofNat 32 newblk) ∨
        byteOffset sb (BitVec.ofNat 32 newblk) + sb.blockSize ≤ a →
        (askedAgain sb needswap dp newblk io).dev.data a
          = (flush needswap io).dev.data a := by
  obtain ⟨hfilled, hnew, hsize⟩ := @filledNew_left sb needswap newblk dp io hne
  obtain ⟨hdev, hbno, -, hclean⟩ := @getblk_miss sb needswap
    (filledNew sb needswap dp newblk io) (lastBlock sb dp) (lastSize sb dp)
    (by rw [hnew]; exact hne.symm)
  refine ⟨hclean, hbno, fun a ha => ?_⟩
  have hdev : (askedAgain sb needswap dp newblk io).dev
      = (flush needswap (filledNew sb needswap dp newblk io)).dev := hdev
  rw [hdev, flush_outside (by rw [hnew, hsize]; exact ha), hfilled]

/-- Bytes put at the start of what is shown do not show if they were there. -/
theorem store_same_iff {buf block : Nat → UInt8} {bs : Bytes} {n : Nat}
    (h : Same buf block 0 n) (hn : bs.length ≤ n) :
    Same (store buf 0 bs) block 0 n ↔ ∀ i < bs.length, block i = bs.getD i 0 := by
  constructor
  · intro hsame i hi
    have hput : store buf 0 bs (0 + i) = bs[i] := store_in hi
    rw [Nat.zero_add] at hput
    rw [← hsame i (Nat.zero_le i) (Nat.lt_of_lt_of_le hi hn), hput,
      List.getD_eq_getElem _ _ hi]
  · intro hput i hlo hi
    by_cases hin : i < bs.length
    · have hstore : store buf 0 bs (0 + i) = bs[i] := store_in hin
      rw [Nat.zero_add] at hstore
      rw [hstore, hput i hin, List.getD_eq_getElem _ _ hin]
    · rw [store_out (.inr (by omega))]
      exact h i hlo hi

/-- **What a refusal leaves in the buffer**: it is clean, so the last block is
answered from it, and shows the block as it is on the device exactly if an empty
record of the length of a chunk is at its start. -/
def RefusedBuffer (sb : Superblock) (needswap : Bool) (dp : Inode) (io : DirIo) : Prop :=
  io.fileblk.dirty = false ∧
  (∀ n, getblk sb needswap (lastBlock sb dp) n io = io) ∧
  (Same io.fileblk.buf
      (hostBlock needswap (lastSize sb dp) (io.dev.block sb (lastBlock sb dp))) 0
      (lastSize sb dp) ↔
    ∀ i < emptydir.length,
      hostBlock needswap (lastSize sb dp) (io.dev.block sb (lastBlock sb dp)) i
        = emptydir.getD i 0)

theorem refused_buffer {io : DirIo} (hgeo : GrowGeometry sb)
    (hdir : GoodDir sb needswap d dp imax blockmap)
    (hragged : dp.size % sb.blockSize ≠ 0)
    (hne : fsbtodb sb (lastBlock sb dp) ≠ fsbtodb sb (BitVec.ofNat 32 newblk))
    (herrs : (askedAgain sb needswap dp newblk io).fileblk.errs = 0) :
    RefusedBuffer sb needswap dp (refused sb needswap dp newblk io) := by
  obtain ⟨hclean, hbno, -⟩ := @askedAgain_left sb needswap newblk dp io hne
  refine ⟨hclean, fun n => getblk_hit hbno, ?_⟩
  have hread := @getblk_read sb needswap (filledNew sb needswap dp newblk io)
    (lastBlock sb dp) (lastSize sb dp)
    (by rw [(filledNew_left hne).2.1]; exact hne.symm) herrs
  refine store_same_iff hread.buf ?_
  have hchunks := hgeo.lastChunks_pos hdir.size_chunks hragged
  calc emptydir.length ≤ DIRBLKSIZ * 1 := by decide
    _ ≤ DIRBLKSIZ * lastChunks sb dp := Nat.mul_le_mul_left _ hchunks
    _ ≤ lastSize sb dp := hgeo.le_lastSize hdir.size_chunks hdir.room

/-- **Where a growth that fails has stopped**, and what is in use on the device
then. -/
theorem expanddir_stops (hgeo : GrowGeometry sb)
    (hdir : GoodDir sb needswap (flush needswap s.io).dev dp imax s.blockmap)
    (hmarks : MapMarks sb s) (hfail : (expanddir sb needswap yes dp s).2.2 = false) :
    ∃ io, expanddir sb needswap yes dp s = (dp, { s with io := io }, false) ∧
      UsedSame sb s.blockmap (flush needswap s.io).dev (flush needswap io).dev ∧
      ((expanddir sb needswap true dp s).2.2 = true → ∃ newblk,
        fsbtodb sb (lastBlock sb dp) ≠ fsbtodb sb (BitVec.ofNat 32 newblk) ∧
        (askedAgain sb needswap dp newblk s.io).fileblk.errs = 0 ∧
        io = refused sb needswap dp newblk s.io) := by
  have hroom := hdir.room
  have hspare : dp.db (Fin.ofNat 12 (lblkno sb dp.size + 1)) = 0 := by
    refine hdir.pointers.spare _ ?_
    have hval : ((Fin.ofNat 12 (lblkno sb dp.size + 1) : Fin 12) : Nat)
        = lblkno sb dp.size + 1 := Nat.mod_eq_of_lt (by unfold NDADDR at hroom; omega)
    have hpos : 0 < sb.blockSize := by
      rw [hgeo.block_chunks.1]
      exact Nat.mul_pos (by decide) hgeo.block_chunks.2
    rw [hval, Nat.mul_comm]
    exact Nat.le_of_lt (Nat.lt_mul_div_succ dp.size hpos)
  rcases @expanddir_cases sb needswap dp s hmarks hspare with
    hnone | ⟨newblk, hne, hin, hfree, hcases⟩
  · -- there is no block
    refine ⟨s.io, hnone yes, fun _ _ _ _ _ => rfl, fun hok => ?_⟩
    rw [hnone true] at hok
    cases hok
  -- the two blocks are not the same, so each request but the first is a read
  have hapart : fsbtodb sb (lastBlock sb dp) ≠ fsbtodb sb (BitVec.ofNat 32 newblk) :=
    fun heq => (hdir.new_apart hgeo hne hin hfree).1
      (congrArg (fun db => (dbtob db).toNat) heq)
  have hlast := (flush_after_getblk sb needswap (lastBlock sb dp) (lastSize sb dp) s.io).1
  have hnew := (flush_after_getblk sb needswap (BitVec.ofNat 32 newblk) sb.blockSize
    (askedLast sb needswap dp s.io)).1
  obtain ⟨hclean, -, hwritten⟩ := @askedAgain_left sb needswap newblk dp s.io hapart
  have hagain := UsedSame.of_outside hgeo hin hfree hwritten
  have hrun := hcases yes
  by_cases herrs₁ : (askedLast sb needswap dp s.io).fileblk.errs ≠ 0
  · -- nothing has been written but what was dirty before
    rw [if_pos herrs₁] at hrun
    refine ⟨_, hrun, fun _ _ _ _ _ => congrFun (congrArg Device.data hlast) _,
      fun hok => ?_⟩
    rw [hcases true, if_pos herrs₁] at hok
    cases hok
  rw [if_neg herrs₁] at hrun
  by_cases herrs₂ : (askedNew sb needswap dp newblk s.io).fileblk.errs ≠ 0
  · rw [if_pos herrs₂] at hrun
    refine ⟨_, hrun, fun _ _ _ _ _ =>
      congrFun (congrArg Device.data (hnew.trans hlast)) _, fun hok => ?_⟩
    rw [hcases true, if_neg herrs₁, if_pos herrs₂] at hok
    cases hok
  rw [if_neg herrs₂] at hrun
  by_cases herrs₄ : (askedAgain sb needswap dp newblk s.io).fileblk.errs ≠ 0
  · -- the new block has been written, and nothing in use is in it
    rw [if_pos herrs₄] at hrun
    refine ⟨_, hrun, ?_, fun hok => ?_⟩
    · rw [flush_clean hclean]
      exact hagain
    · rw [hcases true, if_neg herrs₁, if_neg herrs₂, if_pos herrs₄] at hok
      cases hok
  rw [if_neg herrs₄] at hrun
  cases yes with
  | true =>
    rw [hrun] at hfail
    cases hfail
  | false =>
    -- `emptydir` is in the buffer, which is not marked as dirty
    refine ⟨_, hrun, ?_, fun _ => ⟨newblk, hapart, not_not.mp herrs₄, rfl⟩⟩
    have hrefused : (refused sb needswap dp newblk s.io).fileblk.dirty = false := hclean
    rw [flush_clean hrefused]
    exact hagain

/-- **What a growth that fails has left.**  But for the buffer the state is as it
was, and once the buffer is flushed the fragments in use are, with the directory
and its entries.  If it was the operator who refused, a partial last block is
answered from the buffer from now on, as it is only if it started empty. -/
theorem expanddir_fails (hgeo : GrowGeometry sb)
    (hdir : GoodDir sb needswap (flush needswap s.io).dev dp imax s.blockmap)
    (hmarks : MapMarks sb s) (hfail : (expanddir sb needswap yes dp s).2.2 = false) :
    ∃ io, expanddir sb needswap yes dp s = (dp, { s with io := io }, false) ∧
      UsedSame sb s.blockmap (flush needswap s.io).dev (flush needswap io).dev ∧
      GoodDir sb needswap (flush needswap io).dev dp imax s.blockmap ∧
      dirEntries sb needswap (flush needswap io).dev dp
        = dirEntries sb needswap (flush needswap s.io).dev dp ∧
      ((expanddir sb needswap true dp s).2.2 = true → dp.size % sb.blockSize ≠ 0 →
        RefusedBuffer sb needswap dp io) := by
  obtain ⟨io, hrun, hused, hagree⟩ := expanddir_stops hgeo hdir hmarks hfail
  obtain ⟨hgood, hentries⟩ := hused.dir hdir hgeo
  refine ⟨io, hrun, hused, hgood, hentries, fun hok hragged => ?_⟩
  obtain ⟨newblk, hapart, herrs, rfl⟩ := hagree hok
  exact refused_buffer hgeo hdir hragged hapart herrs

end Left

/-! ## §4. A refusal on a disk of 4 MiB. -/

/-- A directory is as well-formed with more fragments in use. -/
theorem GoodDir.more {sb : Superblock} {needswap : Bool} {d : Device} {dp : Inode}
    {imax : Nat} {m m' : Nat → Bool} (h : GoodDir sb needswap d dp imax m)
    (hmore : ∀ f, m f = true → m' f = true) : GoodDir sb needswap d dp imax m' :=
  { h with
    pointers :=
      { h.pointers with
        held := fun i hi =>
          ⟨(h.pointers.held i hi).1, (h.pointers.held i hi).2.1, fun k hk =>
            hmore _ ((h.pointers.held i hi).2.2 k hk)⟩ } }

/-- The state of before, with the metadata of the second group in use too. -/
def markedState : Repair :=
  { growState 0xffffffff 0 (fun _ => 0) with
    blockmap := fun f => decide (f < 208) || outrange (labelSb 4096 2) f 1 }

theorem markedState_marks : MapMarks (labelSb 4096 2) markedState where
  zero := rfl
  outside := fun f _ hout => by
    show (decide (f < 208) || outrange (labelSb 4096 2) f 1) = true
    rw [hout, Bool.or_true]
  dups := fun _ hdup => absurd hdup List.not_mem_nil

/-- **The operator refuses** to let a directory of one chunk grow: its entry is on
the device, but not in the block that is answered from the buffer. -/
theorem expanddir_fails_oneChunk : ∃ io,
    expanddir (labelSb 4096 2) true false (dirAt200 1024 1) markedState
      = (dirAt200 1024 1, { markedState with io := io }, false) ∧
    dirEntries (labelSb 4096 2) true (flush true io).dev (dirAt200 1024 1)
      = dirEntries (labelSb 4096 2) true growDevice (dirAt200 1024 1) ∧
    (∀ n, getblk (labelSb 4096 2) true (lastBlock (labelSb 4096 2) (dirAt200 1024 1)) n io
      = io) ∧
    ¬Same io.fileblk.buf (hostBlock true (lastSize (labelSb 4096 2) (dirAt200 1024 1))
      (io.dev.block (labelSb 4096 2) (lastBlock (labelSb 4096 2) (dirAt200 1024 1)))) 0
      (lastSize (labelSb 4096 2) (dirAt200 1024 1)) := by
  have hdir : GoodDir (labelSb 4096 2) true growDevice (dirAt200 1024 1) 100
      markedState.blockmap :=
    (dirAt200_good (by decide) (by decide) (by decide) (by decide)).more
      fun f hf => (congrArg (· || _) hf).trans (Bool.true_or _)
  have hfirst : hostBlock true (lastSize (labelSb 4096 2) (dirAt200 1024 1))
      ((expanddir (labelSb 4096 2) true false (dirAt200 1024 1)
        markedState).2.1.io.dev.block (labelSb 4096 2)
          (lastBlock (labelSb 4096 2) (dirAt200 1024 1))) 0 ≠ emptydir.getD 0 0 := by
    decide +kernel
  obtain ⟨io, hrun, -, -, hentries, hrefused⟩ :=
    expanddir_fails growGeometry_label hdir markedState_marks
      (by decide +kernel : (expanddir (labelSb 4096 2) true false (dirAt200 1024 1)
        markedState).2.2 = false)
  obtain ⟨-, hhit, hshown⟩ := hrefused (by decide +kernel) (by decide)
  rw [hrun] at hfirst
  exact ⟨io, hrun, hentries, hhit, fun hsame => hfirst (hshown.mp hsame 0 (by decide))⟩

end NextUfs.Fsck
