/-
  NextUfs.Format.GroupCounts
  ──────────────────────────
  **A GROUP THE FORMATTER HAS WRITTEN COUNTS WHAT IT HAS.**

  `initcg` walks over the blocks of a group, sets or clears the bits of one
  after the other, and counts as it goes.  `Tallied` says how far the walk has
  come: up to block `k` the bits are those of the map `m` that the group is to
  have, and the counters are the sums over the blocks before it.

    • `Tallied.next`      — one block more, used, free or partly free,
    • `lower_tallied`, `metadata_tallied`, `data_tallied`, `tail_tallied`
      — the regions,
    • `groupBlocks_built` — the whole map.
-/
import NextUfs.Core.Accounting
import NextUfs.Resize.Agree

namespace NextUfs.Format

open Bits Loop Resize

/-! ## §1. What the counters see of a block. -/

/-- Block `k` of the map adds `whole` to the free blocks, `frags` to the free
fragments and `runs j` to the runs of length `j`. -/
structure BlockAdds (sb : Superblock) (m : Nat → Bool) (k whole frags : Nat)
    (runs : Nat → Nat) : Prop where
  block : wholeBlock sb m k = whole
  part : partFrags sb m k = frags
  run : ∀ j, 1 ≤ j → partRuns sb j m k = runs j
  place : ∀ (p : Nat → Prop) [DecidablePred p], wholeBlockIn sb p m k
    = if whole = 1 ∧ p (k * sb.fragsPerBlock) then 1 else 0

section Adds

variable {sb : Superblock} {m : Nat → Bool} {k : Nat}

/-- A block that is not wholly free. -/
private theorem BlockAdds.of_part {frags : Nat} {runs : Nat → Nat}
    (hw : wholeFree sb m k = false)
    (hfrags : popRange m (k * sb.fragsPerBlock) sb.fragsPerBlock = frags)
    (hruns : ∀ j, 1 ≤ j →
      runsOf m (k * sb.fragsPerBlock) sb.fragsPerBlock j = runs j) :
    BlockAdds sb m k 0 frags runs where
  block := by
    unfold wholeBlock
    rw [hw]
    rfl
  part := by
    unfold partFrags
    rw [hw]
    exact hfrags
  run := by
    intro j hj
    unfold partRuns
    rw [hw]
    exact hruns j hj
  place := by
    intro p _
    unfold wholeBlockIn
    rw [hw, if_neg (by simp), if_neg (by omega)]

/-- A used block adds nothing. -/
theorem blockAdds_used (hfpb : 0 < sb.fragsPerBlock)
    (hclr : ∀ i < sb.fragsPerBlock, m (k * sb.fragsPerBlock + i) = false) :
    BlockAdds sb m k 0 0 fun _ => 0 := by
  refine .of_part ?_ (popRange_eq_zero hclr) ?_
  · rw [Bool.eq_false_iff]
    intro hall
    unfold wholeFree at hall
    rw [allSet_iff] at hall
    have h0 := hall 0 hfpb
    rw [hclr 0 hfpb] at h0
    cases h0
  · intro j hj
    rw [ runsOf_prefix (Nat.zero_le _) (fun i hi => absurd hi (Nat.not_lt_zero i))
      (fun i _ hi => hclr i hi), if_neg (by omega)]

/-- A free block adds itself. -/
theorem blockAdds_free
    (hset : ∀ i < sb.fragsPerBlock, m (k * sb.fragsPerBlock + i) = true) :
    BlockAdds sb m k 1 0 fun _ => 0 := by
  have hw : wholeFree sb m k = true := by
    unfold wholeFree
    rw [allSet_iff]
    exact hset
  constructor
  case block =>
    unfold wholeBlock
    rw [hw]
    rfl
  case part =>
    unfold partFrags
    rw [if_pos hw]
  case run =>
    intro j _
    unfold partRuns
    rw [if_pos hw]
  case place =>
    intro p _
    unfold wholeBlockIn
    rw [hw]
    simp

/-- A block of which the fragments `[s, s + n)` are free, at its beginning or
its end, adds `n` fragments and one run. -/
theorem blockAdds_run {s n : Nat} (hn : 0 < n) (hlt : n < sb.fragsPerBlock)
    (hs : s = k * sb.fragsPerBlock ∨
      s + n = k * sb.fragsPerBlock + sb.fragsPerBlock)
    (hset : ∀ i < n, m (s + i) = true)
    (hclr : ∀ i < sb.fragsPerBlock, k * sb.fragsPerBlock + i < s ∨
      s + n ≤ k * sb.fragsPerBlock + i → m (k * sb.fragsPerBlock + i) = false) :
    BlockAdds sb m k 0 n fun j => if j = n then 1 else 0 := by
  have hbit : ∀ i < sb.fragsPerBlock, m (k * sb.fragsPerBlock + i)
      = decide (s ≤ k * sb.fragsPerBlock + i ∧ k * sb.fragsPerBlock + i < s + n) := by
    intro i hi
    by_cases hin : s ≤ k * sb.fragsPerBlock + i ∧ k * sb.fragsPerBlock + i < s + n
    · have hbit := hset (k * sb.fragsPerBlock + i - s) (by omega)
      rw [show s + (k * sb.fragsPerBlock + i - s) = k * sb.fragsPerBlock + i by omega]
        at hbit
      rw [hbit, decide_eq_true hin]
    · rw [hclr i hi (by omega), decide_eq_false hin]
  refine .of_part ?_ ?_ ?_
  · rw [Bool.eq_false_iff]
    intro hall
    unfold wholeFree at hall
    rw [allSet_iff] at hall
    -- the run begins at one end of the block, so the other end is used
    rcases hs with hs | hs
    · have h0 := hall (sb.fragsPerBlock - 1) (by omega)
      rw [hbit _ (by omega), decide_eq_true_eq] at h0
      omega
    · have h0 := hall 0 (by omega)
      rw [hbit _ (by omega), decide_eq_true_eq] at h0
      omega
  · have hsum := sum_indicator (k * sb.fragsPerBlock) s n sb.fragsPerBlock
      (by omega) (by omega)
    rw [← hsum]
    unfold popRange
    refine Finset.sum_congr rfl fun i hi => ?_
    rw [hbit i (Finset.mem_range.mp hi)]
    split
    · rename_i h
      rw [decide_eq_true h]
      rfl
    · rename_i h
      rw [decide_eq_false h]
      rfl
  · intro j hj
    rcases hs with hs | hs
    · rw [ runsOf_prefix (n := n) (by omega)
        (fun i hi => by rw [hbit i (by omega), decide_eq_true_eq]; omega)
        (fun i hi hw => by rw [hbit i hw, decide_eq_false_iff_not]; omega)]
      simp [hn]
    · rw [runsOf_suffix (n := sb.fragsPerBlock - n) (by omega)
        (fun i hi => by rw [hbit i (by omega), decide_eq_false_iff_not]; omega)
        (fun i hi hw => by rw [hbit i hw, decide_eq_true_eq]; omega)]
      have heq : sb.fragsPerBlock - (sb.fragsPerBlock - n) = n := by omega
      rw [heq]
      simp [show sb.fragsPerBlock - n < sb.fragsPerBlock by omega]

end Adds

/-! ## §2. A walk over the blocks. -/

/-- **The walk has come to block `k`**: before it the bits are those of `m` and
the counters are the sums over the blocks; what no group has room for is
clear. -/
structure Tallied (fs : Fs) (m : Nat → Bool) (k : Nat) (g : Cg) : Prop where
  below : ∀ i < k * fs.frag, g.free i = m i
  above : ∀ i, fs.MAXBPG * fs.frag ≤ i → g.free i = false
  nbfree : g.cs.nbfree
    = UInt32.ofNat (∑ j ∈ Finset.range k, wholeBlock fs.decoded m j)
  nffree : g.cs.nffree
    = UInt32.ofNat (∑ j ∈ Finset.range k, partFrags fs.decoded m j)
  frsum : ∀ l, 1 ≤ l → l < fs.frag → g.frsum l
    = UInt32.ofNat (∑ j ∈ Finset.range k, partRuns fs.decoded l m j)
  btot : ∀ cyl < MAXCPG, g.btot cyl = UInt32.ofNat (∑ j ∈ Finset.range k,
    wholeBlockIn fs.decoded (fun f => cylno fs.decoded f = cyl) m j)
  b : ∀ cyl < MAXCPG, ∀ pos < NRPOS, g.b cyl pos
    = UInt16.ofNat (∑ j ∈ Finset.range k, wholeBlockIn fs.decoded
      (fun f => cylno fs.decoded f = cyl ∧ rotpos fs.decoded f = pos) m j)

section Walk

variable {fs : Fs} {m : Nat → Bool} {k : Nat} {g g' : Cg}

/-- A group without free fragments, before the walk. -/
theorem Tallied.start (habove : ∀ i, fs.MAXBPG * fs.frag ≤ i → g.free i = false)
    (hnb : g.cs.nbfree = 0) (hnf : g.cs.nffree = 0)
    (hfr : ∀ l, 1 ≤ l → l < fs.frag → g.frsum l = 0)
    (hbt : ∀ cyl < MAXCPG, g.btot cyl = 0)
    (hb : ∀ cyl < MAXCPG, ∀ pos < NRPOS, g.b cyl pos = 0) :
    Tallied fs m 0 g where
  below := by
    intro i hi
    omega
  above := habove
  nbfree := hnb
  nffree := hnf
  frsum := hfr
  btot := hbt
  b := hb

/-- **One block more.** -/
theorem Tallied.next (h : Tallied fs m k g) {whole frags : Nat}
    {runs : Nat → Nat} (hadds : BlockAdds fs.decoded m k whole frags runs)
    (hbelow : ∀ i < (k + 1) * fs.frag, g'.free i = m i)
    (habove : ∀ i, fs.MAXBPG * fs.frag ≤ i → g'.free i = false)
    (hnb : g'.cs.nbfree = g.cs.nbfree + UInt32.ofNat whole)
    (hnf : g'.cs.nffree = g.cs.nffree + UInt32.ofNat frags)
    (hfr : ∀ l, 1 ≤ l → l < fs.frag →
      g'.frsum l = g.frsum l + UInt32.ofNat (runs l))
    (hbt : ∀ cyl < MAXCPG, g'.btot cyl = g.btot cyl + UInt32.ofNat
      (if whole = 1 ∧ cylno fs.decoded (k * fs.frag) = cyl then 1 else 0))
    (hb : ∀ cyl < MAXCPG, ∀ pos < NRPOS, g'.b cyl pos = g.b cyl pos
      + UInt16.ofNat (if whole = 1 ∧ (cylno fs.decoded (k * fs.frag) = cyl ∧
          rotpos fs.decoded (k * fs.frag) = pos) then 1 else 0)) :
    Tallied fs m (k + 1) g' where
  below := hbelow
  above := habove
  nbfree := by
    rw [hnb, h.nbfree, Finset.sum_range_succ, hadds.block, UInt32.ofNat_add]
  nffree := by
    rw [hnf, h.nffree, Finset.sum_range_succ, hadds.part, UInt32.ofNat_add]
  frsum := by
    intro l hl1 hl
    rw [hfr l hl1 hl, h.frsum l hl1 hl, Finset.sum_range_succ,
      hadds.run l hl1, UInt32.ofNat_add]
  btot := by
    intro cyl hcyl
    rw [hbt cyl hcyl, h.btot cyl hcyl, Finset.sum_range_succ,
      hadds.place, UInt32.ofNat_add]
    rfl
  b := by
    intro cyl hcyl pos hpos
    rw [hb cyl hcyl pos hpos, h.b cyl hcyl pos hpos, Finset.sum_range_succ,
      hadds.place, UInt16.ofNat_add]
    rfl

/-- Another map that agrees with the first so far. -/
theorem Tallied.congr (h : Tallied fs m k g) {m' : Nat → Bool}
    (hsame : ∀ i < k * fs.frag, m' i = m i) : Tallied fs m' k g := by
  have hblock : ∀ F : (Nat → Bool) → Nat → Nat, Local fs.decoded F →
      ∑ j ∈ Finset.range k, F m' j = ∑ j ∈ Finset.range k, F m j := by
    intro F hF
    refine Finset.sum_congr rfl fun j hj => ?_
    apply hF
    intro i _ hi
    have hle := Nat.mul_le_mul_right fs.frag
      (Nat.succ_le_of_lt (Finset.mem_range.mp hj))
    rw [Nat.succ_mul] at hle
    exact hsame i (Nat.lt_of_lt_of_le hi hle)
  constructor
  case below =>
    intro i hi
    rw [h.below i hi, hsame i hi]
  case above => exact h.above
  case nbfree => rw [h.nbfree, hblock _ (local_wholeBlock _)]
  case nffree => rw [h.nffree, hblock _ (local_partFrags _)]
  case frsum =>
    intro l hl1 hl
    rw [h.frsum l hl1 hl, hblock _ (local_partRuns _ l)]
  case btot =>
    intro cyl hcyl
    rw [h.btot cyl hcyl, hblock _ (local_wholeBlockIn _ _)]
  case b =>
    intro cyl hcyl pos hpos
    rw [h.b cyl hcyl pos hpos, hblock _ (local_wholeBlockIn _ _)]

/-- A used block is taken back: it added nothing. -/
theorem Tallied.uncount (hfrag : 0 < fs.frag) (h : Tallied fs m (k + 1) g)
    (hused : ∀ i < fs.frag, m (k * fs.frag + i) = false) :
    Tallied fs m k g := by
  have hadds : BlockAdds fs.decoded m k 0 0 fun _ => 0 :=
    blockAdds_used hfrag hused
  constructor
  case below =>
    intro i hi
    apply h.below
    rw [Nat.succ_mul]
    omega
  case above => exact h.above
  case nbfree => rw [h.nbfree, Finset.sum_range_succ, hadds.block, Nat.add_zero]
  case nffree => rw [h.nffree, Finset.sum_range_succ, hadds.part, Nat.add_zero]
  case frsum =>
    intro l hl1 hl
    rw [h.frsum l hl1 hl, Finset.sum_range_succ, hadds.run l hl1, Nat.add_zero]
  case btot =>
    intro cyl hcyl
    rw [h.btot cyl hcyl, Finset.sum_range_succ, hadds.place, if_neg (by omega),
      Nat.add_zero]
  case b =>
    intro cyl hcyl pos hpos
    rw [h.b cyl hcyl pos hpos, Finset.sum_range_succ, hadds.place,
      if_neg (by omega), Nat.add_zero]

end Walk

/-! ## §3. The rounds of the walk. -/

section Rounds

/-- The decoded superblock has the geometry it was decoded from. -/
theorem sameGeometry_decoded (fs : Fs) : SameGeometry fs.decoded fs := rfl

variable {fs : Fs} (hl : LaidOut fs) {m : Nat → Bool} {k : Nat} {g : Cg}
include hl

/-- **A used block**: its bits are cleared, and nothing is counted. -/
theorem clearBlock_next (h : Tallied fs m k g)
    (hused : ∀ i < fs.frag, m (k * fs.frag + i) = false) :
    Tallied fs m (k + 1) (clearBlock fs (k * fs.frag) g) := by
  have hfree : (clearBlock fs (k * fs.frag) g).free
      = clearRange g.free (k * fs.frag) fs.frag :=
    clrblock_eq hl (Nat.dvd_mul_left _ _) _
  refine h.next (blockAdds_used hl.sized.frag_pos hused) ?_ ?_ ?_ ?_ ?_ ?_ ?_
  · intro i hi
    rw [Nat.succ_mul] at hi
    rw [hfree]
    by_cases hik : i < k * fs.frag
    · rw [clearRange_of_not_mem (.inl hik)]
      exact h.below i hik
    · rw [clearRange_of_mem ⟨by omega, hi⟩]
      have hbit := hused (i - k * fs.frag) (by omega)
      rwa [show k * fs.frag + (i - k * fs.frag) = i by omega, eq_comm] at hbit
  · intro i hi
    rw [hfree]
    unfold clearRange
    rw [h.above i hi, ite_self]
  · exact (UInt32.add_zero _).symm
  · exact (UInt32.add_zero _).symm
  · exact fun l _ _ => (UInt32.add_zero _).symm
  · intro cyl _
    rw [if_neg (by omega)]
    exact (UInt32.add_zero _).symm
  · intro cyl _ pos _
    rw [if_neg (by omega)]
    exact (UInt16.add_zero _).symm

/-- **A free block**: its bits are set, and it is counted at its cylinder and
position. -/
theorem freeBlock_next (hb : fs.bsize ≤ MAXBSIZE) (h : Tallied fs m k g)
    (hfit : (k + 1) * fs.frag ≤ fs.fpg)
    (hset : ∀ i < fs.frag, m (k * fs.frag + i) = true) :
    Tallied fs m (k + 1) (freeBlock fs (k * fs.frag) g) := by
  have hfrag := hl.sized.frag_pos
  have hnext : (k + 1) * fs.frag = k * fs.frag + fs.frag := Nat.succ_mul _ _
  have hfree : (freeBlock fs (k * fs.frag) g).free
      = setRange g.free (k * fs.frag) fs.frag :=
    setblock_eq hl (Nat.dvd_mul_left _ _) _
  have hcyl : cbtocylno fs (k * fs.frag) = cylno fs.decoded (k * fs.frag) :=
    (cylno_eq (sameGeometry_decoded fs) hl (by omega)).symm
  have hpos : cbtorpos fs (k * fs.frag) = rotpos fs.decoded (k * fs.frag) :=
    (rotpos_eq (sameGeometry_decoded fs) hl hb (by omega)).symm
  refine h.next (blockAdds_free hset) ?_ ?_ rfl ?_ ?_ ?_ ?_
  · intro i hi
    rw [hnext] at hi
    rw [hfree]
    by_cases hik : i < k * fs.frag
    · rw [setRange_of_not_mem (.inl hik)]
      exact h.below i hik
    · rw [setRange_of_mem ⟨by omega, hi⟩]
      have hbit := hset (i - k * fs.frag) (by omega)
      rwa [show k * fs.frag + (i - k * fs.frag) = i by omega, eq_comm] at hbit
  · intro i hi
    have hroom := hl.fpg_le
    rw [hfree, setRange_of_not_mem (.inr (by omega))]
    exact h.above i hi
  · exact (UInt32.add_zero _).symm
  · exact fun l _ _ => (UInt32.add_zero _).symm
  · intro cyl _
    show Function.update g.btot (cbtocylno fs (k * fs.frag)) _ cyl = _
    rw [hcyl]
    by_cases hc : cylno fs.decoded (k * fs.frag) = cyl
    · rw [hc, Function.update_self, if_pos ⟨rfl, rfl⟩]
      rfl
    · rw [Function.update_of_ne (Ne.symm hc), if_neg (fun h => hc h.2)]
      exact (UInt32.add_zero _).symm
  · intro cyl _ pos _
    show Function.update g.b (cbtocylno fs (k * fs.frag)) _ cyl pos = _
    rw [hcyl, hpos]
    by_cases hc : cylno fs.decoded (k * fs.frag) = cyl
    · rw [hc, Function.update_self]
      by_cases hp : rotpos fs.decoded (k * fs.frag) = pos
      · rw [hp, Function.update_self, if_pos ⟨rfl, rfl, rfl⟩]
        rfl
      · rw [Function.update_of_ne (Ne.symm hp), if_neg (fun h => hp h.2.2)]
        exact (UInt16.add_zero _).symm
    · rw [Function.update_of_ne (Ne.symm hc), if_neg (fun h => hc h.2.1)]
      exact (UInt16.add_zero _).symm

omit hl in
/-- **A run of free fragments** at the beginning or the end of a block that has
no others; `free` is the map after it. -/
theorem freeRun_next (h : Tallied fs m k g) {s n : Nat} (hn : 0 < n)
    (hlt : n < fs.frag)
    (hs : s = k * fs.frag ∨ s + n = k * fs.frag + fs.frag)
    (hset : ∀ i < n, m (s + i) = true)
    (hclr : ∀ i < fs.frag, k * fs.frag + i < s ∨ s + n ≤ k * fs.frag + i →
      m (k * fs.frag + i) = false)
    {free : Nat → Bool} (hbelow : ∀ i < (k + 1) * fs.frag, free i = m i)
    (habove : ∀ i, fs.MAXBPG * fs.frag ≤ i → free i = false) :
    Tallied fs m (k + 1) { freeRun s n g with free := free } := by
  refine h.next (blockAdds_run hn hlt hs hset hclr) hbelow habove ?_ rfl ?_ ?_ ?_
  · exact (UInt32.add_zero _).symm
  · intro l _ _
    show Function.update g.frsum n (g.frsum n + 1) l = _
    by_cases hln : l = n
    · rw [hln, Function.update_self, if_pos rfl]
      rfl
    · rw [Function.update_of_ne hln, if_neg hln]
      exact (UInt32.add_zero _).symm
  · intro cyl _
    rw [if_neg (by omega)]
    exact (UInt32.add_zero _).symm
  · intro cyl _ pos _
    rw [if_neg (by omega)]
    exact (UInt16.add_zero _).symm

omit hl in
/-- Rounds over the blocks up to block `hi`. -/
private theorem rounds_tallied {body : Nat → Cg → Cg} {hi : Nat} : ∀ n j g,
    j + n = hi →
    (∀ i g, j ≤ i → i < hi → Tallied fs m i g →
      Tallied fs m (i + 1) (body (i * fs.frag) g)) →
    Tallied fs m j g →
    Tallied fs m hi (rounds fs.frag body n (j * fs.frag) g) := by
  intro n
  induction n with
  | zero =>
    intro j g hj _ h
    rw [← hj]
    exact h
  | succ n ih =>
    intro j g hj hbody h
    rw [rounds, ← Nat.succ_mul]
    apply ih (j + 1) _ (by omega)
    · exact fun i g hi => hbody i g (by omega)
    · exact hbody j g (Nat.le_refl _) (by omega) h

omit hl in
/-- **A loop over blocks** whose condition holds up to block `hi`. -/
theorem forLoop_tallied {cond : Nat → Bool} {body : Nat → Cg → Cg}
    {hi fuel : Nat} (hcond : ∀ j, cond (j * fs.frag) = decide (j < hi))
    (hbody : ∀ j g, k ≤ j → j < hi → Tallied fs m j g →
      Tallied fs m (j + 1) (body (j * fs.frag) g))
    (hk : k ≤ hi) (hfuel : hi < fuel) (h : Tallied fs m k g) :
    (forLoop cond fs.frag body fuel (k * fs.frag) g).1 = hi * fs.frag ∧
      Tallied fs m hi (forLoop cond fs.frag body fuel (k * fs.frag) g).2 := by
  have hshift : ∀ j, k * fs.frag + j * fs.frag = (k + j) * fs.frag := by
    intro j
    ring
  have hend : k + (hi - k) = hi := by omega
  rw [forLoop_eq (hi - k) fuel (k * fs.frag) g (by omega)
    (by
      intro j hj
      rw [hshift, hcond, decide_eq_true (by omega)])
    (by
      rw [hshift, hcond, hend, decide_eq_false (Nat.lt_irrefl _)])]
  refine ⟨by rw [hshift, hend], ?_⟩
  exact rounds_tallied (hi - k) k g hend hbody h

end Rounds

/-! ## §4. The regions. -/

/-- Blocks that begin before `x`. -/
theorem lt_howmany {x y : Nat} (hy : 0 < y) (j : Nat) :
    j < howmany x y ↔ j * y < x := by
  have h := Nat.le_div_iff_mul_le (x := j + 1) (y := x + (y - 1)) hy
  rw [Nat.succ_mul] at h
  unfold howmany
  omega

/-- Blocks that end at `x` or before. -/
theorem lt_div_block {x y : Nat} (hy : 0 < y) (j : Nat) :
    j < x / y ↔ j * y + y ≤ x := by
  have h := Nat.le_div_iff_mul_le (x := j + 1) (y := x) hy
  rw [Nat.succ_mul] at h
  omega

/-- Blocks before a block boundary. -/
theorem lt_div_boundary {x y : Nat} (hy : 0 < y) (hdvd : y ∣ x) (j : Nat) :
    j < x / y ↔ j * y < x := by
  obtain ⟨q, rfl⟩ := hdvd
  rw [Nat.mul_div_cancel_left q hy, Nat.mul_comm y q]
  exact (Nat.mul_lt_mul_right hy).symm

/-- The free fragments of a group: in the first group those behind the
metadata, in another also those before the superblock copy. -/
def groupMap (c dlower dupper ndblk i : Nat) : Bool :=
  decide (i < ndblk ∧ (c ≠ 0 ∧ i < dlower ∨ dupper ≤ i))

section Regions

variable {fs : Fs} (hl : LaidOut fs) (hb : fs.bsize ≤ MAXBSIZE)
  {c dlower dupper ndblk : Nat} (hdl : fs.frag ∣ dlower)
  (hle : dlower ≤ dupper) (hup : roundup dupper fs.frag ≤ ndblk)
  (hmax : ndblk ≤ fs.fpg) {g : Cg}
include hl hle hup

omit hle in
private theorem dupper_le : dupper ≤ ndblk := by
  have hnot := (lt_howmany (x := dupper) hl.sized.frag_pos
    (howmany dupper fs.frag)).not.mp (Nat.lt_irrefl _)
  unfold roundup at hup
  unfold howmany at hnot
  omega

include hb hdl hmax in
/-- **The blocks before the superblock copy.** -/
theorem lower_tallied (h : Tallied fs (groupMap c dlower dupper ndblk) 0 g) :
    (lowerBlocks fs c dlower g).1 = dlower / fs.frag * fs.frag ∧
      Tallied fs (groupMap c dlower dupper ndblk) (dlower / fs.frag)
        (lowerBlocks fs c dlower g).2 := by
  have hfrag := hl.sized.frag_pos
  have hend := dupper_le hl hup
  have hloop := @forLoop_tallied fs _ 0 g (fun d => decide (d < dlower))
    (if c = 0 then clearBlock fs else freeBlock fs) (dlower / fs.frag)
    (dlower + 1)
    (by
      intro j
      exact decide_eq_decide.mpr (lt_div_boundary hfrag hdl j).symm)
    (by
      intro j g' _ hj h'
      have hjd := (lt_div_boundary hfrag hdl j).mp hj
      have hblock : j * fs.frag + fs.frag ≤ dlower := by
        rw [← lt_div_block hfrag]
        exact hj
      by_cases hc : c = 0
      · rw [if_pos hc]
        apply clearBlock_next hl h'
        intro i hi
        exact decide_eq_false (by omega)
      · rw [if_neg hc]
        apply freeBlock_next hl hb h'
        · rw [Nat.succ_mul]
          omega
        · intro i hi
          exact decide_eq_true ⟨by omega, .inl ⟨hc, by omega⟩⟩)
    (Nat.zero_le _)
    (Nat.lt_succ_of_le (Nat.div_le_self _ _)) h
  rw [Nat.zero_mul] at hloop
  exact hloop

omit hup in
include hdl in
/-- **The metadata**, when their last block has nothing left: `used` is the map
without what is left of it. -/
private theorem metadata_used {r : Nat × Cg} {used : Nat → Bool}
    (hused : used = fun i =>
      if dupper ≤ i ∧ i < howmany dupper fs.frag * fs.frag then false
      else groupMap c dlower dupper ndblk i)
    (h1 : r.1 = dlower / fs.frag * fs.frag)
    (h : Tallied fs (groupMap c dlower dupper ndblk) (dlower / fs.frag) r.2) :
    (∀ j, dlower / fs.frag ≤ j → j < howmany dupper fs.frag →
      ∀ i < fs.frag, used (j * fs.frag + i) = false) ∧
      (forLoop (fun d => d < dupper) fs.frag (clearBlock fs) (dupper + 1) r.1
        r.2).1 = howmany dupper fs.frag * fs.frag ∧
      Tallied fs used (howmany dupper fs.frag)
        (forLoop (fun d => d < dupper) fs.frag (clearBlock fs) (dupper + 1) r.1
          r.2).2 := by
  have hfrag := hl.sized.frag_pos
  have hlow : dlower / fs.frag * fs.frag = dlower := Nat.div_mul_cancel hdl
  have hclear : ∀ j, dlower / fs.frag ≤ j → j < howmany dupper fs.frag →
      ∀ i < fs.frag, used (j * fs.frag + i) = false := by
    intro j hj hlt i hi
    have hstart := Nat.mul_le_mul_right fs.frag hj
    have hstop := Nat.mul_le_mul_right fs.frag (Nat.succ_le_of_lt hlt)
    rw [Nat.succ_mul] at hstop
    rw [hused]
    dsimp only
    by_cases hin : dupper ≤ j * fs.frag + i
    · rw [if_pos ⟨hin, by omega⟩]
    · rw [if_neg (fun h => hin h.1)]
      exact decide_eq_false (by omega)
  refine ⟨hclear, ?_⟩
  rw [h1]
  apply forLoop_tallied
  · intro j
    exact decide_eq_decide.mpr (lt_howmany hfrag j).symm
  · intro j g' hj hlt h'
    exact clearBlock_next hl h' (hclear j hj hlt)
  · by_contra hlt
    have hnot := (lt_howmany (x := dupper) hfrag (howmany dupper fs.frag)).not.mp
      (Nat.lt_irrefl _)
    have hle' := Nat.mul_le_mul_right fs.frag (Nat.succ_le_of_lt (Nat.not_le.mp hlt))
    rw [Nat.succ_mul] at hle'
    omega
  · have hpos := Nat.le_mul_of_pos_right (howmany dupper fs.frag) hfrag
    by_contra hlt
    have hnot := (lt_howmany (x := dupper) hfrag dupper).mp (by omega)
    have hmul := Nat.le_mul_of_pos_right dupper hfrag
    omega
  · apply h.congr
    intro i hi
    rw [hused]
    exact if_neg (by omega)

include hdl hmax in
/-- **The metadata**, and what is left of their last block. -/
theorem metadata_tallied {r : Nat × Cg}
    (h1 : r.1 = dlower / fs.frag * fs.frag)
    (h : Tallied fs (groupMap c dlower dupper ndblk) (dlower / fs.frag) r.2) :
    (metadataBlocks fs dupper r).1 = howmany dupper fs.frag * fs.frag ∧
      Tallied fs (groupMap c dlower dupper ndblk) (howmany dupper fs.frag)
        (metadataBlocks fs dupper r).2 := by
  have hfrag := hl.sized.frag_pos
  have hlow : dlower / fs.frag * fs.frag = dlower := Nat.div_mul_cancel hdl
  obtain ⟨hclear, hend, hloop⟩ := metadata_used hl hdl hle rfl h1 h
  unfold metadataBlocks
  dsimp only
  rw [hend]
  refine ⟨rfl, ?_⟩
  generalize (forLoop (fun d => decide (d < dupper)) fs.frag (clearBlock fs)
    (dupper + 1) r.1 r.2).2 = g₁ at hloop
  have hroom : howmany dupper fs.frag * fs.frag ≤ ndblk := hup
  have hfits := hl.fpg_le
  have hbegins := lt_howmany (x := dupper) hfrag
  generalize howmany dupper fs.frag = stop at *
  by_cases hrest : dupper < stop * fs.frag
  · rw [if_pos hrest]
    -- the last block of the metadata is block `q`
    obtain ⟨q, rfl⟩ : ∃ q, stop = q + 1 := by
      refine ⟨stop - 1, ?_⟩
      have hne : stop ≠ 0 := by
        intro h0
        rw [h0, Nat.zero_mul] at hrest
        omega
      omega
    have hbegin : q * fs.frag < dupper := (hbegins q).mp (by omega)
    have hblock : (q + 1) * fs.frag = q * fs.frag + fs.frag := Nat.succ_mul _ _
    rw [hblock] at hrest hroom ⊢
    have hlowq : dlower / fs.frag ≤ q := by
      rw [← Nat.lt_succ_iff, Nat.div_lt_iff_lt_mul hfrag, Nat.succ_mul]
      omega
    have hmul := Nat.mul_le_mul_right fs.frag hlowq
    have hbefore : Tallied fs (groupMap c dlower dupper ndblk) q g₁ := by
      refine (hloop.uncount hfrag (hclear q hlowq (by omega))).congr ?_
      intro i hi
      exact (if_neg (by omega)).symm
    refine @freeRun_next fs _ q g₁ hbefore dupper
      (q * fs.frag + fs.frag - dupper) (by omega) (by omega) (.inr (by omega))
      ?_ ?_ (setRange g₁.free dupper (q * fs.frag + fs.frag - dupper)) ?_ ?_
    · intro i hi
      exact decide_eq_true ⟨by omega, .inr (by omega)⟩
    · intro i hi hout
      exact decide_eq_false (by omega)
    · intro i hi
      by_cases hin : dupper ≤ i
      · rw [setRange_of_mem ⟨hin, by omega⟩]
        exact (decide_eq_true ⟨by omega, .inr hin⟩).symm
      · rw [setRange_of_not_mem (.inl (by omega)), hloop.below i hi]
        exact if_neg (by omega)
    · intro i hi
      rw [setRange_of_not_mem (.inr (by omega))]
      exact hloop.above i hi
  · rw [if_neg hrest]
    apply hloop.congr
    intro i hi
    exact (if_neg (by omega)).symm

omit hle in
include hb hmax in
/-- **The whole data blocks.** -/
theorem data_tallied {r : Nat × Cg}
    (h1 : r.1 = howmany dupper fs.frag * fs.frag)
    (h : Tallied fs (groupMap c dlower dupper ndblk) (howmany dupper fs.frag)
      r.2) :
    (dataBlocks fs ndblk r).1 = ndblk / fs.frag * fs.frag ∧
      Tallied fs (groupMap c dlower dupper ndblk) (ndblk / fs.frag)
        (dataBlocks fs ndblk r).2 := by
  have hfrag := hl.sized.frag_pos
  have hloop := @forLoop_tallied fs (groupMap c dlower dupper ndblk)
    (howmany dupper fs.frag) r.2
    (fun d => decide (d + fs.frag ≤ ndblk)) (freeBlock fs) (ndblk / fs.frag)
    (ndblk + 1)
    (by
      intro j
      exact decide_eq_decide.mpr (lt_div_block hfrag j).symm)
    (by
      intro j g' hj hlt h'
      have hblock := (lt_div_block hfrag j).mp hlt
      have hstart : dupper ≤ j * fs.frag := by
        have hnot := (lt_howmany (x := dupper) hfrag j).not.mp (by omega)
        omega
      apply freeBlock_next hl hb h'
      · rw [Nat.succ_mul]
        omega
      · intro i hi
        exact decide_eq_true ⟨by omega, .inr (by omega)⟩)
    (by
      rw [Nat.le_div_iff_mul_le hfrag]
      exact hup)
    (Nat.lt_succ_of_le (Nat.div_le_self _ _)) h
  rw [← h1] at hloop
  exact hloop

omit hle in
include hmax in
/-- **The fragments of a last block that is only partly there.** -/
theorem tail_tallied {r : Nat × Cg} (h1 : r.1 = ndblk / fs.frag * fs.frag)
    (h : Tallied fs (groupMap c dlower dupper ndblk) (ndblk / fs.frag) r.2) :
    (tailFrags fs ndblk r).1 = howmany ndblk fs.frag * fs.frag ∧
      Tallied fs (groupMap c dlower dupper ndblk) (howmany ndblk fs.frag)
        (tailFrags fs ndblk r).2 := by
  have hfrag := hl.sized.frag_pos
  have hfits := hl.fpg_le
  have hbegins := lt_howmany (x := ndblk) hfrag
  have hends := lt_div_block (x := ndblk) hfrag
  have hbefore := Nat.div_mul_le_self ndblk fs.frag
  have hmeta : howmany dupper fs.frag ≤ ndblk / fs.frag := by
    rw [Nat.le_div_iff_mul_le hfrag]
    exact hup
  have hdata : dupper ≤ ndblk / fs.frag * fs.frag := by
    have hnot := (lt_howmany (x := dupper) hfrag (ndblk / fs.frag)).not.mp
      (by omega)
    omega
  unfold tailFrags
  dsimp only
  have hround : roundup ndblk fs.frag = howmany ndblk fs.frag * fs.frag := rfl
  rw [hround, h1]
  generalize howmany ndblk fs.frag = stop at *
  generalize ndblk / fs.frag = q at *
  have hwhole := (hends q).not.mp (Nat.lt_irrefl _)
  by_cases hrest : q * fs.frag < ndblk
  · rw [if_pos hrest]
    have hstop : stop = q + 1 := by
      have hlt := (hbegins q).mpr hrest
      have hnot := (hbegins (q + 1)).not.mpr (by rw [Nat.succ_mul]; omega)
      omega
    subst hstop
    have hblock : (q + 1) * fs.frag = q * fs.frag + fs.frag := Nat.succ_mul _ _
    rw [hblock]
    refine ⟨rfl, ?_⟩
    refine @freeRun_next fs _ q r.2 h (q * fs.frag) (ndblk - q * fs.frag)
      (by omega) (by omega) (.inl rfl) ?_ ?_
      (clearRange (setRange r.2.free (q * fs.frag) (ndblk - q * fs.frag)) ndblk
        (q * fs.frag + fs.frag - ndblk)) ?_ ?_
    · intro i hi
      exact decide_eq_true ⟨by omega, .inr (by omega)⟩
    · intro i hi hout
      exact decide_eq_false (by omega)
    · intro i hi
      by_cases hin : ndblk ≤ i
      · rw [clearRange_of_mem ⟨hin, by omega⟩]
        exact (decide_eq_false (by omega)).symm
      · rw [clearRange_of_not_mem (.inl (by omega))]
        by_cases hq : q * fs.frag ≤ i
        · rw [setRange_of_mem ⟨hq, by omega⟩]
          exact (decide_eq_true ⟨by omega, .inr (by omega)⟩).symm
        · rw [setRange_of_not_mem (.inl (by omega))]
          exact h.below i (by omega)
    · intro i hi
      unfold clearRange
      split
      · rfl
      · rw [setRange_of_not_mem (.inr (by omega))]
        exact h.above i hi
  · rw [if_neg hrest]
    have hstop : stop = q := by
      have hnot := (hbegins q).not.mpr hrest
      by_contra hne
      have hlt := (hbegins stop).not.mp (Nat.lt_irrefl _)
      have hmul := Nat.mul_le_mul_right fs.frag
        (show stop + 1 ≤ q by omega)
      rw [Nat.succ_mul] at hmul
      omega
    subst hstop
    exact ⟨h1, h⟩

omit hle hup in
/-- **The rest of the map**: every bit is that of the map the group is to
have. -/
theorem rest_tallied {r : Nat × Cg} {k : Nat} (h1 : r.1 = k * fs.frag)
    (hend : ndblk ≤ k * fs.frag)
    (h : Tallied fs (groupMap c dlower dupper ndblk) k r.2)
    (hroom : ndblk ≤ fs.MAXBPG * fs.frag) :
    (restOfMap fs r).free = groupMap c dlower dupper ndblk ∧
      Tallied fs (groupMap c dlower dupper ndblk) k (restOfMap fs r) := by
  have hpast : ∀ i, ndblk ≤ i → groupMap c dlower dupper ndblk i = false :=
    fun i hi => decide_eq_false (by omega)
  obtain ⟨free, heq, hmap⟩ := restOfMap_eq hl (d := r.1) (g := r.2)
    ⟨k, by rw [h1, Nat.mul_comm]⟩
    (fun i hi => h.below i (by omega))
    (fun i hi => hpast i (by omega))
  -- a bit no group has room for is not touched, or cleared again
  have habove : ∀ i, fs.MAXBPG * fs.frag ≤ i → (restOfMap fs r).free i = false := by
    intro i hi
    unfold restOfMap
    refine forLoop_induct (I := fun _ (g : Cg) => g.free i = false) ?_ _ _ _
      (h.above i hi)
    intro j g' _ hg'
    show clrblock fs.frag g'.free j i = false
    unfold clrblock
    split
    · show (if _ then false else g'.free i) = false
      rw [hg', ite_self]
    · exact hg'
  have hfree : (restOfMap fs r).free = groupMap c dlower dupper ndblk := by
    funext i
    by_cases hi : i < fs.MAXBPG * fs.frag
    · show (restOfMap fs (r.1, r.2)).free i = _
      rw [heq]
      exact hmap i hi
    · rw [habove i (by omega), hpast i (by omega)]
  refine ⟨hfree, ?_⟩
  have hrest : restOfMap fs r = { r.2 with free := free } := heq
  rw [hrest] at hfree habove ⊢
  constructor
  case below =>
    intro i _
    rw [hfree]
  case above => exact habove
  case nbfree => exact h.nbfree
  case nffree => exact h.nffree
  case frsum => exact h.frsum
  case btot => exact h.btot
  case b => exact h.b

include hb hdl hmax in
/-- **The whole map** of a group, and its counters. -/
theorem groupBlocks_built (h : Tallied fs (groupMap c dlower dupper ndblk) 0 g) :
    (groupBlocks fs c dlower dupper ndblk g).free = groupMap c dlower dupper ndblk ∧
      Tallied fs (groupMap c dlower dupper ndblk) (howmany ndblk fs.frag)
        (groupBlocks fs c dlower dupper ndblk g) := by
  have hfits := hl.fpg_le
  obtain ⟨hat₁, h₁⟩ := lower_tallied hl hb hdl hle hup hmax h
  obtain ⟨hat₂, h₂⟩ := metadata_tallied hl hdl hle hup hmax hat₁ h₁
  obtain ⟨hat₃, h₃⟩ := data_tallied hl hb hup hmax hat₂ h₂
  obtain ⟨hat₄, h₄⟩ := tail_tallied hl hup hmax hat₃ h₃
  have hend := (lt_howmany (x := ndblk) hl.sized.frag_pos
    (howmany ndblk fs.frag)).not.mp (Nat.lt_irrefl _)
  exact rest_tallied hl hat₄ (by omega) h₄ (by omega)

end Regions

/-- **Counters that were tallied are right.** -/
theorem Tallied.fragCounts {fs : Fs} {m : Nat → Bool} {g : Cg}
    (hfrag : 0 < fs.frag) (h : Tallied fs m (howmany g.ndblk fs.frag) g)
    (hfree : g.free = m) (hpast : ∀ i, g.ndblk ≤ i → m i = false) :
    FragCounts fs.decoded g := by
  have hcount : blockCount fs.decoded g.ndblk = howmany g.ndblk fs.frag := by
    show (g.ndblk + fs.frag - 1) / fs.frag = (g.ndblk + (fs.frag - 1)) / fs.frag
    rw [Nat.add_sub_assoc hfrag]
  subst hfree
  constructor
  case nbfree =>
    unfold freeBlocks blockTotal
    rw [hcount]
    exact h.nbfree
  case nffree =>
    unfold freeFrags blockTotal
    rw [hcount]
    exact h.nffree
  case frsum =>
    intro j hj1 hj
    unfold freeRuns blockTotal
    rw [hcount]
    exact h.frsum j hj1 hj
  case btot =>
    intro cyl hcyl
    unfold cylBlocks blockTotal
    rw [hcount]
    exact h.btot cyl hcyl
  case b =>
    intro cyl hcyl pos hpos
    unfold posBlocks blockTotal
    rw [hcount]
    exact h.b cyl hcyl pos hpos
  case pastEnd => exact hpast

/-! ## §5. The fields before the map is built. -/

/-- The buffer of any group after `resetCg`: inodes 0 and 1 are taken off the
first group. -/
structure Emptied (fs : Fs) (c ndblk : Nat) (acg g : Cg) : Prop where
  magic : g.magic = CG_MAGIC
  ndblk : g.ndblk = ndblk
  cs : g.cs = ⟨0, 0, UInt32.ofNat fs.ipg - (if c = 0 then 2 else 0), 0⟩
  frsum : ∀ j < fs.frag, g.frsum j = 0
  btot : ∀ cyl < MAXCPG, g.btot cyl = 0
  b : ∀ cyl < MAXCPG, ∀ pos < NRPOS, g.b cyl pos = 0
  iused : ∀ i < fs.ipg, g.iused i = decide (c = 0 ∧ i < 2)
  free : g.free = acg.free

theorem resetCg_emptied {fs : Fs} (hl : LaidOut fs) (hb : fs.bsize ≤ MAXBSIZE)
    (now : UInt32) (c ndblk : Nat) (acg : Cg) :
    Emptied fs c ndblk acg (resetCg fs now c ndblk acg) := by
  have hpos := hl.sized.inopb_pos
  have hdvd := hl.inopb_dvd hb
  let g₀ := resetHeader fs now c ndblk acg
  let I : Nat → Cg → Prop := fun i g => fs.inopb ∣ i ∧ i ≤ fs.ipg ∧
    (∀ k < i, g.iused k = false) ∧
    g = { g₀ with iused := g.iused, cs := ⟨0, 0, UInt32.ofNat i, 0⟩ }
  have hI : I (forLoop (fun i => i < fs.ipg) fs.inopb (clearInodes fs)
        (fs.ipg + 1) 0 g₀).1
      (forLoop (fun i => i < fs.ipg) fs.inopb (clearInodes fs)
        (fs.ipg + 1) 0 g₀).2 := by
    refine forLoop_induct (I := I) ?_ _ _ _ ?_
    · intro i g hi hI
      have hi : i < fs.ipg := of_decide_eq_true hi
      obtain ⟨hdvdi, hle, hclr, heq⟩ := hI
      have hround : i + fs.inopb ≤ fs.ipg := by
        have hsub := Nat.dvd_sub hdvd hdvdi
        have hle := Nat.le_of_dvd (by omega) hsub
        omega
      refine ⟨Nat.dvd_add hdvdi (Nat.dvd_refl _), hround, ?_, ?_⟩
      · intro k hk
        show clearRange g.iused i fs.inopb k = false
        by_cases hki : k < i
        · rw [clearRange_of_not_mem (.inl hki), hclr k hki]
        · exact clearRange_of_mem ⟨by omega, hk⟩
      · rw [heq]
        unfold clearInodes
        simp only [UInt32.ofNat_add]
    · exact ⟨Nat.dvd_zero _, Nat.zero_le _,
        fun k hk => absurd hk (Nat.not_lt_zero k), rfl⟩
  have hdone := @forLoop_done Cg (fun i => decide (i < fs.ipg)) fs.inopb
    (clearInodes fs) fs.ipg hpos (fun i hi => decide_eq_false (by omega))
    (fs.ipg + 1) 0 g₀ (by omega)
  have hdone := of_decide_eq_false hdone
  obtain ⟨-, hle, hclr, heq⟩ := hI
  have hend : (forLoop (fun i => decide (i < fs.ipg)) fs.inopb (clearInodes fs)
      (fs.ipg + 1) 0 g₀).1 = fs.ipg := by omega
  unfold resetCg
  dsimp only
  rw [hend] at hclr heq ⊢
  generalize (forLoop (fun i => decide (i < fs.ipg)) fs.inopb (clearInodes fs)
    (fs.ipg + 1) 0 g₀).2 = g at hclr heq ⊢
  generalize g.iused = used at hclr heq
  subst heq
  constructor
  case magic => split <;> rfl
  case ndblk => split <;> rfl
  case cs =>
    split
    · rfl
    · show (⟨0, 0, UInt32.ofNat fs.ipg, 0⟩ : Csum) = _
      rw [UInt32.sub_zero]
  case frsum =>
    intro j hj
    split <;> exact if_pos hj
  case btot => exact fun cyl hcyl => if_pos hcyl
  case b => exact fun cyl hcyl pos hpos => if_pos ⟨hcyl, hpos⟩
  case iused =>
    intro i hi
    refine (clearRange_of_not_mem (.inl hi)).trans ?_
    by_cases hc : c = 0
    · rw [if_pos hc]
      show setRange used 0 2 i = _
      by_cases h2 : i < 2
      · rw [setRange_of_mem ⟨Nat.zero_le _, by omega⟩, decide_eq_true ⟨hc, h2⟩]
      · rw [setRange_of_not_mem (.inr (by omega)), hclr i hi,
          decide_eq_false (fun h => h2 h.2)]
    · rw [if_neg hc, decide_eq_false (fun h => hc h.1)]
      exact hclr i hi
  case free => split <;> rfl

/-! ## §6. All groups. -/

/-- **A group as the formatter leaves it**: its map, its counters, and no inode
in use but the two that are never given out. -/
structure GroupBuilt (fs : Fs) (c : Nat) (g : Cg) : Prop where
  magic : g.magic = CG_MAGIC
  ndblk : g.ndblk = dmaxOf fs c - fs.cgbase c
  free : g.free = groupMap c (fs.cgsblock c - fs.cgbase c) (dupperOf fs c)
    (dmaxOf fs c - fs.cgbase c)
  frags : FragCounts fs.decoded g
  ndir : g.cs.ndir = 0
  nifree : g.cs.nifree = UInt32.ofNat fs.ipg - if c = 0 then 2 else 0
  iused : ∀ i < fs.ipg, g.iused i = decide (c = 0 ∧ i < 2)

/-- The metadata of group `c`, and the rest of their last block, fit in it. -/
def MetadataFit (fs : Fs) (c : Nat) : Prop :=
  roundup (dupperOf fs c) fs.frag ≤ dmaxOf fs c - fs.cgbase c

/-- **One group.** -/
theorem initcgGroup_built {fs : Fs} (hl : LaidOut fs) (hb : fs.bsize ≤ MAXBSIZE)
    (now : UInt32) {c : Nat} (hfit : MetadataFit fs c) {acg : Cg}
    (habove : ∀ i, fs.MAXBPG * fs.frag ≤ i → acg.free i = false) :
    GroupBuilt fs c (initcgGroup fs now c acg) := by
  have hfrag := hl.sized.frag_pos
  have hle : fs.cgsblock c - fs.cgbase c ≤ dupperOf fs c :=
    Nat.le_trans (hl.dlower_le_dupper c) (Nat.le_add_right _ _)
  have hempty := resetCg_emptied hl hb now c (dmaxOf fs c - fs.cgbase c) acg
  unfold initcgGroup
  dsimp only
  generalize resetCg fs now c (dmaxOf fs c - fs.cgbase c) acg = g₀ at hempty
  have hstart : Tallied fs (groupMap c (fs.cgsblock c - fs.cgbase c)
      (dupperOf fs c) (dmaxOf fs c - fs.cgbase c)) 0 g₀ := by
    apply Tallied.start
    · rw [hempty.free]
      exact habove
    · rw [hempty.cs]
    · rw [hempty.cs]
    · exact fun l _ hl => hempty.frsum l hl
    · exact hempty.btot
    · exact hempty.b
  obtain ⟨hfree, hwalk⟩ := groupBlocks_built hl hb (hl.frag_dvd_dlower c) hle
    hfit (dmaxOf_le hl c) hstart
  have hhead := @groupBlocks_head fs hfrag c _ _ (dmaxOf fs c - fs.cgbase c) hle g₀
  have hmagic := @groupBlocks_magic fs hfrag c _ _ (dmaxOf fs c - fs.cgbase c) hle
    g₀
  generalize groupBlocks fs c (fs.cgsblock c - fs.cgbase c) (dupperOf fs c)
    (dmaxOf fs c - fs.cgbase c) g₀ = g at *
  unfold headOf at hhead
  injection hhead with _ hhead
  injection hhead with _ hhead
  injection hhead with hnd hhead
  injection hhead with hused hhead
  injection hhead with hndir hnifree
  have hndblk : g.ndblk = dmaxOf fs c - fs.cgbase c := hnd.trans hempty.ndblk
  constructor
  case magic => rw [hmagic, hempty.magic]
  case ndblk => exact hndblk
  case free => exact hfree
  case frags =>
    rw [← hndblk] at hwalk hfree
    exact hwalk.fragCounts hfrag hfree fun i hi => decide_eq_false (by omega)
  case ndir => rw [hndir, hempty.cs]
  case nifree => rw [hnifree, hempty.cs]
  case iused =>
    intro i hi
    rw [hused, hempty.iused i hi]

/-- **All groups**: each one is as its own call left it, its summary entry
repeats its counters, and the totals are the sums of the entries. -/
theorem initcgs_built {fs : Fs} (hl : LaidOut fs) (hb : fs.bsize ≤ MAXBSIZE)
    (now : UInt32) : ∀ n, (∀ c < n, MetadataFit fs c) →
    ∀ f, initcgs fs now n = some f →
      (∀ c < n, GroupBuilt fs c (f.cgs c) ∧ f.csums c = (f.cgs c).cs) ∧
      f.cstotal = csumTotal f.csums n ∧
      ∀ i, fs.fpg ≤ i → f.acg.free i = false := by
  have hroom := hl.fpg_le
  intro n
  induction n with
  | zero =>
    intro _ f hrun
    cases hrun
    exact ⟨fun c hc => absurd hc (Nat.not_lt_zero c), rfl, fun _ _ => rfl⟩
  | succ n ih =>
    intro hfit f' hrun
    rw [initcgs] at hrun
    obtain ⟨f, hf, hstep⟩ := Option.bind_eq_some_iff.mp hrun
    obtain ⟨hgroups, htotal, habove⟩ := ih (fun c hc => hfit c (by omega)) f hf
    have hbuilt := initcgGroup_built hl hb now (hfit n (Nat.lt_succ_self n))
      fun i hi => habove i (by omega)
    unfold initcg at hstep
    split at hstep
    · injection hstep with hstep
      subst hstep
      refine ⟨?_, ?_, ?_⟩
      · intro c hc
        dsimp only
        by_cases hcn : c = n
        · subst hcn
          rw [Function.update_self, Function.update_self]
          exact ⟨hbuilt, rfl⟩
        · rw [Function.update_of_ne hcn, Function.update_of_ne hcn]
          exact hgroups c (by omega)
      · dsimp only
        rw [csumTotal, csumTotal_update _ (Nat.le_refl n), Function.update_self,
          htotal]
      · intro i hi
        have hend := dmaxOf_le hl n
        exact hbuilt.frags.pastEnd i (by rw [hbuilt.ndblk]; omega)
    · cases hstep

end NextUfs.Format
