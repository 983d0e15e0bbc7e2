/-
  NextUfs.Resize.RangeSpec
  ────────────────────────
  **ADDING A RANGE IS FREEING ITS BLOCKS.**

  `add_free_frag_range` and the loops of `initcg` walk the same blocks.
  `Tracks` relates the two buffers when both stand at fragment `d`; a round
  of one is a round of the other:

    • `addBlockPiece_block` — a whole block,
    • `addBlockPiece_tail`  — the ragged end,
    • `addRange_blocks`     — any number of whole blocks,
    • `addRange_spec`       — a range from a block boundary on.
-/
import NextUfs.Core.BlockChange
import NextUfs.Format.InitCgSpec
import NextUfs.Resize.NewGroup

namespace NextUfs.Resize

open Bits Loop Format

/-! ## §1. One geometry, two programs. -/

/-- The superblock of the image that grows: the formatted one, except for
what growing changes. -/
def SameGeometry (sb : Superblock) (fs : Fs) : Prop :=
  { sb with
    fragCount := fs.size
    cgCount := fs.ncg
    ncyl := fs.ncyl
    cylSummaryAddr := fs.csaddr
    csumSize := fs.cssize } = fs.decoded

namespace SameGeometry

variable {sb : Superblock} {fs : Fs} (h : SameGeometry sb fs)
include h

theorem fragsPerBlock : sb.fragsPerBlock = fs.frag :=
  congrArg Superblock.fragsPerBlock h

theorem fragsPerGroup : sb.fragsPerGroup = fs.fpg :=
  congrArg Superblock.fragsPerGroup h

theorem inodesPerGroup : sb.inodesPerGroup = fs.ipg :=
  congrArg Superblock.inodesPerGroup h

theorem cpg : sb.cpg = fs.cpg := congrArg Superblock.cpg h

theorem sectorsPerFrag : sb.sectorsPerFrag = fs.nspf :=
  congrArg Superblock.sectorsPerFrag h

theorem sectorsPerTrack : sb.sectorsPerTrack = fs.nsect :=
  congrArg Superblock.sectorsPerTrack h

theorem sectorsPerCyl : sb.sectorsPerCyl = fs.spc :=
  congrArg Superblock.sectorsPerCyl h

theorem cgstart_eq (c : Nat) : cgstart sb c = fs.cgstart c := by
  have hdelta : sb.cgDelta = fs.cgoffset := congrArg Superblock.cgDelta h
  have hmask : sb.cgCycMask = fs.cgmask := congrArg Superblock.cgCycMask h
  unfold cgstart Fs.cgstart Fs.cgbase Fs.cgStagger
  rw [h.fragsPerGroup, hdelta, hmask]

theorem cgsblock_eq (c : Nat) : cgsblock sb c = fs.cgsblock c := by
  have hoff : sb.sbOff = fs.sblkno := congrArg Superblock.sbOff h
  unfold cgsblock Fs.cgsblock
  rw [h.cgstart_eq, hoff]

theorem cgdmin_eq (c : Nat) : cgdmin sb c = fs.cgdmin c := by
  have hoff : sb.dataOff = fs.dblkno := congrArg Superblock.dataOff h
  unfold cgdmin Fs.cgdmin
  rw [h.cgstart_eq, hoff]

end SameGeometry

/-! ## §2. Cylinders and positions. -/

section Positions

variable {sb : Superblock} {fs : Fs} (hg : SameGeometry sb fs)
  (hl : LaidOut fs) {d : Nat}

include hl in
/-- The sectors of a group fit in 31 bits. -/
theorem sectors_lt (hd : d < fs.fpg) : d * fs.nspf < fs.cpg * fs.spc := by
  rw [← hl.fpg_eq]
  exact Nat.mul_lt_mul_of_pos_right hd hl.sized.nspf_pos

include hg hl in
theorem cylno_eq (hd : d < fs.fpg) : cylno sb d = cbtocylno fs d := by
  have hlt := sectors_lt hl hd
  have hint := hl.cpg_spc
  have hmod : d * fs.nspf % 2 ^ 32 = d * fs.nspf := by
    apply Nat.mod_eq_of_lt
    unfold INT_MAX at hint
    omega
  unfold cylno cbtocylno
  rw [hg.sectorsPerFrag, hg.sectorsPerCyl, hmod]

include hl in
include hg hl in
theorem rotpos_eq (hb : fs.bsize ≤ MAXBSIZE) (hd : d < fs.fpg) :
    rotpos sb d = cbtorpos fs d := by
  have hlt := sectors_lt hl hd
  have hint := hl.cpg_spc
  have hmod : d * fs.nspf % 2 ^ 32 = d * fs.nspf := by
    apply Nat.mod_eq_of_lt
    unfold INT_MAX at hint
    omega
  have hpos : d * fs.nspf % fs.spc % fs.nsect * NRPOS % 2 ^ 32
      = d * fs.nspf % fs.spc % fs.nsect * NRPOS := by
    apply Nat.mod_eq_of_lt
    have h1 := Nat.mod_lt (d * fs.nspf % fs.spc) hl.nsect_pos
    have h2 := hl.spc_lt hb
    have h3 := hl.nsect_le
    unfold NRPOS
    omega
  unfold rotpos cbtorpos
  rw [hg.sectorsPerFrag, hg.sectorsPerCyl, hg.sectorsPerTrack, hmod, hpos]

end Positions

/-! ## §3. The two buffers side by side. -/

/-- Both walks stand at fragment `d`: the formatter's buffer `g` and resize's
range `r` agree on what lies before it, resize has nothing free from there
on, and `r` counts what `g` has beyond `nbfree` and `nffree`.  The header of
`r` is still that of `cg₀`. -/
structure Tracks (cg₀ : Cg) (nbfree nffree : UInt32) (d : Nat) (g : Cg)
    (r : FreeRange) : Prop where
  head : headOf r.cg = headOf cg₀
  below : ∀ i < d, g.free i = r.cg.free i
  above : ∀ i, d ≤ i → r.cg.free i = false
  frsum : ∀ j, g.frsum j = r.cg.frsum j
  btot : ∀ cyl < MAXCPG, g.btot cyl = r.cg.btot cyl
  b : ∀ cyl < MAXCPG, ∀ pos < NRPOS, g.b cyl pos = r.cg.b cyl pos
  nbfree : g.cs.nbfree = nbfree + r.nbfree
  nffree : g.cs.nffree = nffree + r.nffree

section Steps

variable {sb : Superblock} {fs : Fs} (hg : SameGeometry sb fs)
  (hl : LaidOut fs) {cg₀ : Cg} {nbfree nffree : UInt32} {d : Nat} {g : Cg}
  {r : FreeRange} (h : Tracks cg₀ nbfree nffree d g r)

include h in
/-- The bits of a piece are clear before it is added. -/
theorem Tracks.any_false (n : Nat) :
    ((List.range n).any fun i => r.cg.free (d + i)) = false := by
  rw [List.any_eq_false]
  intro i _
  simp [h.above (d + i) (Nat.le_add_right _ _)]

include hl in
theorem setblock_eq (hd : fs.frag ∣ d) (map : Nat → Bool) :
    setblock fs.frag map (d / fs.frag) = setRange map d fs.frag := by
  have hknown : knownFrag fs.frag = true :=
    decide_eq_true hl.sized.frag_known
  unfold setblock
  rw [if_pos hknown, Nat.div_mul_cancel hd]

include hl in
theorem clrblock_eq (hd : fs.frag ∣ d) (map : Nat → Bool) :
    clrblock fs.frag map (d / fs.frag) = clearRange map d fs.frag := by
  have hknown : knownFrag fs.frag = true :=
    decide_eq_true hl.sized.frag_known
  unfold clrblock
  rw [if_pos hknown, Nat.div_mul_cancel hd]

include hg h in
/-- The runs of a block that was clear: only those that were just set. -/
theorem frsumAfter_setRange {n : Nat} (hn : n ≤ fs.frag) (j : Nat) :
    frsumAfter sb r.cg d (setRange r.cg.free d n) j
      = if j = n ∧ 0 < n ∧ n < fs.frag then r.cg.frsum j + 1
        else r.cg.frsum j := by
  unfold frsumAfter applyCgFrsumDelta
  rw [hg.fragsPerBlock]
  by_cases hj : 1 ≤ j ∧ j < fs.frag
  · have hclr : countFreeRunsInBlock r.cg.free d fs.frag j = 0 := by
      rw [countFreeRunsInBlock_eq _ _ hj.2,
        runsOf_prefix (Nat.zero_le _) (fun i hi => absurd hi (by omega))
          (fun i _ _ => h.above (d + i) (Nat.le_add_right _ _)),
        if_neg (by omega)]
    have hset : countFreeRunsInBlock (setRange r.cg.free d n) d fs.frag j
        = if j = n ∧ 0 < n then 1 else 0 := by
      rw [countFreeRunsInBlock_eq _ _ hj.2]
      apply runsOf_prefix hn
      · exact fun i hi => setRange_of_mem ⟨by omega, by omega⟩
      · intro i hi _
        rw [setRange_of_not_mem (Or.inr (by omega))]
        exact h.above (d + i) (Nat.le_add_right _ _)
    rw [if_pos hj, hclr, hset]
    by_cases hjn : j = n
    · rw [if_pos ⟨hjn, by omega⟩, if_pos ⟨hjn, by omega, by omega⟩]
      rfl
    · rw [if_neg (fun hc => hjn hc.1), if_neg (fun hc => hjn hc.1)]
      simp
  · rw [if_neg hj, if_neg (by omega)]

include hg hl h in
/-- **A whole block.**  The scan finds no run shorter than the block, the
fragments are taken back, and the block is counted where `initcg` counts
it. -/
theorem addBlockPiece_block (hb : fs.bsize ≤ MAXBSIZE) (hd : fs.frag ∣ d)
    {stop : Nat} (hstop : d + fs.frag ≤ stop) (hfpg : d + fs.frag ≤ fs.fpg) :
    pieceEnd sb stop d = d + fs.frag ∧
    ∃ r', addBlockPiece sb stop d r = .ok r' ∧
      Tracks cg₀ nbfree nffree (d + fs.frag) (freeBlock fs d g) r' := by
  have hfrag := hl.sized.frag_pos
  have hbase : d - d % sb.fragsPerBlock = d := by
    rw [hg.fragsPerBlock, Nat.mod_eq_zero_of_dvd hd, Nat.sub_zero]
  have hend : pieceEnd sb stop d = d + fs.frag := by
    unfold pieceEnd
    rw [hbase, hg.fragsPerBlock, if_neg (by omega)]
  have hlen : d + fs.frag - d = fs.frag := Nat.add_sub_cancel_left _ _
  have hfull : countFreeBits (setRange r.cg.free d fs.frag) d fs.frag
      = fs.frag := by
    apply popRange_of_allSet
    rw [allSet_iff]
    exact fun i hi => setRange_of_mem ⟨by omega, by omega⟩
  refine ⟨hend, ?_⟩
  unfold addBlockPiece
  dsimp only
  rw [hbase, hend, hlen, h.any_false, if_neg Bool.false_ne_true,
    hg.fragsPerBlock, if_pos hfull]
  refine ⟨_, rfl, ?_⟩
  have hspt : 0 < sb.sectorsPerTrack := by
    rw [hg.sectorsPerTrack]
    exact hl.nsect_pos
  have hdlt : d < fs.fpg := by omega
  have hcyl := cylno_eq hg hl hdlt
  have hpos := rotpos_eq hg hl hb hdlt
  constructor
  case head =>
    rw [← h.head]
    unfold moveCylBlocks
    dsimp only
    split <;> rfl
  case below =>
    intro i hi
    rw [moveCylBlocks_free]
    show setblock fs.frag g.free (d / fs.frag) i
      = setRange r.cg.free d fs.frag i
    rw [setblock_eq hl hd]
    by_cases hid : i < d
    · rw [setRange_of_not_mem (Or.inl hid), setRange_of_not_mem (Or.inl hid)]
      exact h.below i hid
    · rw [setRange_of_mem ⟨by omega, hi⟩, setRange_of_mem ⟨by omega, hi⟩]
  case above =>
    intro i hi
    rw [moveCylBlocks_free]
    show setRange r.cg.free d fs.frag i = false
    rw [setRange_of_not_mem (Or.inr hi)]
    exact h.above i (by omega)
  case frsum =>
    intro j
    rw [moveCylBlocks_frsum]
    show g.frsum j = frsumAfter sb r.cg d (setRange r.cg.free d fs.frag) j
    rw [frsumAfter_setRange hg h le_rfl, if_neg (by omega)]
    exact h.frsum j
  case btot =>
    intro cyl hcylMax
    rw [moveCylBlocks_btot hspt hcylMax, hcyl]
    show Function.update g.btot (cbtocylno fs d) _ cyl = _
    by_cases hc : cbtocylno fs d = cyl
    · subst hc
      rw [Function.update_self, if_pos rfl, h.btot _ hcylMax]
    · rw [Function.update_of_ne (Ne.symm hc), if_neg hc]
      exact h.btot cyl hcylMax
  case b =>
    intro cyl hcylMax pos hposMax
    rw [moveCylBlocks_b hspt hcylMax, hcyl, hpos]
    show Function.update g.b (cbtocylno fs d) _ cyl pos = _
    by_cases hc : cbtocylno fs d = cyl
    · subst hc
      rw [Function.update_self]
      by_cases hp : cbtorpos fs d = pos
      · subst hp
        rw [Function.update_self, if_pos ⟨rfl, rfl⟩,
          h.b _ hcylMax _ hposMax]
      · rw [Function.update_of_ne (Ne.symm hp),
          if_neg (fun hcp => hp hcp.2)]
        exact h.b _ hcylMax pos hposMax
    · rw [Function.update_of_ne (Ne.symm hc), if_neg (fun hcp => hc hcp.1)]
      exact h.b cyl hcylMax pos hposMax
  case nbfree =>
    show g.cs.nbfree + 1 = nbfree + (r.nbfree + 1)
    rw [h.nbfree, UInt32.add_assoc]
  case nffree =>
    show g.cs.nffree
      = nffree + (r.nffree + UInt32.ofNat fs.frag - UInt32.ofNat fs.frag)
    rw [UInt32.add_sub_cancel]
    exact h.nffree

include hg h in
/-- **The ragged end.**  The block does not fill up; its one run is counted
as fragments. -/
theorem addBlockPiece_tail (hd : fs.frag ∣ d) {stop : Nat} (hlt : d < stop)
    (hstop : stop < d + fs.frag) :
    pieceEnd sb stop d = stop ∧
    ∃ r', addBlockPiece sb stop d r = .ok r' ∧
      Tracks cg₀ nbfree nffree stop (freeRun d (stop - d) g) r' := by
  have hbase : d - d % sb.fragsPerBlock = d := by
    rw [hg.fragsPerBlock, Nat.mod_eq_zero_of_dvd hd, Nat.sub_zero]
  have hend : pieceEnd sb stop d = stop := by
    unfold pieceEnd
    rw [hbase, hg.fragsPerBlock, if_pos hstop]
  have hpart : countFreeBits (setRange r.cg.free d (stop - d)) d fs.frag
      ≠ fs.frag := by
    refine Nat.ne_of_lt (popRange_lt_of_not_allSet ?_)
    rw [Bool.eq_false_iff]
    intro hall
    rw [allSet_iff] at hall
    have hbit := hall (stop - d) (by omega)
    rw [setRange_of_not_mem (Or.inr le_rfl),
      h.above _ (Nat.le_add_right _ _)] at hbit
    cases hbit
  refine ⟨hend, ?_⟩
  unfold addBlockPiece
  dsimp only
  rw [hbase, hend, h.any_false, if_neg Bool.false_ne_true, hg.fragsPerBlock,
    if_neg hpart]
  refine ⟨_, rfl, ?_⟩
  constructor
  case head => exact h.head
  case below =>
    intro i hi
    show setRange g.free d (stop - d) i = setRange r.cg.free d (stop - d) i
    by_cases hid : i < d
    · rw [setRange_of_not_mem (Or.inl hid), setRange_of_not_mem (Or.inl hid)]
      exact h.below i hid
    · rw [setRange_of_mem ⟨by omega, by omega⟩,
        setRange_of_mem ⟨by omega, by omega⟩]
  case above =>
    intro i hi
    show setRange r.cg.free d (stop - d) i = false
    rw [setRange_of_not_mem (Or.inr (by omega))]
    exact h.above i (by omega)
  case frsum =>
    intro j
    show Function.update g.frsum (stop - d) (g.frsum (stop - d) + 1) j
      = frsumAfter sb r.cg d (setRange r.cg.free d (stop - d)) j
    rw [frsumAfter_setRange hg h (by omega)]
    by_cases hj : j = stop - d
    · subst hj
      rw [Function.update_self, if_pos ⟨rfl, by omega, by omega⟩, h.frsum]
    · rw [Function.update_of_ne hj, if_neg (fun hc => hj hc.1)]
      exact h.frsum j
  case btot => exact h.btot
  case b => exact h.b
  case nbfree => exact h.nbfree
  case nffree =>
    show g.cs.nffree + UInt32.ofNat (stop - d)
      = nffree + (r.nffree + UInt32.ofNat (stop - d))
    rw [h.nffree, UInt32.add_assoc]

include hl h in
/-- Metadata is used in both: clearing it again keeps the two together. -/
theorem Tracks.clearBlock (hd : fs.frag ∣ d) :
    Tracks cg₀ nbfree nffree (d + fs.frag) (Format.clearBlock fs d g) r where
  head := h.head
  below := by
    intro i hi
    show clrblock fs.frag g.free (d / fs.frag) i = r.cg.free i
    rw [clrblock_eq hl hd]
    by_cases hid : i < d
    · rw [clearRange_of_not_mem (Or.inl hid)]
      exact h.below i hid
    · rw [clearRange_of_mem ⟨by omega, hi⟩, h.above i (by omega)]
  above := fun i hi => h.above i (by omega)
  frsum := h.frsum
  btot := h.btot
  b := h.b
  nbfree := h.nbfree
  nffree := h.nffree

end Steps

/-! ## §4. A range. -/

section Ranges

variable {sb : Superblock} {fs : Fs} (hg : SameGeometry sb fs)
  (hl : LaidOut fs) (hb : fs.bsize ≤ MAXBSIZE) {cg₀ : Cg}
  {nbfree nffree : UInt32}
include hg hl hb

/-- **Whole blocks**: `n` rounds of resize's loop are `n` rounds of the
formatter's. -/
theorem addRange_blocks {stop : Nat} : ∀ n fuel d g r,
    Tracks cg₀ nbfree nffree d g r → fs.frag ∣ d →
    d + n * fs.frag ≤ stop → d + n * fs.frag ≤ fs.fpg →
    ∃ r', addFreeFragLoop sb stop (n + fuel) d r
        = addFreeFragLoop sb stop fuel (d + n * fs.frag) r' ∧
      Tracks cg₀ nbfree nffree (d + n * fs.frag)
        (rounds fs.frag (freeBlock fs) n d g) r' := by
  have hfrag := hl.sized.frag_pos
  intro n
  induction n with
  | zero =>
    intro fuel d g r h _ _ _
    rw [Nat.zero_add, Nat.zero_mul, Nat.add_zero]
    exact ⟨r, rfl, h⟩
  | succ n ih =>
    intro fuel d g r h hd hstop hfpg
    have hshift : d + (n + 1) * fs.frag = d + fs.frag + n * fs.frag := by ring
    rw [hshift] at hstop hfpg ⊢
    obtain ⟨hend, r₁, hpiece, h₁⟩ := addBlockPiece_block hg hl h hb hd
      (show d + fs.frag ≤ stop by omega) (by omega)
    obtain ⟨r', hloop, h'⟩ := ih fuel (d + fs.frag) (freeBlock fs d g) r₁ h₁
      (Nat.dvd_add hd (dvd_refl _)) hstop hfpg
    refine ⟨r', ?_, h'⟩
    rw [Nat.add_right_comm, addFreeFragLoop, if_pos (by omega), hpiece, hend]
    exact hloop

omit hg hl hb in
/-- The loop is over once `start` reached the end. -/
theorem addFreeFragLoop_stop {sb : Superblock} {stop start : Nat}
    (h : stop ≤ start) (fuel : Nat) (r : FreeRange) :
    addFreeFragLoop sb stop fuel start r = .ok r := by
  cases fuel with
  | zero => rfl
  | succ fuel => rw [addFreeFragLoop, if_neg (by omega)]

/-- The formatter's buffer after the range `[d, stop)`: whole blocks, then
the fragments of the last one. -/
def freedRange (fs : Fs) (d stop : Nat) (g : Cg) : Cg :=
  let whole := rounds fs.frag (freeBlock fs) ((stop - d) / fs.frag) d g
  let r := wholeEnd fs d stop
  if r < stop then freeRun r (stop - r) whole else whole

/-- **`add_free_frag_range`** from a block boundary on is the formatter's
walk. -/
theorem addRange_spec {d stop : Nat} {g cg : Cg}
    (h : Tracks cg₀ nbfree nffree d g ⟨cg, 0, 0⟩) (hd : fs.frag ∣ d)
    (hle : d ≤ stop) (hstop : stop ≤ fs.fpg) :
    ∃ r, addFreeFragRange sb cg d stop = .ok r ∧
      Tracks cg₀ nbfree nffree stop (freedRange fs d stop g) r := by
  have hfrag := hl.sized.frag_pos
  have hmax := hl.sized.frag_le
  have hwhole : wholeEnd fs d stop ≤ stop := wholeEnd_le hle
  have hlt := lt_wholeEnd hfrag hle
  have hguard : addFreeFragRange sb cg d stop
      = addFreeFragLoop sb stop (stop - d) d ⟨cg, 0, 0⟩ := by
    unfold addFreeFragRange
    rw [hg.fragsPerGroup, hg.fragsPerBlock, if_neg (by omega),
      if_neg (by omega)]
  rw [hguard]
  unfold freedRange
  dsimp only
  have hn : (stop - d) / fs.frag ≤ (stop - d) / fs.frag * fs.frag :=
    Nat.le_mul_of_pos_right _ hfrag
  have hwd : d + (stop - d) / fs.frag * fs.frag = wholeEnd fs d stop := rfl
  generalize (stop - d) / fs.frag = n at hn hwd ⊢
  -- enough rounds for the whole blocks, and one more when an end is left
  obtain ⟨fuel, hfuel, hleft⟩ : ∃ fuel, stop - d = n + fuel ∧
      (wholeEnd fs d stop < stop → 0 < fuel) :=
    ⟨stop - d - n, by omega, by omega⟩
  obtain ⟨r, hloop, hr⟩ := addRange_blocks hg hl hb n fuel d g _ h hd
    (show d + n * fs.frag ≤ stop by omega) (by omega)
  rw [hfuel, hloop, hwd]
  rw [hwd] at hr
  by_cases htail : wholeEnd fs d stop < stop
  · obtain ⟨fuel, rfl⟩ : ∃ f, fuel = f + 1 :=
      ⟨fuel - 1, by have := hleft htail; omega⟩
    have hdvd : fs.frag ∣ wholeEnd fs d stop := by
      rw [← hwd]
      exact Nat.dvd_add hd (Nat.dvd_mul_left _ _)
    obtain ⟨hend, r', hpiece, hr'⟩ :=
      addBlockPiece_tail hg hr hdvd htail hlt
    refine ⟨r', ?_, ?_⟩
    · rw [addFreeFragLoop, if_pos htail, hpiece, hend]
      exact addFreeFragLoop_stop le_rfl fuel r'
    · rw [if_pos htail]
      exact hr'
  · have heq : wholeEnd fs d stop = stop := by omega
    refine ⟨r, addFreeFragLoop_stop (by omega) fuel r, ?_⟩
    rw [if_neg htail]
    rw [heq] at hr
    exact hr

omit hg hb in
/-- **The metadata** lies between the two ranges: both have it used. -/
theorem Tracks.metadata {d : Nat} {g : Cg} {r : FreeRange}
    (h : Tracks cg₀ nbfree nffree d g r) (hd : fs.frag ∣ d) (n : Nat) :
    Tracks cg₀ nbfree nffree (d + n * fs.frag)
      (rounds fs.frag (Format.clearBlock fs) n d g) r := by
  refine rounds_induct (I := fun i s => Tracks cg₀ nbfree nffree i s r) ?_ h
  intro k s _ hk
  have hdvd : fs.frag ∣ d + k * fs.frag :=
    Nat.dvd_add hd (Nat.dvd_mul_left _ _)
  have hnext : d + (k + 1) * fs.frag = d + k * fs.frag + fs.frag := by ring
  rw [hnext]
  exact hk.clearBlock hl hdvd

end Ranges

end NextUfs.Resize
