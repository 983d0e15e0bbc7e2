/-
  NextUfs.Resize.Agree
  ────────────────────
  **RESIZE AND FORMAT BUILD THE SAME GROUPS.**

  `build_new_cg` and `initcg` are two constructors of one object.  Over every
  geometry the formatter accepts, and for every group but the first, they
  give the same fragment map, inode map, counters, tables and sizes, as long
  as the groups cover the file system.  A formatter that gives up a short
  last group without giving up its cylinders leaves a file system past its
  groups, and then its last group stores no cylinders where resize stores
  them all.

    • `buildNewCg_spec`     — one group,
    • `groupsAgree_covered` — all groups of a covered file system,
    • `groupsAgree_iff`     — exactly when they agree.
-/
import NextUfs.Resize.RangeSpec

namespace NextUfs.Resize

open Bits Loop Format

/-! ## §1. The end of the formatter's map. -/

/-- Two groups that are the same to every reader. -/
structure SameGroup (fs : Fs) (g g' : Cg) : Prop where
  free : ∀ i < fs.MAXBPG * fs.frag, g.free i = g'.free i
  iused : ∀ i < MAXIPG, g.iused i = g'.iused i
  nbfree : g.cs.nbfree = g'.cs.nbfree
  nffree : g.cs.nffree = g'.cs.nffree
  nifree : g.cs.nifree = g'.cs.nifree
  ndir : g.cs.ndir = g'.cs.ndir
  frsum : ∀ j < MAXFRAG, g.frsum j = g'.frsum j
  btot : ∀ cyl < MAXCPG, g.btot cyl = g'.btot cyl
  b : ∀ cyl < MAXCPG, ∀ pos < NRPOS, g.b cyl pos = g'.b cyl pos
  ncyl : g.ncyl = g'.ncyl
  niblk : g.niblk = g'.niblk
  ndblk : g.ndblk = g'.ndblk

section MapEnd

variable {fs : Fs} (hl : LaidOut fs)
include hl

/-- The data blocks and the ragged end are `freedRange`, with the map clear up
to the next block boundary. -/
theorem tailFrags_eq {dupper ndblk : Nat} (hd : fs.frag ∣ dupper)
    (hle : dupper ≤ ndblk) (g : Cg) :
    ∃ d free,
      tailFrags fs ndblk (dataBlocks fs ndblk (dupper, g))
        = (d, { freedRange fs dupper ndblk g with free := free }) ∧
      fs.frag ∣ d ∧ ndblk ≤ d ∧
      (∀ i < ndblk, free i = (freedRange fs dupper ndblk g).free i) ∧
      ∀ i, ndblk ≤ i → i < d → free i = false := by
  have hfrag := hl.sized.frag_pos
  have hwhole : wholeEnd fs dupper ndblk ≤ ndblk := wholeEnd_le hle
  have hdvd : fs.frag ∣ wholeEnd fs dupper ndblk :=
    Nat.dvd_add hd (Nat.dvd_mul_left _ _)
  rw [dataBlocks_eq hfrag hle]
  unfold tailFrags freedRange
  dsimp only
  by_cases hlt : wholeEnd fs dupper ndblk < ndblk
  · rw [if_pos hlt, if_pos hlt]
    have hround : ndblk ≤ roundup ndblk fs.frag := by
      have hdiv := Nat.div_add_mod (ndblk + (fs.frag - 1)) fs.frag
      have hmod := Nat.mod_lt (ndblk + (fs.frag - 1)) hfrag
      rw [Nat.mul_comm] at hdiv
      unfold roundup
      omega
    refine ⟨_, _, rfl, dvd_roundup _ _, hround, ?_, ?_⟩
    · exact fun i hi => clearRange_of_not_mem (Or.inl hi)
    · exact fun i hi hid => clearRange_of_mem ⟨hi, by omega⟩
  · rw [if_neg hlt, if_neg hlt]
    refine ⟨_, _, rfl, hdvd, by omega, fun _ _ => rfl, ?_⟩
    intro i hi hid
    omega

/-- The rest of the map is cleared, block by block, and nothing else is
touched. -/
theorem restOfMap_eq {d : Nat} {g : Cg} {m : Nat → Bool} (hd : fs.frag ∣ d)
    (hbelow : ∀ i < d, g.free i = m i)
    (habove : ∀ i, d ≤ i → m i = false) :
    ∃ free, restOfMap fs (d, g) = { g with free := free } ∧
      ∀ i < fs.MAXBPG * fs.frag, free i = m i := by
  have hfrag := hl.sized.frag_pos
  let I : Nat → Cg → Prop := fun h g' =>
    d ≤ h * fs.frag ∧ (∀ i < h * fs.frag, g'.free i = m i) ∧
      g' = { g with free := g'.free }
  have hstart : I (d / fs.frag) g := by
    refine ⟨?_, ?_, rfl⟩
    · exact (Nat.div_mul_cancel hd).ge
    · rw [Nat.div_mul_cancel hd]
      exact hbelow
  have hbody : ∀ h g', decide (h < fs.MAXBPG) = true → I h g' →
      I (h + 1) { g' with free := clrblock fs.frag g'.free h } := by
    intro h g' _ hI
    obtain ⟨hge, hmap, heq⟩ := hI
    have hknown : knownFrag fs.frag = true :=
      decide_eq_true hl.sized.frag_known
    have hnext : (h + 1) * fs.frag = h * fs.frag + fs.frag := by ring
    refine ⟨by omega, ?_, ?_⟩
    · intro i hi
      show clrblock fs.frag g'.free h i = m i
      unfold clrblock
      rw [if_pos hknown]
      by_cases hih : i < h * fs.frag
      · rw [clearRange_of_not_mem (Or.inl hih)]
        exact hmap i hih
      · rw [clearRange_of_mem ⟨by omega, by omega⟩]
        exact (habove i (by omega)).symm
    · show ({ g' with free := clrblock fs.frag g'.free h } : Cg)
        = { g with free := clrblock fs.frag g'.free h }
      rw [heq]
  have hI := forLoop_induct hbody (fs.MAXBPG + 1) (d / fs.frag) g hstart
  have hdone := @forLoop_done Cg (fun h => decide (h < fs.MAXBPG)) 1
    (fun h acg => { acg with free := clrblock fs.frag acg.free h })
    fs.MAXBPG Nat.one_pos (fun i hi => decide_eq_false (by omega))
    (fs.MAXBPG + 1) (d / fs.frag) g
    (Nat.le_trans (Nat.le_succ _) (Nat.le_add_left _ _))
  have hdone := of_decide_eq_false hdone
  obtain ⟨-, hmap, heq⟩ := hI
  refine ⟨_, heq, fun i hi => hmap i (Nat.lt_of_lt_of_le hi ?_)⟩
  exact Nat.mul_le_mul_right _ (by omega)

end MapEnd

/-! ## §2. One group. -/

section OneGroup

variable {sb : Superblock} {fs : Fs} (hg : SameGeometry sb fs)
  (hl : LaidOut fs) (hb : fs.bsize ≤ MAXBSIZE)
include hg hl hb

omit hg hl hb in
/-- `build_new_cg` when both ranges could be added. -/
theorem buildNewCg_ok {now : UInt32} {c ncyl ndblk : Nat}
    {low high : FreeRange} (hmax : ndblk ≤ sb.fragsPerGroup)
    (hfit : cgdmin sb c - sb.fragsPerGroup * c ≤ ndblk)
    (hlow : addFreeFragRange sb (newHeader sb now c ncyl ndblk) 0
      (cgsblock sb c - sb.fragsPerGroup * c) = .ok low)
    (hhigh : addFreeFragRange sb low.cg
      (cgdmin sb c - sb.fragsPerGroup * c) ndblk = .ok high) :
    ∃ new, buildNewCg sb now c ncyl ndblk = .ok new ∧
      new.cg = { high.cg with
        cs := ⟨0, low.nbfree + high.nbfree, UInt32.ofNat sb.inodesPerGroup,
          low.nffree + high.nffree⟩ } := by
  unfold buildNewCg
  dsimp only
  rw [if_neg (by omega), hlow]
  dsimp only
  rw [hhigh]
  exact ⟨_, rfl, rfl⟩

/-- **`build_new_cg` is `initcg`.**  From a reset buffer the formatter's walk
over the map ends in the group resize builds, the cylinder count being the
one resize is given. -/
theorem buildNewCg_spec (now : UInt32) {c ncyl ndblk : Nat} {g₀ : Cg}
    (hc : c ≠ 0) (hfit : fs.cgdmin c - fs.cgbase c ≤ ndblk)
    (hmax : ndblk ≤ fs.fpg) (h₀ : Reset fs c ndblk g₀) :
    ∃ new, buildNewCg sb now c ncyl ndblk = .ok new ∧
      new.cg.ncyl = ncyl ∧
      (g₀.ncyl = ncyl → SameGroup fs
        (groupBlocks fs c (fs.cgsblock c - fs.cgbase c)
          (fs.cgdmin c - fs.cgbase c) ndblk g₀) new.cg) := by
  have hfrag := hl.sized.frag_pos
  have hlowUp := hl.dlower_le_dupper c
  have hdvdLow := hl.frag_dvd_dlower c
  have hdvdUp := hl.frag_dvd_dupper hb c
  have hhead : headOf (groupBlocks fs c (fs.cgsblock c - fs.cgbase c)
      (fs.cgdmin c - fs.cgbase c) ndblk g₀) = headOf g₀ :=
    groupBlocks_head hfrag hlowUp g₀
  have hdlower : cgsblock sb c - sb.fragsPerGroup * c
      = fs.cgsblock c - fs.cgbase c := by
    rw [hg.cgsblock_eq, hg.fragsPerGroup]
    rfl
  have hdupper : cgdmin sb c - sb.fragsPerGroup * c
      = fs.cgdmin c - fs.cgbase c := by
    rw [hg.cgdmin_eq, hg.fragsPerGroup]
    rfl
  generalize fs.cgsblock c - fs.cgbase c = dlower at *
  generalize fs.cgdmin c - fs.cgbase c = dupper at *
  let cg₀ := newHeader sb now c ncyl ndblk
  have hnone : (0 : UInt32) = 0 + 0 := rfl
  -- before the first block the two buffers agree
  have hstart : Tracks cg₀ 0 0 0 g₀ ⟨cg₀, 0, 0⟩ := by
    constructor
    case head => rfl
    case below => exact fun i hi => absurd hi (Nat.not_lt_zero i)
    case above => exact fun _ _ => rfl
    case frsum => exact h₀.frsum
    case btot => exact h₀.btot
    case b => exact h₀.b
    case nbfree => rw [h₀.cs]; exact hnone
    case nffree => rw [h₀.cs]; exact hnone
  -- the blocks before the superblock copy
  obtain ⟨low, hlow, htracks⟩ := addRange_spec hg hl hb hstart (dvd_zero _)
    (Nat.zero_le dlower) (by omega)
  have hfreed : freedRange fs 0 dlower g₀
      = rounds fs.frag (freeBlock fs) (dlower / fs.frag) 0 g₀ := by
    have hwhole : wholeEnd fs 0 dlower = dlower := by
      unfold wholeEnd
      rw [Nat.sub_zero, Nat.div_mul_cancel hdvdLow, Nat.zero_add]
    unfold freedRange
    dsimp only
    rw [hwhole, if_neg (Nat.lt_irrefl _), Nat.sub_zero]
  rw [hfreed] at htracks
  generalize hg₁ : rounds fs.frag (freeBlock fs) (dlower / fs.frag) 0 g₀ = g₁
    at htracks
  -- the metadata
  have htracks := htracks.metadata hl hdvdLow ((dupper - dlower) / fs.frag)
  have hspan : dlower + (dupper - dlower) / fs.frag * fs.frag = dupper := by
    rw [Nat.div_mul_cancel (Nat.dvd_sub hdvdUp hdvdLow)]
    omega
  rw [hspan] at htracks
  generalize hg₂ : rounds fs.frag (Format.clearBlock fs)
    ((dupper - dlower) / fs.frag) dlower g₁ = g₂ at htracks
  -- the data, counted from zero again
  have hagain : Tracks cg₀ low.nbfree low.nffree dupper g₂
      ⟨low.cg, 0, 0⟩ := by
    constructor
    case head => exact htracks.head
    case below => exact htracks.below
    case above => exact htracks.above
    case frsum => exact htracks.frsum
    case btot => exact htracks.btot
    case b => exact htracks.b
    case nbfree => rw [htracks.nbfree, UInt32.zero_add, UInt32.add_zero]
    case nffree => rw [htracks.nffree, UInt32.zero_add, UInt32.add_zero]
  obtain ⟨high, hhigh, hdone⟩ := addRange_spec hg hl hb hagain hdvdUp hfit hmax
  rw [← hdlower] at hlow
  rw [← hdupper] at hhigh
  obtain ⟨new, hnew, hcg⟩ := buildNewCg_ok (by rw [hg.fragsPerGroup]; exact hmax)
    (by rw [hdupper]; exact hfit) hlow hhigh
  refine ⟨new, hnew, ?_, ?_⟩
  · rw [hcg]
    exact congrArg Prod.fst hdone.head
  intro hncyl
  -- the formatter's group is the freed range, with the rest of the map clear
  obtain ⟨d, free, htail, hd, hle, hbelow, hend⟩ :=
    tailFrags_eq hl hdvdUp hfit g₂
  obtain ⟨free', hrest, hmap⟩ := restOfMap_eq hl hd (m := high.cg.free)
    (g := { freedRange fs dupper ndblk g₂ with free := free })
    (by
      intro i hi
      by_cases hin : i < ndblk
      · exact (hbelow i hin).trans (hdone.below i hin)
      · exact (hend i (by omega) hi).trans (hdone.above i (by omega)).symm)
    (fun i hi => hdone.above i (by omega))
  have hgroup : groupBlocks fs c dlower dupper ndblk g₀
      = { freedRange fs dupper ndblk g₂ with free := free' } := by
    unfold groupBlocks
    rw [lowerBlocks_eq hfrag hc hdvdLow,
      metadataBlocks_eq hfrag hlowUp hdvdLow hdvdUp, hg₁, hg₂, htail, hrest]
  have hipg : g₀.niblk = sb.inodesPerGroup % 2 ^ 16 := by
    have hmax := hl.ipg_le
    rw [h₀.niblk, hg.inodesPerGroup, Nat.mod_eq_of_lt]
    unfold MAXIPG at hmax
    omega
  obtain ⟨h1, h2, h3, h4, h5, h6⟩ :
      _ ∧ _ ∧ _ ∧ _ ∧ _ ∧ _ := by
    simpa only [headOf, Prod.mk.injEq] using hhead
  obtain ⟨r1, r2, r3, r4, -, -⟩ :
      _ ∧ _ ∧ _ ∧ _ ∧ _ ∧ _ := by
    simpa only [headOf, Prod.mk.injEq] using hdone.head
  rw [hcg]
  constructor
  case free => rw [hgroup]; exact hmap
  case iused =>
    intro i hi
    rw [h4, r4]
    exact h₀.iused i hi
  case nbfree => rw [hgroup]; exact hdone.nbfree
  case nffree => rw [hgroup]; exact hdone.nffree
  case nifree => rw [h6, h₀.cs, hg.inodesPerGroup]
  case ndir => rw [h5, h₀.cs]
  case frsum => rw [hgroup]; exact fun j _ => hdone.frsum j
  case btot => rw [hgroup]; exact hdone.btot
  case b => rw [hgroup]; exact hdone.b
  case ncyl => rw [h1, r1]; exact hncyl
  case niblk => rw [h2, r2]; exact hipg
  case ndblk => rw [h3, r3]; exact h₀.ndblk

end OneGroup

/-! ## §3. Sizes and counts. -/

/-- A quotient rounded up, from its two bounds. -/
theorem ceil_eq {x y n : Nat} (hn : 0 < n) (hle : x ≤ n * y)
    (hlt : (n - 1) * y < x) : (x + y - 1) / y = n := by
  obtain ⟨m, rfl⟩ : ∃ m, n = m + 1 := ⟨n - 1, by omega⟩
  rw [Nat.add_sub_cancel] at hlt
  apply Nat.div_eq_of_lt_le
  · rw [Nat.add_mul, Nat.one_mul]
    omega
  · rw [Nat.add_mul (m + 1), Nat.one_mul]
    have hy : 0 < y := by
      refine Nat.pos_of_ne_zero fun h0 => ?_
      rw [h0, Nat.mul_zero] at hle
      omega
    omega

section Counts

variable {sb : Superblock} {fs : Fs} (hg : SameGeometry sb fs)
  (hl : LaidOut fs)
include hg

/-- Both programs end a group at the same fragment. -/
theorem cgFragCount_eq {c : Nat} (hc : c * fs.fpg < fs.size) :
    cgFragCount sb c fs.size = dmaxOf fs c - fs.cgbase c := by
  have hbase : fs.cgbase c = c * fs.fpg := Nat.mul_comm _ _
  unfold cgFragCount dmaxOf
  rw [hg.fragsPerGroup, hbase]
  dsimp only
  split <;> split <;> omega

include hl

/-- Over a covered file system resize counts the groups and the cylinders the
formatter stored. -/
theorem newCounts_covered (hcov : Covered fs) (hncg : 0 < fs.ncg) :
    newNcg sb fs.size = fs.ncg ∧ newNcyl sb fs.size = fs.ncyl := by
  unfold newNcg newNcyl
  rw [hg.fragsPerGroup, hg.cpg]
  constructor
  · exact ceil_eq hncg hcov.size_le (hcov.size_lt _ (by omega))
  · have hsize : 0 < fs.size := by
      have := hcov.size_lt 0 hncg
      omega
    have hncyl : 0 < fs.ncyl := by
      refine Nat.pos_of_ne_zero fun h0 => ?_
      have hpos := Nat.mul_pos hsize hl.cpg_pos
      have hle := hcov.ncyl_le
      rw [h0, Nat.zero_mul] at hle
      omega
    exact ceil_eq hncyl hcov.ncyl_le (hcov.ncyl_lt hncg)

theorem cgCylinderCount_eq (c ncg ncyl : Nat) :
    cgCylinderCount sb c ncg ncyl
      = if c = ncg - 1 then ncyl % fs.cpg else fs.cpg := by
  have hmax := hl.cpg_le
  have hmod := Nat.mod_lt ncyl hl.cpg_pos
  unfold MAXCPG at hmax
  unfold cgCylinderCount
  rw [hg.cpg]
  apply Nat.mod_eq_of_lt
  split <;> omega

end Counts

/-! ## §4. All groups. -/

/-- **Resize and format agree** on the groups after the first: the formatter
ends its run, and resize, growing to the same size, builds the group that lies
on the device. -/
def GroupsAgree (fs : Fs) (sb : Superblock) (now now' : UInt32) : Prop :=
  ∃ f, formatGroups fs now = some f ∧
    ∀ c, 1 ≤ c → c < fs.ncg →
      ∃ new, growGroup sb now' fs.size c = .ok new ∧
        SameGroup fs (f.cgs c) new.cg

section AllGroups

variable {sb : Superblock} {fs : Fs} (hg : SameGeometry sb fs)
  (hl : LaidOut fs) (now now' : UInt32)

/-- What the formatter's end-of-metadata is past the first group. -/
theorem dupperOf_eq {c : Nat} (hc : c ≠ 0) :
    dupperOf fs c = fs.cgdmin c - fs.cgbase c := by
  unfold dupperOf
  rw [if_neg hc, Nat.add_zero]

/-- A defined call has a block that fits the group buffer. -/
theorem bsize_le {c : Nat} (h : initcgDefined fs c = true) :
    fs.bsize ≤ MAXBSIZE := by
  unfold initcgDefined at h
  rw [decide_eq_true_eq] at h
  exact h.2.1

include hl in
/-- A group never ends past its `fpg` fragments. -/
theorem dmaxOf_le (c : Nat) : dmaxOf fs c - fs.cgbase c ≤ fs.fpg := by
  have _ := hl.fpg_pos
  unfold dmaxOf
  dsimp only
  split <;> omega

include hg hl in
/-- **Agreement.**  Every group of a covered file system. -/
theorem groupsAgree_covered (hcov : Covered fs)
    (hdef : ∀ c < fs.ncg, initcgDefined fs c = true) :
    GroupsAgree fs sb now now' := by
  obtain ⟨f, hrun, -, hcgs⟩ := initcgs_spec hl now fs.ncg hdef
  refine ⟨f, hrun, fun c hc1 hc => ?_⟩
  have hc0 : c ≠ 0 := by omega
  have hb := bsize_le (hdef c hc)
  obtain ⟨acg, hacg, hgroup⟩ := hcgs c hc
  have hsize := hcov.size_lt c hc
  have hroom := hcov.room c hc
  have hmeta := hl.metadata c hc
  have hbase : fs.cgbase c = c * fs.fpg := Nat.mul_comm _ _
  have hfit : fs.cgdmin c - fs.cgbase c ≤ dmaxOf fs c - fs.cgbase c := by
    unfold dmaxOf
    dsimp only
    split <;> omega
  obtain ⟨hncg, hncyl⟩ := newCounts_covered hg hl hcov (by omega)
  have hreset := resetCg_spec hl hb now hc0 (dmaxOf fs c - fs.cgbase c) hacg
  obtain ⟨new, hnew, -, hsame⟩ := buildNewCg_spec hg hl hb now' hc0
    hfit (dmaxOf_le hl c) hreset
  refine ⟨new, ?_, ?_⟩
  · unfold growGroup
    rw [cgFragCount_eq hg hsize]
    exact hnew
  · rw [hgroup]
    unfold initcgGroup
    dsimp only
    rw [dupperOf_eq hc0]
    apply hsame
    rw [hreset.ncyl, cgCylinderCount_eq hg hl, hncg, hncyl]

include hg hl in
/-- **Disagreement.**  Where the file system hangs over its groups, the last
of them stores no cylinders; for resize it is not the last. -/
theorem not_groupsAgree_overhang (hover : Overhang fs) (hncg : 1 < fs.ncg) :
    ¬GroupsAgree fs sb now now' := by
  rintro ⟨f, hrun, hall⟩
  have hlast : fs.ncg - 1 < fs.ncg := by omega
  obtain ⟨new, hnew, hsame⟩ := hall (fs.ncg - 1) (by omega) hlast
  have hdef := initcgs_defined hrun
  have hb := bsize_le (hdef _ hlast)
  have hc0 : fs.ncg - 1 ≠ 0 := by omega
  obtain ⟨f', hrun', -, hcgs⟩ := initcgs_spec hl now fs.ncg hdef
  obtain rfl : f' = f := Option.some.inj (hrun'.symm.trans hrun)
  obtain ⟨acg, hacg, hgroup⟩ := hcgs _ hlast
  have hpos := hl.fpg_pos
  have hsplit : fs.size = (fs.ncg - 1) * fs.fpg + 2 * fs.fpg := by
    rw [hover.size_eq, ← Nat.add_mul]
    congr 1
    omega
  have hsize : (fs.ncg - 1) * fs.fpg < fs.size := by omega
  have hfull : dmaxOf fs (fs.ncg - 1) - fs.cgbase (fs.ncg - 1) = fs.fpg := by
    have hbase : fs.cgbase (fs.ncg - 1) = (fs.ncg - 1) * fs.fpg :=
      Nat.mul_comm _ _
    unfold dmaxOf
    dsimp only
    rw [hbase, if_neg (by omega), Nat.add_sub_cancel_left]
  have hfit : fs.cgdmin (fs.ncg - 1) - fs.cgbase (fs.ncg - 1)
      ≤ dmaxOf fs (fs.ncg - 1) - fs.cgbase (fs.ncg - 1) := by
    rw [hfull]
    exact (hl.metadata _ hlast).le
  have hreset := resetCg_spec hl hb now hc0
    (dmaxOf fs (fs.ncg - 1) - fs.cgbase (fs.ncg - 1)) hacg
  obtain ⟨new', hnew', hncyl', -⟩ := buildNewCg_spec hg hl hb now' hc0 hfit
    (dmaxOf_le hl _) hreset
  unfold growGroup at hnew
  rw [cgFragCount_eq hg hsize] at hnew
  obtain rfl : new' = new := Except.ok.inj (hnew'.symm.trans hnew)
  -- resize counts one group more
  have hnewNcg : newNcg sb fs.size = fs.ncg + 1 := by
    unfold newNcg
    rw [hg.fragsPerGroup]
    apply ceil_eq (Nat.succ_pos _) hover.size_eq.le
    show fs.ncg * fs.fpg < fs.size
    rw [hover.size_eq]
    exact Nat.mul_lt_mul_of_pos_right (Nat.lt_succ_self _) hpos
  have hresize : new'.cg.ncyl = fs.cpg := by
    rw [hncyl', cgCylinderCount_eq hg hl, hnewNcg, if_neg (by omega)]
  have hformat : (f'.cgs (fs.ncg - 1)).ncyl = 0 := by
    rw [hgroup]
    unfold initcgGroup
    dsimp only
    rw [dupperOf_eq hc0]
    refine (congrArg Prod.fst (groupBlocks_head hl.sized.frag_pos
      (hl.dlower_le_dupper (fs.ncg - 1)) _)).trans ?_
    show (resetCg fs now (fs.ncg - 1) _ acg).ncyl = 0
    rw [hreset.ncyl, if_pos rfl, hover.ncyl_eq, Nat.mul_mod_left]
  have hcpg := hl.cpg_pos
  have := hsame.ncyl
  omega

end AllGroups

/-- **Exactly when resize and format agree**: every call of `initcg` is
defined, and the groups cover the file system (or there is no group past the
first). -/
theorem groupsAgree_iff {opts : FormatOptions} {fs : Fs} {sb : Superblock}
    (h : nextufsFormat opts = .ok fs) (hg : SameGeometry sb fs)
    (now now' : UInt32) :
    GroupsAgree fs sb now now' ↔
      (∀ c < fs.ncg, initcgDefined fs c = true) ∧
        (fs.ncg ≤ 1 ∨ fs.size ≤ fs.ncg * fs.fpg) := by
  obtain ⟨hl, hcase⟩ := nextufsFormat_spec h
  constructor
  · intro hagree
    refine ⟨initcgs_defined hagree.choose_spec.1, ?_⟩
    by_cases hncg : fs.ncg ≤ 1
    · exact Or.inl hncg
    · right
      rcases hcase with hcov | hover
      · exact hcov.size_le
      · exact absurd hagree
          (not_groupsAgree_overhang hg hl now now' hover (by omega))
  · rintro ⟨hdef, hsize⟩
    rcases hcase with hcov | hover
    · exact groupsAgree_covered hg hl now now' hcov hdef
    · have hpos := hl.fpg_pos
      have heq := hover.size_eq
      rw [Nat.add_mul, Nat.one_mul] at heq
      have hncg : fs.ncg ≤ 1 := by omega
      obtain ⟨f, hrun, -⟩ := initcgs_spec hl now fs.ncg hdef
      exact ⟨f, hrun, fun c hc1 hc => by omega⟩

/-! ## §5. Two file systems of three cylinders. -/

/-- Three one-cylinder groups, the last of 48 fragments. -/
def partialTail : Fs where
  bsize := 8192
  fsize := 1024
  frag := 8
  fragshift := 3
  inopb := 64
  nspf := 1
  fsbtodb := 0
  dblkno := 40
  cgoffset := 64
  cgmask := 4294967295
  size := 176
  ncg := 3
  csaddr := 40
  cssize := 1024
  cgsize := 1024
  ntrak := 1
  nsect := 64
  spc := 64
  ncyl := 3
  cpg := 1
  ipg := 64
  fpg := 64

/-- With 148 sectors the third group is given up, its cylinder is not. -/
def droppedTail : Fs := { partialTail with size := 192, ncg := 2 }

theorem groupsAgree_partialTail :
    GroupsAgree partialTail partialTail.decoded 0 0 :=
  (@groupsAgree_iff ⟨176, 64, 1, 8192, 1024, 1, 0, false⟩ partialTail
    partialTail.decoded (by decide +kernel) rfl 0 0).mpr
    ⟨by decide +kernel, Or.inr (by decide)⟩

/-- **The slip of `dropShortGroup`.**  A file system of 148 sectors is
formatted with two groups and three cylinders. -/
theorem not_groupsAgree_droppedTail :
    nextufsFormat ⟨148, 64, 1, 8192, 1024, 1, 0, false⟩ = .ok droppedTail ∧
      (∀ c < droppedTail.ncg, initcgDefined droppedTail c = true) ∧
      ¬GroupsAgree droppedTail droppedTail.decoded 0 0 := by
  have hfs : nextufsFormat ⟨148, 64, 1, 8192, 1024, 1, 0, false⟩
      = .ok droppedTail := by decide +kernel
  refine ⟨hfs, by decide +kernel, ?_⟩
  obtain ⟨hl, -⟩ := nextufsFormat_spec hfs
  have hover : Overhang droppedTail := ⟨by decide, by decide⟩
  have hg : SameGeometry droppedTail.decoded droppedTail := rfl
  exact not_groupsAgree_overhang hg hl 0 0 hover (by decide)

end NextUfs.Resize
