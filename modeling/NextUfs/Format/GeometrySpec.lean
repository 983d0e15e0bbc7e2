/-
  NextUfs.Format.GeometrySpec
  ───────────────────────────
  **WHAT AN ACCEPTED GEOMETRY SATISFIES.**

  The chain of `nextufsFormat` is inverted once; from then on a geometry is
  known by its facts:

    • `WellSized`  — powers of two, and what they divide,
    • `LaidOut`    — every boundary inside a group is a block boundary, and
      the metadata of every group fits,
    • `Covered`    — the groups cover the file system and every group has
      room for its metadata,
    • `Overhang`   — what is left when the last group is dropped although its
      cylinders fill it.

  Main result: `nextufsFormat_spec`.
-/
import Mathlib.Tactic.Ring
import NextUfs.Format.Geometry

namespace NextUfs.Format

/-! ## §1. Powers of two. -/

/-- A positive number that passes `POWEROF2` is a power of two. -/
theorem powerOf2_pow {num : Int} (h : POWEROF2 num = true) (hpos : 0 < num) :
    ∃ k, num.toNat = 2 ^ k := by
  obtain ⟨n, rfl⟩ := Int.eq_ofNat_of_zero_le (Int.le_of_lt hpos)
  have hn : 0 < n := by omega
  have hpred : ((n : Int) - 1) = ((n - 1 : Nat) : Int) := by omega
  unfold POWEROF2 at h
  rw [hpred, decide_eq_true_eq] at h
  have hand : n &&& (n - 1) = 0 := by
    have hland : Int.land (n : Int) ((n - 1 : Nat) : Int)
        = ((n &&& (n - 1) : Nat) : Int) := rfl
    rw [hland] at h
    exact_mod_cast h
  exact (Nat.and_sub_one_eq_zero_iff_isPowerOfTwo (by omega)).mp hand

/-- The block sizes a format goes on with. -/
structure WellSized (b : Blocks) : Prop where
  frag_known : b.frag = 8 ∨ b.frag = 4 ∨ b.frag = 2 ∨ b.frag = 1
  fsize_pos : 0 < b.fsize
  nspf_pos : 0 < b.nspf
  NSPB_eq : b.NSPB = b.nspf * b.frag
  NSPB_mul : b.NSPB * DEV_BSIZE = b.bsize
  NSPB_pow : ∃ k, b.NSPB = 2 ^ k
  INOPF_pos : 0 < b.INOPF
  inopb_eq : b.inopb = b.INOPF * b.frag
  inopb_dvd : b.bsize ≤ MAXBSIZE → b.inopb ∣ MAXIPG
  MAXBPG_eq : b.MAXBPG = NBBY * (b.bsize - SIZEOF_CG) / b.frag

namespace WellSized

variable {b : Blocks}

theorem frag_pos (h : WellSized b) : 0 < b.frag := by
  rcases h.frag_known with hf | hf | hf | hf <;> omega

theorem frag_le (h : WellSized b) : b.frag ≤ 8 := by
  rcases h.frag_known with hf | hf | hf | hf <;> omega

theorem inopb_pos (h : WellSized b) : 0 < b.inopb := by
  rw [h.inopb_eq]
  exact Nat.mul_pos h.INOPF_pos h.frag_pos

end WellSized

/-- `blockSizes` accepts powers of two only. -/
theorem blockSizes_ok {bsize fsize : Int} {b : Blocks}
    (h : blockSizes bsize fsize = .ok b) :
    ∃ p q, 12 ≤ p ∧ 10 ≤ q ∧ q ≤ p ∧ p ≤ q + 3 ∧
      b = {
        bsize := 2 ^ p
        fsize := 2 ^ q
        frag := 2 ^ (p - q)
        fragshift := p - q
        inopb := 2 ^ (p - 7)
        nspf := 2 ^ (q - 10)
        fsbtodb := q - 10 } := by
  unfold blockSizes at h
  split at h
  · cases h
  rename_i hb
  split at h
  · cases h
  rename_i hf
  split at h
  · cases h
  rename_i hfsize
  split at h
  · cases h
  rename_i hbsize
  split at h
  · cases h
  rename_i hle
  simp only [DEV_BSIZE, MINBSIZE, not_not] at hb hf hfsize hbsize hle
  obtain ⟨p, hp⟩ := powerOf2_pow hb (by omega)
  obtain ⟨q, hq⟩ := powerOf2_pow hf (by omega)
  have hp12 : 12 ≤ p := by
    apply (Nat.pow_le_pow_iff_right (by decide : 1 < 2)).mp
    omega
  have hq10 : 10 ≤ q := by
    apply (Nat.pow_le_pow_iff_right (by decide : 1 < 2)).mp
    omega
  have hqp : q ≤ p := by
    apply (Nat.pow_le_pow_iff_right (by decide : 1 < 2)).mp
    omega
  have hfrag : bsize.toNat >>> shiftOf fsize.toNat = 2 ^ (p - q) := by
    rw [hp, hq, shiftOf, Nat.log2_two_pow, Nat.shiftRight_eq_div_pow,
      Nat.pow_div hqp (by decide)]
  have hnspf : fsize.toNat / DEV_BSIZE = 2 ^ (q - 10) := by
    rw [hq, DEV_BSIZE, show 1024 = 2 ^ 10 from rfl,
      Nat.pow_div hq10 (by decide)]
  have hinopb : bsize.toNat / SIZEOF_DINODE = 2 ^ (p - 7) := by
    rw [hp, SIZEOF_DINODE, show 128 = 2 ^ 7 from rfl,
      Nat.pow_div (by omega) (by decide)]
  dsimp only at h
  rw [hfrag, hnspf, hinopb, hp, hq, shiftOf, shiftOf, Nat.log2_two_pow,
    Nat.log2_two_pow] at h
  split at h
  · cases h
  rename_i hmax
  have hp3 : p ≤ q + 3 := by
    have h3 : p - q ≤ 3 := by
      apply (Nat.pow_le_pow_iff_right (by decide : 1 < 2)).mp
      rw [MAXFRAG] at hmax
      omega
    omega
  injection h with h
  exact ⟨p, q, hp12, hq10, hqp, hp3, h.symm⟩

theorem blockSizes_wellSized {bsize fsize : Int} {b : Blocks}
    (h : blockSizes bsize fsize = .ok b) : WellSized b := by
  obtain ⟨p, q, hp, hq, hqp, hpq, rfl⟩ := blockSizes_ok h
  have hinopf : 2 ^ (p - 7) >>> (p - q) = 2 ^ (q - 7) := by
    rw [Nat.shiftRight_eq_div_pow, Nat.pow_div (by omega) (by decide)]
    congr 1
    omega
  constructor
  · show 2 ^ (p - q) = 8 ∨ 2 ^ (p - q) = 4 ∨ 2 ^ (p - q) = 2 ∨ 2 ^ (p - q) = 1
    obtain h | h | h | h : p - q = 3 ∨ p - q = 2 ∨ p - q = 1 ∨ p - q = 0 := by
      omega
    all_goals rw [h]; decide
  · exact Nat.two_pow_pos q
  · exact Nat.two_pow_pos (q - 10)
  · exact Nat.shiftLeft_eq _ _
  · show 2 ^ (q - 10) <<< (p - q) * 2 ^ 10 = 2 ^ p
    rw [Nat.shiftLeft_eq, ← Nat.pow_add, ← Nat.pow_add]
    congr 1
    omega
  · refine ⟨q - 10 + (p - q), ?_⟩
    rw [Nat.pow_add]
    exact Nat.shiftLeft_eq _ _
  · show 0 < 2 ^ (p - 7) >>> (p - q)
    rw [hinopf]
    exact Nat.two_pow_pos _
  · show 2 ^ (p - 7) = 2 ^ (p - 7) >>> (p - q) * 2 ^ (p - q)
    rw [hinopf, ← Nat.pow_add]
    congr 1
    omega
  · intro hb
    have hp13 : p ≤ 13 :=
      (Nat.pow_le_pow_iff_right (by decide : 1 < 2)).mp hb
    exact Nat.pow_dvd_pow 2 (show p - 7 ≤ 11 by omega)
  · exact Nat.shiftRight_eq_div_pow _ _

/-! ## §2. Cylinders and blocks. -/

/-- **Rotation and blocks meet**: `cpc` cylinders are whole blocks. -/
theorem cpcLoop_spec {N S : Nat} : ∀ fuel cpc i, (∃ k, cpc = 2 ^ k) →
    S * cpc = i * N → ∃ m, S * cpcLoop fuel cpc i = m * N := by
  intro fuel
  induction fuel with
  | zero => exact fun cpc i _ h => ⟨i, h⟩
  | succ fuel ih =>
    intro cpc i hpow h
    rw [cpcLoop]
    split
    · rename_i hc
      obtain ⟨k, rfl⟩ := hpow
      obtain ⟨k, rfl⟩ : ∃ k', k = k' + 1 := by
        cases k with
        | zero => simp at hc
        | succ k => exact ⟨k, rfl⟩
      have hhalf : 2 ^ (k + 1) / 2 = 2 ^ k := by
        rw [Nat.pow_succ]
        exact Nat.mul_div_cancel _ (by decide)
      rw [hhalf]
      apply ih (2 ^ k) (i / 2) ⟨k, rfl⟩
      have hi : i = i / 2 * 2 := by omega
      rw [hi, Nat.pow_succ] at h
      have : 2 * (S * 2 ^ k) = 2 * (i / 2 * N) := by
        calc 2 * (S * 2 ^ k) = S * (2 ^ k * 2) := by ring
          _ = i / 2 * 2 * N := h
          _ = 2 * (i / 2 * N) := by ring
      exact Nat.eq_of_mul_eq_mul_left (by decide) this
    · exact ⟨i, h⟩

theorem cylinderGroup_ok {b : Blocks} {spc cpg : Nat} {opt : Int}
    (hb : WellSized b) (h : cylinderGroup b spc opt = .ok cpg) :
    0 < cpg ∧ cpg ≤ MAXCPG ∧ cpg * spc ≤ INT_MAX ∧
      b.nspf * b.frag ∣ cpg * spc := by
  unfold cylinderGroup at h
  dsimp only at h
  split at h
  · cases h
  split at h
  · cases h
  rename_i hint
  split at h
  · cases h
  rename_i hpos
  split at h
  · cases h
  rename_i hmax
  split at h
  · cases h
  rename_i hmul
  injection h with h
  rw [h] at hint hpos hmax hmul
  refine ⟨by omega, by omega, by omega, ?_⟩
  -- `cpg` is a multiple of `cpc`, and `cpc` cylinders are whole blocks
  obtain ⟨m, hm⟩ := cpcLoop_spec (N := b.NSPB) (S := spc) b.NSPB b.NSPB spc
    hb.NSPB_pow rfl
  obtain ⟨t, ht⟩ := Nat.dvd_of_mod_eq_zero (not_not.mp hmul)
  rw [← hb.NSPB_eq, ht]
  have hcpc : spc * cpcOf b spc = m * b.NSPB := hm
  exact ⟨m * t, by rw [Nat.mul_right_comm, Nat.mul_comm _ spc, hcpc]; ring⟩

/-! ## §3. Counting cylinders and groups. -/

/-- `ncyl` is the number of cylinders of `spc` sectors, rounded up. -/
theorem countCylinders_ok {b : Blocks} {spc fssize ncyl : Nat}
    (hspc : 0 < spc) (h : countCylinders b spc fssize = .ok ncyl) :
    0 < ncyl ∧ fssize * b.nspf ≤ ncyl * spc ∧
      (ncyl - 1) * spc < fssize * b.nspf := by
  unfold countCylinders at h
  dsimp only at h
  have hmod := Nat.mod_lt (fssize * b.nspf) hspc
  have hdiv := Nat.div_add_mod (fssize * b.nspf) spc
  rw [Nat.mul_comm spc] at hdiv
  generalize fssize * b.nspf / spc = q at h hdiv
  generalize fssize * b.nspf % spc = r at hmod hdiv
  split at h
  · cases h
  by_cases hlt : q * spc < fssize * b.nspf
  · rw [if_pos hlt] at h
    split at h
    · cases h
    injection h with h
    subst h
    rw [Nat.add_sub_cancel, Nat.add_mul, Nat.one_mul]
    omega
  · rw [if_neg hlt] at h
    split at h
    · cases h
    injection h with h
    subst h
    obtain ⟨m, rfl⟩ : ∃ m, q = m + 1 := ⟨q - 1, by omega⟩
    rw [Nat.add_sub_cancel]
    rw [Nat.add_mul, Nat.one_mul] at hdiv hlt ⊢
    omega

/-- `ncg` is the number of groups of `cpg` cylinders, rounded up. -/
theorem groupCount_spec {ncyl cpg : Nat} (hn : 0 < ncyl) (hc : 0 < cpg) :
    0 < groupCount ncyl cpg ∧ ncyl ≤ groupCount ncyl cpg * cpg ∧
      (groupCount ncyl cpg - 1) * cpg < ncyl := by
  have hmod := Nat.mod_lt ncyl hc
  have hdiv := Nat.div_add_mod ncyl cpg
  rw [Nat.mul_comm cpg] at hdiv
  unfold groupCount
  generalize ncyl / cpg = q at *
  generalize ncyl % cpg = r at *
  by_cases hr : r = 0
  · rw [if_neg (not_not.mpr hr), Nat.add_zero]
    cases q with
    | zero =>
      rw [Nat.zero_mul] at hdiv
      omega
    | succ m =>
      rw [Nat.add_sub_cancel]
      rw [Nat.add_mul, Nat.one_mul] at hdiv ⊢
      omega
  · rw [if_pos hr, Nat.add_sub_cancel, Nat.add_mul, Nat.one_mul]
    omega

/-! ## §4. Inside a group. -/

/-- Boundaries inside a group lie between blocks, and the metadata of every
group leaves it some data. -/
structure LaidOut (fs : Fs) : Prop where
  sized : WellSized fs.toBlocks
  nsect_pos : 0 < fs.nsect
  nsect_le : fs.nsect ≤ fs.spc
  cpg_pos : 0 < fs.cpg
  cpg_le : fs.cpg ≤ MAXCPG
  cpg_spc : fs.cpg * fs.spc ≤ INT_MAX
  spc_le : fs.spc ≤ fs.MAXBPG * fs.NSPB
  fpg_eq : fs.fpg * fs.nspf = fs.cpg * fs.spc
  frag_dvd_fpg : fs.frag ∣ fs.fpg
  fpg_le : fs.fpg ≤ fs.MAXBPG * fs.frag
  frag_dvd_cgoffset : fs.frag ∣ fs.cgoffset
  dblkno_eq : fs.dblkno = fs.iblkno + fs.ipg / fs.INOPF
  ipg_le : fs.ipg ≤ MAXIPG
  inopb_dvd : fs.bsize ≤ MAXBSIZE → fs.inopb ∣ fs.ipg
  metadata : ∀ c < fs.ncg, fs.cgdmin c - fs.cgbase c < fs.fpg

theorem dvd_roundup (x y : Nat) : y ∣ roundup x y := Nat.dvd_mul_left _ _

namespace LaidOut

variable {fs : Fs}

theorem spc_pos (h : LaidOut fs) : 0 < fs.spc :=
  Nat.lt_of_lt_of_le h.nsect_pos h.nsect_le

theorem fpg_pos (h : LaidOut fs) : 0 < fs.fpg := by
  refine Nat.pos_of_ne_zero fun h0 => ?_
  have := Nat.mul_pos h.cpg_pos h.spc_pos
  have heq := h.fpg_eq
  rw [h0, Nat.zero_mul] at heq
  omega

theorem frag_dvd_sblkno (_ : LaidOut fs) : fs.frag ∣ fs.sblkno :=
  dvd_roundup _ _

theorem frag_dvd_iblkno (h : LaidOut fs) : fs.frag ∣ fs.iblkno :=
  Nat.dvd_add (Nat.dvd_add h.frag_dvd_sblkno (dvd_roundup _ _)) (dvd_refl _)

/-- The inode blocks are whole blocks, so the data begins on one. -/
theorem frag_dvd_dblkno (h : LaidOut fs) (hb : fs.bsize ≤ MAXBSIZE) :
    fs.frag ∣ fs.dblkno := by
  obtain ⟨k, hk⟩ := h.inopb_dvd hb
  have hdiv : fs.ipg / fs.INOPF = k * fs.frag := by
    rw [hk, h.sized.inopb_eq, Nat.mul_assoc,
      Nat.mul_div_cancel_left _ h.sized.INOPF_pos, Nat.mul_comm]
  rw [h.dblkno_eq, hdiv]
  exact Nat.dvd_add h.frag_dvd_iblkno (Nat.dvd_mul_left _ _)

/-- A cylinder is far shorter than an `int` allows. -/
theorem spc_lt (h : LaidOut fs) (hb : fs.bsize ≤ MAXBSIZE) :
    fs.spc < 2 ^ 29 := by
  have hmap : fs.MAXBPG ≤ NBBY * MAXBSIZE := by
    rw [h.sized.MAXBPG_eq]
    refine Nat.le_trans (Nat.div_le_self _ _) ?_
    exact Nat.mul_le_mul_left _ (Nat.le_trans (Nat.sub_le _ _) hb)
  have hnspb : fs.NSPB ≤ 8 := by
    have := h.sized.NSPB_mul
    unfold DEV_BSIZE at this
    unfold MAXBSIZE at hb
    omega
  calc fs.spc
      ≤ fs.MAXBPG * fs.NSPB := h.spc_le
    _ ≤ NBBY * MAXBSIZE * 8 := Nat.mul_le_mul hmap hnspb
    _ < 2 ^ 29 := by decide

/-- Where the superblock copy of a group stands in the group. -/
theorem dlower_eq (_ : LaidOut fs) (c : Nat) :
    fs.cgsblock c - fs.cgbase c
      = fs.cgoffset * (c &&& fs.cgStagger) + fs.sblkno := by
  unfold Fs.cgsblock Fs.cgstart
  omega

/-- Where the data of a group begins in the group. -/
theorem dupper_eq (_ : LaidOut fs) (c : Nat) :
    fs.cgdmin c - fs.cgbase c
      = fs.cgoffset * (c &&& fs.cgStagger) + fs.dblkno := by
  unfold Fs.cgdmin Fs.cgstart
  omega

theorem frag_dvd_dlower (h : LaidOut fs) (c : Nat) :
    fs.frag ∣ fs.cgsblock c - fs.cgbase c := by
  rw [h.dlower_eq]
  exact Nat.dvd_add (Nat.dvd_mul_right_of_dvd h.frag_dvd_cgoffset _)
    h.frag_dvd_sblkno

theorem frag_dvd_dupper (h : LaidOut fs) (hb : fs.bsize ≤ MAXBSIZE)
    (c : Nat) : fs.frag ∣ fs.cgdmin c - fs.cgbase c := by
  rw [h.dupper_eq]
  exact Nat.dvd_add (Nat.dvd_mul_right_of_dvd h.frag_dvd_cgoffset _)
    (h.frag_dvd_dblkno hb)

theorem dlower_le_dupper (h : LaidOut fs) (c : Nat) :
    fs.cgsblock c - fs.cgbase c ≤ fs.cgdmin c - fs.cgbase c := by
  rw [h.dlower_eq, h.dupper_eq, h.dblkno_eq]
  have hle : fs.sblkno ≤ fs.iblkno := by
    unfold Blocks.iblkno Blocks.cblkno
    omega
  exact Nat.add_le_add_left (Nat.le_trans hle (Nat.le_add_right _ _)) _

end LaidOut

/-! ## §5. What `layOut` lays out. -/

/-- The inodes of a group are whole blocks of inodes, at most `MAXIPG`. -/
theorem ipgOf_spec {b : Blocks} (hb : WellSized b) (fssize ncg : Nat)
    (nbpi : Int) :
    ipgOf b fssize ncg nbpi ≤ MAXIPG ∧
      (b.bsize ≤ MAXBSIZE → b.inopb ∣ ipgOf b fssize ncg nbpi) := by
  have hcap : ∀ blocks : Nat,
      (if MAXIPG < blocks * b.inopb then MAXIPG else blocks * b.inopb) ≤ MAXIPG
        ∧ (b.bsize ≤ MAXBSIZE → b.inopb ∣
            if MAXIPG < blocks * b.inopb then MAXIPG
            else blocks * b.inopb) := by
    intro blocks
    split
    · exact ⟨le_rfl, hb.inopb_dvd⟩
    · rename_i hle
      exact ⟨Nat.le_of_not_lt hle, fun _ => Nat.dvd_mul_left _ _⟩
  exact hcap _

/-- `~fs_cgmask` has the low bits only. -/
theorem cgStagger_eq {ntrak : Nat} (h0 : 0 < ntrak) (hmax : ntrak ≤ INT_MAX) :
    ∃ k, 2 ^ 32 - 1 - cgmaskOf ntrak = 2 ^ k - 1 := by
  have hlog : ntrak.log2 < 31 := by
    rw [Nat.log2_lt (by omega)]
    unfold INT_MAX at hmax
    omega
  unfold cgmaskOf shiftOf
  generalize hk : (ntrak.log2 + if POWEROF2 ntrak then 0 else 1) = k
  have hk31 : k ≤ 31 := by
    rw [← hk]
    split <;> omega
  have hpow : 2 ^ k ≤ 2 ^ 31 := Nat.pow_le_pow_right (by decide) hk31
  have hpos := Nat.two_pow_pos k
  exact ⟨k, by omega⟩

/-- The rotation never moves a group further than the index that is tested. -/
theorem and_stagger_le {m k c n : Nat} (hm : m = 2 ^ k - 1) (hc : c ≤ n) :
    c &&& m ≤ min m n &&& m := by
  have hpos := Nat.two_pow_pos k
  have hfix : min m n &&& m = min m n := by
    rw [hm, Nat.and_two_pow_sub_one_eq_mod]
    exact Nat.mod_eq_of_lt (by omega)
  rw [hfix]
  exact Nat.le_min.mpr
    ⟨Nat.and_le_right, Nat.le_trans Nat.and_le_left hc⟩

/-- **The layout.**  The tests before it make every boundary a block
boundary; the test after it bounds the metadata of every group. -/
theorem layOut_laidOut {b : Blocks} {ntrak nsect fssize ncyl cpg : Nat}
    {nbpi : Int} (hb : WellSized b) (hntrak : 0 < ntrak) (hnsect : 0 < nsect)
    (hspc : ntrak * nsect ≤ INT_MAX)
    (hcpg : 0 < cpg ∧ cpg ≤ MAXCPG ∧ cpg * (ntrak * nsect) ≤ INT_MAX ∧
      b.nspf * b.frag ∣ cpg * (ntrak * nsect))
    (hgroup : checkGroup b (ntrak * nsect) cpg = .ok ())
    (hmeta : metadataTooLarge (layOut b ntrak nsect fssize ncyl cpg nbpi)
      = false) :
    LaidOut (layOut b ntrak nsect fssize ncyl cpg nbpi) := by
  obtain ⟨hcpg0, hcpgMax, hcpgInt, t, ht⟩ := hcpg
  have hfpg : fpgOf b (ntrak * nsect) cpg = b.frag * t := by
    unfold fpgOf
    rw [ht, Nat.mul_assoc, Nat.mul_div_cancel_left _ hb.nspf_pos]
  have hipg := ipgOf_spec hb fssize (groupCount ncyl cpg) nbpi
  constructor
  case sized => exact hb
  case nsect_pos => exact hnsect
  case nsect_le => exact Nat.le_mul_of_pos_left _ hntrak
  case cpg_pos => exact hcpg0
  case cpg_le => exact hcpgMax
  case cpg_spc => exact hcpgInt
  case fpg_eq =>
    show fpgOf b (ntrak * nsect) cpg * b.nspf = cpg * (ntrak * nsect)
    rw [hfpg, ht]
    ring
  case frag_dvd_fpg =>
    show b.frag ∣ fpgOf b (ntrak * nsect) cpg
    rw [hfpg]
    exact Nat.dvd_mul_right _ _
  case spc_le =>
    show ntrak * nsect ≤ b.MAXBPG * b.NSPB
    unfold checkGroup at hgroup
    split at hgroup
    · cases hgroup
    rename_i hle
    exact Nat.le_of_not_lt hle
  case fpg_le =>
    show fpgOf b (ntrak * nsect) cpg ≤ b.MAXBPG * b.frag
    unfold checkGroup at hgroup
    split at hgroup
    · cases hgroup
    split at hgroup
    · cases hgroup
    rename_i hle
    exact Nat.le_of_not_lt hle
  case frag_dvd_cgoffset => exact dvd_roundup _ _
  case dblkno_eq => rfl
  case ipg_le => exact hipg.1
  case inopb_dvd => exact hipg.2
  case metadata =>
    intro c hc
    unfold metadataTooLarge at hmeta
    simp only [decide_eq_false_iff_not, Nat.not_le] at hmeta
    generalize hfs : layOut b ntrak nsect fssize ncyl cpg nbpi = fs at *
    have hntrakMax : ntrak ≤ INT_MAX :=
      Nat.le_trans (Nat.le_mul_of_pos_right _ hnsect) hspc
    obtain ⟨k, hk⟩ := cgStagger_eq hntrak hntrakMax
    have hstag : fs.cgStagger = 2 ^ k - 1 := by
      rw [← hk, ← hfs]
      rfl
    have hand := and_stagger_le hstag (show c ≤ fs.ncg - 1 by omega)
    have hmul := Nat.mul_le_mul_left fs.cgoffset hand
    unfold Fs.cgdmin Fs.cgstart at hmeta ⊢
    omega

/-- A geometry with fewer groups is laid out as well. -/
theorem LaidOut.withCounts {fs : Fs} (h : LaidOut fs)
    {ncg ncyl size csaddr cssize : Nat} (hn : ncg ≤ fs.ncg) :
    LaidOut { fs with
      ncg := ncg, ncyl := ncyl, size := size, csaddr := csaddr,
      cssize := cssize } where
  sized := h.sized
  nsect_pos := h.nsect_pos
  nsect_le := h.nsect_le
  cpg_pos := h.cpg_pos
  cpg_le := h.cpg_le
  cpg_spc := h.cpg_spc
  spc_le := h.spc_le
  fpg_eq := h.fpg_eq
  frag_dvd_fpg := h.frag_dvd_fpg
  fpg_le := h.fpg_le
  frag_dvd_cgoffset := h.frag_dvd_cgoffset
  dblkno_eq := h.dblkno_eq
  ipg_le := h.ipg_le
  inopb_dvd := h.inopb_dvd
  metadata := fun c hc => h.metadata c (Nat.lt_of_lt_of_le hc hn)

/-! ## §6. The size and the groups. -/

/-- The groups cover the file system, the cylinder count is that of its size,
and every group has room for its metadata. -/
structure Covered (fs : Fs) : Prop where
  size_le : fs.size ≤ fs.ncg * fs.fpg
  size_lt : ∀ c < fs.ncg, c * fs.fpg < fs.size
  ncyl_le : fs.size * fs.cpg ≤ fs.ncyl * fs.fpg
  ncyl_lt : 0 < fs.ncg → (fs.ncyl - 1) * fs.fpg < fs.size * fs.cpg
  room : ∀ c < fs.ncg, fs.cgdmin c - fs.cgbase c ≤ fs.size - c * fs.fpg

/-- The file system has one group of cylinders more than it has groups. -/
structure Overhang (fs : Fs) : Prop where
  size_eq : fs.size = (fs.ncg + 1) * fs.fpg
  ncyl_eq : fs.ncyl = (fs.ncg + 1) * fs.cpg

/-- The counts as they are computed, before the last group is looked at. -/
structure Counted (fs : Fs) : Prop where
  ncyl_pos : 0 < fs.ncyl
  ncyl_le : fs.size * fs.nspf ≤ fs.ncyl * fs.spc
  ncyl_lt : (fs.ncyl - 1) * fs.spc < fs.size * fs.nspf
  ncg_eq : fs.ncg = groupCount fs.ncyl fs.cpg

namespace Counted

variable {fs : Fs}

/-- Cylinders in fragments: `cpg` times the size against `ncyl` groups. -/
theorem scale (h : LaidOut fs) (n : Nat) :
    n * fs.spc * fs.cpg = n * fs.fpg * fs.nspf := by
  rw [Nat.mul_assoc n fs.fpg, h.fpg_eq]
  ring

theorem size_le (h : Counted fs) (hl : LaidOut fs) :
    fs.size ≤ fs.ncg * fs.fpg := by
  have hg := (groupCount_spec h.ncyl_pos hl.cpg_pos).2.1
  rw [← h.ncg_eq] at hg
  refine Nat.le_of_mul_le_mul_right ?_ hl.sized.nspf_pos
  calc fs.size * fs.nspf
      ≤ fs.ncyl * fs.spc := h.ncyl_le
    _ ≤ fs.ncg * fs.cpg * fs.spc := Nat.mul_le_mul_right _ hg
    _ = fs.ncg * fs.fpg * fs.nspf := by
        rw [Nat.mul_assoc, ← hl.fpg_eq, Nat.mul_assoc]

theorem size_lt (h : Counted fs) (hl : LaidOut fs) {c : Nat}
    (hc : c < fs.ncg) : c * fs.fpg < fs.size := by
  have hg := (groupCount_spec h.ncyl_pos hl.cpg_pos).2.2
  rw [← h.ncg_eq] at hg
  have hcyl : c * fs.cpg ≤ fs.ncyl - 1 := by
    have : c * fs.cpg ≤ (fs.ncg - 1) * fs.cpg :=
      Nat.mul_le_mul_right _ (by omega)
    omega
  refine Nat.lt_of_mul_lt_mul_right (a := fs.nspf) ?_
  calc c * fs.fpg * fs.nspf
      = c * fs.cpg * fs.spc := by rw [Nat.mul_assoc, hl.fpg_eq, Nat.mul_assoc]
    _ ≤ (fs.ncyl - 1) * fs.spc := Nat.mul_le_mul_right _ hcyl
    _ < fs.size * fs.nspf := h.ncyl_lt

/-- A last group with room for its metadata: nothing is given up. -/
theorem covered (h : Counted fs) (hl : LaidOut fs)
    (hlast : lastGroupTooShort fs = false) : Covered fs where
  size_le := h.size_le hl
  size_lt := fun _ hc => h.size_lt hl hc
  ncyl_le := by
    refine Nat.le_of_mul_le_mul_right ?_ hl.sized.nspf_pos
    rw [← scale hl, Nat.mul_right_comm]
    exact Nat.mul_le_mul_right _ h.ncyl_le
  ncyl_lt := by
    intro _
    refine Nat.lt_of_mul_lt_mul_right (a := fs.nspf) ?_
    rw [← scale hl, Nat.mul_right_comm fs.size]
    exact Nat.mul_lt_mul_of_pos_right h.ncyl_lt hl.cpg_pos
  room := by
    intro c hc
    have hsize := h.size_lt hl (show fs.ncg - 1 < fs.ncg by omega)
    unfold lastGroupTooShort at hlast
    simp only [decide_eq_false_iff_not] at hlast
    have hmeta := hl.metadata c hc
    by_cases hcl : c = fs.ncg - 1
    · subst hcl
      omega
    · -- a group before the last is a full one
      have hnext : (c + 1) * fs.fpg ≤ (fs.ncg - 1) * fs.fpg :=
        Nat.mul_le_mul_right _ (by omega)
      rw [Nat.add_mul, Nat.one_mul] at hnext
      omega

end Counted

/-- **What `dropShortGroup` leaves.**  With whole groups of cylinders before
the dropped one the rest is covered; if the dropped group's cylinders fill it,
they stay counted. -/
theorem dropShortGroup_ok {fs fs' : Fs} (hl : LaidOut fs) (hc : Counted fs)
    (h : dropShortGroup fs = .ok fs') :
    LaidOut fs' ∧ (Covered fs' ∨ Overhang fs') := by
  unfold dropShortGroup at h
  by_cases hlast : lastGroupTooShort fs = true
  · rw [if_pos hlast] at h
    dsimp only at h
    split at h
    · cases h
    injection h with h
    subst h
    refine ⟨hl.withCounts (Nat.sub_le _ _), ?_⟩
    have hg := groupCount_spec hc.ncyl_pos hl.cpg_pos
    rw [← hc.ncg_eq] at hg
    have hmod := Nat.mod_lt fs.ncyl hl.cpg_pos
    have hdiv := Nat.div_add_mod fs.ncyl fs.cpg
    rw [Nat.mul_comm fs.cpg] at hdiv
    have hncyl : fs.ncyl - fs.ncyl % fs.cpg = fs.ncyl / fs.cpg * fs.cpg := by
      omega
    have hsize : ∀ m, m * fs.cpg * fs.spc / fs.nspf = m * fs.fpg := by
      intro m
      rw [Nat.mul_assoc, ← hl.fpg_eq, ← Nat.mul_assoc,
        Nat.mul_div_cancel _ hl.sized.nspf_pos]
    rw [hncyl, hsize]
    have hncg := hc.ncg_eq
    unfold groupCount at hncg
    by_cases hr : fs.ncyl % fs.cpg = 0
    · -- the slip: no cylinder is given up with the group
      right
      rw [if_neg (not_not.mpr hr), Nat.add_zero] at hncg
      have hone : fs.ncg - 1 + 1 = fs.ncyl / fs.cpg := by omega
      constructor
      · show fs.ncyl / fs.cpg * fs.fpg = (fs.ncg - 1 + 1) * fs.fpg
        rw [hone]
      · show fs.ncyl / fs.cpg * fs.cpg = (fs.ncg - 1 + 1) * fs.cpg
        rw [hone]
    · left
      rw [if_pos hr] at hncg
      have hm : fs.ncg - 1 = fs.ncyl / fs.cpg := by omega
      rw [← hm]
      generalize hk : fs.ncg - 1 = m
      constructor
      case size_le => exact le_rfl
      case size_lt =>
        exact fun c hcm => Nat.mul_lt_mul_of_pos_right hcm hl.fpg_pos
      case ncyl_le =>
        show m * fs.fpg * fs.cpg ≤ m * fs.cpg * fs.fpg
        rw [Nat.mul_right_comm]
      case ncyl_lt =>
        intro hmpos
        have hmpos : 0 < m := hmpos
        show (m * fs.cpg - 1) * fs.fpg < m * fs.fpg * fs.cpg
        rw [Nat.mul_right_comm]
        have hpos := Nat.mul_pos hmpos hl.cpg_pos
        exact Nat.mul_lt_mul_of_pos_right (by omega) hl.fpg_pos
      case room =>
        intro c hcm
        have hcm : c < m := hcm
        have hmeta := hl.metadata c (by omega)
        have hnext : (c + 1) * fs.fpg ≤ m * fs.fpg :=
          Nat.mul_le_mul_right _ hcm
        rw [Nat.add_mul, Nat.one_mul] at hnext
        show fs.cgdmin c - fs.cgbase c ≤ m * fs.fpg - c * fs.fpg
        omega
  · rw [if_neg hlast] at h
    injection h with h
    subst h
    exact ⟨hl, Or.inl (hc.covered hl (Bool.eq_false_iff.mpr hlast))⟩

/-! ## §7. The chain, inverted. -/

private theorem bind_ok {ε α β : Type} {x : Except ε α}
    {f : α → Except ε β} {b : β} (h : x.bind f = .ok b) :
    ∃ a, x = .ok a ∧ f a = .ok b := by
  cases x with
  | error e => cases h
  | ok a => exact ⟨a, rfl, h⟩

/-- **An accepted geometry** is laid out in blocks, and either its groups
cover it or it hangs over by one. -/
theorem nextufsFormat_spec {opts : FormatOptions} {fs : Fs}
    (h : nextufsFormat opts = .ok fs) :
    LaidOut fs ∧ (Covered fs ∨ Overhang fs) := by
  unfold nextufsFormat at h
  split at h
  · cases h
  split at h
  · cases h
  split at h
  · cases h
  rename_i hntrak
  split at h
  · cases h
  rename_i hnsect
  dsimp only at h
  split at h
  · cases h
  rename_i hspc
  obtain ⟨b, hb, h⟩ := bind_ok h
  obtain ⟨cpg, hcpg, h⟩ := bind_ok h
  obtain ⟨ncyl, hncyl, h⟩ := bind_ok h
  obtain ⟨⟨⟩, hgroup, h⟩ := bind_ok h
  split at h
  · cases h
  rename_i hmeta
  obtain ⟨fs₁, hdrop, h⟩ := bind_ok h
  split at h
  · cases h
  injection h with h
  have hntrak : 0 < opts.ntrak.toNat := by omega
  have hnsect : 0 < opts.nsect.toNat := by omega
  have hspcPos := Nat.mul_pos hntrak hnsect
  have hsized := blockSizes_wellSized hb
  have hcpg := cylinderGroup_ok hsized hcpg
  have hncyl := countCylinders_ok hspcPos hncyl
  have hl := layOut_laidOut hsized hntrak hnsect (Nat.le_of_not_lt hspc) hcpg
    hgroup (Bool.eq_false_iff.mpr hmeta)
  have hc : Counted (layOut b opts.ntrak.toNat opts.nsect.toNat
      (opts.size1kSectors >>> b.fsbtodb) ncyl cpg opts.nbpi) :=
    ⟨hncyl.1, hncyl.2.1, hncyl.2.2, rfl⟩
  obtain ⟨hl₁, hcov⟩ := dropShortGroup_ok hl hc hdrop
  subst h
  refine ⟨hl₁.withCounts le_rfl, hcov.imp ?_ ?_⟩
  · exact fun hcov =>
      ⟨hcov.size_le, hcov.size_lt, hcov.ncyl_le, hcov.ncyl_lt, hcov.room⟩
  · exact fun hover => ⟨hover.size_eq, hover.ncyl_eq⟩

/-- Giving up a group changes no block size. -/
theorem dropShortGroup_blocks {fs fs' : Fs} (h : dropShortGroup fs = .ok fs') :
    fs'.toBlocks = fs.toBlocks := by
  unfold dropShortGroup at h
  split at h
  · dsimp only at h
    split at h
    · cases h
    · cases h
      rfl
  · cases h
    rfl

/-- The block sizes of an accepted geometry are those of its options. -/
theorem nextufsFormat_blocks {opts : FormatOptions} {fs : Fs}
    (h : nextufsFormat opts = .ok fs) :
    blockSizes opts.bsize opts.fsize = .ok fs.toBlocks := by
  unfold nextufsFormat at h
  split at h
  · cases h
  split at h
  · cases h
  split at h
  · cases h
  split at h
  · cases h
  dsimp only at h
  split at h
  · cases h
  obtain ⟨b, hb, h⟩ := bind_ok h
  obtain ⟨cpg, -, h⟩ := bind_ok h
  obtain ⟨ncyl, -, h⟩ := bind_ok h
  obtain ⟨⟨⟩, -, h⟩ := bind_ok h
  split at h
  · cases h
  obtain ⟨fs₁, hdrop, h⟩ := bind_ok h
  split at h
  · cases h
  injection h with h
  subst h
  rw [hb, show (placeSummary fs₁).toBlocks = b from dropShortGroup_blocks hdrop]

/-- The fields no later test is about, as the chain fills them in. -/
structure Filled (fs : Fs) : Prop where
  ipg_pos : 0 < fs.ipg
  cgsize_eq : fs.cgsize = fs.fragroundup (SIZEOF_CG + howmany fs.fpg NBBY)
  cssize_eq : fs.cssize = fs.fragroundup (fs.ncg * SIZEOF_CSUM)
  size_le : fs.size * fs.nspf ≤ INT_MAX

/-- A group has inodes. -/
theorem ipgOf_pos {b : Blocks} (hb : WellSized b) (fssize ncg : Nat)
    (nbpi : Int) : 0 < ipgOf b fssize ncg nbpi := by
  have hcap : ∀ blocks : Nat, 0 < (if MAXIPG < (blocks + 1) * b.inopb then MAXIPG
      else (blocks + 1) * b.inopb) := by
    intro blocks
    split
    · decide
    · exact Nat.mul_pos (Nat.succ_pos _) hb.inopb_pos
  exact hcap _

/-- Giving up a group changes no group. -/
theorem dropShortGroup_group {fs fs' : Fs} (h : dropShortGroup fs = .ok fs') :
    fs'.ipg = fs.ipg ∧ fs'.fpg = fs.fpg ∧ fs'.cgsize = fs.cgsize := by
  unfold dropShortGroup at h
  split at h
  · dsimp only at h
    split at h
    · cases h
    · cases h
      exact ⟨rfl, rfl, rfl⟩
  · cases h
    exact ⟨rfl, rfl, rfl⟩

theorem nextufsFormat_filled {opts : FormatOptions} {fs : Fs}
    (h : nextufsFormat opts = .ok fs) : Filled fs := by
  have hsized := blockSizes_wellSized (nextufsFormat_blocks h)
  unfold nextufsFormat at h
  split at h
  · cases h
  split at h
  · cases h
  split at h
  · cases h
  split at h
  · cases h
  dsimp only at h
  split at h
  · cases h
  obtain ⟨b, -, h⟩ := bind_ok h
  obtain ⟨cpg, -, h⟩ := bind_ok h
  obtain ⟨ncyl, -, h⟩ := bind_ok h
  obtain ⟨⟨⟩, -, h⟩ := bind_ok h
  split at h
  · cases h
  obtain ⟨fs₁, hdrop, h⟩ := bind_ok h
  split at h
  · cases h
  rename_i hsize
  injection h with h
  have hblocks := dropShortGroup_blocks hdrop
  obtain ⟨hipg, hfpg, hcgsize⟩ := dropShortGroup_group hdrop
  have hb : b = fs.toBlocks := by
    rw [← h]
    exact hblocks.symm
  subst h
  constructor
  case ipg_pos =>
    show 0 < fs₁.ipg
    rw [hipg]
    apply ipgOf_pos
    rw [hb]
    exact hsized
  case cgsize_eq =>
    show fs₁.cgsize = fs₁.fragroundup (SIZEOF_CG + howmany fs₁.fpg NBBY)
    rw [hcgsize, hfpg, hblocks]
    rfl
  case cssize_eq => rfl
  case size_le => exact Nat.le_of_not_lt hsize

end NextUfs.Format
