/-
  NextUfs.Format.InitCgSpec
  ─────────────────────────
  **THE LOOPS OF `initcg`, COUNTED.**

  In an accepted geometry the boundaries of a group are block boundaries, so
  every loop of `initcg` runs a known number of rounds.

    • `lowerBlocks_eq`, `metadataBlocks_eq`, `dataBlocks_eq` — the regions,
    • `groupBlocks_frsum`, `groupBlocks_head` — what they leave alone,
    • `resetCg_spec`  — the fields before the map is built,
    • `initcgs_spec`  — every group on the device is the one its own call of
      `initcg` built.
-/
import NextUfs.Format.GeometrySpec
import NextUfs.Format.InitCg

namespace NextUfs.Format

open Bits Loop

/-! ## §1. The regions. -/

section Regions

variable {fs : Fs} (hfrag : 0 < fs.frag)
include hfrag

/-- A loop to a block boundary runs once for every block. -/
private theorem forLoop_blocks {σ : Type} (body : Nat → σ → σ) {lo hi : Nat}
    {cond : Nat → Bool} (hdvd : fs.frag ∣ hi - lo) (hle : lo ≤ hi)
    (hrun : ∀ i, i + fs.frag ≤ hi → cond i = true)
    (hend : cond hi = false) {fuel : Nat} (hfuel : hi < fuel) (s : σ) :
    forLoop cond fs.frag body fuel lo s
      = (hi, rounds fs.frag body ((hi - lo) / fs.frag) lo s) := by
  obtain ⟨n, hn⟩ := hdvd
  have hnf : n * fs.frag = hi - lo := by rw [hn, Nat.mul_comm]
  have hdiv : (hi - lo) / fs.frag = n := by
    rw [hn, Nat.mul_div_cancel_left _ hfrag]
  have hn_le : n ≤ n * fs.frag := Nat.le_mul_of_pos_right _ hfrag
  have hhi : lo + n * fs.frag = hi := by omega
  rw [hdiv, forLoop_eq n fuel lo s (by omega) _ (by rw [hhi]; exact hend), hhi]
  intro k hk
  apply hrun
  have hkn : (k + 1) * fs.frag ≤ n * fs.frag := Nat.mul_le_mul_right _ hk
  rw [Nat.add_mul, Nat.one_mul] at hkn
  omega

theorem lowerBlocks_eq {c dlower : Nat} (hc : c ≠ 0)
    (hdvd : fs.frag ∣ dlower) (acg : Cg) :
    lowerBlocks fs c dlower acg
      = (dlower,
          rounds fs.frag (freeBlock fs) (dlower / fs.frag) 0 acg) := by
  unfold lowerBlocks
  rw [if_neg hc]
  apply forLoop_blocks hfrag
  · exact hdvd
  · exact Nat.zero_le _
  · intro i hi
    exact decide_eq_true (show i < dlower by omega)
  · exact decide_eq_false (Nat.lt_irrefl _)
  · exact Nat.lt_succ_self _

theorem metadataBlocks_eq {dlower dupper : Nat} (hle : dlower ≤ dupper)
    (hlo : fs.frag ∣ dlower) (hhi : fs.frag ∣ dupper) (acg : Cg) :
    metadataBlocks fs dupper (dlower, acg)
      = (dupper, rounds fs.frag (clearBlock fs)
          ((dupper - dlower) / fs.frag) dlower acg) := by
  have hloop : forLoop (fun d => decide (d < dupper)) fs.frag (clearBlock fs)
      (dupper + 1) dlower acg
      = (dupper, rounds fs.frag (clearBlock fs)
          ((dupper - dlower) / fs.frag) dlower acg) := by
    apply forLoop_blocks hfrag
    · exact Nat.dvd_sub hhi hlo
    · exact hle
    · intro i hi
      exact decide_eq_true (show i < dupper by omega)
    · exact decide_eq_false (Nat.lt_irrefl _)
    · exact Nat.lt_succ_self _
  unfold metadataBlocks
  dsimp only
  rw [hloop, if_neg (Nat.lt_irrefl _)]

/-- The end of the whole blocks of a range that begins on a block boundary. -/
def wholeEnd (fs : Fs) (dupper ndblk : Nat) : Nat :=
  dupper + (ndblk - dupper) / fs.frag * fs.frag

omit hfrag in
theorem wholeEnd_le {dupper ndblk : Nat} (hle : dupper ≤ ndblk) :
    wholeEnd fs dupper ndblk ≤ ndblk := by
  have := Nat.div_mul_le_self (ndblk - dupper) fs.frag
  unfold wholeEnd
  omega

theorem lt_wholeEnd {dupper ndblk : Nat} (hle : dupper ≤ ndblk) :
    ndblk < wholeEnd fs dupper ndblk + fs.frag := by
  have hdiv := Nat.div_add_mod (ndblk - dupper) fs.frag
  have hmod := Nat.mod_lt (ndblk - dupper) hfrag
  rw [Nat.mul_comm] at hdiv
  unfold wholeEnd
  omega

theorem dataBlocks_eq {dupper ndblk : Nat} (hle : dupper ≤ ndblk) (acg : Cg) :
    dataBlocks fs ndblk (dupper, acg)
      = (wholeEnd fs dupper ndblk,
          rounds fs.frag (freeBlock fs) ((ndblk - dupper) / fs.frag) dupper
            acg) := by
  have hwhole : wholeEnd fs dupper ndblk ≤ ndblk := wholeEnd_le hle
  have hlt := lt_wholeEnd hfrag hle
  have hblocks : wholeEnd fs dupper ndblk - dupper
      = (ndblk - dupper) / fs.frag * fs.frag := Nat.add_sub_cancel_left ..
  have hloop : dataBlocks fs ndblk (dupper, acg)
      = (wholeEnd fs dupper ndblk,
          rounds fs.frag (freeBlock fs)
            ((wholeEnd fs dupper ndblk - dupper) / fs.frag) dupper acg) := by
    unfold dataBlocks
    apply forLoop_blocks hfrag
    · rw [hblocks]
      exact Nat.dvd_mul_left _ _
    · exact Nat.le_add_right _ _
    · intro i hi
      exact decide_eq_true (show i + fs.frag ≤ ndblk by omega)
    · exact decide_eq_false (by omega)
    · omega
  rw [hloop, hblocks, Nat.mul_div_cancel _ hfrag]

end Regions

/-! ## §2. What the map loops leave alone. -/

/-- The fields the map loops never touch. -/
def headOf (g : Cg) : Nat × Nat × Nat × (Nat → Bool) × UInt32 × UInt32 :=
  (g.ncyl, g.niblk, g.ndblk, g.iused, g.cs.ndir, g.cs.nifree)

section Frame

variable {β : Type} {fs : Fs} {F : Cg → β}
  (hfree : ∀ d g, F (freeBlock fs d g) = F g)
  (hclear : ∀ (free : Nat → Bool) (g : Cg), F { g with free := free } = F g)
include hfree hclear

/-- A quantity that neither a whole block nor a run moves stays through
`groupBlocks`; only runs shorter than a block are counted. -/
private theorem groupBlocks_keeps (hfrag : 0 < fs.frag)
    (hrun : ∀ d n g, n < fs.frag → F (freeRun d n g) = F g)
    {c dlower dupper ndblk : Nat} (hle : dlower ≤ dupper) (acg : Cg) :
    F (groupBlocks fs c dlower dupper ndblk acg) = F acg := by
  -- the counter of a loop to `limit` stops less than a block past it
  have hstop : ∀ (body : Nat → Cg → Cg) (limit fuel i : Nat) (g : Cg),
      (∀ d g, F (body d g) = F g) → i < limit + fs.frag →
      (forLoop (fun d => decide (d < limit)) fs.frag body fuel i g).1
          < limit + fs.frag ∧
        F (forLoop (fun d => decide (d < limit)) fs.frag body fuel i g).2
          = F g := by
    intro body limit fuel i g hbody hi
    apply forLoop_induct (I := fun d g' => d < limit + fs.frag ∧ F g' = F g)
    · intro d g' hd hI
      have hd : d < limit := of_decide_eq_true hd
      exact ⟨by omega, (hbody d g').trans hI.2⟩
    · exact ⟨hi, rfl⟩
  have hlower := hstop (if c = 0 then clearBlock fs else freeBlock fs)
    dlower (dlower + 1) 0 acg
    (by
      intro d g
      split
      · exact hclear _ g
      · exact hfree d g)
    (by omega)
  change (lowerBlocks fs c dlower acg).1 < dlower + fs.frag ∧
    F (lowerBlocks fs c dlower acg).2 = F acg at hlower
  unfold groupBlocks
  generalize lowerBlocks fs c dlower acg = r₁ at hlower
  have hmeta : F (metadataBlocks fs dupper r₁).2 = F acg := by
    have h := hstop (clearBlock fs) dupper (dupper + 1) r₁.1 r₁.2
      (fun d g => hclear _ g) (by omega)
    unfold metadataBlocks
    dsimp only
    split
    · rename_i hd
      rw [hrun _ _ _ (by omega), h.2, hlower.2]
    · rw [h.2, hlower.2]
  generalize metadataBlocks fs dupper r₁ = r₂ at hmeta
  have hdata : F (dataBlocks fs ndblk r₂).2 = F acg ∧
      ndblk < (dataBlocks fs ndblk r₂).1 + fs.frag := by
    constructor
    · rw [← hmeta]
      unfold dataBlocks
      apply forLoop_induct (I := fun _ g => F g = F r₂.2)
      · exact fun d g _ hI => (hfree d g).trans hI
      · rfl
    · have hdone : decide ((dataBlocks fs ndblk r₂).1 + fs.frag ≤ ndblk)
          = false :=
        @forLoop_done Cg (fun d => decide (d + fs.frag ≤ ndblk)) fs.frag
          (freeBlock fs) ndblk hfrag
          (fun i hi => decide_eq_false (by omega)) (ndblk + 1) r₂.1 r₂.2
          (by omega)
      have hdone := of_decide_eq_false hdone
      omega
  generalize dataBlocks fs ndblk r₂ = r₃ at hdata
  have htail : F (tailFrags fs ndblk r₃).2 = F acg := by
    unfold tailFrags
    split
    · dsimp only
      rw [hclear, hrun _ _ _ (by omega), hdata.1]
    · exact hdata.1
  rw [← htail]
  unfold restOfMap
  apply forLoop_induct
    (I := fun _ g => F g = F (tailFrags fs ndblk r₃).2)
  · exact fun d g _ hI => (hclear _ g).trans hI
  · rfl

end Frame

theorem groupBlocks_head {fs : Fs} (hfrag : 0 < fs.frag)
    {c dlower dupper ndblk : Nat} (hle : dlower ≤ dupper) (acg : Cg) :
    headOf (groupBlocks fs c dlower dupper ndblk acg) = headOf acg :=
  groupBlocks_keeps (F := headOf) (fun _ _ => rfl) (fun _ _ => rfl) hfrag
    (fun _ _ _ _ => rfl) hle acg

/-- Runs are shorter than a block, so `frsum` is left alone from there on. -/
theorem groupBlocks_frsum {fs : Fs} (hfrag : 0 < fs.frag)
    {c dlower dupper ndblk : Nat} (hle : dlower ≤ dupper) (acg : Cg) {j : Nat}
    (hj : fs.frag ≤ j) :
    (groupBlocks fs c dlower dupper ndblk acg).frsum j = acg.frsum j := by
  apply groupBlocks_keeps (F := fun g => g.frsum j) (fun _ _ => rfl)
    (fun _ _ => rfl) hfrag _ hle
  intro d n g hn
  exact Function.update_of_ne (by omega) _ _

theorem groupBlocks_magic {fs : Fs} (hfrag : 0 < fs.frag)
    {c dlower dupper ndblk : Nat} (hle : dlower ≤ dupper) (acg : Cg) :
    (groupBlocks fs c dlower dupper ndblk acg).magic = acg.magic :=
  groupBlocks_keeps (F := Cg.magic) (fun _ _ => rfl) (fun _ _ => rfl) hfrag
    (fun _ _ _ _ => rfl) hle acg

/-! ## §3. The fields before the map is built. -/

/-- The buffer of a group after `resetCg`, when its inodes are whole
blocks. -/
structure Reset (fs : Fs) (c ndblk : Nat) (g : Cg) : Prop where
  ncyl : g.ncyl = if c = fs.ncg - 1 then fs.ncyl % fs.cpg else fs.cpg
  niblk : g.niblk = fs.ipg
  ndblk : g.ndblk = ndblk
  cs : g.cs = ⟨0, 0, UInt32.ofNat fs.ipg, 0⟩
  frsum : ∀ j, g.frsum j = 0
  btot : ∀ cyl < MAXCPG, g.btot cyl = 0
  b : ∀ cyl < MAXCPG, ∀ pos < NRPOS, g.b cyl pos = 0
  iused : ∀ i < MAXIPG, g.iused i = false

/-- The rounds of `clearInodes`: the map is clear up to the counter, and the
counter is what was counted. -/
private theorem clearInodes_rounds {fs : Fs} {g : Cg} (n : Nat)
    (hcs : g.cs = 0) :
    (∀ i < n * fs.inopb,
        (rounds fs.inopb (clearInodes fs) n 0 g).iused i = false) ∧
      rounds fs.inopb (clearInodes fs) n 0 g =
        { g with
          iused := (rounds fs.inopb (clearInodes fs) n 0 g).iused
          cs := ⟨0, 0, UInt32.ofNat (n * fs.inopb), 0⟩ } := by
  let I : Nat → Cg → Prop := fun i g' => (∀ k < i, g'.iused k = false) ∧
    g' = { g with iused := g'.iused, cs := ⟨0, 0, UInt32.ofNat i, 0⟩ }
  have hI : I (0 + n * fs.inopb)
      (rounds fs.inopb (clearInodes fs) n 0 g) := rounds_induct
    (by
      intro k g' _ hI
      have hnext : 0 + (k + 1) * fs.inopb = 0 + k * fs.inopb + fs.inopb := by
        ring
      rw [hnext]
      generalize 0 + k * fs.inopb = i at hI
      obtain ⟨hclr, heq⟩ := hI
      constructor
      · intro j hj
        show clearRange g'.iused i fs.inopb j = false
        by_cases hji : j < i
        · rw [clearRange_of_not_mem (Or.inl hji), hclr j hji]
        · exact clearRange_of_mem ⟨by omega, hj⟩
      · rw [heq]
        unfold clearInodes
        simp only [UInt32.ofNat_add])
    (by
      refine ⟨fun k hk => absurd hk (Nat.not_lt_zero k), ?_⟩
      show g = { g with iused := g.iused, cs := 0 }
      rw [← hcs])
  rw [Nat.zero_add] at hI
  exact hI

theorem resetCg_spec {fs : Fs} (hl : LaidOut fs) (hb : fs.bsize ≤ MAXBSIZE)
    (now : UInt32) {c : Nat} (hc : c ≠ 0) (ndblk : Nat) {acg : Cg}
    (hacg : ∀ j, fs.frag ≤ j → acg.frsum j = 0) :
    Reset fs c ndblk (resetCg fs now c ndblk acg) := by
  obtain ⟨n, hn⟩ := hl.inopb_dvd hb
  have hpos := hl.sized.inopb_pos
  have hnipg : n * fs.inopb = fs.ipg := by rw [hn, Nat.mul_comm]
  have hn_le : n ≤ n * fs.inopb := Nat.le_mul_of_pos_right _ hpos
  have hloop : ∀ g : Cg, forLoop (fun i => decide (i < fs.ipg)) fs.inopb
      (clearInodes fs) (fs.ipg + 1) 0 g
      = (fs.ipg, rounds fs.inopb (clearInodes fs) n 0 g) := by
    intro g
    rw [forLoop_eq n _ 0 g (by omega), Nat.zero_add, hnipg]
    · intro k hk
      have hkn : (k + 1) * fs.inopb ≤ n * fs.inopb :=
        Nat.mul_le_mul_right _ hk
      rw [Nat.add_mul, Nat.one_mul] at hkn
      exact decide_eq_true (show 0 + k * fs.inopb < fs.ipg by omega)
    · rw [Nat.zero_add, hnipg]
      exact decide_eq_false (Nat.lt_irrefl _)
  unfold resetCg
  dsimp only
  rw [hloop, if_neg hc]
  dsimp only
  obtain ⟨hclr, heq⟩ :=
    @clearInodes_rounds fs (resetHeader fs now c ndblk acg) n rfl
  rw [hnipg] at hclr heq
  rw [heq]
  constructor
  case ncyl => rfl
  case niblk => rfl
  case ndblk => rfl
  case cs => rfl
  case frsum =>
    intro j
    show (if j < fs.frag then 0 else acg.frsum j) = 0
    split
    · rfl
    · exact hacg j (by omega)
  case btot => exact fun cyl hcyl => if_pos hcyl
  case b => exact fun cyl hcyl pos hpos => if_pos ⟨hcyl, hpos⟩
  case iused =>
    intro i hi
    by_cases hlt : i < fs.ipg
    · exact (clearRange_of_not_mem (Or.inl hlt)).trans (hclr i hlt)
    · have := hl.ipg_le
      exact clearRange_of_mem ⟨by omega, by omega⟩

/-! ## §4. The run over the groups. -/

/-- What `initcg` builds for group `c` in a buffer `acg`. -/
def initcgGroup (fs : Fs) (now : UInt32) (c : Nat) (acg : Cg) : Cg :=
  let cbase := fs.cgbase c
  groupBlocks fs c (fs.cgsblock c - cbase) (dupperOf fs c)
    (dmaxOf fs c - cbase)
    (resetCg fs now c (dmaxOf fs c - cbase) acg)

/-- `frsum` past the runs of a block keeps what the buffer had. -/
theorem initcgGroup_frsum {fs : Fs} (hl : LaidOut fs) (now : UInt32) (c : Nat)
    (acg : Cg) {j : Nat} (hj : fs.frag ≤ j) :
    (initcgGroup fs now c acg).frsum j = acg.frsum j := by
  have hle : fs.cgsblock c - fs.cgbase c ≤ dupperOf fs c :=
    Nat.le_trans (hl.dlower_le_dupper c) (Nat.le_add_right _ _)
  unfold initcgGroup
  rw [groupBlocks_frsum hl.sized.frag_pos hle _ hj]
  have hloop : (forLoop (fun i => decide (i < fs.ipg)) fs.inopb
      (clearInodes fs) (fs.ipg + 1) 0
      (resetHeader fs now c (dmaxOf fs c - fs.cgbase c) acg)).2.frsum j
      = acg.frsum j := by
    refine forLoop_induct (I := fun _ (g : Cg) => g.frsum j = acg.frsum j)
      ?_ _ _ _ ?_
    · exact fun _ _ _ hI => hI
    · exact if_neg (by omega)
  unfold resetCg
  dsimp only
  split <;> exact hloop

/-- **The groups on the device.**  The run ends exactly if every call is
defined, and each group is what its own call built, in a buffer whose unused
run counts are zero. -/
theorem initcgs_spec {fs : Fs} (hl : LaidOut fs) (now : UInt32) :
    ∀ n, (∀ c < n, initcgDefined fs c = true) →
      ∃ f, initcgs fs now n = some f ∧
        (∀ j, fs.frag ≤ j → f.acg.frsum j = 0) ∧
        ∀ c < n, ∃ acg : Cg, (∀ j, fs.frag ≤ j → acg.frsum j = 0) ∧
          f.cgs c = initcgGroup fs now c acg := by
  intro n
  induction n with
  | zero =>
    intro _
    exact ⟨Formatter.start, rfl, fun _ _ => rfl,
      fun c hc => absurd hc (Nat.not_lt_zero c)⟩
  | succ n ih =>
    intro hdef
    obtain ⟨f, hrun, hacg, hcgs⟩ := ih fun c hc => hdef c (by omega)
    rw [initcgs, hrun, Option.bind_some, initcg,
      if_pos (hdef n (Nat.lt_succ_self n))]
    refine ⟨_, rfl, ?_, ?_⟩
    · intro j hj
      exact (initcgGroup_frsum hl now n f.acg hj).trans (hacg j hj)
    · intro c hc
      by_cases hcn : c = n
      · subst hcn
        exact ⟨f.acg, hacg, Function.update_self ..⟩
      · obtain ⟨acg, hzero, heq⟩ := hcgs c (by omega)
        exact ⟨acg, hzero, (Function.update_of_ne hcn _ _).trans heq⟩

/-- A run that ends was defined at every group. -/
theorem initcgs_defined {fs : Fs} {now : UInt32} :
    ∀ {n f}, initcgs fs now n = some f →
      ∀ c < n, initcgDefined fs c = true := by
  intro n
  induction n with
  | zero => exact fun _ c hc => absurd hc (Nat.not_lt_zero c)
  | succ n ih =>
    intro f h c hc
    rw [initcgs] at h
    obtain ⟨f', hf', hstep⟩ := Option.bind_eq_some_iff.mp h
    by_cases hcn : c = n
    · subst hcn
      unfold initcg at hstep
      split at hstep
      · assumption
      · cases hstep
    · exact ih hf' c (by omega)

end NextUfs.Format
