/-
  NextUfs.Core.BlockChange
  ────────────────────────
  **ONE BLOCK CHANGES, EVERY COUNTER FOLLOWS.**

  The allocator computes its deltas inside one block: it scans the block's
  runs before and after, and flips the block between the fragment counts and
  the block counts.  This file ties those deltas to the values of `Counts`.

    • `countFreeRunsInBlock_eq` — the scanner counts maximal runs,
    • `FragCounts.change`       — one block changed, every counter moved by
      that block's own values,
    • `moveCylBlocks_btot`, `moveCylBlocks_b` — the cylinder tables.
-/
import NextUfs.Core.Counts

namespace NextUfs

open Bits

/-! ## §1. The run scanner. -/

/-- The scanner stands at a place where no run is cut in two. -/
private def Boundary (m : Nat → Bool) (base w i : Nat) : Prop :=
  i = 0 ∨ m (base + i - 1) = false ∨ w ≤ i ∨ m (base + i) = false

/-- From a boundary on, the loop adds the runs that start there or later. -/
theorem countFreeRunsLoop_eq {m : Nat → Bool} {base w j : Nat} (hj : j < w) :
    ∀ fuel i counts, w ≤ i + fuel → Boundary m base w i →
      countFreeRunsLoop m base w fuel i counts j
        = counts j + runsFrom m base w i j := by
  intro fuel
  induction fuel with
  | zero =>
    intro i counts hi _
    rw [runsFrom_of_le m (by omega)]
    rfl
  | succ fuel ih =>
    intro i counts hi hb
    unfold countFreeRunsLoop
    by_cases hiw : i < w
    · rw [if_pos hiw]
      cases hm : m (base + i) with
      | false =>
        have hrun : runLen m (base + i) (w - i) = 0 := by
          refine Nat.eq_zero_of_not_pos fun hpos => ?_
          have := (runLen_pos_iff.mp hpos).2
          simp [hm] at this
        simp only [hrun, lt_irrefl, false_and, if_false]
        rw [ih (i + 1) counts (by omega) (Or.inr (Or.inl hm)),
          runsFrom_of_clear hm]
      | true =>
        have hpos : 0 < runLen m (base + i) (w - i) :=
          runLen_pos_iff.mpr ⟨by omega, hm⟩
        have hle := runLen_le m (base + i) (w - i)
        have hend := runLen_end m (base + i) (w - i)
        have hprev : i = 0 ∨ m (base + i - 1) = false := by
          rcases hb with hb | hb | hb | hb
          · exact Or.inl hb
          · exact Or.inr hb
          · omega
          · simp [hm] at hb
        rw [runsFrom_of_run hiw hprev hm]
        generalize runLen m (base + i) (w - i) = run at *
        have hnext : Boundary m base w (i + run) := by
          by_cases hlt : i + run < w
          · have := hend (by omega)
            exact Or.inr (Or.inr (Or.inr (by rwa [← Nat.add_assoc])))
          · exact Or.inr (Or.inr (Or.inl (by omega)))
        simp only [hpos, true_and, if_true]
        rw [ih (i + run) _ (by omega) hnext]
        by_cases hjr : j = run
        · subst hjr
          rw [if_pos hj, if_pos rfl, Function.update_self]
          omega
        · rw [if_neg hjr]
          split
          · rw [Function.update_of_ne hjr]
            omega
          · omega
    · rw [if_neg hiw, runsFrom_of_le m (by omega)]
      rfl

/-- **The scanner counts maximal runs**, of every length short of a block. -/
theorem countFreeRunsInBlock_eq (m : Nat → Bool) (base : Nat) {w j : Nat}
    (hj : j < w) : countFreeRunsInBlock m base w j = runsOf m base w j := by
  have hstart : Boundary m base w 0 := Or.inl rfl
  have := countFreeRunsLoop_eq hj w 0 (fun _ => 0) (by omega) hstart
  simpa [countFreeRunsInBlock, runsOf] using this

/-- It counts no run that is as long as the block. -/
theorem countFreeRunsInBlock_of_le (m : Nat → Bool) (base : Nat) {w j : Nat}
    (hj : w ≤ j) : countFreeRunsInBlock m base w j = 0 := by
  have hloop : ∀ fuel i counts,
      countFreeRunsLoop m base w fuel i counts j = counts j := by
    intro fuel
    induction fuel with
    | zero => exact fun _ _ => rfl
    | succ fuel ih =>
      intro i counts
      unfold countFreeRunsLoop
      split
      · rw [ih]
        split
        · rw [Function.update_of_ne (by omega)]
        · rfl
      · rfl
  exact hloop w 0 fun _ => 0

/-- In a block the scanner finds the runs the counters are about: a wholly
free block has none short of itself. -/
theorem countFreeRuns_eq_partRuns {sb : Superblock} (free : Nat → Bool)
    (k : Nat) {j : Nat} (hj : j < sb.fragsPerBlock) :
    countFreeRunsInBlock free (k * sb.fragsPerBlock) sb.fragsPerBlock j
      = partRuns sb j free k := by
  rw [countFreeRunsInBlock_eq _ _ hj]
  unfold partRuns
  by_cases hw : wholeFree sb free k = true
  · rw [if_pos hw]
    have hall : ∀ i < sb.fragsPerBlock,
        free (k * sb.fragsPerBlock + i) = true := by
      unfold wholeFree at hw
      rwa [allSet_iff] at hw
    rw [runsOf_suffix (Nat.zero_le _) (by omega) fun i _ hi => hall i hi,
      if_neg (by omega)]
  · rw [if_neg hw]

/-! ## §2. A change inside one block. -/

section Change

variable {sb : Superblock} {cg cg' : Cg} {k : Nat}

/-- **One block changed.**  If every counter moved by the difference of the
block's own values, the counters are right again. -/
theorem FragCounts.change (h : FragCounts sb cg)
    (hnd : cg'.ndblk = cg.ndblk) (hk : k < blockCount sb cg.ndblk)
    (hoff : SameOffBlock sb k cg.free cg'.free)
    (hpast : ∀ i, cg.ndblk ≤ i → cg'.free i = false)
    (hnb : cg'.cs.nbfree = cg.cs.nbfree
      + (UInt32.ofNat (wholeBlock sb cg'.free k)
        - UInt32.ofNat (wholeBlock sb cg.free k)))
    (hnf : cg'.cs.nffree = cg.cs.nffree
      + (UInt32.ofNat (partFrags sb cg'.free k)
        - UInt32.ofNat (partFrags sb cg.free k)))
    (hfr : ∀ j, 1 ≤ j → j < sb.fragsPerBlock →
      cg'.frsum j = cg.frsum j
        + (UInt32.ofNat (partRuns sb j cg'.free k)
          - UInt32.ofNat (partRuns sb j cg.free k)))
    (hbt : ∀ cyl < MAXCPG,
      cg'.btot cyl = cg.btot cyl
        + (UInt32.ofNat (wholeBlockIn sb (fun f => cylno sb f = cyl) cg'.free k)
          - UInt32.ofNat
            (wholeBlockIn sb (fun f => cylno sb f = cyl) cg.free k)))
    (hb : ∀ cyl < MAXCPG, ∀ pos < NRPOS,
      cg'.b cyl pos = cg.b cyl pos
        + (UInt16.ofNat (wholeBlockIn sb
              (fun f => cylno sb f = cyl ∧ rotpos sb f = pos) cg'.free k)
          - UInt16.ofNat (wholeBlockIn sb
              (fun f => cylno sb f = cyl ∧ rotpos sb f = pos) cg.free k))) :
    FragCounts sb cg' := by
  constructor
  · rw [hnb, h.nbfree]
    unfold freeBlocks
    rw [hnd]
    exact ofNat32_shift (blockTotal_change (local_wholeBlock sb) hk hoff)
  · rw [hnf, h.nffree]
    unfold freeFrags
    rw [hnd]
    exact ofNat32_shift (blockTotal_change (local_partFrags sb) hk hoff)
  · intro j hj1 hj
    rw [hfr j hj1 hj, h.frsum j hj1 hj]
    unfold freeRuns
    rw [hnd]
    exact ofNat32_shift (blockTotal_change (local_partRuns sb j) hk hoff)
  · intro cyl hcyl
    rw [hbt cyl hcyl, h.btot cyl hcyl]
    unfold cylBlocks
    rw [hnd]
    exact ofNat32_shift (blockTotal_change (local_wholeBlockIn sb _) hk hoff)
  · intro cyl hcyl pos hpos
    rw [hb cyl hcyl pos hpos, h.b cyl hcyl pos hpos]
    unfold posBlocks
    rw [hnd]
    exact ofNat16_shift (blockTotal_change (local_wholeBlockIn sb _) hk hoff)
  · intro i hi
    exact hpast i (by omega)

/-- The delta of `applyCgFrsumDelta` is the block's own difference. -/
theorem frsumAfter_eq (cg : Cg) (free' : Nat → Bool) (k : Nat) {j : Nat}
    (hj1 : 1 ≤ j) (hj : j < sb.fragsPerBlock) :
    frsumAfter sb cg (k * sb.fragsPerBlock) free' j
      = cg.frsum j
        + (UInt32.ofNat (partRuns sb j free' k)
          - UInt32.ofNat (partRuns sb j cg.free k)) := by
  unfold frsumAfter applyCgFrsumDelta
  rw [if_pos ⟨hj1, hj⟩, countFreeRuns_eq_partRuns _ _ hj,
    countFreeRuns_eq_partRuns _ _ hj]

/-- A change that leaves the block partly free, before and after, moves only
`nffree` and the run counts. -/
theorem FragCounts.change_part (h : FragCounts sb cg)
    (hnd : cg'.ndblk = cg.ndblk) (hk : k < blockCount sb cg.ndblk)
    (hoff : SameOffBlock sb k cg.free cg'.free)
    (hpast : ∀ i, cg.ndblk ≤ i → cg'.free i = false)
    (hw : wholeFree sb cg.free k = false)
    (hw' : wholeFree sb cg'.free k = false)
    (hnb : cg'.cs.nbfree = cg.cs.nbfree)
    (hnf : cg'.cs.nffree = cg.cs.nffree
      + (UInt32.ofNat
          (popRange cg'.free (k * sb.fragsPerBlock) sb.fragsPerBlock)
        - UInt32.ofNat
          (popRange cg.free (k * sb.fragsPerBlock) sb.fragsPerBlock)))
    (hfr : cg'.frsum = frsumAfter sb cg (k * sb.fragsPerBlock) cg'.free)
    (hbt : cg'.btot = cg.btot) (hb : cg'.b = cg.b) : FragCounts sb cg' := by
  refine h.change hnd hk hoff hpast ?_ ?_ ?_ ?_ ?_
  · simp [hnb, wholeBlock, hw, hw']
  · simpa [partFrags, hw, hw'] using hnf
  · intro j hj1 hj
    rw [hfr]
    exact frsumAfter_eq cg cg'.free k hj1 hj
  · intro cyl _
    simp [hbt, wholeBlockIn, hw, hw']
  · intro cyl _ pos _
    simp [hb, wholeBlockIn, hw, hw']

end Change

/-! ## §3. The cylinder tables. -/

section CylTables

variable (sb : Superblock) (f : Nat) (d32 : UInt32) (d16 : UInt16) (cg : Cg)

@[simp] theorem moveCylBlocks_free :
    (moveCylBlocks sb f d32 d16 cg).free = cg.free := by
  unfold moveCylBlocks
  dsimp only
  split <;> rfl

@[simp] theorem moveCylBlocks_cs :
    (moveCylBlocks sb f d32 d16 cg).cs = cg.cs := by
  unfold moveCylBlocks
  dsimp only
  split <;> rfl

@[simp] theorem moveCylBlocks_ndblk :
    (moveCylBlocks sb f d32 d16 cg).ndblk = cg.ndblk := by
  unfold moveCylBlocks
  dsimp only
  split <;> rfl

@[simp] theorem moveCylBlocks_frsum :
    (moveCylBlocks sb f d32 d16 cg).frsum = cg.frsum := by
  unfold moveCylBlocks
  dsimp only
  split <;> rfl

@[simp] theorem moveCylBlocks_iused :
    (moveCylBlocks sb f d32 d16 cg).iused = cg.iused := by
  unfold moveCylBlocks
  dsimp only
  split <;> rfl

/-- A rotational position is always one of `NRPOS`. -/
theorem rotpos_lt {sb : Superblock} (hspt : 0 < sb.sectorsPerTrack)
    (f : Nat) : rotpos sb f < NRPOS := by
  unfold rotpos
  generalize f * sb.sectorsPerFrag % 2 ^ 32 % sb.sectorsPerCyl = x
  have hx : x % sb.sectorsPerTrack < sb.sectorsPerTrack := Nat.mod_lt _ hspt
  rw [Nat.div_lt_iff_lt_mul hspt]
  calc x % sb.sectorsPerTrack * NRPOS % 2 ^ 32
      ≤ x % sb.sectorsPerTrack * NRPOS := Nat.mod_le _ _
    _ < NRPOS * sb.sectorsPerTrack := by
        unfold NRPOS
        omega

variable {sb f d32 d16 cg}

theorem moveCylBlocks_btot (hspt : 0 < sb.sectorsPerTrack) {cyl : Nat}
    (hcyl : cyl < MAXCPG) :
    (moveCylBlocks sb f d32 d16 cg).btot cyl
      = if cylno sb f = cyl then cg.btot cyl + d32 else cg.btot cyl := by
  have hpos := rotpos_lt hspt f
  unfold moveCylBlocks
  by_cases h : cylno sb f = cyl
  · subst h
    simp [hcyl, hpos]
  · rw [if_neg h]
    dsimp only
    split
    · exact Function.update_of_ne (fun he => h he.symm) _ _
    · rfl

theorem moveCylBlocks_b (hspt : 0 < sb.sectorsPerTrack) {cyl pos : Nat}
    (hcyl : cyl < MAXCPG) :
    (moveCylBlocks sb f d32 d16 cg).b cyl pos
      = if cylno sb f = cyl ∧ rotpos sb f = pos then cg.b cyl pos + d16
        else cg.b cyl pos := by
  have hpos := rotpos_lt hspt f
  unfold moveCylBlocks
  by_cases h : cylno sb f = cyl
  · subst h
    by_cases hp : rotpos sb f = pos
    · subst hp
      simp [hcyl, hpos]
    · have hne : pos ≠ rotpos sb f := fun he => hp he.symm
      simp [hcyl, hpos, hp, hne]
  · have hne : ¬(cylno sb f = cyl ∧ rotpos sb f = pos) := fun hc => h hc.1
    rw [if_neg hne]
    dsimp only
    split
    · exact congrFun
        (Function.update_of_ne (fun he : cyl = _ => h he.symm) _ _) pos
    · rfl

end CylTables

end NextUfs
