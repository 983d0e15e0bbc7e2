/-
  NextUfs.Fsck.Pass5Repair
  ────────────────────────
  **PHASE 5 REPAIRS WHAT IT FINDS.**

  With an operator who agrees, pass 5 writes what it expects over each group that
  looks otherwise, and what it has counted over the summary and the totals.  The
  groups may hold anything before.  What the pass leaves it accepts: a second
  pass finds nothing to repair.

    • `LooksAs`             — a group on the disk looks like the expected one,
    • `LooksAs.agrees`      — then it agrees with the maps,
    • `pass5Group_repairs`  — one round of the loop,
    • `LooksAs.again`       — what is expected of it the next time,
    • `pass5_repairs`       — the pass, and the pass after it.
-/
import NextUfs.Core.InodeBits
import NextUfs.Fsck.Agree

namespace NextUfs.Fsck

open Bits State

/-! ## §1. A group that looks as expected. -/

section Totals

variable {sb : Superblock} {free free' : Nat → Bool} {cg cg' : Cg}

/-- A sum over the blocks of a group reads the bits of these blocks. -/
theorem blockTotal_congr {F : (Nat → Bool) → Nat → Nat} {n : Nat}
    (hF : Local sb F)
    (h : ∀ i < blockCount sb n * sb.fragsPerBlock, free' i = free i) :
    blockTotal sb n F free' = blockTotal sb n F free := by
  unfold blockTotal
  refine Finset.sum_congr rfl fun k hk => hF free free' k fun i _ hi => h i ?_
  have hlast := Nat.mul_le_mul_right sb.fragsPerBlock
    (Nat.succ_le_of_lt (Finset.mem_range.mp hk))
  rw [Nat.succ_mul] at hlast
  omega

/-- **The counters of a group** are those of another one of its size that has the
same bits in its blocks. -/
theorem ScannedCounts.congr_blocks (h : ScannedCounts sb cg)
    (hfree : ∀ i < blockCount sb cg.ndblk * sb.fragsPerBlock,
      cg'.free i = cg.free i)
    (hnd : cg'.ndblk = cg.ndblk) (hcs : cg'.cs = cg.cs)
    (hfr : ∀ i < MAXFRAG, cg'.frsum i = cg.frsum i)
    (hbt : ∀ i < MAXCPG, cg'.btot i = cg.btot i)
    (hb : ∀ i < MAXCPG, ∀ j < NRPOS, cg'.b i j = cg.b i j) :
    ScannedCounts sb cg' where
  nbfree := by
    rw [hcs, h.nbfree]
    unfold freeBlocks
    rw [hnd, blockTotal_congr (local_wholeBlock sb) hfree]
  nffree := by
    rw [hcs, h.nffree]
    unfold freeFrags
    rw [hnd, blockTotal_congr (local_partFrags sb) hfree]
  frsum := by
    intro j hj
    rw [hfr j hj, h.frsum j hj, hnd, blockTotal_congr (local_scannedRuns sb j) hfree]
  btot := by
    intro cyl hcyl
    rw [hbt cyl hcyl, h.btot cyl hcyl]
    unfold cylBlocks
    rw [hnd, blockTotal_congr (local_wholeBlockIn sb _) hfree]
  b := by
    intro cyl hcyl pos hpos
    rw [hb cyl hcyl pos hpos, h.b cyl hcyl pos hpos]
    unfold posBlocks
    rw [hnd, blockTotal_congr (local_wholeBlockIn sb _) hfree]

/-- The blocks of a group lie inside the bitmap pass 5 compares. -/
theorem blocks_in_map (hgeo : CheckedGeometry sb) {n : Nat}
    (hn : n ≤ sb.fragsPerGroup) :
    blockCount sb n * sb.fragsPerBlock ≤ 8 * ((sb.fragsPerGroup + 7) / 8) := by
  have hpos := hgeo.fpb_pos
  have hle : blockCount sb n ≤ sb.fragsPerGroup / sb.fragsPerBlock := by
    unfold blockCount
    rw [Nat.div_le_iff_le_mul_add_pred hpos, Nat.mul_div_cancel' hgeo.blocks_of_group]
    omega
  have hmul := Nat.mul_le_mul_right sb.fragsPerBlock hle
  rw [Nat.div_mul_cancel hgeo.blocks_of_group] at hmul
  omega

end Totals

/-- **The group `cg` looks like `newcg`** to the comparisons of pass 5. -/
structure LooksAs (sb : Superblock) (newcg cg : Cg) : Prop where
  maps : sameBitMaps sb newcg cg = true
  summary : sameSummary newcg cg = true

section Looks

variable {sb : Superblock} {now now' : Int} {blockmap : Nat → Bool}
  {statemap : Nat → InodeState} {c : Nat} {cg cg₀ newcg newcg' : Cg}

theorem LooksAs.cs (h : LooksAs sb newcg cg) : newcg.cs = cg.cs :=
  (sameSummary_iff.mp h.summary).2.2.2.2.2.2.2.1

theorem LooksAs.magic (h : LooksAs sb newcg cg)
    (hexp : ExpectedGroup sb now blockmap statemap c cg₀ newcg) :
    cg.magic = CG_MAGIC := by
  have hmagic : newcg.magic = CG_MAGIC := congrArg Cg.magic hexp.header
  rw [← hmagic, (sameBitMaps_iff.mp h.maps).2.1]

/-- **A group that looks as expected** agrees with the block map and the state
map. -/
theorem LooksAs.agrees (hgeo : CheckedGeometry sb)
    (hexp : ExpectedGroup sb now blockmap statemap c cg₀ newcg)
    (h : LooksAs sb newcg cg) : GroupAgrees sb blockmap statemap c cg := by
  obtain ⟨hused, -, hfree⟩ := sameBitMaps_iff.mp h.maps
  obtain ⟨-, -, -, -, -, -, hndblk, hcs, -, -, -, hfr, hbt, hb⟩ :=
    sameSummary_iff.mp h.summary
  have hsize : newcg.ndblk = groupFrags sb c := congrArg Cg.ndblk hexp.header
  have hle := groupFrags_le sb c
  have hipg := hgeo.inodes_le
  have hused' : ∀ i < sb.inodesPerGroup, cg.iused i = newcg.iused i :=
    fun i hi => (hused i (by omega)).symm
  refine ⟨fun i hi => ?_, fun i hi => ?_, ?_, ?_, ?_⟩
  · rw [← hndblk, hsize] at hi
    rw [← hfree i (by omega), hexp.free]
    unfold groupMap
    rw [decide_eq_true hi, Bool.true_and]
    rfl
  · rw [hused' i hi, hexp.iused, decide_eq_true hi, Bool.true_and]
  · rw [freeInodes_congr hused', ← hcs, hexp.nifree]
  · rw [← hcs, hexp.ndir]
  · refine hexp.counts.congr_blocks (fun i hi => ?_) hndblk.symm hcs.symm
      (fun i hi => (hfr i hi).symm) (fun i hi => (hbt i hi).symm)
      fun i hi j hj => (hb i hi j hj).symm
    have hmap := blocks_in_map hgeo (show newcg.ndblk ≤ sb.fragsPerGroup by omega)
    exact (hfree i (by omega)).symm

/-- A clock wider than the field is cut off, which only makes it smaller. -/
theorem toInt_ofInt_le {x : Int} (hx : 0 ≤ x) : (Int32.ofInt x).toInt ≤ x := by
  obtain ⟨n, rfl⟩ := Int.eq_ofNat_of_zero_le hx
  rw [Int32.toInt_ofInt, Int.bmod_eq_emod, ← Int.natCast_mod]
  have hmod : n % Int32.size ≤ n := Nat.mod_le n Int32.size
  generalize Int32.size = size at hmod
  split
  · omega
  · omega

/-- The time pass 5 expects is not in the future, and stays what it is expected
to be. -/
theorem expectedTime_again (hnow : 0 ≤ now) (hle : now ≤ now') {t t' : UInt32}
    (ht' : t' = if t.toInt32.toInt < now then t
      else (Int32.ofInt now).toUInt32) :
    (if t'.toInt32.toInt < now' then t' else (Int32.ofInt now').toUInt32) = t' := by
  by_cases ht : t.toInt32.toInt < now
  · rw [if_pos ht] at ht'
    rw [ht', if_pos (lt_of_lt_of_le ht hle)]
  · rw [if_neg ht] at ht'
    have hwrap : t'.toInt32.toInt ≤ now := by
      rw [ht', Int32.toInt32_toUInt32]
      exact toInt_ofInt_le hnow
    obtain hlt | heq := lt_or_eq_of_le hle
    · rw [if_pos (lt_of_le_of_lt hwrap hlt)]
    · rw [← heq, ht', ite_self]

/-- The fixed fields pass 5 expects of group `c`. -/
structure ExpectedFields (sb : Superblock) (now : Int) (c : Nat) (cg₀ newcg : Cg) :
    Prop where
  link : newcg.link = 0
  rlink : newcg.rlink = 0
  time : newcg.time = if cg₀.time.toInt32.toInt < now then cg₀.time
    else (Int32.ofInt now).toUInt32
  cgx : newcg.cgx = c
  ncyl : newcg.ncyl = groupCyls sb c
  niblk : newcg.niblk = sb.inodesPerGroup
  ndblk : newcg.ndblk = groupFrags sb c
  rotor : newcg.rotor = keptRotor cg₀.rotor (groupFrags sb c)
  frotor : newcg.frotor = keptRotor cg₀.frotor (groupFrags sb c)
  irotor : newcg.irotor = keptRotor cg₀.irotor sb.inodesPerGroup
  magic : newcg.magic = CG_MAGIC

theorem ExpectedGroup.fields
    (h : ExpectedGroup sb now blockmap statemap c cg₀ newcg) :
    ExpectedFields sb now c cg₀ newcg where
  link := congrArg Cg.link h.header
  rlink := congrArg Cg.rlink h.header
  time := congrArg Cg.time h.header
  cgx := congrArg Cg.cgx h.header
  ncyl := congrArg Cg.ncyl h.header
  niblk := congrArg Cg.niblk h.header
  ndblk := congrArg Cg.ndblk h.header
  rotor := congrArg Cg.rotor h.header
  frotor := congrArg Cg.frotor h.header
  irotor := congrArg Cg.irotor h.header
  magic := congrArg Cg.magic h.header

/-- **What is expected of a group the next time** is what it looks like. -/
theorem LooksAs.again (hnow : 0 ≤ now) (hle : now ≤ now')
    (hexp : ExpectedGroup sb now blockmap statemap c cg₀ newcg)
    (h : LooksAs sb newcg cg)
    (hexp' : ExpectedGroup sb now' blockmap statemap c cg newcg') :
    LooksAs sb newcg' cg := by
  obtain ⟨hused, hmagic, hfree⟩ := sameBitMaps_iff.mp h.maps
  obtain ⟨hlink, hrlink, htime, hcgx, hncyl, hniblk, hndblk, hcs, hrotor, hfrotor,
    hirotor, hfr, hbt, hb⟩ := sameSummary_iff.mp h.summary
  have hfields := hexp.fields
  have hfields' := hexp'.fields
  have hmaps : newcg'.free = newcg.free := hexp'.free.trans hexp.free.symm
  have hinodes : newcg'.iused = newcg.iused :=
    funext fun i => (hexp'.iused i).trans (hexp.iused i).symm
  have hsize : newcg'.ndblk = newcg.ndblk := hfields'.ndblk.trans hfields.ndblk.symm
  obtain ⟨hnb, hnf, hfr', hbt', hb'⟩ := hexp.counts.unique hexp'.counts hmaps hsize
  -- the four fields that depend on what the group holds
  have htime' : newcg'.time = newcg.time := by
    rw [hfields'.time, ← htime]
    exact expectedTime_again hnow hle hfields.time
  have hrotor' : newcg'.rotor = newcg.rotor := by
    rw [hfields'.rotor, ← hrotor, hfields.rotor, keptRotor_again]
  have hfrotor' : newcg'.frotor = newcg.frotor := by
    rw [hfields'.frotor, ← hfrotor, hfields.frotor, keptRotor_again]
  have hirotor' : newcg'.irotor = newcg.irotor := by
    rw [hfields'.irotor, ← hirotor, hfields.irotor, keptRotor_again]
  have hcs' : newcg'.cs = newcg.cs := by
    have hin : freeInodes sb newcg' = freeInodes sb newcg :=
      freeInodes_congr fun i _ => congrFun hinodes i
    refine Csum.ext ?_ hnb ?_ hnf
    · rw [hexp'.ndir, hexp.ndir]
    · rw [hexp'.nifree, hexp.nifree, hin]
  constructor
  · rw [sameBitMaps_iff, hinodes, hmaps, hfields'.magic, ← hfields.magic]
    exact ⟨hused, hmagic, hfree⟩
  · rw [sameSummary_iff, hfields'.link, ← hfields.link, hfields'.rlink,
      ← hfields.rlink, hfields'.cgx, ← hfields.cgx, hfields'.ncyl, ← hfields.ncyl,
      hfields'.niblk, ← hfields.niblk]
    exact ⟨hlink, hrlink, htime'.trans htime, hcgx, hncyl, hniblk,
      hsize.trans hndblk, hcs'.trans hcs, hrotor'.trans hrotor, hfrotor'.trans hfrotor,
      hirotor'.trans hirotor, fun i hi => (hfr' i hi).trans (hfr i hi),
      fun i hi => (hbt' i hi).trans (hbt i hi),
      fun i hi j hj => (hb' i hi j hj).trans (hb i hi j hj)⟩

end Looks

/-! ## §2. One round of the loop. -/

/-- **Only group `c` and its entry differ** between `p` and `q`, and the operator
has not refused. -/
structure Elsewhere (c : Nat) (p q : Pass5) : Prop where
  cgs : ∀ c' ≠ c, q.cgs c' = p.cgs c'
  csum : ∀ c' ≠ c, q.csum c' = p.csum c'
  cstotal : q.cstotal = p.cstotal
  agreed : q.idFix ≠ .nofix

theorem Elsewhere.trans {c : Nat} {p q r : Pass5} (h : Elsewhere c p q)
    (h' : Elsewhere c q r) : Elsewhere c p r where
  cgs := fun c' hc => (h'.cgs c' hc).trans (h.cgs c' hc)
  csum := fun c' hc => (h'.csum c' hc).trans (h.csum c' hc)
  cstotal := h'.cstotal.trans h.cstotal
  agreed := h'.agreed

section Round

variable {sb : Superblock} {now : Int} {blockmap : Nat → Bool}
  {statemap : Nat → InodeState} {c : Nat} {newcg : Cg} {p : Pass5}

/-- **A difference put to an operator who agrees**: what holds where there is
none, and what the repair establishes, holds. -/
theorem compare_repairs {same : Bool} {what : Difference} {repair : Pass5 → Pass5}
    {P : Pass5 → Prop} (hfix : p.idFix ≠ .nofix) (hsame : same = true → P p)
    (hrepair : ∀ q : Pass5, q.cgs = p.cgs → q.csum = p.csum →
      q.cstotal = p.cstotal → q.idFix = .fix → P (repair q)) :
    P (compare true same what repair p) := by
  unfold compare
  cases same with
  | true => exact hsame rfl
  | false =>
    rw [if_neg Bool.false_ne_true]
    have hok : dofix true p.idFix = (.fix, true) := by
      cases hp : p.idFix with
      | dontknow => rfl
      | fix => rfl
      | nofix => exact absurd hp hfix
    rw [hok]
    dsimp only
    rw [if_pos rfl]
    exact hrepair _ rfl rfl rfl rfl

/-- Writing over group `c` leaves the others. -/
theorem elsewhere_cgs {q : Pass5} {cg : Cg} (hcgs : q.cgs = p.cgs)
    (hcsum : q.csum = p.csum) (htotal : q.cstotal = p.cstotal)
    (hfix : q.idFix = .fix) :
    Elsewhere c p { q with cgs := Function.update q.cgs c cg } where
  cgs := by
    intro c' hc
    show Function.update q.cgs c cg c' = _
    rw [Function.update_of_ne hc, hcgs]
  csum := fun c' _ => congrFun hcsum c'
  cstotal := htotal
  agreed := by
    show q.idFix ≠ .nofix
    rw [hfix]
    exact FixMode.noConfusion

/-- **The three comparisons of a group repair it.** -/
theorem compareGroup_repairs (hfix : p.idFix ≠ .nofix) :
    Elsewhere c p (compareGroup sb true c newcg p) ∧
      LooksAs sb newcg ((compareGroup sb true c newcg p).cgs c) ∧
      (compareGroup sb true c newcg p).csum c = newcg.cs := by
  unfold compareGroup
  dsimp only
  -- the bitmaps
  generalize hp₁ : compare true (sameBitMaps sb newcg (p.cgs c)) (.bitMaps c) _ p
    = p₁
  have hmaps : Elsewhere c p p₁ ∧ sameBitMaps sb newcg (p₁.cgs c) = true := by
    rw [← hp₁]
    refine compare_repairs
      (P := fun q => Elsewhere c p q ∧ sameBitMaps sb newcg (q.cgs c) = true) hfix
      (fun hsame => ⟨⟨fun _ _ => rfl, fun _ _ => rfl, rfl, hfix⟩, hsame⟩)
      fun q hcgs hcsum htotal hq => ⟨elsewhere_cgs hcgs hcsum htotal hq, ?_⟩
    show sameBitMaps sb newcg (Function.update q.cgs c _ c) = true
    rw [Function.update_self, sameBitMaps_iff]
    exact ⟨fun _ _ => rfl, rfl, fun i hi => (if_pos hi).symm⟩
  clear hp₁
  obtain ⟨hother, hmaps⟩ := hmaps
  -- the summary part
  generalize hp₂ : compare true (sameSummary newcg (p₁.cgs c)) (.summary c) _ p₁
    = p₂
  have hsum : Elsewhere c p₁ p₂ ∧ LooksAs sb newcg (p₂.cgs c) := by
    rw [← hp₂]
    refine compare_repairs
      (P := fun q => Elsewhere c p₁ q ∧ LooksAs sb newcg (q.cgs c)) hother.agreed
      (fun hsame => ⟨⟨fun _ _ => rfl, fun _ _ => rfl, rfl, hother.agreed⟩,
        hmaps, hsame⟩)
      fun q hcgs hcsum htotal hq => ⟨elsewhere_cgs hcgs hcsum htotal hq, ?_⟩
    show LooksAs sb newcg (Function.update q.cgs c _ c)
    rw [Function.update_self, hcgs]
    obtain ⟨hused, hmagic, hfree⟩ := sameBitMaps_iff.mp hmaps
    exact ⟨sameBitMaps_iff.mpr ⟨hused, hmagic, hfree⟩,
      sameSummary_iff.mpr ⟨rfl, rfl, rfl, rfl, rfl, rfl, rfl, rfl, rfl, rfl, rfl,
        fun _ _ => rfl, fun _ _ => rfl, fun _ _ _ _ => rfl⟩⟩
  clear hp₂
  obtain ⟨hother₂, hlooks⟩ := hsum
  -- the entry of the summary table
  refine compare_repairs
    (P := fun q => Elsewhere c p q ∧ LooksAs sb newcg (q.cgs c) ∧
      q.csum c = newcg.cs) hother₂.agreed
    (fun hsame => ⟨hother.trans hother₂, hlooks, (beq_iff_eq.mp hsame).symm⟩)
    fun q hcgs hcsum htotal hq => ?_
  have hentry : Elsewhere c p₂
      { q with csum := Function.update q.csum c newcg.cs } := by
    refine ⟨fun c' _ => congrFun hcgs c', fun c' hc => ?_, htotal, ?_⟩
    · show Function.update q.csum c newcg.cs c' = _
      rw [Function.update_of_ne hc, hcsum]
    · show q.idFix ≠ .nofix
      rw [hq]
      exact FixMode.noConfusion
  refine ⟨(hother.trans hother₂).trans hentry, ?_, Function.update_self _ _ _⟩
  show LooksAs sb newcg (q.cgs c)
  rw [hcgs]
  exact hlooks

/-- **Group `c` is repaired** in `q`: it and its entry look like what the first
pass, which has read `cg₀`, expects. -/
def Repaired (sb : Superblock) (now : Int) (blockmap : Nat → Bool)
    (statemap : Nat → InodeState) (c : Nat) (cg₀ : Cg) (q : Pass5) : Prop :=
  ∃ newcg, ExpectedGroup sb now blockmap statemap c cg₀ newcg ∧
    LooksAs sb newcg (q.cgs c) ∧ q.csum c = newcg.cs

/-- The later rounds leave a repaired group as it is. -/
theorem Repaired.elsewhere {cg₀ : Cg} {c' : Nat} {q : Pass5}
    (h : Repaired sb now blockmap statemap c cg₀ p) (hq : Elsewhere c' p q)
    (hne : c ≠ c') : Repaired sb now blockmap statemap c cg₀ q := by
  obtain ⟨newcg, hexp, hlooks, hentry⟩ := h
  refine ⟨newcg, hexp, ?_, ?_⟩
  · rw [hq.cgs c hne]
    exact hlooks
  · rw [hq.csum c hne]
    exact hentry

/-- **A round with an operator who agrees** repairs its group and adds the group's
counters to the totals. -/
theorem pass5Group_repairs (hgeo : CheckedGeometry sb) (hc : c < sb.cgCount)
    (hvalid : ValidStates sb statemap) (hfix : p.idFix ≠ .nofix) (cstotal : Csum) :
    ∃ q, pass5Group sb now blockmap statemap true (p, cstotal) c
        = .ok (q, cstotal + (q.cgs c).cs) ∧
      Elsewhere c p q ∧ Repaired sb now blockmap statemap c (p.cgs c) q := by
  unfold pass5Group
  dsimp only
  -- a bad magic number is only recorded
  generalize hp₁ : (if (p.cgs c).magic ≠ CG_MAGIC then
    ({ p with found := .badMagic c :: p.found } : Pass5) else p) = p₁
  have hsame : p₁.cgs = p.cgs ∧ p₁.csum = p.csum ∧ p₁.cstotal = p.cstotal ∧
      p₁.idFix = p.idFix := by
    rw [← hp₁]
    split
    · exact ⟨rfl, rfl, rfl, rfl⟩
    · exact ⟨rfl, rfl, rfl, rfl⟩
  obtain ⟨hcgs, hcsum, htotal, hid⟩ := hsame
  obtain ⟨newcg, hrun, hexp⟩ :=
    expectedCg_spec hgeo hc hvalid now blockmap (p₁.cgs c)
  have hfix₁ : p₁.idFix ≠ .nofix := by
    rw [hid]
    exact hfix
  obtain ⟨hother, hlooks, hentry⟩ :=
    @compareGroup_repairs sb c newcg p₁ hfix₁
  refine ⟨compareGroup sb true c newcg p₁, ?_, ?_, newcg, ?_, hlooks, hentry⟩
  · rw [hrun, ← hlooks.cs]
    rfl
  · exact ⟨fun c' hc' => (hother.cgs c' hc').trans (congrFun hcgs c'),
      fun c' hc' => (hother.csum c' hc').trans (congrFun hcsum c'),
      hother.cstotal.trans htotal, hother.agreed⟩
  · rw [← hcgs]
    exact hexp

/-- **A later round over a repaired group** finds nothing. -/
theorem pass5Group_settled {now' : Int} {yes : Bool} {cg₀ : Cg}
    (hgeo : CheckedGeometry sb) (hc : c < sb.cgCount)
    (hvalid : ValidStates sb statemap) (hnow : 0 ≤ now) (hle : now ≤ now')
    (h : Repaired sb now blockmap statemap c cg₀ p) (cstotal : Csum) :
    pass5Group sb now' blockmap statemap yes (p, cstotal) c
      = .ok (p, cstotal + (p.cgs c).cs) := by
  obtain ⟨newcg, hexp, hlooks, hentry⟩ := h
  obtain ⟨newcg', hrun, hexp'⟩ :=
    expectedCg_spec hgeo hc hvalid now' blockmap (p.cgs c)
  have hagain := hlooks.again hnow hle hexp hexp'
  have hcs : newcg'.cs = (p.cgs c).cs := hagain.cs
  unfold pass5Group
  dsimp only
  rw [if_neg (not_not.mpr (hlooks.magic hexp)), hrun]
  show Except.ok (compareGroup sb yes c newcg' p, cstotal + newcg'.cs) = _
  rw [compareGroup_clean hagain.maps hagain.summary (by rw [hcs, hentry, hlooks.cs]),
    hcs]

end Round

/-! ## §3. The pass. -/

section Run

variable {sb : Superblock} {now : Int} {blockmap : Nat → Bool}
  {statemap : Nat → InodeState} {p : Pass5}

/-- **The loop of the first pass**, by induction on the number of groups: those
behind it are repaired, those before it are as they were, and the totals are the
sums over the repaired ones. -/
theorem pass5_repairLoop (hgeo : CheckedGeometry sb)
    (hvalid : ValidStates sb statemap) (hfix : p.idFix ≠ .nofix) :
    ∀ n ≤ sb.cgCount, ∃ q,
      (List.range n).foldlM (pass5Group sb now blockmap statemap true) (p, 0)
        = .ok (q, csumTotal (fun c => (q.cgs c).cs) n) ∧
      (∀ c < n, Repaired sb now blockmap statemap c (p.cgs c) q) ∧
      (∀ c, n ≤ c → q.cgs c = p.cgs c) ∧ q.idFix ≠ .nofix := by
  intro n
  induction n with
  | zero =>
    intro _
    exact ⟨p, rfl, fun c hc => absurd hc (Nat.not_lt_zero c), fun _ _ => rfl, hfix⟩
  | succ n ih =>
    intro hn
    obtain ⟨q, hrun, hbehind, hbefore, hq⟩ := ih (Nat.le_of_succ_le hn)
    obtain ⟨r, hround, hother, hrepaired⟩ := pass5Group_repairs hgeo
      (Nat.lt_of_succ_le hn) hvalid hq (csumTotal (fun c => (q.cgs c).cs) n)
    refine ⟨r, ?_, fun c hc => ?_, fun c hc => ?_, hother.agreed⟩
    · rw [List.range_succ, List.foldlM_append, hrun]
      show List.foldlM (pass5Group sb now blockmap statemap true) _ [n] = _
      rw [List.foldlM_cons, hround]
      have hsum : csumTotal (fun c => (r.cgs c).cs) n
          = csumTotal (fun c => (q.cgs c).cs) n := by
        refine csumTotal_congr fun c hc => ?_
        rw [hother.cgs c (Nat.ne_of_lt hc)]
      rw [← hsum]
      rfl
    · rcases Nat.lt_or_eq_of_le (Nat.le_of_lt_succ hc) with hc | rfl
      · exact (hbehind c hc).elsewhere hother (Nat.ne_of_lt hc)
      · rw [← hbefore c le_rfl]
        exact hrepaired
    · rw [hother.cgs c (by omega), hbefore c (by omega)]

/-- **The loop of a later pass** over repaired groups finds nothing. -/
theorem pass5_settledLoop {now' : Int} {yes : Bool} {cg₀ : Nat → Cg}
    (hgeo : CheckedGeometry sb) (hvalid : ValidStates sb statemap) (hnow : 0 ≤ now)
    (hle : now ≤ now')
    (h : ∀ c < sb.cgCount, Repaired sb now blockmap statemap c (cg₀ c) p) :
    ∀ n ≤ sb.cgCount,
      (List.range n).foldlM (pass5Group sb now' blockmap statemap yes) (p, 0)
        = .ok (p, csumTotal (fun c => (p.cgs c).cs) n) := by
  intro n
  induction n with
  | zero => intro _; rfl
  | succ n ih =>
    intro hn
    rw [List.range_succ, List.foldlM_append, ih (Nat.le_of_succ_le hn)]
    show List.foldlM (pass5Group sb now' blockmap statemap yes) _ [n] = _
    rw [List.foldlM_cons, pass5Group_settled hgeo (Nat.lt_of_succ_le hn) hvalid hnow
      hle (h n (Nat.lt_of_succ_le hn))]
    rfl

/-- **Pass 5 repairs the books.**  Whatever the groups, the summary table and the
totals hold before, with an operator who agrees every group afterwards agrees
with the block map and the state map, its summary entry is its own, and the totals
are the sums; and pass 5 run again, at any later time and whatever the operator
says, finds nothing and changes nothing. -/
theorem pass5_repairs (hgeo : CheckedGeometry sb) (hvalid : ValidStates sb statemap)
    (hnow : 0 ≤ now) (hfix : p.idFix ≠ .nofix) :
    ∃ p', pass5 sb now blockmap statemap true p = .ok p' ∧
      (∀ c < sb.cgCount, GroupAgrees sb blockmap statemap c (p'.cgs c) ∧
        p'.csum c = (p'.cgs c).cs) ∧
      p'.cstotal = csumTotal (fun c => (p'.cgs c).cs) sb.cgCount ∧
      ∀ now' ≥ now, ∀ yes (q : Pass5), q.cgs = p'.cgs → q.csum = p'.csum →
        q.cstotal = p'.cstotal → pass5 sb now' blockmap statemap yes q = .ok q := by
  obtain ⟨r, hrun, hrepaired, -, hr⟩ :=
    @pass5_repairLoop _ now blockmap _ _ hgeo hvalid hfix sb.cgCount le_rfl
  -- the totals, after the last group
  let total := csumTotal (fun c => (r.cgs c).cs) sb.cgCount
  let p' := compare true (total == r.cstotal) .total
    (fun p => { p with cstotal := total }) r
  have hp' : p'.cgs = r.cgs ∧ p'.csum = r.csum ∧ p'.cstotal = total :=
    compare_repairs
      (P := fun q => q.cgs = r.cgs ∧ q.csum = r.csum ∧ q.cstotal = total) hr
      (fun hsame => ⟨rfl, rfl, (beq_iff_eq.mp hsame).symm⟩)
      fun q hcgs hcsum _ _ => ⟨hcgs, hcsum, rfl⟩
  obtain ⟨hcgs, hcsum, htotal⟩ := hp'
  refine ⟨p', ?_, fun c hc => ?_, ?_, fun now' hle yes q hq hqsum hqtotal => ?_⟩
  · unfold pass5
    rw [hrun]
    rfl
  · obtain ⟨newcg, hexp, hlooks, hentry⟩ := hrepaired c hc
    rw [hcgs, hcsum]
    exact ⟨hlooks.agrees hgeo hexp, hentry.trans hlooks.cs⟩
  · rw [htotal, hcgs]
  · have hsettled : ∀ c < sb.cgCount,
        Repaired sb now blockmap statemap c (p.cgs c) q := by
      intro c hc
      obtain ⟨newcg, hexp, hlooks, hentry⟩ := hrepaired c hc
      refine ⟨newcg, hexp, ?_, ?_⟩
      · rw [hq, hcgs]
        exact hlooks
      · rw [hqsum, hcsum]
        exact hentry
    unfold pass5
    rw [pass5_settledLoop hgeo hvalid hnow hle hsettled sb.cgCount le_rfl]
    show Except.ok (compare yes (csumTotal (fun c => (q.cgs c).cs) sb.cgCount
      == q.cstotal) .total _ q) = .ok q
    have hsum : csumTotal (fun c => (q.cgs c).cs) sb.cgCount = q.cstotal := by
      rw [hqtotal, htotal, hq, hcgs]
    rw [beq_iff_eq.mpr hsum, compare_same]

/-- Four fragments are taken, and a bitmap says three. -/
theorem pass5_repairs_twoBlocks :
    ∃ p', pass5 twoBlockFs 0 (usedUpTo 4) twoBlockStates true twoBlockPass5
        = .ok p' ∧
      (p'.cgs 0).free 3 ≠ (twoBlockPass5.cgs 0).free 3 ∧
      pass5 twoBlockFs 7 (usedUpTo 4) twoBlockStates false
        { p' with idFix := .dontknow, found := [] }
        = .ok { p' with idFix := .dontknow, found := [] } := by
  obtain ⟨p', hrun, -, -, hagain⟩ :=
    @pass5_repairs _ 0 (usedUpTo 4) _ twoBlockPass5 twoBlockFs_checked
      twoBlockStates_valid le_rfl FixMode.noConfusion
  refine ⟨p', hrun, ?_, hagain 7 (by decide) false _ rfl rfl rfl⟩
  have hsize : (p'.cgs 0).free 3 = false := by
    have hval : (pass5 twoBlockFs 0 (usedUpTo 4) twoBlockStates true
        twoBlockPass5).toOption.map (fun p => (p.cgs 0).free 3) = some false := by
      decide +kernel
    rw [hrun] at hval
    exact Option.some.inj hval
  rw [hsize]
  exact Bool.false_ne_true

end Run

end NextUfs.Fsck
