/-
  NextUfs.Fsck.Agree
  ──────────────────
  **ALLOCATOR AND CHECKER AGREE ON THE BOOKS.**

  Pass 5 reports nothing exactly when every group's bitmaps are what the block
  map and the inode state map say and its counters are the values the
  allocator's own definition gives for these bitmaps, in the group, in its
  summary entry and, summed, in the superblock.

    • `groupSame_iff`    — one group compared with what is expected of it,
    • `pass5Group_clean`, `pass5Group_dirty` — one round of the loop,
    • `pass5_clean_iff`  — the pass.
-/
import NextUfs.Fsck.Expected

namespace NextUfs.Fsck

open Bits State

/-! ## §1. What is compared. -/

/-- The fixed fields of group `c`, as they are written when the group is made,
and the zero bits behind its bitmaps. -/
structure FixedHeader (sb : Superblock) (now : Int) (c : Nat) (cg : Cg) :
    Prop where
  link : cg.link = 0
  rlink : cg.rlink = 0
  time : cg.time.toInt32.toInt ≤ now
  cgx : cg.cgx = c
  ncyl : cg.ncyl = groupCyls sb c
  niblk : cg.niblk = sb.inodesPerGroup
  ndblk : cg.ndblk = groupFrags sb c
  rotor : cg.rotor < cg.ndblk
  frotor : cg.frotor < cg.ndblk
  irotor : cg.irotor < cg.niblk
  magic : cg.magic = CG_MAGIC
  inodesPast : ∀ i, sb.inodesPerGroup ≤ i → i < MAXIPG → cg.iused i = false
  fragsPast : ∀ i, cg.ndblk ≤ i → cg.free i = false

/-- Group `c` says what the maps say, and its counters are the values its
bitmaps define. -/
structure GroupAgrees (sb : Superblock) (blockmap : Nat → Bool)
    (statemap : Nat → InodeState) (c : Nat) (cg : Cg) : Prop where
  free : ∀ i < cg.ndblk, cg.free i = !blockmap (sb.fragsPerGroup * c + i)
  iused : ∀ i < sb.inodesPerGroup, cg.iused i = inodeInUse sb statemap c i
  nifree : cg.cs.nifree = UInt32.ofNat (freeInodes sb cg)
  ndir : cg.cs.ndir = UInt32.ofNat (dirStates sb statemap c)
  counts : ScannedCounts sb cg

theorem sameBitMaps_iff {sb : Superblock} {newcg cg : Cg} :
    sameBitMaps sb newcg cg = true ↔
      (∀ i < MAXIPG, newcg.iused i = cg.iused i) ∧ newcg.magic = cg.magic ∧
        ∀ i < 8 * ((sb.fragsPerGroup + 7) / 8), newcg.free i = cg.free i := by
  simp [sameBitMaps, and_assoc]

theorem sameSummary_iff {newcg cg : Cg} :
    sameSummary newcg cg = true ↔
      newcg.link = cg.link ∧ newcg.rlink = cg.rlink ∧ newcg.time = cg.time ∧
        newcg.cgx = cg.cgx ∧ newcg.ncyl = cg.ncyl ∧ newcg.niblk = cg.niblk ∧
        newcg.ndblk = cg.ndblk ∧ newcg.cs = cg.cs ∧
        newcg.rotor = cg.rotor ∧ newcg.frotor = cg.frotor ∧
        newcg.irotor = cg.irotor ∧
        (∀ i < MAXFRAG, newcg.frsum i = cg.frsum i) ∧
        (∀ i < MAXCPG, newcg.btot i = cg.btot i) ∧
        ∀ i < MAXCPG, ∀ j < NRPOS, newcg.b i j = cg.b i j := by
  simp [sameSummary, and_assoc]

section Group

variable {sb : Superblock} {now : Int} {blockmap : Nat → Bool}
  {statemap : Nat → InodeState} {c : Nat} {cg newcg : Cg}

/-- The expected fixed fields are the group's own. -/
theorem ExpectedGroup.fixed (h : ExpectedGroup sb now blockmap statemap c cg
      newcg) (hfix : FixedHeader sb now c cg) :
    newcg.link = cg.link ∧ newcg.rlink = cg.rlink ∧ newcg.time = cg.time ∧
      newcg.cgx = cg.cgx ∧ newcg.ncyl = cg.ncyl ∧ newcg.niblk = cg.niblk ∧
      newcg.ndblk = cg.ndblk ∧ newcg.rotor = cg.rotor ∧
      newcg.frotor = cg.frotor ∧ newcg.irotor = cg.irotor ∧
      newcg.magic = cg.magic := by
  have hlink : newcg.link = 0 := congrArg Cg.link h.header
  have hrlink : newcg.rlink = 0 := congrArg Cg.rlink h.header
  have htime : newcg.time = if cg.time.toInt32.toInt < now then cg.time
      else (Int32.ofInt now).toUInt32 := congrArg Cg.time h.header
  have hcgx : newcg.cgx = c := congrArg Cg.cgx h.header
  have hncyl : newcg.ncyl = groupCyls sb c := congrArg Cg.ncyl h.header
  have hniblk : newcg.niblk = sb.inodesPerGroup :=
    congrArg Cg.niblk h.header
  have hndblk : newcg.ndblk = groupFrags sb c := congrArg Cg.ndblk h.header
  have hrotor : newcg.rotor = keptRotor cg.rotor (groupFrags sb c) :=
    congrArg Cg.rotor h.header
  have hfrotor : newcg.frotor = keptRotor cg.frotor (groupFrags sb c) :=
    congrArg Cg.frotor h.header
  have hirotor : newcg.irotor = keptRotor cg.irotor sb.inodesPerGroup :=
    congrArg Cg.irotor h.header
  have hmagic : newcg.magic = CG_MAGIC := congrArg Cg.magic h.header
  refine ⟨?_, ?_, ?_, ?_, ?_, ?_, ?_, ?_, ?_, ?_, ?_⟩
  · rw [hlink, hfix.link]
  · rw [hrlink, hfix.rlink]
  · rw [htime]
    split
    · rfl
    · have heq : now = cg.time.toInt32.toInt := by
        have := hfix.time
        omega
      rw [heq, Int32.ofInt_toInt]
      exact UInt32.toUInt32_toInt32 _
  · rw [hcgx, hfix.cgx]
  · rw [hncyl, hfix.ncyl]
  · rw [hniblk, hfix.niblk]
  · rw [hndblk, hfix.ndblk]
  · rw [hrotor, ← hfix.ndblk, keptRotor_of_lt hfix.rotor]
  · rw [hfrotor, ← hfix.ndblk, keptRotor_of_lt hfix.frotor]
  · rw [hirotor, ← hfix.niblk, keptRotor_of_lt hfix.irotor]
  · rw [hmagic, hfix.magic]

/-- Two groups of one size with one fragment bitmap have the same counts. -/
theorem ScannedCounts.congr {cg cg' : Cg} (h : ScannedCounts sb cg)
    (hfree : cg'.free = cg.free) (hnd : cg'.ndblk = cg.ndblk)
    (hcs : cg'.cs = cg.cs) (hfr : ∀ i < MAXFRAG, cg'.frsum i = cg.frsum i)
    (hbt : ∀ i < MAXCPG, cg'.btot i = cg.btot i)
    (hb : ∀ i < MAXCPG, ∀ j < NRPOS, cg'.b i j = cg.b i j) :
    ScannedCounts sb cg' := by
  refine ⟨?_, ?_, fun j hj => ?_, fun cyl hcyl => ?_,
    fun cyl hcyl pos hpos => ?_⟩
  · unfold freeBlocks
    rw [hcs, hfree, hnd]
    exact h.nbfree
  · unfold freeFrags
    rw [hcs, hfree, hnd]
    exact h.nffree
  · rw [hfr j hj, hfree, hnd]
    exact h.frsum j hj
  · unfold cylBlocks
    rw [hbt cyl hcyl, hfree, hnd]
    exact h.btot cyl hcyl
  · unfold posBlocks
    rw [hb cyl hcyl pos hpos, hfree, hnd]
    exact h.b cyl hcyl pos hpos

/-- Groups with the same bitmap and counts have the same counters. -/
theorem ScannedCounts.unique {cg cg' : Cg} (h : ScannedCounts sb cg)
    (h' : ScannedCounts sb cg') (hfree : cg'.free = cg.free)
    (hnd : cg'.ndblk = cg.ndblk) :
    cg'.cs.nbfree = cg.cs.nbfree ∧ cg'.cs.nffree = cg.cs.nffree ∧
      (∀ i < MAXFRAG, cg'.frsum i = cg.frsum i) ∧
      (∀ i < MAXCPG, cg'.btot i = cg.btot i) ∧
      ∀ i < MAXCPG, ∀ j < NRPOS, cg'.b i j = cg.b i j := by
  refine ⟨?_, ?_, fun j hj => ?_, fun cyl hcyl => ?_,
    fun cyl hcyl pos hpos => ?_⟩
  · rw [h.nbfree, h'.nbfree]
    unfold freeBlocks
    rw [hfree, hnd]
  · rw [h.nffree, h'.nffree]
    unfold freeFrags
    rw [hfree, hnd]
  · rw [h.frsum j hj, h'.frsum j hj, hfree, hnd]
  · rw [h.btot cyl hcyl, h'.btot cyl hcyl]
    unfold cylBlocks
    rw [hfree, hnd]
  · rw [h.b cyl hcyl pos hpos, h'.b cyl hcyl pos hpos]
    unfold posBlocks
    rw [hfree, hnd]

theorem freeInodes_congr {cg cg' : Cg}
    (h : ∀ i < sb.inodesPerGroup, cg'.iused i = cg.iused i) :
    freeInodes sb cg' = freeInodes sb cg := by
  unfold freeInodes
  refine Finset.sum_congr rfl fun i hi => ?_
  rw [h i (Finset.mem_range.mp hi)]

/-- **One group**: it looks as expected exactly when it agrees with the
maps. -/
theorem groupSame_iff (hgeo : CheckedGeometry sb)
    (h : ExpectedGroup sb now blockmap statemap c cg newcg)
    (hfix : FixedHeader sb now c cg) :
    (sameBitMaps sb newcg cg = true ∧ sameSummary newcg cg = true) ↔
      GroupAgrees sb blockmap statemap c cg := by
  obtain ⟨hlink, hrlink, htime, hcgx, hncyl, hniblk, hndblk, hrotor, hfrotor,
    hirotor, hmagic⟩ := h.fixed hfix
  have hle : cg.ndblk ≤ 8 * ((sb.fragsPerGroup + 7) / 8) := by
    have := groupFrags_le sb c
    rw [hfix.ndblk]
    omega
  -- a free bit of the expected bitmap, inside the group
  have hexp : ∀ i < cg.ndblk,
      newcg.free i = !blockmap (sb.fragsPerGroup * c + i) := by
    intro i hi
    rw [h.free]
    unfold groupMap
    rw [decide_eq_true (by rwa [← hfix.ndblk]), Bool.true_and]
    rfl
  have hexp_past : ∀ i, cg.ndblk ≤ i → newcg.free i = false := by
    intro i hi
    rw [h.free]
    unfold groupMap
    rw [decide_eq_false (by rw [← hfix.ndblk]; omega), Bool.false_and]
  rw [sameBitMaps_iff, sameSummary_iff]
  constructor
  · rintro ⟨⟨hused, -, hfree⟩, -, -, -, -, -, -, -, hcs, -, -, -, hfr, hbt,
      hb⟩
    have hmap : cg.free = newcg.free := by
      funext i
      by_cases hi : i < cg.ndblk
      · exact (hfree i (by omega)).symm
      · rw [hfix.fragsPast i (by omega), hexp_past i (by omega)]
    have hused' : ∀ i < sb.inodesPerGroup, cg.iused i = newcg.iused i :=
      fun i hi => (hused i (by have := hgeo.inodes_le; omega)).symm
    refine ⟨fun i hi => ?_, fun i hi => ?_, ?_, ?_, ?_⟩
    · rw [hmap, hexp i hi]
    · rw [hused' i hi, h.iused, decide_eq_true hi, Bool.true_and]
    · rw [freeInodes_congr hused', ← hcs, h.nifree]
    · rw [← hcs, h.ndir]
    · exact h.counts.congr hmap hndblk.symm hcs.symm
        (fun i hi => (hfr i hi).symm) (fun i hi => (hbt i hi).symm)
        (fun i hi j hj => (hb i hi j hj).symm)
  · intro ha
    have hmap : newcg.free = cg.free := by
      funext i
      by_cases hi : i < cg.ndblk
      · rw [hexp i hi, ha.free i hi]
      · rw [hfix.fragsPast i (by omega), hexp_past i (by omega)]
    have hused : ∀ i < MAXIPG, newcg.iused i = cg.iused i := by
      intro i hi
      rw [h.iused]
      by_cases hip : i < sb.inodesPerGroup
      · rw [ha.iused i hip, decide_eq_true hip, Bool.true_and]
      · rw [hfix.inodesPast i (by omega) hi, decide_eq_false hip,
          Bool.false_and]
    obtain ⟨hnb, hnf, hfr, hbt, hb⟩ := ha.counts.unique h.counts hmap hndblk
    have hcs : newcg.cs = cg.cs := by
      have hin : freeInodes sb newcg = freeInodes sb cg :=
        freeInodes_congr fun i hi =>
          hused i (by have := hgeo.inodes_le; omega)
      refine Csum.ext ?_ hnb ?_ hnf
      · rw [h.ndir, ha.ndir]
      · rw [h.nifree, ha.nifree, hin]
    exact ⟨⟨hused, hmagic, fun i _ => congrFun hmap i⟩, hlink, hrlink, htime,
      hcgx, hncyl, hniblk, hndblk, hcs, hrotor, hfrotor, hirotor, hfr, hbt,
      hb⟩

end Group

/-! ## §2. One round of the loop. -/

section Round

variable {sb : Superblock} {now : Int} {blockmap : Nat → Bool}
  {statemap : Nat → InodeState} {yes : Bool} {c : Nat} {newcg : Cg}
  {p : Pass5}

theorem compare_same {what : Difference} {repair : Pass5 → Pass5} :
    compare yes true what repair p = p := rfl

/-- A difference is recorded, whatever the operator says. -/
theorem compare_found {same : Bool} {what : Difference}
    {repair : Pass5 → Pass5} (hrep : ∀ q, (repair q).found = q.found) :
    (compare yes same what repair p).found
      = if same then p.found else what :: p.found := by
  unfold compare
  cases same with
  | true => rfl
  | false =>
    simp only [Bool.false_eq_true, if_false]
    split
    · rw [hrep]
    · rfl

theorem compare_dirty {what : Difference} {repair : Pass5 → Pass5}
    (hrep : ∀ q, (repair q).found = q.found) :
    (compare yes false what repair p).found ≠ [] := by
  rw [compare_found hrep]
  exact List.cons_ne_nil _ _

theorem compare_grows {same : Bool} {what : Difference}
    {repair : Pass5 → Pass5} (hrep : ∀ q, (repair q).found = q.found)
    (h : p.found ≠ []) : (compare yes same what repair p).found ≠ [] := by
  rw [compare_found hrep]
  split
  · exact h
  · exact List.cons_ne_nil _ _

/-- What has been found stays found. -/
theorem compareGroup_grows (h : p.found ≠ []) :
    (compareGroup sb yes c newcg p).found ≠ [] := by
  unfold compareGroup
  dsimp only
  refine compare_grows (fun _ => rfl) ?_
  refine compare_grows (fun _ => rfl) ?_
  exact compare_grows (fun _ => rfl) h

/-- A group that looks as expected is left alone. -/
theorem compareGroup_clean (hmaps : sameBitMaps sb newcg (p.cgs c) = true)
    (hsum : sameSummary newcg (p.cgs c) = true)
    (hcsum : newcg.cs = p.csum c) : compareGroup sb yes c newcg p = p := by
  have hc : (newcg.cs == p.csum c) = true := beq_iff_eq.mpr hcsum
  unfold compareGroup
  dsimp only
  rw [hmaps, compare_same, hsum, compare_same, hc, compare_same]

/-- Any of the three comparisons that fails is found. -/
theorem compareGroup_dirty (h : ¬(sameBitMaps sb newcg (p.cgs c) = true ∧
      sameSummary newcg (p.cgs c) = true ∧ newcg.cs = p.csum c)) :
    (compareGroup sb yes c newcg p).found ≠ [] := by
  unfold compareGroup
  dsimp only
  cases hmaps : sameBitMaps sb newcg (p.cgs c) with
  | false =>
    refine compare_grows (fun _ => rfl) (compare_grows (fun _ => rfl) ?_)
    exact compare_dirty fun _ => rfl
  | true =>
    rw [compare_same]
    cases hsum : sameSummary newcg (p.cgs c) with
    | false =>
      exact compare_grows (fun _ => rfl) (compare_dirty fun _ => rfl)
    | true =>
      rw [compare_same]
      have hne : (newcg.cs == p.csum c) = false := by
        refine beq_eq_false_iff_ne.mpr fun he => h ⟨hmaps, hsum, he⟩
      rw [hne]
      exact compare_dirty fun _ => rfl

/-- Group `c` agrees with the maps, and its summary entry with the group. -/
def GroupClean (sb : Superblock) (blockmap : Nat → Bool)
    (statemap : Nat → InodeState) (p : Pass5) (c : Nat) : Prop :=
  GroupAgrees sb blockmap statemap c (p.cgs c) ∧ p.csum c = (p.cgs c).cs

/-- **A round over a group that agrees** changes nothing and adds the group's
own counters to the totals. -/
theorem pass5Group_clean (hgeo : CheckedGeometry sb) (hc : c < sb.cgCount)
    (hvalid : ValidStates sb statemap)
    (hfix : FixedHeader sb now c (p.cgs c))
    (hclean : GroupClean sb blockmap statemap p c) (cstotal : Csum) :
    pass5Group sb now blockmap statemap yes (p, cstotal) c
      = .ok (p, cstotal + (p.cgs c).cs) := by
  obtain ⟨newcg, hrun, hexp⟩ :=
    expectedCg_spec hgeo hc hvalid now blockmap (p.cgs c)
  obtain ⟨hmaps, hsum⟩ := (groupSame_iff hgeo hexp hfix).mpr hclean.1
  have hcs : newcg.cs = (p.cgs c).cs := (sameSummary_iff.mp hsum).2.2.2.2.2.2.2.1
  unfold pass5Group
  dsimp only
  rw [if_neg (not_not.mpr hfix.magic), hrun]
  show Except.ok (compareGroup sb yes c newcg p, cstotal + newcg.cs) = _
  rw [compareGroup_clean hmaps hsum (by rw [hcs, hclean.2]), hcs]

/-- **A round over a group that disagrees**, or one after something was found,
leaves something found. -/
theorem pass5Group_dirty (hgeo : CheckedGeometry sb) (hc : c < sb.cgCount)
    (hvalid : ValidStates sb statemap)
    (hdirty : p.found ≠ [] ∨ (FixedHeader sb now c (p.cgs c) ∧
      ¬GroupClean sb blockmap statemap p c)) (cstotal : Csum) :
    ∃ s, pass5Group sb now blockmap statemap yes (p, cstotal) c = .ok s ∧
      s.1.found ≠ [] := by
  unfold pass5Group
  dsimp only
  rcases hdirty with hfound | ⟨hfix, hnot⟩
  · generalize hq : (if (p.cgs c).magic ≠ CG_MAGIC then
      ({ p with found := .badMagic c :: p.found } : Pass5) else p) = q
    have hqf : q.found ≠ [] := by
      rw [← hq]
      split
      · exact List.cons_ne_nil _ _
      · exact hfound
    obtain ⟨newcg, hrun, -⟩ :=
      expectedCg_spec hgeo hc hvalid now blockmap (q.cgs c)
    rw [hrun]
    refine ⟨(compareGroup sb yes c newcg q, cstotal + newcg.cs), rfl, ?_⟩
    show (compareGroup sb yes c newcg q).found ≠ []
    exact compareGroup_grows hqf
  · rw [if_neg (not_not.mpr hfix.magic)]
    obtain ⟨newcg, hrun, hexp⟩ :=
      expectedCg_spec hgeo hc hvalid now blockmap (p.cgs c)
    rw [hrun]
    refine ⟨(compareGroup sb yes c newcg p, cstotal + newcg.cs), rfl, ?_⟩
    show (compareGroup sb yes c newcg p).found ≠ []
    refine compareGroup_dirty ?_
    rintro ⟨hmaps, hsum, hcsum⟩
    have hcs : newcg.cs = (p.cgs c).cs :=
      (sameSummary_iff.mp hsum).2.2.2.2.2.2.2.1
    refine hnot ⟨(groupSame_iff hgeo hexp hfix).mp ⟨hmaps, hsum⟩, ?_⟩
    rw [← hcsum, hcs]

end Round

/-! ## §3. The pass. -/

section Run

variable {sb : Superblock} {now : Int} {blockmap : Nat → Bool}
  {statemap : Nat → InodeState} {yes : Bool} {p : Pass5}

/-- **The loop over the groups**, by induction on their number: as long as
every group agrees the state is the first one and the totals are sums; from the
first group that disagrees on, something is found. -/
theorem pass5_loop (hgeo : CheckedGeometry sb)
    (hvalid : ValidStates sb statemap)
    (hfix : ∀ c < sb.cgCount, FixedHeader sb now c (p.cgs c)) :
    ∀ n ≤ sb.cgCount, ∃ s,
      (List.range n).foldlM (pass5Group sb now blockmap statemap yes) (p, 0)
        = .ok s ∧
      ((∀ c < n, GroupClean sb blockmap statemap p c) →
        s = (p, csumTotal (fun c => (p.cgs c).cs) n)) ∧
      (¬(∀ c < n, GroupClean sb blockmap statemap p c) → s.1.found ≠ [])
  | 0, _ => ⟨(p, 0), rfl, fun _ => rfl,
      fun h => absurd (fun _ hc => absurd hc (Nat.not_lt_zero _)) h⟩
  | n + 1, hn => by
    obtain ⟨s, hrun, hclean, hdirty⟩ := pass5_loop hgeo hvalid hfix n (by omega)
    have hlt : n < sb.cgCount := hn
    have hstep : ∀ t,
        pass5Group sb now blockmap statemap yes s n = .ok t →
        (List.range (n + 1)).foldlM
          (pass5Group sb now blockmap statemap yes) (p, 0) = .ok t := by
      intro t ht
      rw [List.range_succ, List.foldlM_append, hrun]
      show List.foldlM (pass5Group sb now blockmap statemap yes) s [n] = .ok t
      rw [List.foldlM_cons, ht]
      rfl
    by_cases hall : ∀ c < n, GroupClean sb blockmap statemap p c
    · have hs := hclean hall
      subst hs
      by_cases hlast : GroupClean sb blockmap statemap p n
      · refine ⟨_, hstep _ (pass5Group_clean hgeo hlt hvalid
          (hfix n hlt) hlast _), fun _ => rfl, fun hnot => ?_⟩
        refine absurd (fun c hc => ?_) hnot
        rcases Nat.lt_or_eq_of_le (Nat.le_of_lt_succ hc) with hc | rfl
        · exact hall c hc
        · exact hlast
      · obtain ⟨t, ht, hfound⟩ := pass5Group_dirty hgeo hlt hvalid
          (Or.inr ⟨hfix n hlt, hlast⟩) _
        exact ⟨t, hstep t ht, fun h => absurd (h n (Nat.lt_succ_self n)) hlast,
          fun _ => hfound⟩
    · obtain ⟨t, ht, hfound⟩ := pass5Group_dirty hgeo hlt hvalid
        (Or.inl (hdirty hall)) s.2
      refine ⟨t, hstep t ht, fun h => absurd ?_ hall, fun _ => hfound⟩
      exact fun c hc => h c (Nat.lt_succ_of_lt hc)

/-- **Allocator and checker agree on the books.**  Pass 5 ends, and it has
found nothing if and only if in every group the fragment bitmap is the
complement of the block map, the inode bitmap matches the state map and every
counter is the value the allocator's definition gives for these bitmaps, and
the summary entries and the superblock totals say the same. -/
theorem pass5_clean_iff (hgeo : CheckedGeometry sb)
    (hvalid : ValidStates sb statemap)
    (hfix : ∀ c < sb.cgCount, FixedHeader sb now c (p.cgs c))
    (hstart : p.found = []) :
    ∃ p', pass5 sb now blockmap statemap yes p = .ok p' ∧
      (p'.found = [] ↔
        (∀ c < sb.cgCount,
          GroupAgrees sb blockmap statemap c (p.cgs c)) ∧
        (∀ c < sb.cgCount, p.csum c = (p.cgs c).cs) ∧
        p.cstotal = csumTotal (fun c => (p.cgs c).cs) sb.cgCount) := by
  obtain ⟨s, hrun, hclean, hdirty⟩ :=
    @pass5_loop _ now blockmap _ yes _ hgeo hvalid hfix sb.cgCount le_rfl
  refine ⟨compare yes (s.2 == s.1.cstotal) .total
    (fun p => { p with cstotal := s.2 }) s.1, ?_, ?_⟩
  · unfold pass5
    rw [hrun]
    rfl
  by_cases hall : ∀ c < sb.cgCount, GroupClean sb blockmap statemap p c
  · have hs := hclean hall
    subst hs
    dsimp only
    constructor
    · intro h
      cases htot : csumTotal (fun c => (p.cgs c).cs) sb.cgCount
          == p.cstotal with
      | true =>
        exact ⟨fun c hc => (hall c hc).1, fun c hc => (hall c hc).2,
          (beq_iff_eq.mp htot).symm⟩
      | false =>
        rw [htot] at h
        exact absurd h (compare_dirty fun _ => rfl)
    · rintro ⟨-, -, htot⟩
      rw [beq_iff_eq.mpr htot.symm, compare_same]
      exact hstart
  · constructor
    · intro h
      exact absurd h (compare_grows (fun _ => rfl) (hdirty hall))
    · rintro ⟨hgroups, hcsum, -⟩
      exact absurd (fun c hc => ⟨hgroups c hc, hcsum c hc⟩) hall

end Run

/-! ## §4. Two blocks, by hand. -/

/-- A group of two blocks, three fragments of the first one in use, and four
inodes, of which the third is a directory's. -/
def twoBlockPass5 : Pass5 where
  cgs := fun _ =>
    { link := 0, rlink := 0, time := 0, cgx := 0, ncyl := 0, niblk := 4
      ndblk := 16, cs := ⟨1, 1, 1, 5⟩, rotor := 8, frotor := 3, irotor := 2
      frsum := fun i => if i = 5 then 1 else 0
      btot := fun cyl => if cyl = 0 then 1 else 0
      b := fun cyl pos => if cyl = 0 ∧ pos = 4 then 1 else 0
      iused := fun i => decide (i < 3)
      magic := CG_MAGIC
      free := fun i => decide (3 ≤ i ∧ i < 16) }
  csum := fun _ => ⟨1, 1, 1, 5⟩
  cstotal := ⟨1, 1, 1, 5⟩
  idFix := .dontknow
  found := []

/-- Geometry of `twoBlockPass5`. -/
def twoBlockFs : Superblock where
  sbOff := 0
  cgOff := 0
  inoOff := 0
  dataOff := 0
  cgDelta := 0
  cgCycMask := 0
  fragCount := 16
  cgCount := 1
  blockSize := 8192
  fragSize := 1024
  fragsPerBlock := 8
  sectorsPerFrag := 1
  cylSummaryAddr := 0
  csumSize := 1024
  cgSize := 8192
  sectorsPerTrack := 16
  sectorsPerCyl := 16
  ncyl := 1
  cpg := 1
  inodesPerGroup := 4
  inodesPerBlock := 64
  fragsPerGroup := 16

/-- The first fragments of the group are in use. -/
def usedUpTo (n : Nat) : Nat → Bool := fun i => decide (i < n)

/-- The states of the four inodes. -/
def twoBlockStates : Nat → InodeState
  | 0 | 1 => .unset
  | 2 => .dstate
  | _ => .ustate

theorem twoBlockFs_checked : CheckedGeometry twoBlockFs :=
  ⟨by constructor <;> decide, by decide, by decide, by decide, by decide⟩

theorem twoBlockStates_valid : ValidStates twoBlockFs twoBlockStates := by
  unfold ValidStates
  decide

private theorem twoBlockPass5_agrees :
    GroupAgrees twoBlockFs (usedUpTo 3) twoBlockStates 0
      (twoBlockPass5.cgs 0) := by
  refine ⟨by decide, by decide, by decide, by decide, ?_⟩
  exact ⟨by decide, by decide, by decide, by decide, by decide +kernel⟩

/-- The pass is content with it, and would not be with another block map. -/
theorem pass5_clean_twoBlocks :
    (∃ p', pass5 twoBlockFs 0 (usedUpTo 3) twoBlockStates false
      twoBlockPass5 = .ok p' ∧ p'.found = []) ∧
    ∃ p', pass5 twoBlockFs 0 (usedUpTo 4) twoBlockStates false
      twoBlockPass5 = .ok p' ∧ p'.found ≠ [] := by
  have hfix : ∀ c < twoBlockFs.cgCount,
      FixedHeader twoBlockFs 0 c (twoBlockPass5.cgs c) := by
    intro c hc
    obtain rfl : c = 0 := Nat.lt_one_iff.mp hc
    refine ⟨rfl, rfl, by decide, rfl, rfl, rfl, rfl, by decide, by decide,
      by decide, rfl, fun i hi _ => ?_, fun i hi => ?_⟩
    · exact decide_eq_false (Nat.not_lt.mpr (Nat.le_trans (by decide) hi))
    · exact decide_eq_false fun h => Nat.not_lt.mpr hi h.2
  constructor
  · obtain ⟨p', hrun, hiff⟩ :=
      pass5_clean_iff twoBlockFs_checked twoBlockStates_valid hfix rfl
    refine ⟨p', hrun, hiff.mpr ⟨fun c hc => ?_, fun _ _ => rfl, rfl⟩⟩
    obtain rfl : c = 0 := Nat.lt_one_iff.mp hc
    exact twoBlockPass5_agrees
  · obtain ⟨p', hrun, hiff⟩ :=
      pass5_clean_iff twoBlockFs_checked twoBlockStates_valid hfix rfl
    refine ⟨p', hrun, fun hnil => ?_⟩
    have hfree := ((hiff.mp hnil).1 0 (by decide)).free 3 (by decide)
    revert hfree
    decide

end NextUfs.Fsck
