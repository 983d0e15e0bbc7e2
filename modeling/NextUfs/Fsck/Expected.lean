/-
  NextUfs.Fsck.Expected
  ─────────────────────
  **WHAT PASS 5 EXPECTS OF A GROUP.**

    • `countInodes_ok`  — the inode bitmap, `nifree` and `ndir`,
    • `expectedCg_spec` — the group, in the terms of the allocator.
-/
import NextUfs.Fsck.ExpectedFrags

namespace NextUfs.Fsck

open Bits State

/-! ## §1. The inodes. -/

/-- States of an inode that is in use. -/
def InodeState.inUse : InodeState → Bool
  | .unset | .ustate => false
  | .fstate | .dstate | .dfound | .dclear | .fclear => true

/-- States of an inode that is a directory. -/
def InodeState.isDir : InodeState → Bool
  | .dstate | .dfound | .dclear => true
  | .unset | .ustate | .fstate | .fclear => false

/-- A state map as passes 1 to 4 leave it: the reserved inodes are never
looked at, every other one has a state. -/
def ValidStates (sb : Superblock) (statemap : Nat → InodeState) : Prop :=
  ∀ ino < sb.inodesPerGroup * sb.cgCount,
    (statemap ino = .unset ↔ ino < ROOTINO)

/-- Inode `i` of group `c` is in use: it is reserved, or its state says
so. -/
def inodeInUse (sb : Superblock) (statemap : Nat → InodeState) (c i : Nat) :
    Bool :=
  decide (sb.inodesPerGroup * c + i < ROOTINO) ||
    (statemap (sb.inodesPerGroup * c + i)).inUse

/-- Directories among the inodes of group `c`. -/
def dirStates (sb : Superblock) (statemap : Nat → InodeState) (c : Nat) :
    Nat :=
  ∑ i ∈ Finset.range sb.inodesPerGroup,
    (statemap (sb.inodesPerGroup * c + i)).isDir.toNat

/-- Set bits of a group's inode bitmap. -/
def usedInodes (sb : Superblock) (cg : Cg) : Nat :=
  popRange cg.iused 0 sb.inodesPerGroup

section Inodes

variable {sb : Superblock} {statemap : Nat → InodeState} {c n : Nat}
  {cg cg₀ : Cg}

/-- Set and clear bits make up the group's inodes. -/
theorem freeInodes_add_used (sb : Superblock) (cg : Cg) :
    freeInodes sb cg + usedInodes sb cg = sb.inodesPerGroup := by
  unfold freeInodes usedInodes popRange
  rw [← Finset.sum_add_distrib]
  calc ∑ i ∈ Finset.range sb.inodesPerGroup,
        ((!cg.iused i).toNat + (cg.iused (0 + i)).toNat)
      = ∑ _i ∈ Finset.range sb.inodesPerGroup, 1 := by
        refine Finset.sum_congr rfl fun i _ => ?_
        rw [Nat.zero_add]
        cases cg.iused i <;> rfl
    _ = sb.inodesPerGroup := by simp

/-- The counter of free inodes and the bitmap agree. -/
def NifreeOk (sb : Superblock) (cg : Cg) : Prop :=
  cg.cs.nifree + UInt32.ofNat (usedInodes sb cg)
    = UInt32.ofNat sb.inodesPerGroup

/-- Marking an unused inode keeps them in step. -/
theorem useInode_nifreeOk (h : NifreeOk sb cg) {i : Nat}
    (hi : i < sb.inodesPerGroup) (hunused : cg.iused i = false) :
    NifreeOk sb (useInode cg i) := by
  have hset : Function.update cg.iused i true = setRange cg.iused i 1 := by
    funext b
    unfold setRange
    by_cases hb : b = i
    · subst hb
      rw [Function.update_self, if_pos (by omega)]
    · rw [Function.update_of_ne hb, if_neg (by omega)]
  have hused : usedInodes sb (useInode cg i) = usedInodes sb cg + 1 := by
    show popRange (Function.update cg.iused i true) 0 _ = _
    rw [hset]
    refine popRange_setRange (Nat.zero_le _) (by omega) fun j hj => ?_
    rw [show i + j = i by omega, hunused]
  unfold NifreeOk at h ⊢
  rw [hused, UInt32.ofNat_add, ← h]
  show cg.cs.nifree - 1 + _ = _
  have h1 : UInt32.ofNat 1 = 1 := rfl
  rw [h1]
  grind

theorem NifreeOk.nifree (h : NifreeOk sb cg) :
    cg.cs.nifree = UInt32.ofNat (freeInodes sb cg) := by
  have hsum := congrArg UInt32.ofNat (freeInodes_add_used sb cg)
  rw [UInt32.ofNat_add] at hsum
  unfold NifreeOk at h
  grind

/-- **After `n` inodes** of group `c`, started from `cg₀`. -/
structure InodesDone (sb : Superblock) (statemap : Nat → InodeState)
    (c n : Nat) (cg₀ cg : Cg) : Prop where
  iused : ∀ i, cg.iused i
    = (decide (i < n) && (statemap (sb.inodesPerGroup * c + i)).inUse)
  nifree : NifreeOk sb cg
  ndir : cg.cs.ndir = UInt32.ofNat (∑ i ∈ Finset.range n,
    (statemap (sb.inodesPerGroup * c + i)).isDir.toNat)
  rest : cg = { cg₀ with
    iused := cg.iused
    cs := { cg₀.cs with nifree := cg.cs.nifree, ndir := cg.cs.ndir } }

private theorem InodesDone.iused_succ
    (h : InodesDone sb statemap c n cg₀ cg) (hs : (statemap
      (sb.inodesPerGroup * c + n)).inUse = true) (i : Nat) :
    Function.update cg.iused n true i
      = (decide (i < n + 1)
        && (statemap (sb.inodesPerGroup * c + i)).inUse) := by
  by_cases hi : i = n
  · subst hi
    rw [Function.update_self, decide_eq_true (by omega), hs]
    rfl
  · rw [Function.update_of_ne hi, h.iused]
    congr 2
    exact propext (by omega)

private theorem InodesDone.iused_same
    (h : InodesDone sb statemap c n cg₀ cg) (hs : (statemap
      (sb.inodesPerGroup * c + n)).inUse = false) (i : Nat) :
    cg.iused i
      = (decide (i < n + 1)
        && (statemap (sb.inodesPerGroup * c + i)).inUse) := by
  rw [h.iused]
  by_cases hi : i = n
  · subst hi
    rw [hs, Bool.and_false, Bool.and_false]
  · congr 2
    exact propext (by omega)

/-- **One inode of the loop**, by the state it has. -/
theorem countInode_done (h : InodesDone sb statemap c n cg₀ cg)
    (hn : n < sb.inodesPerGroup)
    (hvalid : statemap (sb.inodesPerGroup * c + n) = .unset →
      sb.inodesPerGroup * c + n < ROOTINO) :
    ∃ cg', countInode statemap (sb.inodesPerGroup * c) cg n = .ok cg' ∧
      InodesDone sb statemap c (n + 1) cg₀ cg' := by
  have hclear : cg.iused n = false := by
    rw [h.iused, decide_eq_false (Nat.lt_irrefl n), Bool.false_and]
  have hdir : ∀ b, (statemap (sb.inodesPerGroup * c + n)).isDir = b →
      UInt32.ofNat (∑ i ∈ Finset.range (n + 1),
        (statemap (sb.inodesPerGroup * c + i)).isDir.toNat)
      = cg.cs.ndir + UInt32.ofNat b.toNat := by
    intro b hb
    rw [Finset.sum_range_succ, UInt32.ofNat_add, hb, ← h.ndir]
  -- an inode that is not in use
  have hskip : (statemap (sb.inodesPerGroup * c + n)).inUse = false →
      (statemap (sb.inodesPerGroup * c + n)).isDir = false →
      InodesDone sb statemap c (n + 1) cg₀ cg := by
    intro hu hd
    refine ⟨h.iused_same hu, h.nifree, ?_, h.rest⟩
    rw [hdir false hd]
    exact (UInt32.add_zero _).symm
  -- an inode that is in use but no directory
  have hfile : (statemap (sb.inodesPerGroup * c + n)).inUse = true →
      (statemap (sb.inodesPerGroup * c + n)).isDir = false →
      InodesDone sb statemap c (n + 1) cg₀ (useInode cg n) := by
    intro hu hd
    refine ⟨h.iused_succ hu, useInode_nifreeOk h.nifree hn hclear, ?_, ?_⟩
    · rw [hdir false hd]
      exact (UInt32.add_zero _).symm
    · rw [h.rest]
      rfl
  -- a directory
  have hdirectory : (statemap (sb.inodesPerGroup * c + n)).inUse = true →
      (statemap (sb.inodesPerGroup * c + n)).isDir = true →
      InodesDone sb statemap c (n + 1) cg₀ (useInode
        { cg with cs := { cg.cs with ndir := cg.cs.ndir + 1 } } n) := by
    intro hu hd
    refine ⟨h.iused_succ hu, ?_, (hdir true hd).symm, ?_⟩
    · have hsame : NifreeOk sb
          { cg with cs := { cg.cs with ndir := cg.cs.ndir + 1 } } := h.nifree
      exact useInode_nifreeOk hsame hn hclear
    · rw [h.rest]
      rfl
  unfold countInode
  cases hs : statemap (sb.inodesPerGroup * c + n) with
  | unset =>
    rw [hs] at hskip
    exact ⟨cg, if_pos (hvalid hs), hskip rfl rfl⟩
  | ustate =>
    rw [hs] at hskip
    exact ⟨cg, rfl, hskip rfl rfl⟩
  | fstate =>
    rw [hs] at hfile
    exact ⟨_, rfl, hfile rfl rfl⟩
  | fclear =>
    rw [hs] at hfile
    exact ⟨_, rfl, hfile rfl rfl⟩
  | dstate =>
    rw [hs] at hdirectory
    exact ⟨_, rfl, hdirectory rfl rfl⟩
  | dfound =>
    rw [hs] at hdirectory
    exact ⟨_, rfl, hdirectory rfl rfl⟩
  | dclear =>
    rw [hs] at hdirectory
    exact ⟨_, rfl, hdirectory rfl rfl⟩

/-- The loop over the inodes, by induction on their number. -/
theorem inodesDone_range (h : InodesDone sb statemap c 0 cg₀ cg₀)
    (hc : c < sb.cgCount) (hvalid : ValidStates sb statemap) :
    ∀ n ≤ sb.inodesPerGroup, ∃ cg',
      (List.range n).foldlM (countInode statemap (sb.inodesPerGroup * c)) cg₀
        = .ok cg' ∧ InodesDone sb statemap c n cg₀ cg'
  | 0, _ => ⟨cg₀, rfl, h⟩
  | n + 1, hn => by
    obtain ⟨cg₁, hrun, h₁⟩ := inodesDone_range h hc hvalid n (by omega)
    have hmul := Nat.mul_le_mul_left sb.inodesPerGroup
      (show c + 1 ≤ sb.cgCount from hc)
    rw [Nat.mul_succ] at hmul
    obtain ⟨cg₂, hstep, h₂⟩ := countInode_done h₁ (by omega)
      (hvalid _ (by omega)).mp
    refine ⟨cg₂, ?_, h₂⟩
    rw [List.range_succ, List.foldlM_append, hrun]
    show List.foldlM (countInode statemap (sb.inodesPerGroup * c)) cg₁ [n]
      = .ok cg₂
    rw [List.foldlM_cons, hstep]
    rfl

/-- The header with cleared counters is where the loop starts. -/
theorem inodesDone_header (sb : Superblock) (statemap : Nat → InodeState)
    (now : Int) (c : Nat) (cg : Cg) :
    InodesDone sb statemap c 0 (newcgHeader sb now c cg)
      (newcgHeader sb now c cg) := by
  refine ⟨fun i => ?_, ?_, rfl, rfl⟩
  · show false = _
    rw [decide_eq_false (Nat.not_lt_zero i), Bool.false_and]
  · have hzero : usedInodes sb (newcgHeader sb now c cg) = 0 :=
      popRange_eq_zero fun _ _ => rfl
    unfold NifreeOk
    rw [hzero]
    exact UInt32.add_zero _

/-- **The inodes of a group**, the reserved ones included. -/
theorem countInodes_ok (hgeo : CheckedGeometry sb) (hc : c < sb.cgCount)
    (hvalid : ValidStates sb statemap) (now : Int) (cg : Cg) :
    ∃ cg₁, countInodes sb statemap c (newcgHeader sb now c cg) = .ok cg₁ ∧
      (∀ i, cg₁.iused i
        = (decide (i < sb.inodesPerGroup) && inodeInUse sb statemap c i)) ∧
      NifreeOk sb cg₁ ∧
      cg₁.cs.ndir = UInt32.ofNat (dirStates sb statemap c) ∧
      cg₁ = { newcgHeader sb now c cg with
        iused := cg₁.iused
        cs := { (newcgHeader sb now c cg).cs with
          nifree := cg₁.cs.nifree
          ndir := cg₁.cs.ndir } } := by
  obtain ⟨cg₁, hrun, h₁⟩ := inodesDone_range
    (inodesDone_header sb statemap now c cg) hc hvalid _ le_rfl
  have hres := hgeo.reserved_le
  have hrun' : countInodes sb statemap c (newcgHeader sb now c cg)
      = .ok (if c = 0 then (List.range ROOTINO).foldl useInode cg₁
          else cg₁) := by
    unfold countInodes
    rw [hrun]
    rfl
  by_cases h0 : c = 0
  · rw [if_pos h0] at hrun'
    have hunset : ∀ i < ROOTINO, cg₁.iused i = false := by
      intro i hi
      have hpos := Nat.mul_le_mul_left sb.inodesPerGroup
        (show 1 ≤ sb.cgCount by omega)
      have hs := (hvalid (sb.inodesPerGroup * c + i)
        (by rw [h0, Nat.mul_zero]; omega)).mpr
        (by rw [h0, Nat.mul_zero]; omega)
      rw [h₁.iused, hs]
      exact Bool.and_false _
    have hfold : (List.range ROOTINO).foldl useInode cg₁
        = useInode (useInode cg₁ 0) 1 := rfl
    rw [hfold] at hrun'
    have hok₀ := useInode_nifreeOk h₁.nifree (i := 0)
      (by unfold ROOTINO at hres; omega) (hunset 0 (by decide))
    have hok₁ := useInode_nifreeOk hok₀ (i := 1)
      (by unfold ROOTINO at hres; omega) (by
        show Function.update cg₁.iused 0 true 1 = false
        rw [Function.update_of_ne (by decide)]
        exact hunset 1 (by decide))
    refine ⟨_, hrun', fun i => ?_, hok₁, h₁.ndir, ?_⟩
    · show Function.update (Function.update cg₁.iused 0 true) 1 true i = _
      unfold inodeInUse
      rw [h0, Nat.mul_zero, Nat.zero_add]
      by_cases hi : i < ROOTINO
      · have hip : i < sb.inodesPerGroup := by omega
        rw [decide_eq_true hi, decide_eq_true hip]
        have : i = 0 ∨ i = 1 := by
          unfold ROOTINO at hi
          omega
        rcases this with rfl | rfl <;> rfl
      · have h1 : i ≠ 1 ∧ i ≠ 0 := by
          unfold ROOTINO at hi
          omega
        rw [Function.update_of_ne h1.1, Function.update_of_ne h1.2, h₁.iused,
          decide_eq_false hi, h0, Nat.mul_zero, Nat.zero_add,
          Bool.false_or]
    · rw [h₁.rest]
      rfl
  · rw [if_neg h0] at hrun'
    refine ⟨cg₁, hrun', fun i => ?_, h₁.nifree, h₁.ndir, h₁.rest⟩
    have hfirst := Nat.mul_le_mul_left sb.inodesPerGroup
      (show 1 ≤ c by omega)
    rw [h₁.iused]
    unfold inodeInUse
    rw [decide_eq_false (show ¬sb.inodesPerGroup * c + i < ROOTINO by omega),
      Bool.false_or]

end Inodes

/-! ## §2. The group. -/

/-- The fixed fields of a group. -/
def headerOf (cg : Cg) : Cg :=
  { restOf cg with cs := 0, iused := fun _ => false }

/-- **What pass 5 expects of group `c`**: the fixed fields it resets, the
bitmaps of the two maps, and the counters these bitmaps define. -/
structure ExpectedGroup (sb : Superblock) (now : Int)
    (blockmap : Nat → Bool) (statemap : Nat → InodeState) (c : Nat)
    (cg newcg : Cg) : Prop where
  header : headerOf newcg = headerOf (newcgHeader sb now c cg)
  free : newcg.free
    = groupMap (freeIn blockmap (sb.fragsPerGroup * c)) (groupFrags sb c)
  iused : ∀ i, newcg.iused i
    = (decide (i < sb.inodesPerGroup) && inodeInUse sb statemap c i)
  nifree : newcg.cs.nifree = UInt32.ofNat (freeInodes sb newcg)
  ndir : newcg.cs.ndir = UInt32.ofNat (dirStates sb statemap c)
  counts : ScannedCounts sb newcg

theorem expectedCg_spec {sb : Superblock} {statemap : Nat → InodeState}
    {c : Nat} (hgeo : CheckedGeometry sb) (hc : c < sb.cgCount)
    (hvalid : ValidStates sb statemap) (now : Int) (blockmap : Nat → Bool)
    (cg : Cg) :
    ∃ newcg, expectedCg sb now blockmap statemap c cg = .ok newcg ∧
      ExpectedGroup sb now blockmap statemap c cg newcg := by
  obtain ⟨cg₁, hrun, hused, hnifree, hndir, hcg₁⟩ :=
    countInodes_ok hgeo hc hvalid now cg
  refine ⟨countFrags sb blockmap c cg₁, ?_, ?_⟩
  · unfold expectedCg
    rw [hrun]
    rfl
  have hzero : BlocksDone sb (freeIn blockmap (sb.fragsPerGroup * c)) 0
      cg₁ := by
    rw [hcg₁]
    refine ⟨fun i => ?_, rfl, rfl, fun _ => rfl, fun _ => rfl,
      fun _ _ => rfl⟩
    show false = _
    rw [Nat.zero_mul, decide_eq_false (Nat.not_lt_zero i), Bool.false_and]
  have hblocks := blocksDone_range hgeo hzero
    (groupFrags sb c / sb.fragsPerBlock)
    (Nat.le_trans (Nat.div_mul_le_self _ _) (groupFrags_le sb c))
  have hrest : restOf (countFrags sb blockmap c cg₁) = restOf cg₁ := by
    unfold countFrags
    rw [countTail_rest, foldl_countBlock_rest]
  have hndblk : ((List.range (groupFrags sb c / sb.fragsPerBlock)).foldl
      (countBlock sb blockmap (sb.fragsPerGroup * c)) cg₁).ndblk
      = groupFrags sb c := by
    show (restOf _).ndblk = _
    rw [foldl_countBlock_rest, hcg₁]
    rfl
  obtain ⟨hfree, hcounts⟩ := countTail_spec hgeo hblocks hndblk
  have hiused : (restOf (countFrags sb blockmap c cg₁)).iused
      = (restOf cg₁).iused := by rw [hrest]
  have hnif : (restOf (countFrags sb blockmap c cg₁)).cs.nifree
      = (restOf cg₁).cs.nifree := by rw [hrest]
  have hnd : (restOf (countFrags sb blockmap c cg₁)).cs.ndir
      = (restOf cg₁).cs.ndir := by rw [hrest]
  refine ⟨?_, hfree, fun i => ?_, ?_, ?_, hcounts⟩
  · unfold headerOf
    rw [hrest, hcg₁]
    rfl
  · exact (congrFun hiused i).trans (hused i)
  · have hsame : freeInodes sb (countFrags sb blockmap c cg₁)
        = freeInodes sb cg₁ := by
      unfold freeInodes
      exact Finset.sum_congr rfl fun i _ => by
        rw [show (countFrags sb blockmap c cg₁).iused i = cg₁.iused i
          from congrFun hiused i]
    rw [hsame]
    exact hnif.trans hnifree.nifree
  · exact hnd.trans hndir

end NextUfs.Fsck
