/-
  NextUfs.Core.StoredBlocks
  ─────────────────────────
  **THE BLOCK COUNT OF A STORED FILE.**

  The writer counts the fragments it gives to an inode and stores the count in
  sectors.  Every fragment it counts has left free space, and every fragment
  that has left free space is claimed by the inode; so the count is the number
  of claims.

    • `Counted`           — a step counts what it takes,
    • `storeBlock_counted` — one round of the writer, tree blocks included,
    • `storeData_blocks`  — the block count of the inode.
-/
import NextUfs.Core.RoundTrip

namespace NextUfs

open Bits Radix State

/-! ## §1. Free fragments in total. -/

/-- Free fragments of the disk. -/
def freeTotal (sb : Superblock) (d : Disk) : Nat :=
  ∑ f ∈ Finset.range sb.fragCount, freeAt sb d f

section Total

variable {sb : Superblock} {d d' : Disk} {a n : Nat}

/-- A run on the disk covers as many fragments as it is long. -/
theorem sum_covers {m : Nat} (h : a + n ≤ m) :
    ∑ f ∈ Finset.range m, covers a n f = n := by
  have hfilter : ∑ f ∈ Finset.range m, covers a n f
      = ((Finset.range m).filter fun f => a ≤ f ∧ f < a + n).card := by
    rw [Finset.card_filter]
    rfl
  have hico : (Finset.range m).filter (fun f => a ≤ f ∧ f < a + n)
      = Finset.Ico a (a + n) := by
    ext f
    simp only [Finset.mem_filter, Finset.mem_range, Finset.mem_Ico]
    omega
  rw [hfilter, hico, Nat.card_Ico, Nat.add_sub_cancel_left]

theorem freeTotal_taken
    (hfree : ∀ f, freeAt sb d' f + covers a n f = freeAt sb d f)
    (hend : a + n ≤ sb.fragCount) : freeTotal sb d' + n = freeTotal sb d := by
  unfold freeTotal
  rw [← sum_covers hend, ← Finset.sum_add_distrib]
  exact Finset.sum_congr rfl fun f _ => hfree f

end Total

/-! ## §2. A step counts what it takes. -/

/-- From `s` to `s'` the count has grown by what free space has lost. -/
def Counted (sb : Superblock) (s s' : Storing) : Prop :=
  s'.frags + freeTotal sb s'.disk = s.frags + freeTotal sb s.disk

section Counted

variable {sb : Superblock} {preferredCg : Nat}

theorem Counted.trans {s s' s'' : Storing} (h : Counted sb s s')
    (h' : Counted sb s' s'') : Counted sb s s'' :=
  Eq.trans h' h

/-- **Tree blocks are counted**: the descent allocates at most one block a
level. -/
theorem setIndirectDataBlock_counted (hgeo : DataGeometry sb) (L : Nat) :
    ∀ {b i a : Nat} {s : Storing}, i < treeSpan sb (L + 1) →
      wp (setIndirectDataBlock sb preferredCg (L + 1) b i a)
        (fun _ s' => Counted sb s s') (fun _ _ => True) s := by
  induction L with
  | zero =>
    intro b i a s hi
    have hi : i < entriesPerBlock sb := by simpa using hi
    unfold setIndirectDataBlock
    rw [wp_onDisk]
    exact wp_of_ok (writeIndirectEntry_eq s.disk hi) rfl
  | succ L ih =>
    intro b i a s hi
    obtain ⟨he, hr⟩ := index_lt hi
    unfold setIndirectDataBlock
    rw [wp_bind, wp_onDisk]
    refine wp_of_ok (readIndirectEntry_eq s.disk he) ?_
    rw [wp_ite]
    constructor
    · -- a block is allocated, linked and counted
      intro _
      rw [wp_bind, wp_onDisk]
      refine wp_mono (allocateZeroedFullBlock_spec hgeo s.disk) ?_
        fun _ _ _ => trivial
      rintro c d₁ ⟨hfree, hfits, -⟩
      have htotal := freeTotal_taken hfree hfits.disk
      rw [wp_bind, wp_onDisk]
      refine wp_of_ok (orCleanup_of_ok (writeIndirectEntry_eq _ he)) ?_
      rw [wp_bind, wp_countFrags]
      refine wp_mono (ih hr) (fun _ s' h => ?_) fun _ _ _ => trivial
      refine Counted.trans ?_ h
      show s.frags + sb.fragsPerBlock + freeTotal sb d₁ = _
      omega
    · intro _
      exact ih hr

/-- **The blocks the map takes are counted.** -/
theorem setInodeDataBlock_counted (hgeo : DataGeometry sb) {lb a : Nat}
    (s : Storing) :
    wp (setInodeDataBlock sb preferredCg lb a) (fun _ s' => Counted sb s s')
      (fun _ _ => True) s := by
  unfold setInodeDataBlock
  split
  · rw [wp_modify]
    rfl
  · cases hs : indirectSlot sb (lb - 12) with
    | none => trivial
    | some p =>
      obtain ⟨slot, i⟩ := p
      have hi := indirectSlot_lt hs
      dsimp only
      rw [wp_bind, wp_get, wp_ite]
      constructor
      · intro _
        rw [wp_bind, wp_onDisk]
        refine wp_mono (allocateZeroedFullBlock_spec hgeo s.disk) ?_
          fun _ _ _ => trivial
        rintro c d₁ ⟨hfree, hfits, -⟩
        have htotal := freeTotal_taken hfree hfits.disk
        rw [wp_bind, wp_modify, wp_bind, wp_countFrags]
        refine wp_mono (setIndirectDataBlock_counted hgeo slot hi)
          (fun _ s' h => ?_) fun _ _ _ => trivial
        refine Counted.trans ?_ h
        show s.frags + sb.fragsPerBlock + freeTotal sb d₁ = _
        omega
      · intro _
        exact setIndirectDataBlock_counted hgeo slot hi

/-- **One round counts its data and its tree blocks.** -/
theorem storeBlock_counted (hgeo : DataGeometry sb) {data : List UInt8}
    {lb : Nat} (s : Storing) :
    wp (storeBlock sb preferredCg data lb) (fun _ s' => Counted sb s s')
      (fun _ _ => True) s := by
  unfold storeBlock
  rw [wp_bind, wp_onDisk]
  refine wp_mono (allocateFragsAnycg_spec hgeo preferredCg s.disk _) ?_
    fun _ _ _ => trivial
  intro a d₁ htaken
  have htotal := freeTotal_taken htaken.free htaken.fits.disk
  rw [wp_bind]
  refine wp_orCleanup (wp_mono (setInodeDataBlock_counted hgeo _)
    (fun _ t ht => ?_) fun _ _ _ => trivial) fun _ t _ => wp_trivial _ t
  rw [wp_bind, wp_countFrags, wp_bind, wp_modify, wp_onDisk]
  have ht : t.frags + freeTotal sb t.disk = s.frags + freeTotal sb d₁ := ht
  show t.frags + fragsNeeded sb data.length lb + freeTotal sb t.disk = _
  omega

end Counted

/-! ## §3. A run of the writer. -/

section Run

variable {sb : Superblock} {preferredCg : Nat} {data : List UInt8}
  {ino : Inode} {d : Disk} {s : Storing}

/-- What a run has counted, and what it stores of it. -/
theorem storeData_counted (hgeo : DataGeometry sb)
    (hrun : storeData sb preferredCg data ino d = .ok () s) :
    s.frags + freeTotal sb s.disk = freeTotal sb d ∧
      s.ino.blocks = UInt32.ofNat (s.frags * sb.sectorsPerFrag) := by
  have hbody : wp (do
      (List.range (fileBlocks sb data.length)).forM
        (storeBlock sb preferredCg data)
      modify fun s =>
        { s with
          ino :=
            { s.ino with
              size := data.length
              blocks := UInt32.ofNat (s.frags * sb.sectorsPerFrag) } })
      (fun _ s' => Counted sb ⟨d, ino, 0⟩ s' ∧
        s'.ino.blocks = UInt32.ofNat (s'.frags * sb.sectorsPerFrag))
      (fun _ _ => True) ⟨d, ino, 0⟩ := by
    rw [wp_bind]
    refine wp_mono (wp_forM_range (I := fun _ => Counted sb ⟨d, ino, 0⟩)
      (fun _ _ t ht => ?_) rfl) (fun _ t ht => ?_) fun _ _ he => he
    · exact wp_mono (storeBlock_counted hgeo t) (fun _ _ h => ht.trans h)
        fun _ _ he => he
    · rw [wp_modify]
      exact ⟨ht, rfl⟩
  unfold storeData allocateDataForInode orCleanup at hrun
  dsimp only at hrun
  split at hrun
  · rename_i hok
    cases hrun
    obtain ⟨hcounted, hblocks⟩ := wp_ok hbody hok
    have hcounted : s.frags + freeTotal sb s.disk = 0 + freeTotal sb d :=
      hcounted
    exact ⟨by omega, hblocks⟩
  · split at hrun <;> cases hrun

/-- **The block count of a stored file** is the number of fragments it claims,
in sectors. -/
theorem storeData_blocks (hgeo : DataGeometry sb)
    (hzero : freeAt sb d 0 = 0) (hnew : NoPointers ino)
    (hrun : storeData sb preferredCg data ino d = .ok () s) :
    s.ino.blocks = UInt32.ofNat
      ((∑ f ∈ Finset.range sb.fragCount, blockClaims sb s.disk s.ino f)
        * sb.sectorsPerFrag) := by
  obtain ⟨hstored, hsize⟩ := storeData_stored hgeo hzero hnew hrun
  obtain ⟨hcounted, hblocks⟩ := storeData_counted hgeo hrun
  have hclaims : ∀ f, freeAt sb s.disk f + blockClaims sb s.disk s.ino f
      = freeAt sb d f := by
    intro f
    have hsum := hstored.conserved f
    unfold blockClaims
    rw [hsize]
    omega
  have htotal : freeTotal sb s.disk
      + ∑ f ∈ Finset.range sb.fragCount, blockClaims sb s.disk s.ino f
      = freeTotal sb d := by
    unfold freeTotal
    rw [← Finset.sum_add_distrib]
    exact Finset.sum_congr rfl fun f _ => hclaims f
  rw [hblocks]
  congr 2
  omega

/-- And they are all on the disk. -/
theorem storeData_claims_lt (hgeo : DataGeometry sb)
    (hzero : freeAt sb d 0 = 0) (hnew : NoPointers ino)
    (hrun : storeData sb preferredCg data ino d = .ok () s) {f : Nat}
    (hf : sb.fragCount ≤ f) : blockClaims sb s.disk s.ino f = 0 := by
  obtain ⟨hstored, hsize⟩ := storeData_stored hgeo hzero hnew hrun
  have hsum := hstored.conserved f
  have hpast : freeAt sb d f = 0 := by
    unfold freeAt
    rw [if_neg (by omega)]
  unfold blockClaims
  rw [hsize]
  omega

end Run

end NextUfs
