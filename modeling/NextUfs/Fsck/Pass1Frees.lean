/-
  NextUfs.Fsck.Pass1Frees
  ───────────────────────
  **THE CHECKER AND THE LIBRARY AGREE ON WHAT A FILE OWNS.**

  What `ckinode` visits is what `freeFileStorage` gives back, and its number
  is the block count the writer stored.  The pointers have to be sound for
  that: on a bad one the checker goes on, and the library gives up.

    • `ckinode_frees`        — the agreement,
    • `ckinode_frees_page`   — on a file with a hole and a tail,
    • `ckinode_visits_twice` — on a block with two pointers they differ.
-/
import NextUfs.Fsck.Pass1Inode
import NextUfs.Core.StoredBlocks

namespace NextUfs.Fsck

open State Radix

/-! ## §1. The number of visits. -/

/-- The length of a list of numbers below `m`. -/
theorem length_eq_sum_count {l : List Nat} {m : Nat}
    (h : ∀ f, m ≤ f → l.count f = 0) :
    l.length = ∑ f ∈ Finset.range m, l.count f := by
  rw [← List.sum_toFinset_count_eq_length]
  apply Finset.sum_subset
  · intro f hf
    rw [Finset.mem_range]
    by_contra hle
    have hpos := List.count_pos_iff.mpr (List.mem_toFinset.mp hf)
    have hzero := h f (by omega)
    omega
  · intro f _ hf
    exact List.count_eq_zero.mpr fun hmem => hf (List.mem_toFinset.mpr hmem)

/-- No file that an `int` can size is past the map. -/
theorem fileBlocks_le_mapSpan {sb : Superblock} (hgeo : FsckGeometry sb)
    {size : Nat} (hsize : size < 2 ^ 31) :
    fileBlocks sb size ≤ mapSpan sb := by
  have hge := hgeo.blockSize_ge
  have hentries : 1024 ≤ entriesPerBlock sb := by
    unfold entriesPerBlock
    omega
  have hsquare : 1024 * 1024 ≤ entriesPerBlock sb * entriesPerBlock sb :=
    Nat.mul_le_mul hentries hentries
  have hspan : 1024 * 1024 ≤ mapSpan sb := by
    unfold mapSpan
    omega
  rw [fileBlocks_le_iff hgeo.toDataGeometry.blockSize_pos]
  calc size ≤ 1024 * 1024 * 4096 := by omega
    _ ≤ mapSpan sb * sb.blockSize := Nat.mul_le_mul hspan hge

/-! ## §2. The agreement. -/

/-- **The checker visits what the library frees**, and nothing is reported.
The number of visits is the block count of the writer that stored the file. -/
theorem ckinode_frees {sb : Superblock} {op : Operator} {inumber : Nat}
    {d : Disk} {ino : Inode} (hgeo : FsckGeometry sb)
    (hblocks : storesBlocks ino = true) (hsize : ino.size < 2 ^ 31)
    (hends : EndsAtSize sb d ino) (hsound : ClaimsSound sb d ino)
    (hread : GroupsReadable sb d) {s : Pass1} (hdisk : s.disk = d)
    (hmap : ∀ f, 0 < blockClaims sb d ino f → s.blockmap f = false) :
    ∃ s', ckinode sb op inumber ino s = .ok .keepon s' ∧
      s'.reports = s.reports ∧ s'.disk = d ∧
      (∀ f, s'.visited.count f = blockClaims sb d ino f) ∧
      (∀ frags, ∃ t, freeFileStorage sb ⟨d, ino, frags⟩ = .ok () t ∧
        ∀ f, freeAt sb t.disk f = freeAt sb d f + s'.visited.count f) ∧
      ∀ preferredCg data ino₀ d₀ s₀, NoPointers ino₀ → freeAt sb d₀ 0 = 0 →
        storeData sb preferredCg data ino₀ d₀ = .ok () s₀ →
        (∀ f, blockClaims sb s₀.disk s₀.ino f = blockClaims sb d ino f) →
        sectorCount sb s' = s₀.ino.blocks := by
  obtain ⟨s', hrun, hvisited⟩ := ckinode_spec
    hgeo hblocks hsize hends hsound hdisk hmap
  have hcount : ∀ f, s'.visited.count f = blockClaims sb d ino f := by
    intro f
    rw [hvisited.count]
    exact Nat.zero_add _
  refine ⟨s', hrun, hvisited.reports, hvisited.disk.trans hdisk, hcount, ?_, ?_⟩
  · intro frags
    have hfast : isFastLink ino = false := by
      unfold storesBlocks at hblocks
      rw [Bool.and_eq_true, Bool.not_eq_true'] at hblocks
      exact hblocks.1
    have hspec := @freeFileStorage_spec sb d hgeo.toSpaceGeometry hread ino
      frags hfast hsound.toFreeable
    have hspan := fileBlocks_le_mapSpan hgeo hsize
    cases hfree : freeFileStorage sb ⟨d, ino, frags⟩ with
    | error e t =>
      have hpast := (wp_error hspec hfree).1
      omega
    | ok _ t =>
      obtain ⟨-, -, hgiven⟩ := wp_ok hspec hfree
      refine ⟨t, rfl, fun f => ?_⟩
      rw [hgiven.free, hcount]
  · intro preferredCg data ino₀ d₀ s₀ hnew hzero hstore hclaims
    have hlength := length_eq_sum_count (l := s'.visited) (m := sb.fragCount)
      fun f hf => by
        rw [hcount, ← hclaims]
        exact storeData_claims_lt hgeo.toDataGeometry hzero hnew hstore hf
    rw [storeData_blocks hgeo.toDataGeometry hzero hnew hstore]
    unfold sectorCount Pass1.idEntryno
    rw [hlength]
    congr 2
    apply Finset.sum_congr rfl
    intro f _
    rw [hcount, hclaims]

/-! ## §3. Two files on a disk of thirty-two fragments. -/

/-- Geometry of a disk of one group with blocks of 4096 bytes. -/
def pageSb : Superblock where
  sbOff := 1
  cgOff := 2
  inoOff := 3
  dataOff := 4
  cgDelta := 0
  cgCycMask := 0
  fragCount := 32
  cgCount := 1
  blockSize := 4096
  fragSize := 1024
  fragsPerBlock := 4
  sectorsPerFrag := 1
  cylSummaryAddr := 4
  csumSize := 0
  cgSize := 4096
  sectorsPerTrack := 32
  sectorsPerCyl := 32
  ncyl := 1
  cpg := 1
  inodesPerGroup := 4
  inodesPerBlock := 32
  fragsPerGroup := 32

/-- Its disk, with nothing free. -/
def pageDisk : Disk :=
  { smallDisk with
    cgs := fun c => { smallDisk.cgs c with free := fun _ => false }
    data := fun _ => 0 }

/-- A block, a hole, and a hundred bytes. -/
def pageInode : Inode :=
  { zeroInode with
    mode := IFREG, size := 8292
    db := fun i => if i = 0 then 8 else if i = 2 then 12 else 0 }

/-- Two pointers to one block. -/
def doubleInode : Inode :=
  { zeroInode with
    mode := IFREG, size := 8192
    db := fun i => if i = 0 then 8 else if i = 1 then 8 else 0 }

/-- Phase 1 before the first inode. -/
def pageState : Pass1 where
  disk := pageDisk
  blockmap := fun _ => false
  statemap := fun _ => .fstate
  multi := []
  more := []
  badblk := 0
  dupblk := 0
  nBlks := 0
  idFix := .dontknow
  visited := []
  reports := []

theorem page_geometry : FsckGeometry pageSb := by
  constructor
  · constructor
    · constructor
      · constructor <;> decide
      all_goals decide
    all_goals decide
  all_goals decide

/-- Pointers in the inode alone end where its direct blocks do. -/
theorem endsAtSize_of_direct {sb : Superblock} {d : Disk} {ino : Inode}
    (hdirect : ∀ i : Fin 12, fileBlocks sb ino.size ≤ i → ino.db i = 0)
    (hib : ∀ slot, ino.ib slot = 0) : EndsAtSize sb d ino := by
  refine ⟨hdirect, fun slot => ⟨fun _ => hib slot, fun h => ?_⟩⟩
  exact absurd (hib slot) h

theorem page_sound : ClaimsSound pageSb pageDisk pageInode := by
  have hpast : ∀ f, 32 ≤ f → blockClaims pageSb pageDisk pageInode f = 0 := by
    intro f hf
    have h := @inodeClaims_past pageSb pageDisk pageInode 32 f (fun _ => rfl)
      (by decide) hf
    unfold inodeClaims at h
    rwa [if_pos (by decide)] at h
  refine ⟨⟨fun f => ?_, ?_, ?_⟩, fun f hpos => ?_⟩
  · rcases Nat.lt_or_ge f 32 with hlt | hge
    · have hall : ∀ f < 32, freeAt pageSb pageDisk f
          + blockClaims pageSb pageDisk pageInode f ≤ 1 := by
        decide +kernel
      exact hall f hlt
    · rw [hpast f hge]
      exact freeAt_le ..
  · intro lb hlb hblock
    have hall : ∀ lb < 3, blockAt pageSb pageDisk pageInode lb ≠ 0 →
        0 < fragsNeeded pageSb 8292 lb ∧
        blockAt pageSb pageDisk pageInode lb % 4
          + fragsNeeded pageSb 8292 lb ≤ 4 ∧
        blockAt pageSb pageDisk pageInode lb
          + fragsNeeded pageSb 8292 lb ≤ 32 := by
      decide +kernel
    obtain ⟨h1, h2, h3⟩ := hall lb hlb hblock
    exact ⟨h1, h2, h3⟩
  · intro slot x hx
    exact absurd rfl hx.1
  · have hlt : f < 32 := by
      by_contra hge
      rw [hpast f (by omega)] at hpos
      omega
    have hall : ∀ f < 32, 0 < blockClaims pageSb pageDisk pageInode f →
        reservedAt pageSb f = 0 := by
      decide +kernel
    exact hall f hlt hpos

/-- Five fragments are visited and given back: one block and the tail. -/
theorem ckinode_frees_page :
    ∃ s', ckinode pageSb ⟨false, false⟩ 3 pageInode pageState
        = .ok .keepon s' ∧
      s'.reports = [] ∧ s'.visited.count 8 = 1 ∧ s'.visited.count 12 = 1 ∧
      s'.visited.count 13 = 0 ∧
      ∃ t, freeFileStorage pageSb ⟨pageDisk, pageInode, 0⟩ = .ok () t ∧
        freeAt pageSb t.disk 8 = 1 ∧ freeAt pageSb t.disk 12 = 1 ∧
        freeAt pageSb t.disk 13 = 0 := by
  obtain ⟨s', hrun, hreports, -, hcount, hfree, -⟩ :=
    ckinode_frees (s := pageState) page_geometry (by decide) (by decide)
      (endsAtSize_of_direct (by decide) fun _ => rfl) page_sound
      (fun _ _ => rfl) rfl (fun _ _ => rfl)
  obtain ⟨t, hok, hgiven⟩ := hfree 0
  have h8 : blockClaims pageSb pageDisk pageInode 8 = 1 := by decide +kernel
  have h12 : blockClaims pageSb pageDisk pageInode 12 = 1 := by decide +kernel
  have h13 : blockClaims pageSb pageDisk pageInode 13 = 0 := by decide +kernel
  refine ⟨s', hrun, hreports, ?_, ?_, ?_, t, hok, ?_, ?_, ?_⟩
  · rw [hcount, h8]
  · rw [hcount, h12]
  · rw [hcount, h13]
  · rw [hgiven, hcount, h8]
    decide
  · rw [hgiven, hcount, h12]
    decide
  · rw [hgiven, hcount, h13]
    decide

/-- **On a block with two pointers they differ**: the checker visits it twice,
the library frees it once and gives up. -/
theorem ckinode_visits_twice :
    FsckGeometry pageSb ∧ storesBlocks doubleInode = true ∧
      doubleInode.size < 2 ^ 31 ∧ EndsAtSize pageSb pageDisk doubleInode ∧
      (∃ s', ckinode pageSb ⟨false, false⟩ 3 doubleInode pageState
          = .ok .keepon s' ∧ s'.visited.count 8 = 2) ∧
      (∃ t, freeFileStorage pageSb ⟨pageDisk, doubleInode, 0⟩
          = .error .EINVAL t ∧ freeAt pageSb pageDisk 8 = 0 ∧
        freeAt pageSb t.disk 8 = 1) := by
  refine ⟨page_geometry, by decide, by decide,
    endsAtSize_of_direct (by decide) fun _ => rfl, ?_, ?_⟩
  · have hrun : (match ckinode pageSb ⟨false, false⟩ 3 doubleInode pageState with
        | .ok ret s' => decide (ret = .keepon ∧ s'.visited.count 8 = 2)
        | .error _ _ => false) = true := by
      decide +kernel
    split at hrun
    · rename_i ret s' heq
      obtain ⟨rfl, hcount⟩ := of_decide_eq_true hrun
      exact ⟨s', heq, hcount⟩
    · cases hrun
  · have hrun : (match freeFileStorage pageSb ⟨pageDisk, doubleInode, 0⟩ with
        | .ok _ _ => false
        | .error e t => decide (e = .EINVAL ∧ freeAt pageSb t.disk 8 = 1))
          = true := by
      decide +kernel
    split at hrun
    · cases hrun
    · rename_i e t heq
      obtain ⟨rfl, hfree⟩ := of_decide_eq_true hrun
      exact ⟨t, heq, by decide, hfree⟩

end NextUfs.Fsck
