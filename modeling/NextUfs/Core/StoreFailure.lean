/-
  NextUfs.Core.StoreFailure
  ─────────────────────────
  **A WRITER THAT FAILS GIVES BACK WHAT IT TOOK.**

  The writer can fail in every round: at the run, at a pointer block of any
  level, past the end of the map.  What the rounds before took is in the
  inode, and the cleanup frees the inode's storage.

    • `storeBlock_error`    — a round that fails leaves the rounds before it,
    • `Stored.freeable`     — what they took can be given back,
    • `storeData_error`     — free space after a run that fails; the one case
      in which the cleanup fails too.
-/
import NextUfs.Core.FreeStorage
import NextUfs.Core.RoundTrip

namespace NextUfs

open Bits Radix State

/-! ## §1. A round that fails. -/

section Round

variable {sb : Superblock} {modes : Nat → UInt16} {d₀ : Disk} {ino₀ : Inode}
  {data : List UInt8} {k : Nat} {s : Storing}

/-- Only the map, the claims and the trees of an inode matter to `Stored`. -/
theorem Stored.failed (hgeo : DataGeometry sb) {d₁ d₂ d₃ : Disk}
    {ino₂ : Inode} {a frags : Nat} (h : Stored sb d₀ ino₀ data k s)
    (htaken : RunTaken sb s.disk d₁ a (fragsNeeded sb data.length k))
    (hset : InodeStep sb d₁ d₂ s.ino ino₂ (blockAt sb d₁ s.ino))
    (hgiven : Given sb d₂ d₃ (covers a (fragsNeeded sb data.length k))) :
    Stored sb d₀ ino₀ data k ⟨d₃, ino₂, frags⟩ := by
  have hsame₁ : ∀ f, SameFrag sb s.disk d₁ f :=
    SameFrag.of_data_eq htaken.data
  have hmap : blockAt sb d₃ ino₂ = blockAt sb s.disk s.ino :=
    calc blockAt sb d₃ ino₂ = blockAt sb d₂ ino₂ :=
          blockAt_eq hgiven.data rfl rfl
      _ = blockAt sb d₁ s.ino := hset.values
      _ = blockAt sb s.disk s.ino := blockAt_eq htaken.data rfl rfl
  have hmeta₁ : ∀ f, metaFrags sb d₁ s.ino f = metaFrags sb s.disk s.ino f :=
    metaFrags_congr hgeo fun f _ => hsame₁ f
  have hmeta₃ : ∀ f, metaFrags sb d₃ ino₂ f = metaFrags sb d₂ ino₂ f :=
    metaFrags_congr hgeo fun f _ => SameFrag.of_data_eq hgiven.data f
  have hone := fun f => freeAt_le sb d₀ f
  -- fragments that were taken before this round stay as they were
  have hkeep : ∀ f, freeAt sb s.disk f = 0 → metaFrags sb s.disk s.ino f = 0 →
      SameFrag sb s.disk d₃ f := by
    intro f hf hm
    have hsum := htaken.free f
    refine ((hsame₁ f).trans (hset.frame f (by omega) ?_)).trans
      (SameFrag.of_data_eq hgiven.data f)
    rw [hmeta₁]
    exact hm
  refine ⟨fun f => ?_, fun f hf => ?_, fun lb hlb => ?_, fun lb hlb i hi => ?_,
    fun lb hlb => ?_, fun lb hlb => ?_, fun slot => ?_, ?_, ?_⟩
  · show freeAt sb d₃ f + metaFrags sb d₃ ino₂ f
      + dataFrags sb d₃ ino₂ data.length k f = _
    have hdataFrags : dataFrags sb d₃ ino₂ data.length k f
        = dataFrags sb s.disk s.ino data.length k f := by
      unfold dataFrags
      rw [hmap]
    have h0 := h.conserved f
    have h1 := hset.conserved f
    have h2 := htaken.free f
    have h3 := hgiven.free f
    rw [hmeta₁] at h1
    rw [hdataFrags, hmeta₃]
    omega
  · have h0 := h.conserved f
    exact (h.frame f hf).trans (hkeep f (by omega) (by omega))
  · show blockAt sb d₃ ino₂ lb ≠ 0
    rw [hmap]
    exact h.block lb hlb
  · show d₃.data (blockAt sb d₃ ino₂ lb * _ + i) = _
    rw [hmap, ← h.content lb hlb i hi]
    refine data_congr (n := fragsNeeded sb data.length lb)
      (fun f h1 h2 => ?_) (Nat.lt_of_lt_of_le hi (chunkBytes_le hgeo _ _))
    have hcov := @covers_le_dataFrags sb s.disk s.ino data.length _ _
      hlb (h.block lb hlb) f
    rw [covers_eq_one ⟨h1, h2⟩] at hcov
    have h0 := h.conserved f
    have := hone f
    exact hkeep f (by omega) (by omega)
  · show blockAt sb d₃ ino₂ lb = 0
    rw [hmap]
    exact h.unset lb hlb
  · show RunFits sb (blockAt sb d₃ ino₂ lb) _
    rw [hmap]
    exact h.runs lb hlb
  · have hin : InodeInside sb d₁ s.ino := fun slot =>
      treeInside_eq htaken.data (h.inside slot)
    exact treeInside_eq hgiven.data (hset.inside hin slot)
  · show ino₂ = _
    rw [hset.pointers, h.fields]
  · exact ((h.books.trans htaken.books).trans hset.books).trans hgiven.books

/-- **A round**: it sets the size when it succeeds; when it fails it leaves the
rounds before it, and a direct block has failed only for want of a run. -/
theorem storeBlock_error (hgeo : SpaceGeometry sb)
    (hsp : FreeSpace sb modes d₀) {preferredCg : Nat}
    (hzero : freeAt sb d₀ 0 = 0) (h : Stored sb d₀ ino₀ data k s) :
    wp (storeBlock sb preferredCg data k)
      (fun _ s' => s'.ino.size
        = k * sb.blockSize + chunkBytes sb data.length k)
      (fun _ s' => Stored sb d₀ ino₀ data k s' ∧ s'.ino.size = s.ino.size ∧
        (k < 12 → s' = s ∧
          ¬HasRun sb s.disk (fragsNeeded sb data.length k))) s := by
  have hgeo' := hgeo.toDataGeometry
  have hsp' := h.books.space modes hsp
  unfold storeBlock
  rw [wp_bind, wp_onDisk]
  unfold wp
  cases halloc : allocateFragsAnycg sb preferredCg
      (fragsNeeded sb data.length k) s.disk with
  | error e d₁ =>
    obtain rfl := allocateFragsAnycg_error halloc
    refine ⟨h, rfl, fun _ => ⟨rfl, fun hrun => ?_⟩⟩
    obtain ⟨a, d', hok⟩ := (allocateFragsAnycg_iff hgeo hsp' preferredCg).mpr
      hrun
    rw [halloc] at hok
    cases hok
  | ok a d₁ =>
    have htaken := wp_ok (allocateFragsAnycg_spec hgeo' preferredCg s.disk _)
      halloc
    obtain ⟨ha, ha32, hown, hzero₁⟩ := h.afterTaken hgeo' hzero htaken
    have hset := @setInodeDataBlock_spec sb hgeo' preferredCg k a
      { s with disk := d₁ } ha32 hown hzero₁
    show wp _ _ _ { s with disk := d₁ }
    rw [wp_bind]
    by_cases hk : k < 12
    · -- a direct pointer is set in memory and cannot fail
      have hok : setInodeDataBlock sb preferredCg k a { s with disk := d₁ }
          = .ok () ⟨d₁, s.ino.setDb ⟨k, hk⟩ a, s.frags⟩ := by
        unfold setInodeDataBlock
        rw [dif_pos hk]
        rfl
      exact wp_of_ok (orCleanup_of_ok hok) rfl
    · refine wp_orCleanup (wp_mono hset (fun _ t _ => rfl)
        fun _ _ he => he) fun e t ht => ?_
      rw [wp_onDisk]
      have ht : InodeStep sb d₁ t.disk s.ino t.ino (blockAt sb d₁ s.ino) := ht
      obtain ⟨d₃, hrun, hgiven⟩ := freeFragmentRun_spec hgeo
        (ht.books.space _ (htaken.books.space _ hsp')).magic htaken.fits
        fun i hi => by
          have hle := ht.taken (a + i)
          rw [htaken.inUse ⟨Nat.le_add_right _ _, by omega⟩] at hle
          exact Nat.le_zero.mp hle
      refine wp_of_ok hrun ⟨h.failed hgeo' htaken ht hgiven, ?_,
        fun hlt => absurd hlt hk⟩
      show t.ino.size = s.ino.size
      rw [ht.pointers]

/-! ## §2. What the rounds took. -/

/-- The size of an inode after `k` rounds. -/
def storedSize (sb : Superblock) (ino₀ : Inode) (len k : Nat) : Nat :=
  if k = 0 then ino₀.size else min (k * sb.blockSize) len

theorem fileBlocks_le_iff (hbs : 0 < sb.blockSize) {len m : Nat} :
    fileBlocks sb len ≤ m ↔ len ≤ m * sb.blockSize := by
  unfold fileBlocks
  constructor
  · intro h
    have hmul := Nat.mul_le_mul_right sb.blockSize h
    have hsplit := Nat.div_add_mod' (len + sb.blockSize - 1) sb.blockSize
    have hmod := Nat.mod_lt (len + sb.blockSize - 1) hbs
    omega
  · intro h
    refine Nat.le_of_lt_succ ((Nat.div_lt_iff_lt_mul hbs).mpr ?_)
    rw [Nat.succ_mul]
    omega

/-- A file of `k` of the blocks has `k` blocks. -/
theorem fileBlocks_storedSize (hbs : 0 < sb.blockSize) {len : Nat}
    (hk : k ≠ 0) (hlen : k ≤ fileBlocks sb len) :
    fileBlocks sb (storedSize sb ino₀ len k) = k := by
  obtain ⟨m, rfl⟩ := Nat.exists_eq_succ_of_ne_zero hk
  unfold storedSize
  rw [if_neg hk]
  refine Nat.le_antisymm ((fileBlocks_le_iff hbs).mpr (Nat.min_le_left _ _)) ?_
  -- with one block less it would end before block `m` starts
  refine Nat.succ_le_of_lt (Nat.lt_of_not_le fun hle => ?_)
  have hle := (fileBlocks_le_iff hbs).mp hle
  have hstart := (fileBlocks_le_iff hbs).not.mp
    (Nat.not_le_of_lt (Nat.lt_of_lt_of_le (Nat.lt_succ_self m) hlen))
  rw [Nat.succ_mul] at hle
  omega

/-- Each of them needs as many fragments as in the whole file. -/
theorem fragsNeeded_storedSize {len lb : Nat} (hlb : lb < k) :
    fragsNeeded sb (storedSize sb ino₀ len k) lb = fragsNeeded sb len lb := by
  have hle := Nat.mul_le_mul_right sb.blockSize (Nat.succ_le_of_lt hlb)
  rw [Nat.succ_mul] at hle
  have hchunk : chunkBytes sb (storedSize sb ino₀ len k) lb
      = chunkBytes sb len lb := by
    unfold chunkBytes storedSize
    rw [if_neg (by omega)]
    omega
  unfold fragsNeeded
  rw [hchunk]

/-- The data the inode claims is what the rounds stored. -/
theorem Stored.dataFrags_eq (hbs : 0 < sb.blockSize)
    (h : Stored sb d₀ ino₀ data k s) (hk : k ≤ fileBlocks sb data.length)
    (hsize : s.ino.size = storedSize sb ino₀ data.length k) (f : Nat) :
    dataFrags sb s.disk s.ino s.ino.size (fileBlocks sb s.ino.size) f
      = dataFrags sb s.disk s.ino data.length k f := by
  rw [hsize]
  rcases Nat.eq_zero_or_pos k with rfl | hpos
  · refine Finset.sum_eq_zero fun lb _ => ?_
    rw [if_pos (h.unset lb (Nat.zero_le _))]
  · rw [fileBlocks_storedSize hbs (by omega) hk]
    refine Finset.sum_congr rfl fun lb hlb => ?_
    rw [fragsNeeded_storedSize (Finset.mem_range.mp hlb)]

/-- **What the rounds took can be given back.** -/
theorem Stored.freeable (hbs : 0 < sb.blockSize)
    (h : Stored sb d₀ ino₀ data k s) (hk : k ≤ fileBlocks sb data.length)
    (hsize : s.ino.size = storedSize sb ino₀ data.length k) :
    Freeable sb s.disk s.ino := by
  refine ⟨fun f => ?_, fun lb hlb hblock => ?_, h.inside⟩
  · have hsum := h.conserved f
    have hle := freeAt_le sb d₀ f
    unfold blockClaims
    rw [h.dataFrags_eq hbs hk hsize]
    omega
  · have hlt : lb < k := by
      by_contra hge
      exact hblock (h.unset lb (by omega))
    rw [hsize, fragsNeeded_storedSize hlt]
    exact h.runs lb hlt

/-- The first block's run was free. -/
theorem Stored.hasRun (h : Stored sb d₀ ino₀ data k s) (hk : 0 < k) :
    HasRun sb d₀ (fragsNeeded sb data.length 0) := by
  refine ⟨_, h.runs 0 hk, fun i hi => ?_⟩
  have hcov := @covers_le_dataFrags sb s.disk s.ino data.length _ _ hk
    (h.block 0 hk) (blockAt sb s.disk s.ino 0 + i)
  rw [covers_eq_one (by omega)] at hcov
  have hsum := h.conserved (blockAt sb s.disk s.ino 0 + i)
  have hle := freeAt_le sb d₀ (blockAt sb s.disk s.ino 0 + i)
  omega

end Round

/-! ## §3. A run that fails. -/

section Run

variable {sb : Superblock} {modes : Nat → UInt16} {d : Disk} {ino : Inode}
  {data : List UInt8} {s : Storing}

/-- The inode's size is one the map has room for, or there is a run for the
file's first block. -/
def CanUndo (sb : Superblock) (d : Disk) (ino : Inode) (len : Nat) : Prop :=
  fileBlocks sb ino.size ≤ mapSpan sb ∨ HasRun sb d (fragsNeeded sb len 0)

/-- **Free space after a run that fails** is what it was, and no fragment in
use has changed.  The inode is empty, unless its size was past the map from
the start and not even its first block was stored: then the cleanup has
failed, too. -/
theorem storeData_error (hgeo : SpaceGeometry sb) (hsp : FreeSpace sb modes d)
    {preferredCg : Nat} {e : Errno} (hzero : freeAt sb d 0 = 0)
    (hnew : NoPointers ino) (hfast : isFastLink ino = false)
    (hrun : storeData sb preferredCg data ino d = .error e s) :
    (∀ f, freeAt sb s.disk f = freeAt sb d f) ∧ BooksKept sb d s.disk ∧
      (∀ f, freeAt sb d f = 0 → SameFrag sb d s.disk f) ∧
      (CanUndo sb d ino data.length ∧ s.ino = emptied ino ∨
        ¬CanUndo sb d ino data.length ∧ s.ino = ino) := by
  have hbs := hgeo.blockSize_pos
  -- every round leaves `Stored` and its size behind, whether it fails or not
  have hloop : wp ((List.range (fileBlocks sb data.length)).forM
        (storeBlock sb preferredCg data)) (fun _ _ => True)
      (fun _ s' => ∃ k, k < fileBlocks sb data.length ∧
        Stored sb d ino data k s' ∧
        s'.ino.size = storedSize sb ino data.length k ∧
        (k = 0 → s' = ⟨d, ino, 0⟩ ∧
          ¬HasRun sb d (fragsNeeded sb data.length 0))) ⟨d, ino, 0⟩ := by
    refine wp_mono (wp_forM_range (n := fileBlocks sb data.length)
      (I := fun k s' => Stored sb d ino data k s' ∧
        s'.ino.size = storedSize sb ino data.length k ∧
        (k = 0 → s' = ⟨d, ino, 0⟩))
      (fun k hk s' hI => ?_) ⟨hnew.stored d data 0, rfl, fun _ => rfl⟩)
      (fun _ _ _ => trivial) fun _ _ he => he
    obtain ⟨hstored, hsize, hstart⟩ := hI
    refine wp_mono (wp_and (storeBlock_spec hgeo.toDataGeometry hzero hstored)
      (storeBlock_error hgeo hsp hzero hstored)) ?_ ?_
    · rintro _ s'' ⟨hnext, hsize'⟩
      refine ⟨hnext, ?_, fun h0 => absurd h0 (Nat.succ_ne_zero k)⟩
      rw [hsize']
      unfold storedSize chunkBytes
      rw [if_neg (Nat.succ_ne_zero k), Nat.succ_mul]
      have hle := (fileBlocks_le_iff hbs).not.mp (Nat.not_le_of_lt hk)
      omega
    · rintro _ s'' ⟨-, hstored', hsize', hdirect⟩
      refine ⟨k, hk, hstored', hsize'.trans hsize, ?_⟩
      rintro rfl
      obtain ⟨rfl, hnone⟩ := hdirect (by omega)
      obtain rfl := hstart rfl
      exact ⟨rfl, hnone⟩
  have hwhole : wp (allocateDataForInode sb preferredCg data)
      (fun _ _ => True)
      (fun _ s' => (∀ f, freeAt sb s'.disk f = freeAt sb d f) ∧
        BooksKept sb d s'.disk ∧
        (∀ f, freeAt sb d f = 0 → SameFrag sb d s'.disk f) ∧
        (CanUndo sb d ino data.length ∧ s'.ino = emptied ino ∨
          ¬CanUndo sb d ino data.length ∧ s'.ino = ino)) ⟨d, ino, 0⟩ := by
    unfold allocateDataForInode
    refine wp_orCleanup (E := fun _ s' => ∃ k, k < fileBlocks sb data.length ∧
        Stored sb d ino data k s' ∧
        s'.ino.size = storedSize sb ino data.length k ∧
        (k = 0 → s' = ⟨d, ino, 0⟩ ∧
          ¬HasRun sb d (fragsNeeded sb data.length 0))) ?_ ?_
    · rw [wp_bind]
      exact wp_mono hloop (fun _ _ _ => trivial) fun _ _ he => he
    · rintro _ t ⟨k, hk, hstored, hsize, hstart⟩
      have hfastT : isFastLink t.ino = false := by
        rw [hstored.fields]
        exact hfast
      have hclaims := hstored.dataFrags_eq hbs hk.le hsize
      have hcleanup := @freeFileStorage_spec sb t.disk hgeo
        (hstored.books.space modes hsp).magic t.ino t.frags hfastT
        (hstored.freeable hbs hk.le hsize)
      refine wp_mono hcleanup ?_ ?_
      · rintro _ u ⟨hspan, hino, hgiven⟩
        refine ⟨fun f => ?_, hstored.books.trans hgiven.books, fun f hf =>
          (hstored.frame f hf).trans (SameFrag.of_data_eq hgiven.data f),
          Or.inl ⟨?_, ?_⟩⟩
        · have hsum := hstored.conserved f
          rw [hgiven.free f]
          unfold blockClaims
          rw [hclaims]
          omega
        · rcases Nat.eq_zero_or_pos k with rfl | hpos
          · left
            rw [hsize] at hspan
            exact hspan
          · exact Or.inr (hstored.hasRun hpos)
        · rw [hino, hstored.fields]
          rfl
      · rintro e' u ⟨hspan, rfl, hino, hgiven⟩
        -- only a size that no round has set is past the map
        have hk0 : k = 0 := by
          by_contra hne
          rw [hsize, fileBlocks_storedSize hbs hne hk.le] at hspan
          exact hstored.block (mapSpan sb) hspan (blockAt_past le_rfl)
        subst hk0
        obtain ⟨rfl, hnone⟩ := hstart rfl
        refine ⟨fun f => ?_, hgiven.books, fun f _ =>
          SameFrag.of_data_eq hgiven.data f, Or.inr ⟨?_, hino⟩⟩
        · rw [hgiven.free f, hclaims]
          rfl
        · rintro (hfits | hrun)
          · exact absurd hfits (Nat.not_le_of_lt hspan)
          · exact hnone hrun
  have hresult := wp_error hwhole hrun
  exact hresult

end Run

end NextUfs
