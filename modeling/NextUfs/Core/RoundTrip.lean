/-
  NextUfs.Core.RoundTrip
  ──────────────────────
  **WHAT IS STORED IS READ BACK.**

  The writer stores a file block by block.  After `k` rounds the inode's map
  has its first `k` blocks, each holds its piece of the data, and every
  fragment they take was free before.

    • `Stored`              — the invariant of the writer's loop,
    • `storeBlock_spec`     — one round,
    • `HoldsFile`           — an inode that holds a file, and its reader,
    • `storeData_stored`    — a whole run,
    • `storeData_readBack`  — the reader returns the bytes stored, and every
      other inode reads as it did.
-/
import NextUfs.Core.Ownership

namespace NextUfs

open Bits Radix State

/-! ## §1. The invariant. -/

/-- `k` blocks of `data` have been stored on the disk that was `d₀`, for the
inode that was `ino₀`. -/
structure Stored (sb : Superblock) (d₀ : Disk) (ino₀ : Inode)
    (data : List UInt8) (k : Nat) (s : Storing) : Prop where
  conserved : ∀ f, freeAt sb s.disk f + metaFrags sb s.disk s.ino f
    + dataFrags sb s.disk s.ino data.length k f = freeAt sb d₀ f
  frame : ∀ f, freeAt sb d₀ f = 0 → SameFrag sb d₀ s.disk f
  block : ∀ lb < k, blockAt sb s.disk s.ino lb ≠ 0
  content : ∀ lb < k, ∀ i < chunkBytes sb data.length lb,
    s.disk.data (blockAt sb s.disk s.ino lb * sb.fragSize + i)
      = data.getD (lb * sb.blockSize + i) 0
  unset : ∀ lb, k ≤ lb → blockAt sb s.disk s.ino lb = 0
  runs : ∀ lb < k, RunFits sb (blockAt sb s.disk s.ino lb)
    (fragsNeeded sb data.length lb)
  inside : InodeInside sb s.disk s.ino
  fields : s.ino = { ino₀ with
    db := s.ino.db, ib := s.ino.ib, size := s.ino.size,
    blocks := s.ino.blocks }
  books : BooksKept sb d₀ s.disk

/-- An inode that points nowhere. -/
def NoPointers (ino : Inode) : Prop :=
  (∀ i, ino.db i = 0) ∧ ∀ slot, ino.ib slot = 0

section NoPointers

variable {sb : Superblock} {ino : Inode}

theorem NoPointers.blockAt_eq (h : NoPointers ino) (d : Disk) (lb : Nat) :
    blockAt sb d ino lb = 0 := by
  unfold blockAt blockOf
  split
  · exact h.1 _
  · cases indirectSlot sb (lb - 12) with
    | none => rfl
    | some p =>
      show treeAt sb d _ (ino.ib p.1) p.2 = 0
      rw [h.2, treeAt_zero_root]

theorem NoPointers.metaFrags_eq (h : NoPointers ino) (d : Disk) (f : Nat) :
    metaFrags sb d ino f = 0 := by
  refine Finset.sum_eq_zero fun slot _ => ?_
  rw [h.2, treeFrags_zero_root]

theorem NoPointers.inside (h : NoPointers ino) (d : Disk) :
    InodeInside sb d ino := by
  intro slot x hx
  rw [h.2 slot] at hx
  exact absurd rfl hx.1

/-- Before the first round. -/
theorem NoPointers.stored (h : NoPointers ino) (d : Disk) (data : List UInt8)
    (frags : Nat) : Stored sb d ino data 0 ⟨d, ino, frags⟩ where
  conserved f := by
    rw [h.metaFrags_eq]
    rfl
  frame f _ := SameFrag.refl sb d f
  block lb hlb := absurd hlb (Nat.not_lt_zero lb)
  content lb hlb := absurd hlb (Nat.not_lt_zero lb)
  unset lb _ := h.blockAt_eq d lb
  runs lb hlb := absurd hlb (Nat.not_lt_zero lb)
  inside := h.inside d
  fields := rfl
  books := BooksKept.refl sb d

end NoPointers

/-! ## §2. One round. -/

section Round

variable {sb : Superblock} {d₀ : Disk} {ino₀ : Inode} {data : List UInt8}
  {k : Nat} {s : Storing}

/-- The bytes a round writes: its piece of the data, padded to the run. -/
def blockBytes (sb : Superblock) (data : List UInt8) (lb : Nat) :
    List UInt8 :=
  (data.drop (lb * sb.blockSize)).take (chunkBytes sb data.length lb)
    ++ List.replicate (fragsNeeded sb data.length lb * sb.fragSize
      - chunkBytes sb data.length lb) 0

theorem chunkBytes_le_data (data : List UInt8) (lb : Nat) :
    chunkBytes sb data.length lb
      ≤ (data.drop (lb * sb.blockSize)).length := by
  rw [List.length_drop]
  exact Nat.min_le_right _ _

theorem blockBytes_length (hgeo : DataGeometry sb) (data : List UInt8)
    (lb : Nat) : (blockBytes sb data lb).length
      = fragsNeeded sb data.length lb * sb.fragSize := by
  have hfit := chunkBytes_le hgeo data.length lb
  have hdata := @chunkBytes_le_data sb data lb
  unfold blockBytes
  rw [List.length_append, List.length_take, List.length_replicate,
    Nat.min_eq_left hdata]
  omega

theorem blockBytes_getD (data : List UInt8) {lb i : Nat}
    (hi : i < chunkBytes sb data.length lb) :
    (blockBytes sb data lb).getD i 0
      = data.getD (lb * sb.blockSize + i) 0 := by
  have hdata := @chunkBytes_le_data sb data lb
  unfold blockBytes
  simp only [List.getD_eq_getElem?_getD]
  rw [List.getElem?_append_left (by
    rw [List.length_take, Nat.min_eq_left hdata]
    exact hi), List.getElem?_take, if_pos hi, List.getElem?_drop]

theorem Stored.owned (h : Stored sb d₀ ino₀ data k s) :
    InodeOwned sb s.disk s.ino := by
  intro f
  have hsum := h.conserved f
  have hle := freeAt_le sb d₀ f
  omega

/-- **One round, step by step**: a run at `a` was allocated (`d₁`), the map was
told (`d₂`, `ino₂`), the bytes were written. -/
theorem Stored.round (hgeo : DataGeometry sb) {d₁ d₂ : Disk} {ino₂ : Inode}
    {a frags : Nat} (h : Stored sb d₀ ino₀ data k s)
    (htaken : RunTaken sb s.disk d₁ a (fragsNeeded sb data.length k))
    (ha : a ≠ 0)
    (hset : InodeStep sb d₁ d₂ s.ino ino₂
      (Function.update (blockAt sb d₁ s.ino) k a))
    (size : Nat) (blocks : UInt32) :
    Stored sb d₀ ino₀ data (k + 1)
      ⟨d₂.write (a * sb.fragSize) (blockBytes sb data k),
        { ino₂ with size := size, blocks := blocks }, frags⟩ := by
  have hfree := htaken.free
  have hsame₁ : ∀ f, SameFrag sb s.disk d₁ f :=
    SameFrag.of_data_eq htaken.data
  have hmap₁ : blockAt sb d₁ s.ino = blockAt sb s.disk s.ino :=
    blockAt_congr hgeo fun f _ => hsame₁ f
  have hmeta₁ : ∀ f, metaFrags sb d₁ s.ino f = metaFrags sb s.disk s.ino f :=
    metaFrags_congr hgeo fun f _ => hsame₁ f
  rw [hmap₁] at hset
  have hone := fun f => freeAt_le sb d₀ f
  -- the write changes the new run only, and no pointer block is in it
  have hout : ∀ f, covers a (fragsNeeded sb data.length k) f = 0 →
      SameFrag sb d₂ (d₂.write (a * sb.fragSize) (blockBytes sb data k)) f := by
    intro f hf
    apply @sameFrag_write sb d₂ a (fragsNeeded sb data.length k) 0 f
    · rw [blockBytes_length hgeo, Nat.zero_add]
    · by_contra hin
      rw [covers_eq_one (by omega)] at hf
      omega
  have hmetaOut : ∀ f, 0 < metaFrags sb d₂ ino₂ f →
      SameFrag sb d₂ (d₂.write (a * sb.fragSize) (blockBytes sb data k)) f := by
    intro f hpos
    refine hout f ?_
    have h0 := h.conserved f
    have h1 := hset.conserved f
    rw [hmeta₁] at h1
    have := hfree f
    have := hone f
    omega
  have hmap : blockAt sb (d₂.write (a * sb.fragSize) (blockBytes sb data k))
      { ino₂ with size := size, blocks := blocks }
      = Function.update (blockAt sb s.disk s.ino) k a :=
    (blockAt_congr hgeo hmetaOut).trans hset.values
  have hmeta : ∀ f, metaFrags sb
      (d₂.write (a * sb.fragSize) (blockBytes sb data k))
      { ino₂ with size := size, blocks := blocks } f
      = metaFrags sb d₂ ino₂ f := metaFrags_congr hgeo hmetaOut
  -- what was taken before this round stays as it was
  have hkeep : ∀ f, freeAt sb s.disk f = 0 → metaFrags sb s.disk s.ino f = 0 →
      SameFrag sb s.disk
        (d₂.write (a * sb.fragSize) (blockBytes sb data k)) f := by
    intro f hf hm
    have hsum := hfree f
    refine ((hsame₁ f).trans (hset.frame f (by omega) ?_)).trans
      (hout f (by omega))
    rw [hmeta₁]
    exact hm
  have hk : ∀ lb < k, Function.update (blockAt sb s.disk s.ino) k a lb
      = blockAt sb s.disk s.ino lb :=
    fun lb hlb => Function.update_of_ne (Nat.ne_of_lt hlb) _ _
  refine ⟨fun f => ?_, fun f hf => ?_, fun lb hlb => ?_, fun lb hlb i hi => ?_,
    fun lb hlb => ?_, fun lb hlb => ?_, fun slot => ?_, ?_, ?_⟩
  · have hdataFrags : dataFrags sb
        (d₂.write (a * sb.fragSize) (blockBytes sb data k))
        { ino₂ with size := size, blocks := blocks } data.length (k + 1) f
        = dataFrags sb s.disk s.ino data.length k f
          + covers a (fragsNeeded sb data.length k) f := by
      unfold dataFrags
      rw [Finset.sum_range_succ, hmap, Function.update_self, if_neg ha]
      congr 1
      refine Finset.sum_congr rfl fun lb hlb => ?_
      rw [hk lb (Finset.mem_range.mp hlb)]
    have h0 := h.conserved f
    have h1 := hset.conserved f
    rw [hmeta₁] at h1
    have h2 := hfree f
    show freeAt sb d₂ f + _ + _ = _
    rw [hdataFrags, hmeta]
    omega
  · have h0 := h.conserved f
    exact (h.frame f hf).trans (hkeep f (by omega) (by omega))
  · show blockAt sb _ _ lb ≠ 0
    rw [hmap]
    rcases Nat.lt_or_eq_of_le (Nat.le_of_lt_succ hlb) with hlt | rfl
    · rw [hk lb hlt]
      exact h.block lb hlt
    · rwa [Function.update_self]
  · show (d₂.write _ _).data (blockAt sb _ _ lb * _ + i) = _
    rw [hmap]
    rcases Nat.lt_or_eq_of_le (Nat.le_of_lt_succ hlb) with hlt | rfl
    · -- an earlier block: its fragments are claimed, so they are kept
      rw [hk lb hlt, ← h.content lb hlt i hi]
      refine data_congr (n := fragsNeeded sb data.length lb)
        (fun f h1 h2 => ?_) (Nat.lt_of_lt_of_le hi (chunkBytes_le hgeo _ _))
      have hcov := @covers_le_dataFrags sb s.disk s.ino data.length _ _
        hlt (h.block lb hlt) f
      rw [covers_eq_one ⟨h1, h2⟩] at hcov
      have h0 := h.conserved f
      have := hone f
      exact hkeep f (by omega) (by omega)
    · rw [Function.update_self, write_data_of_mem, Nat.add_sub_cancel_left]
      · exact blockBytes_getD data hi
      · have hfit := chunkBytes_le hgeo data.length lb
        rw [blockBytes_length hgeo]
        omega
  · show blockAt sb _ _ lb = 0
    rw [hmap, Function.update_of_ne (by omega)]
    exact h.unset lb (by omega)
  · show RunFits sb (blockAt sb _ _ lb) _
    rw [hmap]
    rcases Nat.lt_or_eq_of_le (Nat.le_of_lt_succ hlb) with hlt | rfl
    · rw [hk lb hlt]
      exact h.runs lb hlt
    · rw [Function.update_self]
      exact htaken.fits
  · -- the trees were those of the inode before the run was taken
    refine (hset.inside (fun slot => ?_) slot).congr
      (sameTree_of_frags hgeo fun f hpos => hmetaOut f ?_)
    · exact (h.inside slot).congr
        (sameTree_of_frags hgeo fun f _ => hsame₁ f)
    · exact Nat.lt_of_lt_of_le hpos
        (treeFrags_le_metaFrags sb d₂ ino₂ slot f)
  · show { ino₂ with size := size, blocks := blocks } = _
    rw [hset.pointers, h.fields]
  · exact ((h.books.trans htaken.books).trans hset.books).trans
      (BooksKept.write ..)

/-- Once a run is taken, the map can be told. -/
theorem Stored.afterTaken (hgeo : DataGeometry sb) {d₁ : Disk} {a n : Nat}
    (hzero : freeAt sb d₀ 0 = 0) (h : Stored sb d₀ ino₀ data k s)
    (htaken : RunTaken sb s.disk d₁ a n) :
    a ≠ 0 ∧ a < 2 ^ 32 ∧ InodeOwned sb d₁ s.ino ∧ freeAt sb d₁ 0 = 0 := by
  have hsum := h.conserved 0
  have hfree := htaken.free 0
  have hpos := htaken.fits.pos
  have hdisk := htaken.fits.disk
  have hcount := hgeo.fragCount_lt
  refine ⟨?_, by omega, fun f => ?_, by omega⟩
  · rintro rfl
    rw [covers_eq_one ⟨le_rfl, by omega⟩] at hfree
    omega
  · rw [metaFrags_congr hgeo fun f _ => SameFrag.of_data_eq htaken.data f]
    have hsum := htaken.free f
    have hone := h.owned f
    omega

/-- **One round.** -/
theorem storeBlock_spec (hgeo : DataGeometry sb) {preferredCg : Nat}
    (hzero : freeAt sb d₀ 0 = 0) (h : Stored sb d₀ ino₀ data k s) :
    wp (storeBlock sb preferredCg data k)
      (fun _ s' => Stored sb d₀ ino₀ data (k + 1) s') (fun _ _ => True) s := by
  unfold storeBlock
  rw [wp_bind, wp_onDisk]
  refine wp_mono (allocateFragsAnycg_spec hgeo preferredCg s.disk _)
    (fun a d₁ htaken => ?_) fun _ _ _ => trivial
  obtain ⟨ha, ha32, hown, hzero₁⟩ := h.afterTaken hgeo hzero htaken
  have hset := @setInodeDataBlock_spec sb hgeo preferredCg k a
    { s with disk := d₁ } ha32 hown hzero₁
  rw [wp_bind]
  refine wp_orCleanup (wp_mono hset (fun _ t ht => ?_) fun _ _ he => he)
    fun _ t _ => wp_trivial _ t
  exact h.round hgeo htaken ha ht _ _

end Round

/-! ## §3. A file on the disk. -/

/-- The inode holds the file `data`: it has all its blocks, and each has its
piece. -/
structure HoldsFile (sb : Superblock) (d : Disk) (ino : Inode)
    (data : List UInt8) : Prop where
  size : ino.size = data.length
  block : ∀ lb < fileBlocks sb data.length, blockAt sb d ino lb ≠ 0
  content : ∀ lb < fileBlocks sb data.length,
    ∀ i < chunkBytes sb data.length lb,
      d.data (blockAt sb d ino lb * sb.fragSize + i)
        = data.getD (lb * sb.blockSize + i) 0

section Run

variable {sb : Superblock} {d d' : Disk} {ino ino' : Inode}
  {data : List UInt8} {s : Storing}

/-- The map of an inode is made of its pointers and the data area. -/
theorem blockAt_eq (hdata : d'.data = d.data) (hdb : ino'.db = ino.db)
    (hib : ino'.ib = ino.ib) : blockAt sb d' ino' = blockAt sb d ino := by
  have hentry : entry sb d' = entry sb d := by
    funext b i
    unfold entry Disk.read
    rw [hdata]
  unfold blockAt slotTrees treeAt
  rw [hentry, hdb, hib]

/-- Only the pointers, the size and the data area make a file. -/
theorem HoldsFile.of_eq (h : HoldsFile sb d ino data)
    (hdata : d'.data = d.data) (hdb : ino'.db = ino.db)
    (hib : ino'.ib = ino.ib) (hsize : ino'.size = ino.size) :
    HoldsFile sb d' ino' data := by
  have hmap : blockAt sb d' ino' = blockAt sb d ino :=
    blockAt_eq hdata hdb hib
  refine ⟨hsize.trans h.size, fun lb hlb => ?_, fun lb hlb i hi => ?_⟩
  · rw [hmap]
    exact h.block lb hlb
  · rw [hmap, hdata]
    exact h.content lb hlb i hi

/-- The bytes of a file. -/
theorem HoldsFile.fileByte_eq (hgeo : DataGeometry sb)
    (h : HoldsFile sb d ino data) {p : Nat} (hp : p < data.length) :
    fileByte sb d ino p = data.getD p 0 := by
  have hlb := div_lt_fileBlocks hgeo.blockSize_pos hp
  have hsplit := Nat.div_add_mod' p sb.blockSize
  have hmod := Nat.mod_lt p hgeo.blockSize_pos
  unfold fileByte
  rw [if_neg (h.block _ hlb), h.content _ hlb _ (by
    unfold chunkBytes
    omega), hsplit]

/-- **A stored file reads back**, from any offset and for any length. -/
theorem HoldsFile.inodeReadData_eq (hgeo : DataGeometry sb)
    (h : HoldsFile sb d ino data) (start n : Nat) :
    inodeReadData sb ino start n d = .ok ((data.drop start).take n) d := by
  have hlen : ∀ p, start ≤ p → p < start + readLength ino start n →
      p < data.length := by
    intro p hp hlt
    have hsize := h.size
    unfold readLength at hlt
    omega
  rw [inodeReadData_ok hgeo.blockSize_pos d fun p hp hlt =>
    reachable_of_blockAt (h.block _
      (div_lt_fileBlocks hgeo.blockSize_pos (hlen p hp hlt)))]
  congr 1
  refine List.ext_getElem ?_ fun i h1 h2 => ?_
  · rw [fileBytes_length, List.length_take, List.length_drop, readLength,
      h.size]
    omega
  · have hi : i < readLength ino start n := by
      rwa [fileBytes_length] at h1
    have hp := hlen (start + i) (Nat.le_add_right _ _) (by omega)
    simp only [fileBytes, List.getElem_map, List.getElem_range,
      List.getElem_take, List.getElem_drop]
    rw [h.fileByte_eq hgeo hp]
    simp [List.getD_eq_getElem?_getD, hp]

/-! ## §4. A run of the writer. -/

/-- **A run that succeeds has stored every block.** -/
theorem storeData_stored (hgeo : DataGeometry sb) {preferredCg : Nat}
    (hzero : freeAt sb d 0 = 0) (hnew : NoPointers ino)
    (hrun : storeData sb preferredCg data ino d = .ok () s) :
    Stored sb d ino data (fileBlocks sb data.length) s ∧
      s.ino.size = data.length := by
  have hbody : wp (do
      (List.range (fileBlocks sb data.length)).forM
        (storeBlock sb preferredCg data)
      modify fun s =>
        { s with
          ino :=
            { s.ino with
              size := data.length
              blocks := UInt32.ofNat (s.frags * sb.sectorsPerFrag) } })
      (fun _ s' => Stored sb d ino data (fileBlocks sb data.length) s' ∧
        s'.ino.size = data.length) (fun _ _ => True) ⟨d, ino, 0⟩ := by
    rw [wp_bind]
    refine wp_mono (wp_forM_range (I := Stored sb d ino data)
      (fun k _ t ht => storeBlock_spec hgeo hzero ht)
      (hnew.stored d data 0)) (fun _ t ht => ?_) fun _ _ he => he
    rw [wp_modify]
    refine ⟨⟨ht.conserved, ht.frame, ht.block, ht.content, ht.unset, ht.runs,
      ht.inside, ?_, ht.books⟩, rfl⟩
    show ({ t.ino with
      size := data.length
      blocks := UInt32.ofNat (t.frags * sb.sectorsPerFrag) } : Inode) = _
    rw [ht.fields]
  unfold storeData allocateDataForInode orCleanup at hrun
  dsimp only at hrun
  split at hrun
  · rename_i hok
    cases hrun
    have hstored := wp_ok hbody hok
    exact hstored
  · split at hrun <;> cases hrun

/-- Then the inode holds the file. -/
theorem Stored.holdsFile {ino₀ : Inode}
    (h : Stored sb d ino₀ data (fileBlocks sb data.length) s)
    (hsize : s.ino.size = data.length) : HoldsFile sb s.disk s.ino data :=
  ⟨hsize, h.block, h.content⟩

/-- **Storage round trip.**  Data stored in a new inode of a consistent disk
reads back from any offset and into a buffer of any size; no other inode has
changed, and every other inode's data reads as it did. -/
theorem storeData_readBack {live : Finset Nat} {preferredCg : Nat}
    (hgeo : DataGeometry sb) (hown : FragsOwned sb live d)
    (hnew : NoPointers ino)
    (hrun : storeData sb preferredCg data ino d = .ok () s) :
    (∀ start n, inodeReadData sb s.ino start n s.disk
      = .ok ((data.drop start).take n) s.disk) ∧
    s.disk.inodes = d.inodes ∧
    ∀ m ∈ live, storesBlocks (d.inodes m) = true → ∀ start n,
      outcome (inodeReadData sb (s.disk.inodes m) start n) s.disk
        = outcome (inodeReadData sb (d.inodes m) start n) d := by
  obtain ⟨hstored, hsize⟩ := storeData_stored hgeo (hown.zero hgeo) hnew hrun
  refine ⟨(hstored.holdsFile hsize).inodeReadData_eq hgeo, hstored.books.inodes, ?_⟩
  intro m hm hblocks start n
  rw [hstored.books.inodes]
  exact hown.unseen hgeo hstored.frame hm hblocks start n

end Run

/-! ## §5. A disk of thirty-two fragments. -/

/-- Geometry of a disk of one group, whose blocks are single fragments. -/
def smallSb : Superblock where
  sbOff := 0
  cgOff := 0
  inoOff := 0
  dataOff := 1
  cgDelta := 0
  cgCycMask := 0
  fragCount := 32
  cgCount := 1
  blockSize := 4
  fragSize := 4
  fragsPerBlock := 1
  sectorsPerFrag := 1
  cylSummaryAddr := 1
  csumSize := 0
  cgSize := 8192
  sectorsPerTrack := 32
  sectorsPerCyl := 32
  ncyl := 1
  cpg := 1
  inodesPerGroup := 4
  inodesPerBlock := 64
  fragsPerGroup := 32

/-- An inode that has been cleared. -/
def zeroInode : Inode where
  mode := 0
  nlink := 0
  uid := 0
  gid := 0
  size := 0
  atime := 0
  mtime := 0
  ctime := 0
  db := fun _ => 0
  ib := fun _ => 0
  flags := 0
  blocks := 0
  gen := 0

/-- Its disk: fragment 0 is metadata, fragment 1 the file of inode 2, the
others are free. -/
def smallDisk : Disk where
  cstotal := ⟨0, 30, 1, 0⟩
  sbTime := 0
  csum := fun _ => ⟨0, 30, 1, 0⟩
  cgs := fun _ =>
    { link := 0, rlink := 0, time := 0, cgx := 0, ncyl := 1, niblk := 4
      ndblk := 32, cs := ⟨0, 30, 1, 0⟩, rotor := 0, frotor := 0, irotor := 0
      frsum := fun _ => 0
      btot := fun cyl => if cyl = 0 then 30 else 0
      b := fun _ _ => 0
      iused := fun i => decide (i < 3)
      magic := CG_MAGIC
      free := fun i => decide (2 ≤ i ∧ i < 32) }
  inodes := fun m =>
    if m = 2 then
      { zeroInode with
        mode := IFREG, nlink := 1, size := 4, blocks := 1
        db := fun i => if i = 0 then 1 else 0 }
    else zeroInode
  data := fun i => UInt8.ofNat i
  clock := 0

theorem small_geometry : DataGeometry smallSb := by
  constructor
  · constructor <;> decide
  all_goals decide

theorem small_owned : FragsOwned smallSb {2} smallDisk := by
  constructor
  intro f
  by_cases hf : f < 32
  · have hall : ∀ f < 32, freeAt smallSb smallDisk f + reservedAt smallSb f
        + ∑ m ∈ {2}, inodeClaims smallSb smallDisk (smallDisk.inodes m) f
        = if f < smallSb.fragCount then 1 else 0 := by
      decide +kernel
    exact hall f hf
  · -- past the end of the disk nothing is free, reserved or claimed
    have hfree : freeAt smallSb smallDisk f = 0 := if_neg hf
    have hreserved : reservedAt smallSb f = 0 := by
      refine if_neg fun h => ?_
      obtain ⟨c, hc, -, hend⟩ := h
      obtain rfl : c = 0 := Nat.lt_one_iff.mp hc
      have : f < 1 := hend
      omega
    have hclaims : inodeClaims smallSb smallDisk (smallDisk.inodes 2) f = 0 :=
      inodeClaims_past (n := 32) (fun _ => rfl) (by decide) (by omega)
    rw [hfree, hreserved, Finset.sum_singleton, hclaims]
    exact (if_neg hf).symm

/-- Fifty bytes take twelve direct blocks and one behind a pointer block; the
file of inode 2 stays as it was. -/
theorem storeData_readBack_small :
    ∃ s, storeData smallSb 0 (List.replicate 50 7) { zeroInode with
        mode := IFREG } smallDisk = .ok () s ∧
      (∀ start n, inodeReadData smallSb s.ino start n s.disk
        = .ok (((List.replicate 50 7).drop start).take n) s.disk) ∧
      outcome (inodeReadData smallSb (s.disk.inodes 2) 0 4) s.disk
        = .ok [4, 5, 6, 7] := by
  have hok : (match storeData smallSb 0 (List.replicate 50 7) { zeroInode with
      mode := IFREG } smallDisk with
    | .ok _ _ => true
    | .error _ _ => false) = true := by
    decide +kernel
  cases hrun : storeData smallSb 0 (List.replicate 50 7) { zeroInode with
      mode := IFREG } smallDisk with
  | error e s =>
    rw [hrun] at hok
    cases hok
  | ok _ s =>
    obtain ⟨hread, -, hother⟩ := storeData_readBack small_geometry small_owned
      ⟨fun _ => rfl, fun _ => rfl⟩ hrun
    exact ⟨s, rfl, hread, hother 2 (by decide) (by decide) 0 4⟩

end NextUfs
