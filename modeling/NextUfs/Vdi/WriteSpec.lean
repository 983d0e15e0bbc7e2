/-
  NextUfs.Vdi.WriteSpec
  ─────────────────────
  **WHAT ONE ROUND OF A WRITE DOES.**

  A VDI is well formed when its map is one-to-one into the data blocks below
  `blocks_allocated` and its areas do not overlap.  A round of the write loop
  then does one of few things:

    • `materializeBlock_cases` — nothing, an error that changes nothing, or the
      publication of a data block filled with what the guest block showed,
    • `published_sound`, `published_bytes` — a publication keeps the image well
      formed and every byte it shows,
    • `chunkWritten_sound`, `chunkWritten_bytes` — a chunk changes its bytes
      and no other.
-/
import NextUfs.Vdi.Contents

namespace NextUfs.Vdi

open Host State

/-! ## §1. Well-formed images. -/

/-- **A well-formed VDI**: field widths as the opener reads them, the map area
before the data area, blocks for the whole disk, and allocated entries that
are distinct and below `blocks_allocated`. -/
structure WellFormed (v : Backend) : Prop where
  blockSize_pos : 0 < v.blockSize
  blockSize_lt : v.blockSize < 2 ^ 32
  blockCount_lt : v.blockCount < 2 ^ 32
  map_data : v.mapOffset + v.blockCount * 4 ≤ v.dataOffset
  covers : v.diskSize ≤ v.blockCount * v.blockSize
  entries_lt : ∀ b < v.blockCount, isAllocated (v.blockMap b) →
    v.blockMap b < v.blocksAllocated
  entries_inj : ∀ b < v.blockCount, ∀ b' < v.blockCount,
    isAllocated (v.blockMap b) → v.blockMap b = v.blockMap b' → b = b'

/-- The data blocks end where file offsets do. -/
def Addressable (v : Backend) : Prop :=
  v.dataOffset + max v.blockCount v.blocksAllocated
    * (v.blockSize + v.blockExtra) ≤ OFFSET_END

/-- The header, up to its last field, ends before the map. -/
def HeaderFirst (h : Header) : Prop :=
  VDI_UUID_PARENT_OFF + 16 ≤ h.mapOffset

instance (v : Backend) : Decidable (Addressable v) := by
  unfold Addressable
  infer_instance

instance (h : Header) : Decidable (HeaderFirst h) := by
  unfold HeaderFirst
  infer_instance

instance (v : Backend) : Decidable (WellFormed v) :=
  decidable_of_iff
    ((0 < v.blockSize ∧ v.blockSize < 2 ^ 32 ∧ v.blockCount < 2 ^ 32 ∧
        v.mapOffset + v.blockCount * 4 ≤ v.dataOffset ∧
        v.diskSize ≤ v.blockCount * v.blockSize) ∧
      (∀ b < v.blockCount, isAllocated (v.blockMap b) →
        v.blockMap b < v.blocksAllocated) ∧
      ∀ b < v.blockCount, ∀ b' < v.blockCount,
        isAllocated (v.blockMap b) → v.blockMap b = v.blockMap b' → b = b')
    ⟨fun ⟨⟨hpos, hsize, hcount, harea, hcovers⟩, hlt, hinj⟩ =>
        ⟨hpos, hsize, hcount, harea, hcovers, hlt, hinj⟩,
      fun h => ⟨⟨h.blockSize_pos, h.blockSize_lt, h.blockCount_lt, h.map_data, h.covers⟩,
        h.entries_lt, h.entries_inj⟩⟩

/-- What the write loop relies on, of the image and of its parents. -/
structure Sound (c : Chain) : Prop where
  wellFormed : WellFormed c.image
  addressable : Addressable c.image
  parents : Opened c.parents

theorem Sound.opened {c : Chain} (h : Sound c) : Opened c.images := by
  intro v hv
  rcases List.mem_cons.1 hv with rfl | hv
  · exact ⟨h.wellFormed.blockSize_pos, h.wellFormed.blockSize_lt⟩
  · exact h.parents v hv

/-! ## §2. Addresses. -/

/-- First byte of a data block in the file. -/
def Header.blockStart (h : Header) (entry : Nat) : Nat :=
  h.dataOffset + entry * (h.blockSize + h.blockExtra)

/-- The offset the code computes for it. -/
def Header.fileStart (h : Header) (entry : Nat) : Nat :=
  h.dataOffset + h.strideOff entry

section Addresses

variable {v : Backend} {e n : Nat}

theorem Addressable.blockStart_end (ha : Addressable v)
    (he : e < max v.blockCount v.blocksAllocated) :
    v.blockStart e + (v.blockSize + v.blockExtra) ≤ OFFSET_END := by
  have hend : v.dataOffset + max v.blockCount v.blocksAllocated
    * (v.blockSize + v.blockExtra) ≤ OFFSET_END := ha
  have hmul : (e + 1) * (v.blockSize + v.blockExtra)
      ≤ max v.blockCount v.blocksAllocated * (v.blockSize + v.blockExtra) :=
    Nat.mul_le_mul_right _ he
  rw [Nat.succ_mul] at hmul
  unfold Header.blockStart
  omega

theorem Addressable.fileStart_eq (ha : Addressable v)
    (he : e < max v.blockCount v.blocksAllocated) :
    v.fileStart e = v.blockStart e := by
  have hend := ha.blockStart_end he
  unfold Header.blockStart OFFSET_END at *
  unfold Header.fileStart Header.strideOff
  rw [Nat.mod_eq_of_lt (by omega)]

theorem Addressable.fileOff_eq (ha : Addressable v)
    (he : e < max v.blockCount v.blocksAllocated) {o : Nat}
    (ho : o < v.blockSize) :
    v.fileOff e o = v.blockStart e + v.blockExtra + o := by
  have hend := ha.blockStart_end he
  have hstart := ha.fileStart_eq he
  unfold Header.fileStart at hstart
  unfold Header.fileOff
  rw [hstart]
  unfold OFFSET_END at hend
  exact Nat.mod_eq_of_lt (by omega)

/-- Data blocks follow each other. -/
theorem blockStart_lt (h : e < n) :
    v.blockStart e + (v.blockSize + v.blockExtra) ≤ v.blockStart n := by
  have hmul : (e + 1) * (v.blockSize + v.blockExtra)
      ≤ n * (v.blockSize + v.blockExtra) := Nat.mul_le_mul_right _ h
  rw [Nat.succ_mul] at hmul
  unfold Header.blockStart
  omega

theorem blockStart_ge : v.dataOffset ≤ v.blockStart e := by
  unfold Header.blockStart
  omega

/-- The block of a byte of the disk. -/
theorem WellFormed.blockIndex_eq (hw : WellFormed v) {i : Nat}
    (hi : i < v.diskSize) :
    v.blockIndex i = i / v.blockSize ∧ i / v.blockSize < v.blockCount := by
  have hcovers := hw.covers
  have hcount := hw.blockCount_lt
  have hlt : i / v.blockSize < v.blockCount := by
    apply (Nat.div_lt_iff_lt_mul hw.blockSize_pos).2
    omega
  refine ⟨?_, hlt⟩
  unfold Header.blockIndex
  exact Nat.mod_eq_of_lt (by omega)

/-- The byte a well-formed image shows inside its disk. -/
theorem WellFormed.byteAt_eq (hw : WellFormed v) {i : Nat}
    (hi : i < v.diskSize) (parents : List Backend) :
    byteAt (v :: parents) i =
      v.entryByte v.file.contents (under parents i)
        (v.blockMap (i / v.blockSize)) i := by
  obtain ⟨hindex, hlt⟩ := hw.blockIndex_eq hi
  have hin : ¬(v.diskSize ≤ i ∨ v.blockCount ≤ v.blockIndex i) := by
    rw [hindex]
    omega
  rw [byteAt_cons, if_neg hin]
  unfold blockByte
  rw [hindex]

/-- A byte that is shown lies in the disk. -/
theorem byteAt_lt {parents : List Backend} {i : Nat} {x : UInt8}
    (h : byteAt parents i = some x) : i < imageSize parents := by
  cases parents with
  | nil => cases h
  | cons w rest =>
    rw [byteAt_cons] at h
    split at h
    · cases h
    · show i < w.diskSize
      omega

end Addresses

/-! ## §3. Publishing a block. -/

section Publish

variable (v : Backend) (index : Nat) (buf : List UInt8)

/-- The file once the extra bytes of the next data block are written. -/
def extraFile : HostFile :=
  if v.blockExtra ≠ 0 then
    v.file.pwrite (v.fileStart v.blocksAllocated) (zeros v.blockExtra)
  else v.file

/-- The file once the block itself is written. -/
def blockFile : HostFile :=
  (extraFile v).pwrite (v.fileStart v.blocksAllocated + v.blockExtra) buf

/-- The file once the map entry is written. -/
def mappedFile : HostFile :=
  (blockFile v buf).pwrite (v.mapOffset + index * 4) (le32 v.blocksAllocated)

/-- The file once the count is written. -/
def countedFile : HostFile :=
  (mappedFile v index buf).pwrite VDI_BLOCKS_ALLOC_OFF
    (le32 (v.blocksAllocated + 1))

end Publish

/-- The image after a guest block has been given the next data block. -/
def Chain.published (c : Chain) (index : Nat) (buf : List UInt8) : Chain :=
  (c.mapBlock index c.image.blocksAllocated).withFile
    (countedFile c.image index buf)

@[simp] theorem le32_length (n : Nat) : (le32 n).length = 4 := rfl

@[simp] theorem zeros_length (n : Nat) : (zeros n).length = n :=
  List.length_replicate

theorem writeExactFd_eq {off : Nat} {data : List UInt8} {c : Chain}
    (h : off + data.length ≤ OFFSET_END) :
    writeExactFd off data c =
      .ok () (c.withFile (c.image.file.pwrite off data)) := by
  unfold writeExactFd
  rw [if_neg (by omega)]
  rfl

/-- `buf` is what a guest block shows before it has a data block. -/
def Fills (c : Chain) (index : Nat) (buf : List UInt8) : Prop :=
  Reads (fun i => blockByte c.image (under c.parents i) i)
    (index * c.image.blockSize) c.image.blockSize buf

/-- Where the host takes its writes, a publication runs to its end. -/
theorem publishBlock_eq {c : Chain} {index : Nat} {buf : List UInt8}
    (hw : WellFormed c.image) (hindex : index < c.image.blockCount)
    (hend : c.image.fileStart c.image.blocksAllocated
      + (c.image.blockSize + c.image.blockExtra) ≤ OFFSET_END)
    (hbuf : buf.length = c.image.blockSize) :
    publishBlock index buf c = .ok () (c.published index buf) := by
  have hmap := hw.map_data
  have hcountEnd : VDI_BLOCKS_ALLOC_OFF + 4 ≤ OFFSET_END := by decide
  have hbase : (c.image.dataOffset
      + c.image.strideOff c.image.blocksAllocated) % 2 ^ 64
      = c.image.fileStart c.image.blocksAllocated := by
    unfold OFFSET_END at hend
    exact Nat.mod_eq_of_lt
      (show c.image.fileStart c.image.blocksAllocated < 2 ^ 64 by omega)
  have hblock : (c.image.fileStart c.image.blocksAllocated
      + c.image.blockExtra) % 2 ^ 64
      = c.image.fileStart c.image.blocksAllocated + c.image.blockExtra := by
    unfold OFFSET_END at hend
    exact Nat.mod_eq_of_lt (by omega)
  have hmapEnd : c.image.mapOffset + index * 4 + 4 ≤ OFFSET_END := by
    have hdata : c.image.dataOffset
        ≤ c.image.fileStart c.image.blocksAllocated := Nat.le_add_right _ _
    omega
  -- the extra bytes
  have hextra : writeExtra (c.image.fileStart c.image.blocksAllocated)
      c.image.blockExtra c = .ok () (c.withFile (extraFile c.image)) := by
    unfold writeExtra extraFile
    by_cases he : c.image.blockExtra ≠ 0
    · rw [if_pos he, if_pos he]
      apply writeExactFd_eq
      rw [zeros_length]
      omega
    · rw [if_neg he, if_neg he]
      rfl
  unfold publishBlock
  rw [bind_get]
  simp only [hbase, hblock]
  rw [bind_of_ok hextra]
  rw [bind_of_ok (writeExactFd_eq (by rw [hbuf]; omega))]
  rw [bind_of_ok (show writeLe32 _ _ _ = _ from writeExactFd_eq hmapEnd)]
  rw [bind_modify]
  exact writeExactFd_eq hcountEnd

/-- The buffer is what the guest block shows. -/
theorem fillBlock_cases {c : Chain} {index : Nat} (hs : Sound c)
    (hindex : index < c.image.blockCount)
    (hfree : ¬isAllocated (c.image.blockMap index)) :
    (∃ e, fillBlock index c = .error e c) ∨
      ∃ buf, Fills c index buf ∧ fillBlock index c = .ok buf c := by
  have hw := hs.wellFormed
  have hcount := hw.blockCount_lt
  -- every byte of the block has this index
  have hblock : ∀ k < c.image.blockSize,
      c.image.blockIndex (index * c.image.blockSize + k) = index := by
    intro k hk
    unfold Header.blockIndex
    rw [Nat.mul_comm, Nat.mul_add_div hw.blockSize_pos, Nat.div_eq_of_lt hk]
    exact Nat.mod_eq_of_lt (by omega)
  unfold fillBlock
  rw [bind_get]
  by_cases hparent : c.image.blockMap index = VDI_MAP_UNALLOCATED
      ∧ c.image.hasParent
  · rw [if_pos hparent]
    cases hread : backendRead c.parents c.image.blockSize
        (index * c.image.blockSize) with
    | error e => exact Or.inl ⟨e, rfl⟩
    | ok bs =>
      refine Or.inr ⟨bs, ?_, rfl⟩
      have hreads := (backendRead_eq c.parents hs.parents _ _ bs
        hw.blockSize_pos).1 hread
      apply hreads.congr
      intro k hk
      obtain ⟨x, -, hx⟩ := hreads.some hk
      have hin := byteAt_lt hx
      show blockByte c.image (under c.parents _) _ = _
      unfold blockByte Header.entryByte under
      rw [hblock k hk, if_pos hparent.1, if_pos hparent.2, if_neg (by omega)]
  · rw [if_neg hparent]
    refine Or.inr ⟨zeros c.image.blockSize, ?_, rfl⟩
    apply (Reads.replicate (b := 0) ?_).2 rfl
    intro k hk
    show blockByte c.image (under c.parents _) _ = _
    unfold blockByte Header.entryByte
    rw [hblock k hk]
    by_cases hun : c.image.blockMap index = VDI_MAP_UNALLOCATED
    · have hno : ¬c.image.hasParent = true := fun h => hparent ⟨hun, h⟩
      rw [if_pos hun, if_neg hno]
    · have hz : c.image.blockMap index = VDI_MAP_ZERO := by
        by_contra hz
        exact hfree ⟨hun, hz⟩
      rw [if_neg hun, if_pos hz]

/-- **What materializing a block can do.** -/
theorem materializeBlock_cases {c : Chain} {index : Nat} (hs : Sound c)
    (hindex : index < c.image.blockCount) :
    (isAllocated (c.image.blockMap index)
        ∧ materializeBlock index c = .ok () c)
      ∨ (∃ e, materializeBlock index c = .error e c)
      ∨ ∃ buf, Fills c index buf
        ∧ ¬isAllocated (c.image.blockMap index)
        ∧ c.image.blocksAllocated < c.image.blockCount
        ∧ materializeBlock index c = .ok () (c.published index buf) := by
  unfold materializeBlock
  rw [bind_get]
  by_cases halloc : isAllocated (c.image.blockMap index)
  · rw [if_pos halloc]
    exact Or.inl ⟨halloc, rfl⟩
  rw [if_neg halloc]
  by_cases hroom : c.image.blockCount ≤ c.image.blocksAllocated
  · rw [if_pos hroom]
    exact Or.inr (Or.inl ⟨_, rfl⟩)
  rw [if_neg hroom]
  rcases fillBlock_cases hs hindex halloc with ⟨e, he⟩ | ⟨buf, hfills, hbuf⟩
  · rw [bind_of_error he]
    exact Or.inr (Or.inl ⟨e, rfl⟩)
  · rw [bind_of_ok hbuf]
    have hmax : c.image.blocksAllocated <
        max c.image.blockCount c.image.blocksAllocated := by omega
    have hend := hs.addressable.blockStart_end hmax
    rw [← hs.addressable.fileStart_eq hmax] at hend
    have hpublish := publishBlock_eq hs.wellFormed hindex hend hfills.1
    exact Or.inr (Or.inr ⟨buf, hfills, halloc, by omega, hpublish⟩)

/-! ## §4. What a publication changes. -/

section Published

variable {c : Chain} {index : Nat} {buf : List UInt8}

@[simp] theorem published_header :
    (c.published index buf).image.toHeader = c.image.toHeader := rfl

@[simp] theorem published_parents :
    (c.published index buf).parents = c.parents := rfl

@[simp] theorem published_blockMap : (c.published index buf).image.blockMap =
    Function.update c.image.blockMap index c.image.blocksAllocated := rfl

@[simp] theorem published_blocksAllocated :
    (c.published index buf).image.blocksAllocated =
      c.image.blocksAllocated + 1 := rfl

@[simp] theorem published_file : (c.published index buf).image.file =
    countedFile c.image index buf := rfl

/-- The next data block's number is an entry that names a block, unless it is
the number that stands for a discarded one. -/
theorem next_isAllocated {v : Backend} (hw : WellFormed v)
    (hroom : v.blocksAllocated < v.blockCount) :
    isAllocated v.blocksAllocated ↔ v.blocksAllocated ≠ VDI_MAP_ZERO := by
  have hcount := hw.blockCount_lt
  unfold isAllocated VDI_MAP_UNALLOCATED
  constructor
  · exact fun h => h.2
  · exact fun h => ⟨by omega, h⟩

theorem published_wellFormed (hw : WellFormed c.image) :
    WellFormed (c.published index buf).image where
  blockSize_pos := hw.blockSize_pos
  blockSize_lt := hw.blockSize_lt
  blockCount_lt := hw.blockCount_lt
  map_data := hw.map_data
  covers := hw.covers
  entries_lt := by
    intro b hb halloc
    rw [published_blockMap] at halloc ⊢
    rw [published_blocksAllocated]
    by_cases hbi : b = index
    · subst hbi
      rw [Function.update_self]
      omega
    · rw [Function.update_of_ne hbi] at halloc ⊢
      have hlt := hw.entries_lt b hb halloc
      omega
  entries_inj := by
    intro b hb b' hb' halloc heq
    rw [published_blockMap] at halloc heq
    by_cases hbi : b = index
    · subst hbi
      by_cases hbi' : b' = b
      · exact hbi'.symm
      · -- an older entry is below the new one
        rw [Function.update_self] at halloc heq
        rw [Function.update_of_ne hbi'] at heq
        have hlt := hw.entries_lt b' hb' (heq ▸ halloc)
        omega
    · rw [Function.update_of_ne hbi] at halloc heq
      by_cases hbi' : b' = index
      · subst hbi'
        rw [Function.update_self] at heq
        have hlt := hw.entries_lt b hb halloc
        omega
      · rw [Function.update_of_ne hbi'] at heq
        exact hw.entries_inj b hb b' hb' halloc heq

theorem published_sound (hs : Sound c)
    (hroom : c.image.blocksAllocated < c.image.blockCount) :
    Sound (c.published index buf) where
  wellFormed := published_wellFormed hs.wellFormed
  addressable := by
    have hend := hs.addressable
    unfold Addressable at *
    show c.image.dataOffset
      + max c.image.blockCount (c.image.blocksAllocated + 1)
        * (c.image.blockSize + c.image.blockExtra) ≤ OFFSET_END
    rw [Nat.max_eq_left (by omega)] at hend ⊢
    exact hend
  parents := hs.parents

/-- The bytes of older data blocks stay. -/
theorem countedFile_old {v : Backend} (hw : WellFormed v)
    (ha : Addressable v) (hroom : v.blocksAllocated < v.blockCount)
    (hfirst : HeaderFirst v.toHeader)
    (hindex : index < v.blockCount) {e a : Nat} {x : UInt8}
    (he : e < v.blocksAllocated) (hlow : v.blockStart e ≤ a)
    (hhigh : a < v.blockStart e + (v.blockSize + v.blockExtra))
    (hx : v.file.contents.byteAt a = some x) :
    (countedFile v index buf).contents.byteAt a = some x := by
  have hnext := blockStart_lt (v := v) he
  have hstart := blockStart_ge (v := v) (e := e)
  rw [← ha.fileStart_eq (e := v.blocksAllocated) (by omega)] at hnext
  have hmap := hw.map_data
  have hextra : (extraFile v).contents.byteAt a = some x := by
    unfold extraFile
    split
    · rw [HostFile.contents_pwrite]
      apply ByteFile.byteAt_pwrite_out hx
      rw [zeros_length]
      omega
    · exact hx
  have hblock : (blockFile v buf).contents.byteAt a = some x := by
    unfold blockFile
    rw [HostFile.contents_pwrite]
    exact ByteFile.byteAt_pwrite_out hextra (by omega)
  have hmapped : (mappedFile v index buf).contents.byteAt a = some x := by
    unfold mappedFile
    rw [HostFile.contents_pwrite]
    apply ByteFile.byteAt_pwrite_out hblock
    rw [le32_length]
    omega
  unfold countedFile
  rw [HostFile.contents_pwrite]
  apply ByteFile.byteAt_pwrite_out hmapped
  rw [le32_length]
  unfold HeaderFirst VDI_BLOCKS_ALLOC_OFF VDI_UUID_PARENT_OFF at *
  omega

/-- The new data block holds the buffer. -/
theorem countedFile_new {v : Backend} (hw : WellFormed v)
    (ha : Addressable v) (hfirst : HeaderFirst v.toHeader)
    (hindex : index < v.blockCount)
    (hroom : v.blocksAllocated < v.blockCount)
    (hbuf : buf.length = v.blockSize) {o : Nat} (ho : o < v.blockSize) :
    (countedFile v index buf).contents.byteAt
      (v.blockStart v.blocksAllocated + v.blockExtra + o) = buf[o]? := by
  have hend := ha.blockStart_end (e := v.blocksAllocated) (by omega)
  have hstart := blockStart_ge (v := v) (e := v.blocksAllocated)
  have hfile := ha.fileStart_eq (e := v.blocksAllocated) (by omega)
  have hmap := hw.map_data
  obtain ⟨y, hy⟩ : ∃ y, buf[o]? = some y := by
    have hlt : o < buf.length := by omega
    exact ⟨buf[o], by simp [hlt]⟩
  have hblock : (blockFile v buf).contents.byteAt
      (v.blockStart v.blocksAllocated + v.blockExtra + o) = some y := by
    unfold blockFile
    rw [HostFile.contents_pwrite,
      ByteFile.byteAt_pwrite_in (by omega) (by omega) (by omega), hfile,
      Nat.add_sub_cancel_left]
    exact hy
  have hmapped : (mappedFile v index buf).contents.byteAt
      (v.blockStart v.blocksAllocated + v.blockExtra + o) = some y := by
    unfold mappedFile
    rw [HostFile.contents_pwrite]
    apply ByteFile.byteAt_pwrite_out hblock
    rw [le32_length]
    omega
  rw [hy]
  unfold countedFile
  rw [HostFile.contents_pwrite]
  apply ByteFile.byteAt_pwrite_out hmapped
  rw [le32_length]
  unfold HeaderFirst VDI_BLOCKS_ALLOC_OFF VDI_UUID_PARENT_OFF at *
  omega

/-- **A publication shows what was shown before.** -/
theorem published_bytes (hs : Sound c)
    (hfirst : HeaderFirst c.image.toHeader) (hindex : index < c.image.blockCount)
    (hroom : c.image.blocksAllocated < c.image.blockCount)
    (hzero : c.image.blocksAllocated ≠ VDI_MAP_ZERO)
    (hfills : Fills c index buf) {i : Nat} {x : UInt8}
    (hx : byteAt c.images i = some x) :
    byteAt (c.published index buf).images i = some x := by
  have hw := hs.wellFormed
  have ha := hs.addressable
  have hi : i < c.image.diskSize := byteAt_lt hx
  obtain ⟨hblock, hlt⟩ := hw.blockIndex_eq hi
  have hmod := Nat.mod_lt i hw.blockSize_pos
  have hdiv := Nat.div_add_mod i c.image.blockSize
  have hold : byteAt c.images i =
      c.image.entryByte c.image.file.contents (under c.parents i)
        (c.image.blockMap (i / c.image.blockSize)) i :=
    hw.byteAt_eq hi c.parents
  have hnew : byteAt (c.published index buf).images i =
      c.image.entryByte (countedFile c.image index buf).contents
        (under c.parents i)
        (Function.update c.image.blockMap index c.image.blocksAllocated
          (i / c.image.blockSize)) i :=
    (published_wellFormed hw).byteAt_eq hi c.parents
  rw [hnew]
  by_cases hb : i / c.image.blockSize = index
  · -- the block that has been published shows the buffer
    have halloc := (next_isAllocated hw hroom).2 hzero
    have hii : index * c.image.blockSize + i % c.image.blockSize = i := by
      rw [← hb, Nat.mul_comm]
      exact hdiv
    have hfill := hfills.2 _ hmod
    rw [hii] at hfill
    rw [hb, Function.update_self, entryByte_allocated halloc,
      ha.fileOff_eq (by omega) hmod,
      countedFile_new hw ha hfirst hindex hroom hfills.1 hmod, ← hfill]
    show blockByte c.image (under c.parents i) i = some x
    unfold blockByte
    rw [hblock, ← hold]
    exact hx
  · -- any other block has the entry it had
    rw [Function.update_of_ne hb]
    rw [hold] at hx
    by_cases halloc : isAllocated (c.image.blockMap (i / c.image.blockSize))
    · have he := hw.entries_lt _ hlt halloc
      have hoff := ha.fileOff_eq
        (e := c.image.blockMap (i / c.image.blockSize)) (by omega) hmod
      rw [entryByte_allocated halloc, hoff] at hx ⊢
      exact countedFile_old hw ha hroom hfirst hindex he (by omega) (by omega) hx
    · rw [entryByte_free _ c.image.file.contents halloc]
      exact hx

end Published

/-! ## §5. What a chunk changes. -/

/-- The image after a chunk of `data` has been written into the data block of
`g`. -/
def Chain.chunkWritten (c : Chain) (g : Nat) (data : List UInt8) : Chain :=
  c.withFile (c.image.file.pwrite
    (c.image.fileOff (c.image.blockMap (g / c.image.blockSize))
      (g % c.image.blockSize))
    (data.take (c.image.chunkLen g data.length)))

section Chunk

variable {c : Chain} {g : Nat} {data : List UInt8}

theorem chunkWritten_sound (hs : Sound c) : Sound (c.chunkWritten g data) :=
  ⟨⟨hs.wellFormed.blockSize_pos, hs.wellFormed.blockSize_lt,
      hs.wellFormed.blockCount_lt, hs.wellFormed.map_data,
      hs.wellFormed.covers, hs.wellFormed.entries_lt,
      hs.wellFormed.entries_inj⟩,
    hs.addressable, hs.parents⟩

/-- **A chunk writes its bytes and no other.** -/
theorem chunkWritten_bytes (hs : Sound c) (hg : g < c.image.diskSize)
    (halloc : isAllocated (c.image.blockMap (g / c.image.blockSize))) :
    (∀ k < c.image.chunkLen g data.length, g + k < c.image.diskSize →
        byteAt (c.chunkWritten g data).images (g + k) = data[k]?)
      ∧ ∀ i x, byteAt c.images i = some x →
        ¬(g ≤ i ∧ i < g + c.image.chunkLen g data.length) →
        byteAt (c.chunkWritten g data).images i = some x := by
  have hw := hs.wellFormed
  have ha := hs.addressable
  obtain ⟨-, hlt⟩ := hw.blockIndex_eq hg
  have he := hw.entries_lt _ hlt halloc
  have hmod := Nat.mod_lt g hw.blockSize_pos
  have hdivg := Nat.div_add_mod g c.image.blockSize
  have hblockEnd := chunkLen_block (v := c.image) (g := g)
    (n := data.length) hw.blockSize_pos
  have hlen := chunkLen_le (v := c.image) (g := g) (n := data.length)
  have hcs := @chunkWritten_sound c g data hs
  generalize hchunk : c.image.chunkLen g data.length = chunk at *
  have htake : (data.take chunk).length = chunk := by
    rw [List.length_take]
    omega
  -- the file after the write, at the address of a byte of a data block
  have hfile : (c.chunkWritten g data).image.file.contents =
      c.image.file.contents.pwrite
        (c.image.blockStart (c.image.blockMap (g / c.image.blockSize))
          + c.image.blockExtra + g % c.image.blockSize)
        (data.take chunk) := by
    rw [← ha.fileOff_eq (by omega) hmod, ← hchunk]
    exact HostFile.contents_pwrite _ _ _
  have hbyte : ∀ i, i < c.image.diskSize →
      byteAt (c.chunkWritten g data).images i =
        c.image.entryByte (c.chunkWritten g data).image.file.contents
          (under c.parents i) (c.image.blockMap (i / c.image.blockSize)) i :=
    fun i hi => hcs.wellFormed.byteAt_eq hi c.parents
  constructor
  · intro k hk hin
    obtain ⟨hdiv, hmodk⟩ := div_mod_in_block (v := c.image) (g := g) (k := k)
      (by omega)
    have hend := ha.blockStart_end
      (e := c.image.blockMap (g / c.image.blockSize)) (by omega)
    rw [hbyte _ hin, hdiv, entryByte_allocated halloc, hmodk,
      ha.fileOff_eq (by omega) (by omega), hfile,
      ByteFile.byteAt_pwrite_in (by omega) (by rw [htake]; omega) (by omega),
      ← Nat.add_assoc, Nat.add_sub_cancel_left,
      List.getElem?_take_of_lt hk]
  · intro i x hx hout
    have hi : i < c.image.diskSize := byteAt_lt hx
    obtain ⟨-, hlti⟩ := hw.blockIndex_eq hi
    have hmodi := Nat.mod_lt i hw.blockSize_pos
    have hdivi := Nat.div_add_mod i c.image.blockSize
    have hold : byteAt c.images i =
        c.image.entryByte c.image.file.contents (under c.parents i)
          (c.image.blockMap (i / c.image.blockSize)) i :=
      hw.byteAt_eq hi c.parents
    rw [hold] at hx
    rw [hbyte i hi]
    by_cases halloci : isAllocated (c.image.blockMap (i / c.image.blockSize))
    case neg =>
      rw [entryByte_free _ c.image.file.contents halloci]
      exact hx
    have hei := hw.entries_lt _ hlti halloci
    have hoff := ha.fileOff_eq (e := c.image.blockMap (i / c.image.blockSize))
      (by omega) hmodi
    rw [entryByte_allocated halloci, hoff] at hx ⊢
    rw [hfile]
    apply ByteFile.byteAt_pwrite_out hx
    rw [htake]
    by_cases hsame : i / c.image.blockSize = g / c.image.blockSize
    · -- another byte of the same block
      rw [hsame] at hdivi ⊢
      omega
    · -- a byte of another data block
      have hne : c.image.blockMap (i / c.image.blockSize)
          ≠ c.image.blockMap (g / c.image.blockSize) := by
        intro heq
        exact hsame (hw.entries_inj _ hlti _ hlt halloci heq)
      rcases Nat.lt_or_gt_of_ne hne with hbefore | hafter
      · have hstep := blockStart_lt (v := c.image) hbefore
        omega
      · have hstep := blockStart_lt (v := c.image) hafter
        omega

end Chunk

/-- The end of a round in which the block has a data block. -/
theorem writeExactFd_chunk {u : Chain} {g : Nat} (data : List UInt8)
    (hu : Sound u) (hlt : g / u.image.blockSize < u.image.blockCount)
    (halloc : isAllocated (u.image.blockMap (g / u.image.blockSize))) :
    writeExactFd (u.image.fileOff (u.image.blockMap (g / u.image.blockSize))
        (g % u.image.blockSize))
      (data.take (u.image.chunkLen g data.length)) u =
      .ok () (u.chunkWritten g data) := by
  have he := hu.wellFormed.entries_lt _ hlt halloc
  have hmod := Nat.mod_lt g hu.wellFormed.blockSize_pos
  have hmax : u.image.blockMap (g / u.image.blockSize) <
      max u.image.blockCount u.image.blocksAllocated := by omega
  have hend := hu.addressable.blockStart_end hmax
  have hchunk := chunkLen_block (v := u.image) (g := g) (n := data.length)
    hu.wellFormed.blockSize_pos
  have hoff := hu.addressable.fileOff_eq hmax hmod
  rw [writeExactFd_eq]
  · rfl
  · rw [hoff, List.length_take]
    omega

/-- **What one round of the write loop can do**: fail with nothing changed,
fail after giving the block the number of a discarded one, or write the chunk
into the block's data block, which it may have published first. -/
theorem writeChunk_cases {c : Chain} {g : Nat} {data : List UInt8}
    (hs : Sound c) (hg : g < c.image.diskSize) :
    (∃ e, writeChunk g data c = .error e c)
      ∨ (∃ buf, Fills c (g / c.image.blockSize) buf
        ∧ c.image.blocksAllocated < c.image.blockCount
        ∧ c.image.blocksAllocated = VDI_MAP_ZERO
        ∧ writeChunk g data c =
          .error Errno.EIO (c.published (g / c.image.blockSize) buf))
      ∨ ∃ u, (u = c ∨ ∃ buf, Fills c (g / c.image.blockSize) buf
          ∧ c.image.blocksAllocated < c.image.blockCount
          ∧ c.image.blocksAllocated ≠ VDI_MAP_ZERO
          ∧ u = c.published (g / c.image.blockSize) buf)
        ∧ isAllocated (u.image.blockMap (g / c.image.blockSize))
        ∧ writeChunk g data c = .ok () (u.chunkWritten g data) := by
  have hw := hs.wellFormed
  obtain ⟨hblock, hlt⟩ := hw.blockIndex_eq hg
  have hwrite : ∀ u : Chain, Sound u → u.image.toHeader = c.image.toHeader →
      isAllocated (u.image.blockMap (g / c.image.blockSize)) →
      writeExactFd (u.image.fileOff (u.image.blockMap (g / c.image.blockSize))
          (g % u.image.blockSize))
        (data.take (u.image.chunkLen g data.length)) u =
        .ok () (u.chunkWritten g data) := by
    intro u hu hheader halloc
    have hsize : u.image.blockSize = c.image.blockSize := by rw [hheader]
    have hcount : u.image.blockCount = c.image.blockCount := by rw [hheader]
    rw [← hsize] at halloc hlt ⊢
    exact writeExactFd_chunk data hu (hcount ▸ hlt) halloc
  unfold writeChunk
  rw [bind_get, bind_get, hblock]
  simp only [if_neg (show ¬c.image.blockCount ≤ g / c.image.blockSize by omega)]
  rcases materializeBlock_cases hs hlt with
    ⟨halloc, hrun⟩ | ⟨e, hrun⟩ | ⟨buf, hfills, -, hroom, hrun⟩
  · rw [bind_of_ok hrun, bind_get]
    simp only [if_pos halloc]
    exact Or.inr (Or.inr ⟨c, Or.inl rfl, halloc, hwrite c hs rfl halloc⟩)
  · rw [bind_of_error hrun]
    exact Or.inl ⟨e, rfl⟩
  · rw [bind_of_ok hrun, bind_get]
    have hentry : (c.published (g / c.image.blockSize) buf).image.blockMap
        (g / c.image.blockSize) = c.image.blocksAllocated :=
      Function.update_self ..
    simp only [hentry]
    by_cases hzero : c.image.blocksAllocated = VDI_MAP_ZERO
    · have hno : ¬isAllocated c.image.blocksAllocated := fun h => h.2 hzero
      rw [if_neg hno]
      exact Or.inr (Or.inl ⟨buf, hfills, hroom, hzero, rfl⟩)
    · have halloc := (next_isAllocated hw hroom).2 hzero
      rw [if_pos halloc]
      refine Or.inr (Or.inr ⟨_, Or.inr ⟨buf, hfills, hroom, hzero, rfl⟩, ?_, ?_⟩)
      · rw [hentry]
        exact halloc
      · have hok := hwrite _ (published_sound hs hroom) rfl
          (by rw [hentry]; exact halloc)
        rw [hentry] at hok
        exact hok

end NextUfs.Vdi
