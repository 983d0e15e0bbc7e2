/-
  NextUfs.Vdi.Reopen
  ──────────────────
  **WHAT THE OPENER SEES.**

  The opener reads a few fields of the header and the block map.  `OpensAs f h
  n m` says that it accepts the file `f` and finds the header `h`, the count
  `n` and the entries `m`; the writes of the backend change one of these at a
  time:

    • `opensAs_iff`    — the bytes an opened image comes from,
    • `OpensAs.past`   — a write past the map changes nothing,
    • `OpensAs.entry`  — a map entry,
    • `OpensAs.count`  — the count of data blocks.
-/
import NextUfs.Vdi.WriteSpec

namespace NextUfs.Vdi

open Host

/-! ## §1. Fields of a file. -/

/-- The byte at an offset, zero past the end. -/
def fileByte (f : ByteFile) (i : Nat) : UInt8 := (f.byteAt i).getD 0

/-- The 32-bit field at an offset. -/
def le32At (f : ByteFile) (off : Nat) : Nat :=
  readLe32 [fileByte f off, fileByte f (off + 1), fileByte f (off + 2),
    fileByte f (off + 3)]

section Fields

variable {f f' : ByteFile} {p n off : Nat} {bs : List UInt8}

theorem reads_getD (h : Reads f.byteAt p n bs) {k : Nat} (hk : k < n) :
    bs.getD k 0 = fileByte f (p + k) := by
  rw [List.getD_eq_getElem?_getD, ← h.2 k hk]
  rfl

/-- A field inside a range that has been read. -/
theorem readLe32_drop (h : Reads f.byteAt p n bs) (hoff : off + 4 ≤ n) :
    readLe32 (bs.drop off) = le32At f (p + off) := by
  have hbyte : ∀ k < 4, (bs.drop off).getD k 0 = fileByte f (p + off + k) := by
    intro k hk
    rw [List.getD_eq_getElem?_getD, List.getElem?_drop,
      ← List.getD_eq_getElem?_getD, reads_getD h (by omega), Nat.add_assoc]
  unfold le32At readLe32
  rw [hbyte 0 (by omega), hbyte 1 (by omega), hbyte 2 (by omega),
    hbyte 3 (by omega)]
  rfl

theorem take_drop_eq (h : Reads f.byteAt p n bs) {m : Nat}
    (hoff : off + m ≤ n) : (bs.drop off).take m =
      (List.range m).map fun k => fileByte f (p + off + k) := by
  apply List.ext_getElem?
  intro k
  by_cases hk : k < m
  · have hlt : off + k < bs.length := by
      rw [h.1]
      omega
    rw [List.getElem?_take_of_lt hk, List.getElem?_drop, List.getElem?_map,
      List.getElem?_range hk, List.getElem?_eq_getElem hlt]
    show some _ = some (fileByte f (p + off + k))
    rw [Nat.add_assoc, ← reads_getD h (k := off + k) (by omega)]
    simp [hlt]
  · have hlen : bs.length = n := h.1
    rw [List.getElem?_eq_none (by rw [List.length_take]; omega),
      List.getElem?_eq_none (by simp; omega)]

theorem le32At_congr (h : ∀ k < 4, f'.byteAt (off + k) = f.byteAt (off + k)) :
    le32At f' off = le32At f off := by
  unfold le32At fileByte
  rw [h 1 (by omega), h 2 (by omega), h 3 (by omega),
    show f'.byteAt off = f.byteAt off from h 0 (by omega)]

theorem readLe32_le32 {value : Nat} (hv : value < 2 ^ 32) :
    readLe32 (le32 value) = value := by
  unfold readLe32 le32
  simp only [List.getD_cons_zero, List.getD_cons_succ, UInt8.toNat_ofNat']
  omega

/-- A field that has just been written. -/
theorem le32At_pwrite_in {value : Nat} (hv : value < 2 ^ 32)
    (hend : off + 4 ≤ OFFSET_END) :
    le32At (f.pwrite off (le32 value)) off = value := by
  have hbyte : ∀ k < 4, fileByte (f.pwrite off (le32 value)) (off + k) =
      (le32 value).getD k 0 := by
    intro k hk
    unfold fileByte
    rw [ByteFile.byteAt_pwrite_in (by omega) (by rw [le32_length]; omega)
      (by omega), Nat.add_sub_cancel_left, List.getD_eq_getElem?_getD]
  unfold le32At
  rw [hbyte 1 (by omega), hbyte 2 (by omega), hbyte 3 (by omega),
    show fileByte (f.pwrite off (le32 value)) off = (le32 value).getD 0 0 from
      hbyte 0 (by omega)]
  exact readLe32_le32 hv

/-- Any other field. -/
theorem byteAt_pwrite_eq {data : List UInt8} {i : Nat}
    (hsome : (f.byteAt i).isSome) (hout : i < off ∨ off + data.length ≤ i) :
    (f.pwrite off data).byteAt i = f.byteAt i := by
  obtain ⟨x, hx⟩ := Option.isSome_iff_exists.1 hsome
  rw [hx]
  exact ByteFile.byteAt_pwrite_out hx (by omega)

end Fields

/-! ## §2. Opening. -/

/-- The header in a file. -/
def headerAt (f : ByteFile) : Header where
  imageType := le32At f VDI_TYPE_OFF
  mapOffset := le32At f VDI_BLOCKS_OFFSET_OFF
  dataOffset := le32At f VDI_DATA_OFFSET_OFF
  sectorSize := le32At f VDI_SECTOR_SIZE_OFF
  blockSize := le32At f VDI_BLOCK_SIZE_OFF
  blockExtra := le32At f VDI_BLOCK_EXTRA_OFF
  blockCount := le32At f VDI_BLOCK_COUNT_OFF
  diskSize := le32At f VDI_DISK_SIZE_OFF
    + le32At f (VDI_DISK_SIZE_OFF + 4) * 2 ^ 32
  imageUuid := (List.range 16).map fun k => fileByte f (VDI_UUID_IMAGE_OFF + k)
  parentUuid := (List.range 16).map fun k => fileByte f (VDI_UUID_PARENT_OFF + k)
  hasParent := le32At f VDI_TYPE_OFF == VDI_TYPE_DIFF

/-- The opener's checks. -/
structure Accepted (f : ByteFile) : Prop where
  signature : le32At f VDI_SIG_OFF = VDI_SIGNATURE
  version : ¬(VDI_SIG_OFF + le32At f VDI_HEADER_SIZE_OFF
      < VDI_UUID_PARENT_OFF + 16 ∨ le32At f VDI_VERSION_OFF ≠ VDI_VERSION)
  fields : ¬((le32At f VDI_TYPE_OFF ≠ VDI_TYPE_DYNAMIC ∧
        le32At f VDI_TYPE_OFF ≠ VDI_TYPE_DIFF) ∨
      le32At f VDI_SECTOR_SIZE_OFF = 0 ∨ le32At f VDI_BLOCK_SIZE_OFF = 0 ∨
      le32At f VDI_BLOCK_COUNT_OFF = 0 ∨
      le32At f VDI_BLOCKS_OFFSET_OFF < le32At f VDI_HEADER_SIZE_OFF ∨
      le32At f VDI_DATA_OFFSET_OFF < le32At f VDI_BLOCKS_OFFSET_OFF)

/-- The opener accepts `f` and finds this header, count and map. -/
def OpensAs (f : ByteFile) (h : Header) (n : Nat) (m : Nat → Nat) : Prop :=
  ∃ w, initBackend f = .ok (some w) ∧ w.toHeader = h
    ∧ w.blocksAllocated = n ∧ (∀ b < h.blockCount, w.blockMap b = m b)
    ∧ w.file = ⟨f, []⟩

/-- The image in a file whose map has been read. -/
def imageOf (f : ByteFile) (map : List UInt8) : Backend where
  toHeader := headerAt f
  blocksAllocated := le32At f VDI_BLOCKS_ALLOC_OFF
  blockMap := fun b => readLe32 (map.drop (b * 4))
  file := ⟨f, []⟩

/-- **The opener, field by field**: a file that fails a check is not opened,
and one that passes them all is if its map can be read. -/
theorem initBackend_cases {f : ByteFile} {hdr : List UInt8}
    (hhdr : f.pread 0 512 = some hdr) :
    (¬Accepted f ∧ ∀ w, initBackend f ≠ .ok (some w))
      ∨ Accepted f
        ∧ ((f.pread (headerAt f).mapOffset ((headerAt f).blockCount * 4) = none
            ∧ initBackend f = .error Errno.EIO)
          ∨ ∃ map, f.pread (headerAt f).mapOffset
              ((headerAt f).blockCount * 4) = some map
            ∧ initBackend f = .ok (some (imageOf f map))) := by
  have hreads := (ByteFile.pread_eq_some f 512 0 hdr).1 hhdr
  have hfield : ∀ off, off + 4 ≤ 512 →
      readLe32 (hdr.drop off) = le32At f off := by
    intro off hoff
    rw [readLe32_drop hreads hoff, Nat.zero_add]
  have hdisk : readLe64 (hdr.drop VDI_DISK_SIZE_OFF) = (headerAt f).diskSize := by
    unfold readLe64
    rw [List.drop_drop, hfield _ (by decide), hfield _ (by decide)]
    rfl
  have huuid : ∀ off, off + 16 ≤ 512 → (hdr.drop off).take 16 =
      (List.range 16).map fun k => fileByte f (off + k) := by
    intro off hoff
    rw [take_drop_eq hreads hoff, Nat.zero_add]
  generalize hr : initBackend f = r
  unfold initBackend at hr
  rw [hhdr] at hr
  simp only [hdisk, huuid VDI_UUID_IMAGE_OFF (by decide),
    huuid VDI_UUID_PARENT_OFF (by decide), hfield VDI_SIG_OFF (by decide),
    hfield VDI_HEADER_SIZE_OFF (by decide), hfield VDI_VERSION_OFF (by decide),
    hfield VDI_TYPE_OFF (by decide), hfield VDI_SECTOR_SIZE_OFF (by decide),
    hfield VDI_BLOCK_SIZE_OFF (by decide),
    hfield VDI_BLOCK_COUNT_OFF (by decide),
    hfield VDI_BLOCKS_OFFSET_OFF (by decide),
    hfield VDI_DATA_OFFSET_OFF (by decide),
    hfield VDI_BLOCK_EXTRA_OFF (by decide),
    hfield VDI_BLOCKS_ALLOC_OFF (by decide)] at hr
  by_cases hsig : le32At f VDI_SIG_OFF ≠ VDI_SIGNATURE
  · rw [if_pos hsig] at hr
    subst hr
    exact Or.inl ⟨fun hacc => hsig hacc.signature, by simp⟩
  rw [if_neg hsig] at hr
  split at hr
  · rename_i hversion
    subst hr
    exact Or.inl ⟨fun hacc => hacc.version hversion, by simp⟩
  rename_i hversion
  split at hr
  · rename_i hfields
    subst hr
    exact Or.inl ⟨fun hacc => hacc.fields hfields, by simp⟩
  rename_i hfields
  have hacc : Accepted f := ⟨not_not.1 hsig, hversion, hfields⟩
  split at hr
  · rename_i hmap
    exact Or.inr ⟨hacc, Or.inl ⟨hmap, hr.symm⟩⟩
  · rename_i map hmap
    exact Or.inr ⟨hacc, Or.inr ⟨map, hmap, hr.symm⟩⟩

/-- **The bytes an opened image comes from.** -/
theorem opensAs_iff {f : ByteFile} {h : Header} {n : Nat} {m : Nat → Nat} :
    OpensAs f h n m ↔ (∀ i < 512, (f.byteAt i).isSome) ∧ Accepted f
      ∧ headerAt f = h ∧ le32At f VDI_BLOCKS_ALLOC_OFF = n
      ∧ (∀ k < h.blockCount * 4, (f.byteAt (h.mapOffset + k)).isSome)
      ∧ ∀ b < h.blockCount, le32At f (h.mapOffset + b * 4) = m b := by
  constructor
  · rintro ⟨w, hinit, rfl, rfl, hmap, -⟩
    cases hhdr : f.pread 0 512 with
    | none =>
      unfold initBackend at hinit
      rw [hhdr] at hinit
      cases hinit
    | some hdr =>
    have hreads := (ByteFile.pread_eq_some f 512 0 hdr).1 hhdr
    rcases initBackend_cases hhdr with
      ⟨-, hno⟩ | ⟨hacc, ⟨-, hfail⟩ | ⟨map, hpread, hok⟩⟩
    · exact absurd hinit (hno w)
    · rw [hfail] at hinit
      cases hinit
    rw [hok] at hinit
    cases hinit
    have hmapReads := (ByteFile.pread_eq_some f _ _ map).1 hpread
    refine ⟨fun i hi => ?_, hacc, rfl, rfl, fun k hk => ?_, fun b hb => ?_⟩
    · obtain ⟨x, -, hx⟩ := hreads.some hi
      rw [Nat.zero_add] at hx
      rw [hx]
      rfl
    · obtain ⟨x, -, hx⟩ := hmapReads.some hk
      show (f.byteAt ((headerAt f).mapOffset + k)).isSome
      rw [hx]
      rfl
    · rw [← hmap b hb]
      have hb' : b < (headerAt f).blockCount := hb
      exact (readLe32_drop hmapReads (by omega)).symm
  · rintro ⟨hbytes, hacc, rfl, rfl, hmapBytes, hmap⟩
    obtain ⟨hdr, hhdr⟩ := ByteFile.pread_isSome (f := f)
      fun k hk => by rw [Nat.zero_add]; exact hbytes k hk
    obtain ⟨map, hpread⟩ := ByteFile.pread_isSome (f := f) hmapBytes
    have hmapReads := (ByteFile.pread_eq_some f _ _ map).1 hpread
    rcases initBackend_cases hhdr with
      ⟨hno, -⟩ | ⟨-, ⟨hnone, -⟩ | ⟨map', hpread', hok⟩⟩
    · exact absurd hacc hno
    · rw [hpread] at hnone
      cases hnone
    rw [hpread] at hpread'
    cases hpread'
    refine ⟨_, hok, rfl, rfl, fun b hb => ?_, rfl⟩
    rw [← hmap b hb]
    exact readLe32_drop hmapReads (by omega)

/-! ## §3. One write. -/

section OneWrite

variable {f : ByteFile} {h : Header} {n off : Nat} {m : Nat → Nat}

/-- A file that has the header fields and every byte of another opens with the
same header. -/
theorem OpensAs.congr {f' : ByteFile} {m' : Nat → Nat} {n' : Nat}
    (hopen : OpensAs f h n m)
    (hfields : ∀ i < VDI_UUID_PARENT_OFF + 16,
      ¬(VDI_BLOCKS_ALLOC_OFF ≤ i ∧ i < VDI_BLOCKS_ALLOC_OFF + 4) →
      f'.byteAt i = f.byteAt i)
    (hsome : ∀ i, (f.byteAt i).isSome → (f'.byteAt i).isSome)
    (hn : le32At f' VDI_BLOCKS_ALLOC_OFF = n')
    (hm : ∀ b < h.blockCount, le32At f' (h.mapOffset + b * 4) = m' b) :
    OpensAs f' h n' m' := by
  obtain ⟨hbytes, hacc, hheader, -, hmapBytes, -⟩ := opensAs_iff.1 hopen
  have hfield : ∀ o, o + 4 ≤ VDI_UUID_PARENT_OFF + 16 →
      o + 4 ≤ VDI_BLOCKS_ALLOC_OFF ∨ VDI_BLOCKS_ALLOC_OFF + 4 ≤ o →
      le32At f' o = le32At f o := by
    intro o hend hcount
    apply le32At_congr
    intro k hk
    apply hfields <;> omega
  have huuid : ∀ o, o + 16 ≤ VDI_UUID_PARENT_OFF + 16 →
      VDI_BLOCKS_ALLOC_OFF + 4 ≤ o →
      ((List.range 16).map fun k => fileByte f' (o + k)) =
        (List.range 16).map fun k => fileByte f (o + k) := by
    intro o hend hcount
    apply List.map_congr_left
    intro k hk
    have hlt := List.mem_range.1 hk
    unfold fileByte
    rw [hfields (o + k) (by omega) (by omega)]
  have hheader' : headerAt f' = headerAt f := by
    unfold headerAt
    rw [hfield VDI_TYPE_OFF (by decide) (by decide),
      hfield VDI_BLOCKS_OFFSET_OFF (by decide) (by decide),
      hfield VDI_DATA_OFFSET_OFF (by decide) (by decide),
      hfield VDI_SECTOR_SIZE_OFF (by decide) (by decide),
      hfield VDI_BLOCK_SIZE_OFF (by decide) (by decide),
      hfield VDI_BLOCK_EXTRA_OFF (by decide) (by decide),
      hfield VDI_BLOCK_COUNT_OFF (by decide) (by decide),
      hfield VDI_DISK_SIZE_OFF (by decide) (by decide),
      hfield (VDI_DISK_SIZE_OFF + 4) (by decide) (by decide),
      huuid VDI_UUID_IMAGE_OFF (by decide) (by decide),
      huuid VDI_UUID_PARENT_OFF (by decide) (by decide)]
  have hacc' : Accepted f' := by
    constructor
    · rw [hfield VDI_SIG_OFF (by decide) (by decide)]
      exact hacc.signature
    · rw [hfield VDI_HEADER_SIZE_OFF (by decide) (by decide),
        hfield VDI_VERSION_OFF (by decide) (by decide)]
      exact hacc.version
    · rw [hfield VDI_TYPE_OFF (by decide) (by decide),
        hfield VDI_SECTOR_SIZE_OFF (by decide) (by decide),
        hfield VDI_BLOCK_SIZE_OFF (by decide) (by decide),
        hfield VDI_BLOCK_COUNT_OFF (by decide) (by decide),
        hfield VDI_BLOCKS_OFFSET_OFF (by decide) (by decide),
        hfield VDI_HEADER_SIZE_OFF (by decide) (by decide),
        hfield VDI_DATA_OFFSET_OFF (by decide) (by decide)]
      exact hacc.fields
  apply opensAs_iff.2
  exact ⟨fun i hi => hsome i (hbytes i hi), hacc', hheader'.trans hheader, hn,
    fun k hk => hsome _ (hmapBytes k hk), hm⟩

/-- The bytes of a map entry. -/
theorem OpensAs.entryBytes (hopen : OpensAs f h n m) {b k : Nat}
    (hb : b < h.blockCount) (hk : k < 4) :
    (f.byteAt (h.mapOffset + b * 4 + k)).isSome := by
  obtain ⟨-, -, -, -, hmapBytes, -⟩ := opensAs_iff.1 hopen
  rw [Nat.add_assoc]
  exact hmapBytes _ (by omega)

theorem OpensAs.entry_eq (hopen : OpensAs f h n m) {b : Nat}
    (hb : b < h.blockCount) : le32At f (h.mapOffset + b * 4) = m b := by
  obtain ⟨-, -, -, -, -, hmap⟩ := opensAs_iff.1 hopen
  exact hmap b hb

theorem OpensAs.count_eq (hopen : OpensAs f h n m) :
    le32At f VDI_BLOCKS_ALLOC_OFF = n := by
  obtain ⟨-, -, -, hn, -, -⟩ := opensAs_iff.1 hopen
  exact hn

theorem OpensAs.headBytes (hopen : OpensAs f h n m) {i : Nat} (hi : i < 512) :
    (f.byteAt i).isSome := by
  obtain ⟨hbytes, -⟩ := opensAs_iff.1 hopen
  exact hbytes i hi

/-- A write past the map. -/
theorem OpensAs.past {bytes : List UInt8} (hopen : OpensAs f h n m)
    (hfirst : HeaderFirst h) (hoff : h.mapOffset + h.blockCount * 4 ≤ off) :
    OpensAs (f.pwrite off bytes) h n m := by
  unfold HeaderFirst VDI_UUID_PARENT_OFF at hfirst
  apply hopen.congr
  · intro i hi _
    unfold VDI_UUID_PARENT_OFF at hi
    exact byteAt_pwrite_eq (hopen.headBytes (by omega)) (by omega)
  · exact fun i hi => ByteFile.byteAt_pwrite_isSome off bytes hi
  · rw [← hopen.count_eq]
    apply le32At_congr
    intro k hk
    unfold VDI_BLOCKS_ALLOC_OFF
    exact byteAt_pwrite_eq (hopen.headBytes (by omega)) (by omega)
  · intro b hb
    rw [← hopen.entry_eq hb]
    apply le32At_congr
    intro k hk
    exact byteAt_pwrite_eq (hopen.entryBytes hb hk) (by omega)

/-- A write of a map entry. -/
theorem OpensAs.entry (hopen : OpensAs f h n m) (hfirst : HeaderFirst h)
    {index e : Nat} (hindex : index < h.blockCount) (he : e < 2 ^ 32) :
    OpensAs (f.pwrite (h.mapOffset + index * 4) (le32 e)) h n
      (Function.update m index e) := by
  have hend : h.mapOffset + index * 4 + 4 ≤ OFFSET_END := by
    obtain ⟨x, hx⟩ := Option.isSome_iff_exists.1
      (hopen.entryBytes hindex (k := 3) (by omega))
    have hlt := (ByteFile.byteAt_lt hx).2
    omega
  unfold HeaderFirst VDI_UUID_PARENT_OFF at hfirst
  apply hopen.congr
  · intro i hi _
    unfold VDI_UUID_PARENT_OFF at hi
    exact byteAt_pwrite_eq (hopen.headBytes (by omega)) (by omega)
  · exact fun i hi => ByteFile.byteAt_pwrite_isSome _ _ hi
  · rw [← hopen.count_eq]
    apply le32At_congr
    intro k hk
    unfold VDI_BLOCKS_ALLOC_OFF
    exact byteAt_pwrite_eq (hopen.headBytes (by omega)) (by omega)
  · intro b hb
    by_cases hbi : b = index
    · subst hbi
      rw [Function.update_self]
      exact le32At_pwrite_in he hend
    · rw [Function.update_of_ne hbi, ← hopen.entry_eq hb]
      apply le32At_congr
      intro k hk
      apply byteAt_pwrite_eq (hopen.entryBytes hb hk)
      rw [le32_length]
      omega

/-- A write of the count. -/
theorem OpensAs.count (hopen : OpensAs f h n m) (hfirst : HeaderFirst h)
    {n' : Nat} (hn : n' < 2 ^ 32) :
    OpensAs (f.pwrite VDI_BLOCKS_ALLOC_OFF (le32 n')) h n' m := by
  unfold HeaderFirst VDI_UUID_PARENT_OFF at hfirst
  apply hopen.congr
  · intro i hi hout
    unfold VDI_UUID_PARENT_OFF at hi
    apply byteAt_pwrite_eq (hopen.headBytes (by omega))
    rw [le32_length]
    omega
  · exact fun i hi => ByteFile.byteAt_pwrite_isSome _ _ hi
  · exact le32At_pwrite_in hn (by decide)
  · intro b hb
    rw [← hopen.entry_eq hb]
    apply le32At_congr
    intro k hk
    apply byteAt_pwrite_eq (hopen.entryBytes hb hk)
    rw [le32_length]
    unfold VDI_BLOCKS_ALLOC_OFF
    omega

end OneWrite

end NextUfs.Vdi
