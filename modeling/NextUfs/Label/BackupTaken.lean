/-
  NextUfs.Label.BackupTaken
  ─────────────────────────
  **A COPY TAKEN FOR THE SUPERBLOCK.**

  Without a label the opener takes the first magic number behind which a
  superblock can be read.  In an image the formatter has finished that is the
  superblock's own, at slice base 0, as long as it passes the opener's checks.
  When it does not, the copy of group 0 stands 8 kilobytes further, always
  inside the scanned part of the image:

    • `superblockBytes_accepted` — what the formatter writes is accepted,
    • `openFile_unlabelled`      — the second search, alone,
    • `copy_taken`               — a damaged superblock is passed over for a
      copy, and the image opens with a shifted base,
    • `opens_at_base_zero_iff`   — so the image is read as it was formatted
      exactly when its superblock is still accepted.
-/
import NextUfs.Format.WriteSuper
import NextUfs.Label.Opener

namespace NextUfs.Label

open Host Window Fields Format

/-! ## §1. What the opener makes of a written superblock. -/

section Written

variable {fs : Fs}

/-- The opener accepts what the formatter writes. -/
theorem superblockBytes_accepted (hb : SuperPlaced fs.toBlocks)
    (rest : Nat → UInt8) : superblockAccepted (superblockBytes fs rest) = true := by
  have hbmax : fs.bsize ≤ 8192 := hb.bsize_le
  have hfmax := hb.fsize_le
  have hbpos := hb.bsize_pos
  have hfpos := hb.fsize_pos
  have hmagic : beAt (superblockBytes fs rest) UFS_SUPER_MAGIC_OFFSET 4 =
      UFS_FS_MAGIC := beAt_putBe_of_lt (by decide)
  have hbsize : beAt (superblockBytes fs rest) 0x30 4 = fs.bsize := by
    unfold superblockBytes
    simp (disch := decide) only [beAt_putBe_out]
    exact beAt_putBe_of_lt (by omega)
  have hfsize : beAt (superblockBytes fs rest) 0x34 4 = fs.fsize := by
    unfold superblockBytes
    simp (disch := decide) only [beAt_putBe_out]
    exact beAt_putBe_of_lt (by omega)
  have hnonzero : (decodeSuperblock (superblockBytes fs rest)).blockSize ≠ 0
      ∧ (decodeSuperblock (superblockBytes fs rest)).fragSize ≠ 0 := by
    constructor
    · show beAt (superblockBytes fs rest) 0x30 4 ≠ 0
      omega
    · show beAt (superblockBytes fs rest) 0x34 4 ≠ 0
      omega
  unfold superblockAccepted
  rw [hmagic, beq_self_eq_true, bne_iff_ne.2 hnonzero.1, bne_iff_ne.2 hnonzero.2]
  rfl

/-- The checks read the bytes the opener reads. -/
theorem superblockAccepted_congr {f g : Nat → UInt8}
    (h : Same f g 0 SUPER_READ_SIZE) :
    superblockAccepted f = superblockAccepted g := by
  have hfield : ∀ off, off + 4 ≤ SUPER_READ_SIZE → beAt f off 4 = beAt g off 4 :=
    fun off hoff => beAt_congr (h.mono (Nat.zero_le _) hoff)
  unfold superblockAccepted
  rw [hfield UFS_SUPER_MAGIC_OFFSET (by decide)]
  show (_ && beAt f 0x30 4 != 0 && beAt f 0x34 4 != 0) =
    (_ && beAt g 0x30 4 != 0 && beAt g 0x34 4 != 0)
  rw [hfield 0x30 (by decide), hfield 0x34 (by decide)]

/-- A copy is accepted wherever it stands. -/
theorem HasCopy.accepted {f : ByteFile} {off : Nat} {rest : Nat → UInt8}
    (hb : SuperPlaced fs.toBlocks) (h : HasCopy f off fs rest) :
    superblockAccepted (areaAt f off) = true := by
  have hsame : Same (areaAt f off) (superblockBytes fs rest) 0 SUPER_READ_SIZE :=
    fun i _ hi => h.2 i (Nat.lt_of_lt_of_le hi (by decide))
  rw [superblockAccepted_congr hsame]
  exact superblockBytes_accepted hb rest

end Written

/-! ## §2. The opener without a label. -/

/-- The bytes from `0` on form no valid label at any offset that is looked
at. -/
def NoLabel (g : ByteFile) : Prop :=
  ∀ off ∈ offsetsUpTo DEV_SECTOR_SIZE LABEL_DECODE_SIZE
      (min (min DEFAULT_SCAN_LIMIT g.size) LABEL_SCAN_LIMIT),
    labelDecode (areaAt g off) (min DEFAULT_SCAN_LIMIT g.size - off) off = none

/-- The file is not a virtual disk. -/
def RawFile (g : ByteFile) : Prop :=
  Vdi.le32At g Vdi.VDI_SIG_OFF ≠ Vdi.VDI_SIGNATURE

section Search

variable {g : ByteFile}

/-- **Without a label the second search decides.** -/
theorem openFile_unlabelled (hsize : 512 ≤ g.size) (hraw : RawFile g)
    (hlabel : NoLabel g) (parents : List Vdi.Backend) {opened : OpenImage}
    (hfound : (offsetsUpTo 4 4 (min DEFAULT_SCAN_LIMIT g.size)).findSome?
      (openAtMagic (rawBacking g) (areaAt g 0)) = some opened) :
    openFile parents g = .ok opened := by
  have hscan : (rawBacking g).readExact 0 (min DEFAULT_SCAN_LIMIT g.size) =
      .ok (areaAt g 0) := if_pos (by omega)
  have hnone : (offsetsUpTo DEV_SECTOR_SIZE LABEL_DECODE_SIZE
      (min (min DEFAULT_SCAN_LIMIT g.size) LABEL_SCAN_LIMIT)).findSome?
        (openAtLabel (rawBacking g) (areaAt g 0) (min DEFAULT_SCAN_LIMIT g.size))
      = none := by
    rw [List.findSome?_eq_none_iff]
    intro off hoff
    cases hopen : openAtLabel (rawBacking g) (areaAt g 0)
        (min DEFAULT_SCAN_LIMIT g.size) off with
    | none => rfl
    | some opened =>
      obtain ⟨dl, _, _, _, hdl, -⟩ := openAtLabel_eq_some.1 hopen
      have harea : scanAt (areaAt g 0) off = areaAt g off := by
        funext i
        unfold scanAt areaAt
        rw [Nat.zero_add]
      rw [harea, hlabel off hoff] at hdl
      cases hdl
  unfold openFile
  rw [initBackend_raw hsize hraw]
  unfold openWithMode
  dsimp only
  rw [show (rawBacking g).imageSize = g.size from rfl, hscan]
  dsimp only
  rw [hnone]
  dsimp only
  rw [hfound]

/-- A place in the file that holds an accepted superblock is a hit. -/
theorem openAtMagic_hit {base : Nat}
    (hend : base + UFS_SBLOCK_OFFSET + SUPER_READ_SIZE ≤ g.size)
    (haccept : superblockAccepted (areaAt g (base + UFS_SBLOCK_OFFSET)) = true) :
    openAtMagic (rawBacking g) (areaAt g 0)
        (base + UFS_SBLOCK_OFFSET + UFS_SUPER_MAGIC_OFFSET) =
      some ⟨decodeSuperblock (areaAt g (base + UFS_SBLOCK_OFFSET)), base,
        g.size - base, none⟩ := by
  have hbase : base + UFS_SBLOCK_OFFSET + UFS_SUPER_MAGIC_OFFSET
      - UFS_SUPER_MAGIC_OFFSET - UFS_SBLOCK_OFFSET = base := by omega
  refine openAtMagic_eq_some.2
    ⟨decodeSuperblock (areaAt g (base + UFS_SBLOCK_OFFSET)),
      magic_of_accepted haccept, by omega, ?_, ?_⟩
  · rw [hbase]
    exact readSuperblock_eq_some.2 ⟨_, if_pos hend, haccept, rfl⟩
  · rw [hbase]
    rfl

/-- A hit is a superblock that was accepted at its base. -/
theorem accepted_of_hit {off : Nat} {opened : OpenImage}
    (h : openAtMagic (rawBacking g) (areaAt g 0) off = some opened) :
    UFS_SUPER_MAGIC_OFFSET + UFS_SBLOCK_OFFSET ≤ off
      ∧ opened.sliceBase = off - UFS_SUPER_MAGIC_OFFSET - UFS_SBLOCK_OFFSET
      ∧ superblockAccepted
        (areaAt g (opened.sliceBase + UFS_SBLOCK_OFFSET)) = true := by
  obtain ⟨sb, -, hlow, hsb, rfl⟩ := openAtMagic_eq_some.1 h
  obtain ⟨sbuf, hread, haccept, -⟩ := readSuperblock_eq_some.1 hsb
  refine ⟨hlow, rfl, ?_⟩
  change (if _ then Except.ok (areaAt g _) else Except.error Errno.EIO) = _ at hread
  split at hread
  · cases hread
    exact haccept
  · cases hread

/-- The offset of a superblock's magic number is looked at. -/
theorem magic_scanned {base : Nat} (hmod : base % 4 = 0)
    (hlimit : base + UFS_SBLOCK_OFFSET + SUPER_READ_SIZE ≤ DEFAULT_SCAN_LIMIT)
    (hend : base + UFS_SBLOCK_OFFSET + SUPER_READ_SIZE ≤ g.size) :
    base + UFS_SBLOCK_OFFSET + UFS_SUPER_MAGIC_OFFSET ∈
      offsetsUpTo 4 4 (min DEFAULT_SCAN_LIMIT g.size) := by
  refine mem_offsetsUpTo.2 ⟨?_, ?_⟩
  · unfold UFS_SBLOCK_OFFSET UFS_SUPER_MAGIC_OFFSET
    omega
  · unfold SUPER_READ_SIZE at hlimit hend
    unfold UFS_SUPER_MAGIC_OFFSET
    omega

/-- **An accepted superblock at base 0 is taken**: no magic number before it
can be. -/
theorem opens_at_zero (hraw : RawFile g) (hlabel : NoLabel g)
    (parents : List Vdi.Backend)
    (hend : UFS_SBLOCK_OFFSET + SUPER_READ_SIZE ≤ g.size)
    (haccept : superblockAccepted (areaAt g UFS_SBLOCK_OFFSET) = true) :
    ∃ opened, openFile parents g = .ok opened ∧ opened.sliceBase = 0 := by
  have hsize : 512 ≤ g.size := Nat.le_trans (by decide) hend
  have hzero : 0 + UFS_SBLOCK_OFFSET = UFS_SBLOCK_OFFSET := Nat.zero_add _
  have hhit := @openAtMagic_hit g 0 (by rw [hzero]; exact hend)
    (by rw [hzero]; exact haccept)
  have hmem := @magic_scanned g 0 rfl (by decide) (by rw [hzero]; exact hend)
  have hfirst := findSome_first (offsetsUpTo_ascending (by decide)) hmem hhit
    fun c _ hc => by
      cases hopen : openAtMagic (rawBacking g) (areaAt g 0) c with
      | none => rfl
      | some opened =>
        have hlow := (accepted_of_hit hopen).1
        rw [hzero] at hc
        omega
  exact ⟨_, openFile_unlabelled hsize hraw hlabel parents hfirst, rfl⟩

/-- **A later superblock is taken** when the one at base 0 is not accepted:
the image opens, with a base that is not 0. -/
theorem opens_shifted (hraw : RawFile g) (hlabel : NoLabel g)
    (parents : List Vdi.Backend) {base : Nat} (hmod : base % 4 = 0)
    (hlimit : base + UFS_SBLOCK_OFFSET + SUPER_READ_SIZE ≤ DEFAULT_SCAN_LIMIT)
    (hend : base + UFS_SBLOCK_OFFSET + SUPER_READ_SIZE ≤ g.size)
    (haccept : superblockAccepted (areaAt g (base + UFS_SBLOCK_OFFSET)) = true)
    (hbad : superblockAccepted (areaAt g UFS_SBLOCK_OFFSET) = false) :
    ∃ opened, openFile parents g = .ok opened ∧ opened.sliceBase ≠ 0 := by
  have hsize : 512 ≤ g.size := by
    unfold SUPER_READ_SIZE at hend
    omega
  have hhit := openAtMagic_hit hend haccept
  have hmem := magic_scanned hmod hlimit hend
  cases hsearch : (offsetsUpTo 4 4 (min DEFAULT_SCAN_LIMIT g.size)).findSome?
      (openAtMagic (rawBacking g) (areaAt g 0)) with
  | none =>
    have hmiss := List.findSome?_eq_none_iff.1 hsearch _ hmem
    rw [hhit] at hmiss
    cases hmiss
  | some opened =>
    refine ⟨opened, openFile_unlabelled hsize hraw hlabel parents hsearch,
      fun h0 => ?_⟩
    obtain ⟨off, -, hoff⟩ := List.exists_of_findSome?_eq_some hsearch
    obtain ⟨-, -, haccept'⟩ := accepted_of_hit hoff
    rw [h0, Nat.zero_add, hbad] at haccept'
    cases haccept'

end Search

/-! ## §3. A damaged superblock. -/

/-- `g` is the image with other bytes where its superblock was. -/
structure Overwritten (image g : ByteFile) : Prop where
  size_eq : g.size = image.size
  outside : ∀ i, i < UFS_SBLOCK_OFFSET ∨ UFS_SBLOCK_OFFSET + SBSIZE ≤ i →
    g.byte i = image.byte i

section Damage

variable {opts : FormatOptions} {fs : Fs} {image g : ByteFile}

/-- The copy of group 0 is not among the bytes that are overwritten. -/
theorem Overwritten.hasCopy (h : Overwritten image g) {rest : Nat → UInt8}
    (hcopy : HasCopy image (0 + (BBSIZE + SBSIZE)) fs rest) :
    HasCopy g (UFS_SBLOCK_OFFSET + SBSIZE) fs rest := by
  have hoff : 0 + (BBSIZE + SBSIZE) = UFS_SBLOCK_OFFSET + SBSIZE := rfl
  rw [hoff] at hcopy
  refine ⟨by rw [h.size_eq]; exact hcopy.1, fun i hi => ?_⟩
  rw [h.outside _ (Or.inr (Nat.le_add_right _ _)), hcopy.2 i hi]

/-- The signature of a virtual disk is not among them either. -/
theorem Overwritten.raw (h : Overwritten image g) (hraw : RawFile image) :
    RawFile g := by
  have hbyte : ∀ i < 512, Vdi.fileByte g i = Vdi.fileByte image i := by
    intro i hi
    unfold Vdi.fileByte ByteFile.byteAt
    rw [h.size_eq, h.outside i (Or.inl (by unfold UFS_SBLOCK_OFFSET; omega))]
  unfold RawFile Vdi.le32At Vdi.VDI_SIG_OFF at hraw ⊢
  rwa [hbyte _ (by omega), hbyte _ (by omega), hbyte _ (by omega),
    hbyte _ (by omega)]

/-- **A copy is taken for the superblock.** -/
theorem copy_taken (h : Formatted 0 opts fs image) (hraw : RawFile image)
    (hover : Overwritten image g) (hlabel : NoLabel g)
    (parents : List Vdi.Backend)
    (hbad : superblockAccepted (areaAt g UFS_SBLOCK_OFFSET) = false) :
    ∃ opened, openFile parents g = .ok opened ∧ opened.sliceBase ≠ 0 := by
  obtain ⟨hb, rest, hcopy⟩ := h.groupZeroCopy
  have hmine := hover.hasCopy hcopy
  have hend : SBSIZE + UFS_SBLOCK_OFFSET + SUPER_READ_SIZE ≤ g.size := by
    have hcopyEnd := hmine.1
    unfold UFS_SBLOCK_OFFSET SBSIZE at hcopyEnd
    unfold UFS_SBLOCK_OFFSET SBSIZE SUPER_READ_SIZE
    omega
  have haccept : superblockAccepted (areaAt g (SBSIZE + UFS_SBLOCK_OFFSET)) = true := by
    rw [Nat.add_comm]
    exact HasCopy.accepted hb hmine
  exact opens_shifted (hover.raw hraw) hlabel parents (by decide) (by decide) hend
    haccept hbad

/-- **The primary superblock alone decides.**  A finished raw image whose
superblock was overwritten, without forming a label, is refused or opened at
base 0 exactly when the opener still accepts what stands there. -/
theorem opens_at_base_zero_iff (h : Formatted 0 opts fs image)
    (hraw : RawFile image) (hover : Overwritten image g) (hlabel : NoLabel g)
    (parents : List Vdi.Backend) :
    (∀ opened, openFile parents g = .ok opened → opened.sliceBase = 0) ↔
      superblockAccepted (areaAt g UFS_SBLOCK_OFFSET) = true := by
  constructor
  · intro hzero
    by_contra hbad
    obtain ⟨opened, hopen, hbase⟩ := copy_taken h hraw hover hlabel parents
      (Bool.eq_false_iff.2 hbad)
    exact hbase (hzero opened hopen)
  · intro haccept opened hopen
    obtain ⟨hb, rest, hcopy⟩ := h.groupZeroCopy
    have hend : UFS_SBLOCK_OFFSET + SUPER_READ_SIZE ≤ g.size := by
      have hcopyEnd := (hover.hasCopy hcopy).1
      unfold UFS_SBLOCK_OFFSET SBSIZE at hcopyEnd
      unfold UFS_SBLOCK_OFFSET SUPER_READ_SIZE
      omega
    obtain ⟨opened', hopen', hbase⟩ := opens_at_zero (hover.raw hraw) hlabel
      parents hend haccept
    rw [hopen] at hopen'
    cases hopen'
    exact hbase

end Damage

/-! ## §4. An image of a megabyte. -/

/-- The options of a megabyte, with the geometry of a labelled image. -/
def megabyteOpts : FormatOptions := ⟨1024, 32, 4, 8192, 1024, 16, 4096, false⟩

/-- The geometry they give: one group. -/
def megabyteFs : Fs where
  bsize := 8192
  fsize := 1024
  frag := 8
  fragshift := 3
  inopb := 64
  nspf := 1
  fsbtodb := 0
  dblkno := 56
  cgoffset := 32
  cgmask := 4294967292
  size := 1024
  ncg := 1
  csaddr := 56
  cssize := 1024
  cgsize := 2048
  ntrak := 4
  nsect := 32
  spc := 128
  ncyl := 8
  cpg := 16
  ipg := 192
  fpg := 2048

/-- The last writes of its format, on an empty file. -/
def megabyteImage : ByteFile :=
  finishFormat 0 megabyteFs (fun _ => 0) (fun _ => 0)
    ⟨1024 * 1024, fun _ => 0⟩

/-- An image with zeros for a superblock. -/
def zeroed (image : ByteFile) : ByteFile where
  size := image.size
  byte i := if UFS_SBLOCK_OFFSET ≤ i ∧ i < UFS_SBLOCK_OFFSET + SBSIZE then 0
    else image.byte i

theorem zeroed_overwritten (image : ByteFile) : Overwritten image (zeroed image) where
  size_eq := rfl
  outside i hi := by
    have hout : ¬(UFS_SBLOCK_OFFSET ≤ i ∧ i < UFS_SBLOCK_OFFSET + SBSIZE) := by
      omega
    exact if_neg hout

/-- Zeros are not accepted. -/
theorem zeroed_refused (image : ByteFile) :
    superblockAccepted (areaAt (zeroed image) UFS_SBLOCK_OFFSET) = false := by
  have hsame : Same (areaAt (zeroed image) UFS_SBLOCK_OFFSET) (fun _ => 0) 0
      SUPER_READ_SIZE := by
    intro i _ hi
    refine if_pos ⟨Nat.le_add_right _ _, Nat.add_lt_add_left ?_ _⟩
    exact Nat.lt_of_lt_of_le hi (by decide)
  rw [superblockAccepted_congr hsame]
  decide

theorem megabyteImage_formatted :
    Formatted 0 megabyteOpts megabyteFs megabyteImage where
  geometry := by decide +kernel
  groups := by
    obtain ⟨hl, -⟩ := nextufsFormat_spec
      (show nextufsFormat megabyteOpts = .ok megabyteFs by decide +kernel)
    obtain ⟨f, hf, -⟩ := initcgs_spec hl 0 megabyteFs.ncg
      (by decide +kernel : ∀ c < megabyteFs.ncg, initcgDefined megabyteFs c = true)
    exact ⟨0, f, hf⟩
  inodes := by decide
  written := ⟨_, _, _, rfl⟩

/-- The boot area is empty, and so is the start of every label sector. -/
def Quiet (f : ByteFile) : Prop :=
  ∀ i, i % DEV_SECTOR_SIZE < 4 ∨ i < UFS_SBLOCK_OFFSET → f.byte i = 0

/-- A write behind the boot area keeps the start of the label sectors empty. -/
theorem Quiet.wtfs {f : ByteFile} (h : Quiet f) {bno : Nat} (hbno : SBLOCK ≤ bno)
    {bf : List UInt8} (hbf : ∀ i, i % DEV_SECTOR_SIZE < 4 → bf.getD i 0 = 0) :
    Quiet (wtfs 0 bno bf f) := by
  unfold SBLOCK BBSIZE DEV_BSIZE at hbno
  intro i hi
  have hquiet := h i hi
  unfold DEV_SECTOR_SIZE UFS_SBLOCK_OFFSET at hi
  show (if 0 + bno * DEV_BSIZE ≤ i ∧ i < 0 + bno * DEV_BSIZE + bf.length then
    bf.getD (i - (0 + bno * DEV_BSIZE)) 0 else if i < f.size then f.byte i else 0) = 0
  unfold DEV_BSIZE
  split
  · refine hbf _ ?_
    unfold DEV_SECTOR_SIZE
    omega
  · split
    · exact hquiet
    · rfl

/-- What is loaded from an area that is quiet is quiet. -/
theorem getD_load_quiet {a : Nat → UInt8} {off n i : Nat}
    (h : a (off + i) = 0) : (load a off n).getD i 0 = 0 := by
  by_cases hi : i < n
  · rw [getD_load 0 hi, h]
  · exact List.getD_eq_default _ _ (by rw [length_load]; omega)

/-- No field of the superblock lies at the start of a label sector. -/
theorem superblockBytes_quiet (fs : Fs) {i : Nat} (hi : i % DEV_SECTOR_SIZE < 4) :
    superblockBytes fs (fun _ => 0) i = 0 := by
  unfold DEV_SECTOR_SIZE at hi
  unfold superblockBytes
  simp (disch := omega) only [putBe_out]

theorem Quiet.writeSuperblock {f : ByteFile} (h : Quiet f) (fs : Fs) {bno : Nat}
    (hbno : SBLOCK ≤ bno) : Quiet (writeSuperblock 0 fs (fun _ => 0) bno f) :=
  h.wtfs hbno fun i hi => getD_load_quiet (by
    rw [Nat.zero_add]
    exact superblockBytes_quiet fs hi)

theorem megabyteImage_quiet : Quiet megabyteImage := by
  have hblank : Quiet ⟨1024 * 1024, fun _ => 0⟩ := fun _ _ => rfl
  have hsummary : Quiet (writeSummary 0 megabyteFs (fun _ => 0)
      (writeSuperblock 0 megabyteFs (fun _ => 0) SBLOCK
        ⟨1024 * 1024, fun _ => 0⟩)) := by
    refine Loop.forLoop_induct (I := fun _ f => Quiet f) (fun i f _ hf => ?_) _ _ _
      (hblank.writeSuperblock megabyteFs (Nat.le_refl _))
    refine hf.wtfs ?_ fun j _ => getD_load_quiet rfl
    show 8 ≤ (56 + i / 1024) <<< 0
    rw [Nat.shiftLeft_zero]
    omega
  refine Loop.forLoop_induct (I := fun _ f => Quiet f) (fun c f _ hf => ?_) _ _ _
    hsummary
  refine hf.writeSuperblock megabyteFs ?_
  show 8 ≤ (_ + 16) <<< 0
  rw [Nat.shiftLeft_zero]
  omega

/-- No sector of a quiet file begins with a label's version. -/
theorem Quiet.noLabel {g : ByteFile} (h : Quiet g) : NoLabel g := by
  intro off hoff
  obtain ⟨hmod, -⟩ := mem_offsetsUpTo.1 hoff
  cases hdl : labelDecode (areaAt g off) (min DEFAULT_SCAN_LIMIT g.size - off) off with
  | none => rfl
  | some dl =>
    obtain ⟨rfl, -, hversion, -⟩ := labelDecode_eq_some.1 hdl
    have hbyte : ∀ k < 4, areaAt g off k = 0 := by
      intro k hk
      refine h (off + k) (Or.inl ?_)
      unfold DEV_SECTOR_SIZE at hmod ⊢
      omega
    have hzero : (labelFields (areaAt g off) off).version = 0 := by
      show (((0 * 2 ^ 8 + (areaAt g off (0 + 0)).toNat) * 2 ^ 8
        + (areaAt g off (0 + 1)).toNat) * 2 ^ 8
        + (areaAt g off (0 + 2)).toNat) * 2 ^ 8 + (areaAt g off (0 + 3)).toNat = 0
      rw [hbyte _ (by decide), hbyte _ (by decide), hbyte _ (by decide),
        hbyte _ (by decide)]
      rfl
    rw [hzero] at hversion
    exact absurd hversion (by decide)

theorem Quiet.raw {g : ByteFile} (h : Quiet g) : RawFile g := by
  have hbyte : ∀ i < 0x200, Vdi.fileByte g i = 0 := by
    intro i hi
    unfold Vdi.fileByte ByteFile.byteAt
    rw [h i (Or.inr (by unfold UFS_SBLOCK_OFFSET; omega))]
    split <;> rfl
  unfold RawFile Vdi.le32At Vdi.VDI_SIG_OFF
  rw [hbyte _ (by omega), hbyte _ (by omega), hbyte _ (by omega),
    hbyte _ (by omega)]
  decide

theorem Quiet.zeroed {f : ByteFile} (h : Quiet f) : Quiet (zeroed f) := by
  intro i hi
  show (if _ then (0 : UInt8) else f.byte i) = 0
  split
  · rfl
  · exact h i hi

/-- **The copy of group 0 is taken** when the superblock of a megabyte is
cleared. -/
theorem zeroedImage_shifted :
    Formatted 0 megabyteOpts megabyteFs megabyteImage ∧ RawFile megabyteImage
      ∧ Overwritten megabyteImage (zeroed megabyteImage)
      ∧ NoLabel (zeroed megabyteImage)
      ∧ ∃ opened, openFile [] (zeroed megabyteImage) = .ok opened
        ∧ opened.sliceBase ≠ 0 :=
  ⟨megabyteImage_formatted, megabyteImage_quiet.raw, zeroed_overwritten _,
    megabyteImage_quiet.zeroed.noLabel,
    copy_taken megabyteImage_formatted megabyteImage_quiet.raw
      (zeroed_overwritten _) megabyteImage_quiet.zeroed.noLabel []
      (zeroed_refused _)⟩

/-- The cleared megabyte is not opened as it was formatted. -/
theorem zeroedImage_not_at_zero :
    ¬∀ opened, openFile [] (zeroed megabyteImage) = .ok opened →
      opened.sliceBase = 0 := by
  intro h
  have haccept := (opens_at_base_zero_iff megabyteImage_formatted
    megabyteImage_quiet.raw (zeroed_overwritten _)
    megabyteImage_quiet.zeroed.noLabel []).1 h
  rw [zeroed_refused] at haccept
  cases haccept

end NextUfs.Label
