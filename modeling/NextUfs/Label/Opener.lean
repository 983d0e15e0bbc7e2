/-
  NextUfs.Label.Opener
  ────────────────────
  **HOW AN IMAGE IS OPENED.**

  `nextufs_open_with_mode`: the opener looks for a disk label whose slice holds
  a superblock, and where there is none for the superblock's magic number at
  every fourth byte.

    • `decodeSuperblock` — the fields of a superblock,
    • `openAtLabel`      — a label that is followed,
    • `openAtMagic`      — a magic number that is taken for the superblock's,
    • `openWithMode`     — the two searches,
    • `openFile`         — on a raw image or a VDI,
    • `openWithMode_superblock` — the superblock of an open image has the magic
      number and sizes that are not zero.
-/
import NextUfs.Label.DiskLabel
import NextUfs.Vdi.Reopen

namespace NextUfs.Label

open Host Window Fields

/-! ## §1. The superblock. -/

def UFS_FS_MAGIC : Nat := 0x00011954
def UFS_SBLOCK_OFFSET : Nat := 0x2000
def UFS_SUPER_MAGIC_OFFSET : Nat := 0x55c
def DEFAULT_SCAN_LIMIT : Nat := 32 * 1024 * 1024

/-- Bytes of a superblock the opener reads. -/
def SUPER_READ_SIZE : Nat := 2048

/-- `decode_superblock`. -/
def decodeSuperblock (buf : Nat → UInt8) : Superblock where
  sbOff := beAt buf 0x08 4
  cgOff := beAt buf 0x0c 4
  inoOff := beAt buf 0x10 4
  dataOff := beAt buf 0x14 4
  cgDelta := beAt buf 0x18 4
  cgCycMask := beAt buf 0x1c 4
  fragCount := beAt buf 0x24 4
  cgCount := beAt buf 0x2c 4
  blockSize := beAt buf 0x30 4
  fragSize := beAt buf 0x34 4
  fragsPerBlock := beAt buf 0x38 4
  sectorsPerFrag := beAt buf 0x7c 4
  cylSummaryAddr := beAt buf 0x98 4
  csumSize := beAt buf 0x9c 4
  cgSize := beAt buf 0xa0 4
  sectorsPerTrack := beAt buf 0xa8 4
  sectorsPerCyl := beAt buf 0xac 4
  ncyl := beAt buf 0xb0 4
  cpg := beAt buf 0xb4 4
  inodesPerGroup := beAt buf 0xb8 4
  inodesPerBlock := beAt buf 0x78 4
  fragsPerGroup := beAt buf 0xbc 4

/-- The only checks the opener makes of a superblock. -/
def superblockAccepted (buf : Nat → UInt8) : Bool :=
  beAt buf UFS_SUPER_MAGIC_OFFSET 4 == UFS_FS_MAGIC
    && (decodeSuperblock buf).blockSize != 0
    && (decodeSuperblock buf).fragSize != 0

/-! ## §2. The opener. -/

/-- An image behind its backend: its size, and reads by offset and length. -/
structure Backing where
  imageSize : Nat
  readExact : Nat → Nat → Except Errno (Nat → UInt8)

/-- A raw image is its file. -/
def rawBacking (f : ByteFile) : Backing where
  imageSize := f.size
  readExact off n :=
    if off + n ≤ f.size then .ok (areaAt f off) else .error Errno.EIO

/-- The fields of `struct nextufs_image` that are set when it is opened; the
label's where one is used. -/
structure OpenImage where
  sb : Superblock
  sliceBase : Nat
  sliceSize : Nat
  label : Option DiskLabel

/-- The superblock of a slice, if the opener accepts it. -/
def readSuperblock (img : Backing) (sliceBase : Nat) : Option Superblock :=
  match img.readExact (sliceBase + UFS_SBLOCK_OFFSET) SUPER_READ_SIZE with
  | .error _ => none
  | .ok sbuf =>
    if superblockAccepted sbuf then some (decodeSuperblock sbuf) else none

/-- The scan buffer from `off` on. -/
def scanAt (scanbuf : Nat → UInt8) (off : Nat) : Nat → UInt8 :=
  fun i => scanbuf (off + i)

/-- One round of the search for a label. -/
def openAtLabel (img : Backing) (scanbuf : Nat → UInt8) (scanSize off : Nat) :
    Option OpenImage :=
  if labelIsVersion (beAt (scanAt scanbuf off) 0x00 4) = false then none
  else
    match labelDecode (scanAt scanbuf off) (scanSize - off) off with
    | none => none
    | some dl =>
      match pickSlice dl with
      | none => none
      | some (sliceBase, sliceSize) =>
        let magicOff := sliceBase + UFS_SBLOCK_OFFSET + UFS_SUPER_MAGIC_OFFSET
        if img.imageSize ≤ sliceBase then none
        else if sliceSize = 0 ∨ img.imageSize < sliceBase + sliceSize then none
        else if scanSize < magicOff + 4 then none
        else if beAt scanbuf magicOff 4 ≠ UFS_FS_MAGIC then none
        else
          match readSuperblock img sliceBase with
          | none => none
          | some sb => some ⟨sb, sliceBase, sliceSize, some dl⟩

/-- One round of the search for the magic number. -/
def openAtMagic (img : Backing) (scanbuf : Nat → UInt8) (off : Nat) :
    Option OpenImage :=
  if beAt scanbuf off 4 ≠ UFS_FS_MAGIC then none
  else if off < UFS_SUPER_MAGIC_OFFSET then none
  else if off < UFS_SUPER_MAGIC_OFFSET + UFS_SBLOCK_OFFSET then none
  else
    let sliceBase := off - UFS_SUPER_MAGIC_OFFSET - UFS_SBLOCK_OFFSET
    match readSuperblock img sliceBase with
    | none => none
    | some sb => some ⟨sb, sliceBase, img.imageSize - sliceBase, none⟩

/-- `for (off = 0; off + width <= size; off += step)`. -/
def offsetsUpTo (step width size : Nat) : List Nat :=
  ((List.range (size / step + 1)).map (· * step)).filter
    fun off => decide (off + width ≤ size)

/-- `nextufs_open_with_mode`, with a backend. -/
def openWithMode (img : Backing) : Except Errno OpenImage :=
  let scanSize := min DEFAULT_SCAN_LIMIT img.imageSize
  match img.readExact 0 scanSize with
  | .error _ => .error Errno.EIO
  | .ok scanbuf =>
    match (offsetsUpTo DEV_SECTOR_SIZE LABEL_DECODE_SIZE
        (min scanSize LABEL_SCAN_LIMIT)).findSome?
          (openAtLabel img scanbuf scanSize) with
    | some opened => .ok opened
    | none =>
      match (offsetsUpTo 4 4 scanSize).findSome? (openAtMagic img scanbuf) with
      | some opened => .ok opened
      | none => .error .EINVAL

/-- A VDI is read through its chain. -/
def vdiBacking (chain : List Vdi.Backend) : Backing where
  imageSize := Vdi.imageSize chain
  readExact off n :=
    match Vdi.backendRead chain n off with
    | .error e => .error e
    | .ok bs => .ok fun i => bs.getD i 0

/-- `nextufs_open_with_mode` on a file; a differencing VDI has the parents that
were found for it. -/
def openFile (parents : List Vdi.Backend) (f : ByteFile) :
    Except Errno OpenImage :=
  match Vdi.initBackend f with
  | .error e => .error e
  | .ok none => openWithMode (rawBacking f)
  | .ok (some v) => openWithMode (vdiBacking (v :: parents))

/-! ## §3. What the searches visit. -/

/-- A field of an area is a field of the file. -/
theorem beAt_areaAt (g : ByteFile) (base off n : Nat) :
    beAt (areaAt g base) off n = beAt g.byte (base + off) n := by
  induction n with
  | zero => rfl
  | succ n ih =>
    show beAt (areaAt g base) off n * 2 ^ 8 + (g.byte (base + (off + n))).toNat =
      beAt g.byte (base + off) n * 2 ^ 8 + (g.byte (base + off + n)).toNat
    rw [ih, Nat.add_assoc]

/-- The magic of a superblock is seen by the scan. -/
theorem magic_of_accepted {g : ByteFile} {base : Nat}
    (h : superblockAccepted (areaAt g base) = true) :
    beAt (areaAt g 0) (base + UFS_SUPER_MAGIC_OFFSET) 4 = UFS_FS_MAGIC := by
  unfold superblockAccepted at h
  rw [Bool.and_eq_true, Bool.and_eq_true, beq_iff_eq] at h
  rw [beAt_areaAt, Nat.zero_add, ← beAt_areaAt]
  exact h.1.1

theorem mem_offsetsUpTo {step width size off : Nat} :
    off ∈ offsetsUpTo step width size ↔
      off % step = 0 ∧ off + width ≤ size := by
  unfold offsetsUpTo
  rw [List.mem_filter, List.mem_map, decide_eq_true_iff]
  constructor
  · rintro ⟨⟨k, -, rfl⟩, hle⟩
    exact ⟨Nat.mul_mod_left k step, hle⟩
  · rintro ⟨hmod, hle⟩
    have hoff : off / step * step = off :=
      Nat.div_mul_cancel (Nat.dvd_of_mod_eq_zero hmod)
    refine ⟨⟨off / step, List.mem_range.2 ?_, hoff⟩, hle⟩
    have hdiv : off / step ≤ size / step := Nat.div_le_div_right (by omega)
    omega

/-- The offsets ascend. -/
theorem offsetsUpTo_ascending {step width size : Nat} (hstep : 0 < step) :
    (offsetsUpTo step width size).Pairwise (· < ·) := by
  unfold offsetsUpTo
  apply List.Pairwise.filter
  rw [List.pairwise_map]
  exact List.pairwise_lt_range.imp fun h => Nat.mul_lt_mul_of_pos_right h hstep

/-- **The first hit of an ascending search.** -/
theorem findSome_first {β : Type} {f : Nat → Option β} {l : List Nat} {a : Nat}
    {b : β} (hasc : l.Pairwise (· < ·)) (ha : a ∈ l) (hb : f a = some b)
    (hbefore : ∀ c ∈ l, c < a → f c = none) : l.findSome? f = some b := by
  induction l with
  | nil => exact absurd ha List.not_mem_nil
  | cons c l ih =>
    obtain ⟨hlt, hasc⟩ := List.pairwise_cons.1 hasc
    rcases List.mem_cons.1 ha with rfl | ha
    · rw [List.findSome?_cons, hb]
    · rw [List.findSome?_cons, hbefore c List.mem_cons_self (hlt a ha)]
      exact ih hasc ha fun c hc => hbefore c (List.mem_cons_of_mem _ hc)

theorem readSuperblock_eq_some {img : Backing} {base : Nat} {sb : Superblock} :
    readSuperblock img base = some sb ↔
      ∃ sbuf, img.readExact (base + UFS_SBLOCK_OFFSET) SUPER_READ_SIZE = .ok sbuf
        ∧ superblockAccepted sbuf = true ∧ decodeSuperblock sbuf = sb := by
  unfold readSuperblock
  cases img.readExact (base + UFS_SBLOCK_OFFSET) SUPER_READ_SIZE with
  | error e => exact iff_of_false nofun (by rintro ⟨_, h, -⟩; cases h)
  | ok sbuf =>
    show (if superblockAccepted sbuf then some (decodeSuperblock sbuf) else none)
      = some sb ↔ _
    by_cases haccept : superblockAccepted sbuf = true
    · rw [if_pos haccept, Option.some.injEq]
      constructor
      · intro h
        exact ⟨sbuf, rfl, haccept, h⟩
      · rintro ⟨_, h, -, hsb⟩
        cases h
        exact hsb
    · rw [if_neg haccept]
      refine iff_of_false nofun ?_
      rintro ⟨_, h, haccept', -⟩
      cases h
      exact haccept haccept'

/-- A hit of the first search. -/
theorem openAtLabel_eq_some {img : Backing} {scanbuf : Nat → UInt8}
    {scanSize off : Nat} {opened : OpenImage} :
    openAtLabel img scanbuf scanSize off = some opened ↔
      ∃ dl base size sb,
        labelDecode (scanAt scanbuf off) (scanSize - off) off = some dl
        ∧ pickSlice dl = some (base, size)
        ∧ base < img.imageSize ∧ size ≠ 0 ∧ base + size ≤ img.imageSize
        ∧ base + UFS_SBLOCK_OFFSET + UFS_SUPER_MAGIC_OFFSET + 4 ≤ scanSize
        ∧ beAt scanbuf (base + UFS_SBLOCK_OFFSET + UFS_SUPER_MAGIC_OFFSET) 4 =
          UFS_FS_MAGIC
        ∧ readSuperblock img base = some sb
        ∧ opened = ⟨sb, base, size, some dl⟩ := by
  unfold openAtLabel
  by_cases hversion : labelIsVersion (beAt (scanAt scanbuf off) 0x00 4) = false
  · rw [if_pos hversion]
    refine iff_of_false nofun ?_
    rintro ⟨dl, base, size, sb, hdl, -⟩
    obtain ⟨rfl, -, hv, -⟩ := labelDecode_eq_some.1 hdl
    exact absurd (hv.symm.trans hversion) (by decide)
  rw [if_neg hversion]
  cases hdl : labelDecode (scanAt scanbuf off) (scanSize - off) off with
  | none => exact iff_of_false nofun (by rintro ⟨_, _, _, _, h, -⟩; cases h)
  | some dl =>
  cases hpick : pickSlice dl with
  | none =>
    dsimp only
    rw [hpick]
    refine iff_of_false nofun ?_
    rintro ⟨_, _, _, _, h, h', -⟩
    cases h
    rw [hpick] at h'
    cases h'
  | some slice =>
  obtain ⟨base, size⟩ := slice
  dsimp only
  rw [hpick]
  dsimp only
  constructor
  · intro h
    split at h
    · cases h
    rename_i hbase
    split at h
    · cases h
    rename_i hsize
    split at h
    · cases h
    rename_i hscan
    split at h
    · cases h
    rename_i hmagic
    cases hsb : readSuperblock img base with
    | none =>
      rw [hsb] at h
      cases h
    | some sb =>
      rw [hsb] at h
      cases h
      exact ⟨dl, base, size, sb, rfl, hpick, by omega,
        fun h0 => hsize (Or.inl h0), by omega, by omega, not_not.1 hmagic, hsb,
        rfl⟩
  · rintro ⟨_, _, _, sb, h, h', hbase, hsize, hend, hscan, hmagic, hsb, rfl⟩
    cases h
    rw [hpick] at h'
    cases h'
    rw [if_neg (by omega), if_neg (by omega), if_neg (by omega),
      if_neg (not_not.2 hmagic), hsb]

/-- A hit of the second search. -/
theorem openAtMagic_eq_some {img : Backing} {scanbuf : Nat → UInt8}
    {off : Nat} {opened : OpenImage} :
    openAtMagic img scanbuf off = some opened ↔
      ∃ sb, beAt scanbuf off 4 = UFS_FS_MAGIC
        ∧ UFS_SUPER_MAGIC_OFFSET + UFS_SBLOCK_OFFSET ≤ off
        ∧ readSuperblock img (off - UFS_SUPER_MAGIC_OFFSET - UFS_SBLOCK_OFFSET)
          = some sb
        ∧ opened = ⟨sb, off - UFS_SUPER_MAGIC_OFFSET - UFS_SBLOCK_OFFSET,
          img.imageSize - (off - UFS_SUPER_MAGIC_OFFSET - UFS_SBLOCK_OFFSET),
          none⟩ := by
  unfold openAtMagic
  constructor
  · intro h
    split at h
    · cases h
    rename_i hmagic
    split at h
    · cases h
    split at h
    · cases h
    rename_i hlow
    dsimp only at h
    cases hsb : readSuperblock img
        (off - UFS_SUPER_MAGIC_OFFSET - UFS_SBLOCK_OFFSET) with
    | none =>
      rw [hsb] at h
      cases h
    | some sb =>
      rw [hsb] at h
      cases h
      exact ⟨sb, not_not.1 hmagic, by omega, rfl, rfl⟩
  · rintro ⟨sb, hmagic, hlow, hsb, rfl⟩
    rw [if_neg (not_not.2 hmagic), if_neg (by omega), if_neg (by omega)]
    dsimp only
    rw [hsb]

/-- **The superblock of an open image** has the magic number, and its two sizes
are not zero; the opener asks for nothing else. -/
theorem openWithMode_superblock {img : Backing} {opened : OpenImage}
    (h : openWithMode img = .ok opened) :
    ∃ sbuf, img.readExact (opened.sliceBase + UFS_SBLOCK_OFFSET)
        SUPER_READ_SIZE = .ok sbuf
      ∧ superblockAccepted sbuf = true ∧ decodeSuperblock sbuf = opened.sb := by
  unfold openWithMode at h
  dsimp only at h
  cases hscan : img.readExact 0 (min DEFAULT_SCAN_LIMIT img.imageSize) with
  | error e =>
    rw [hscan] at h
    cases h
  | ok scanbuf =>
  rw [hscan] at h
  dsimp only at h
  cases hlabel : (offsetsUpTo DEV_SECTOR_SIZE LABEL_DECODE_SIZE
      (min (min DEFAULT_SCAN_LIMIT img.imageSize) LABEL_SCAN_LIMIT)).findSome?
        (openAtLabel img scanbuf (min DEFAULT_SCAN_LIMIT img.imageSize)) with
  | some found =>
    rw [hlabel] at h
    cases h
    obtain ⟨off, -, hoff⟩ := List.exists_of_findSome?_eq_some hlabel
    obtain ⟨dl, base, size, sb, -, -, -, -, -, -, -, hsb, rfl⟩ :=
      openAtLabel_eq_some.1 hoff
    exact readSuperblock_eq_some.1 hsb
  | none =>
    rw [hlabel] at h
    dsimp only at h
    cases hmagic : (offsetsUpTo 4 4 (min DEFAULT_SCAN_LIMIT
        img.imageSize)).findSome? (openAtMagic img scanbuf) with
    | none =>
      rw [hmagic] at h
      cases h
    | some found =>
      rw [hmagic] at h
      cases h
      obtain ⟨off, -, hoff⟩ := List.exists_of_findSome?_eq_some hmagic
      obtain ⟨sb, -, -, hsb, rfl⟩ := openAtMagic_eq_some.1 hoff
      exact readSuperblock_eq_some.1 hsb

/-! ## §4. Raw images. -/

/-- The first bytes of a file can be read. -/
theorem header_reads {g : ByteFile} {n : Nat} (hsize : n ≤ g.size)
    (hn : n ≤ OFFSET_END) : ∃ bs, Reads g.byteAt 0 n bs := by
  refine ⟨(List.range n).map g.byte, by rw [List.length_map, List.length_range],
    fun k hk => ?_⟩
  unfold ByteFile.byteAt
  rw [Nat.zero_add, if_pos (by omega), List.getElem?_map, List.getElem?_range hk]
  rfl

/-- A header without the signature is not that of a virtual disk. -/
theorem initBackend_header {g : ByteFile} {bs : List UInt8}
    (hread : g.pread 0 512 = some bs)
    (hsig : Vdi.readLe32 (bs.drop Vdi.VDI_SIG_OFF) ≠ Vdi.VDI_SIGNATURE) :
    Vdi.initBackend g = .ok none := by
  unfold Vdi.initBackend
  rw [hread]
  exact if_pos hsig

/-- A file without the signature is a raw image. -/
theorem initBackend_raw {g : ByteFile} (hsize : 512 ≤ g.size)
    (hsig : Vdi.le32At g Vdi.VDI_SIG_OFF ≠ Vdi.VDI_SIGNATURE) :
    Vdi.initBackend g = .ok none := by
  obtain ⟨bs, hreads⟩ := header_reads hsize (by decide)
  have hread : g.pread 0 512 = some bs :=
    (ByteFile.pread_eq_some g 512 0 _).2 hreads
  have hfield : Vdi.readLe32 (bs.drop Vdi.VDI_SIG_OFF) =
      Vdi.le32At g Vdi.VDI_SIG_OFF := by
    rw [Vdi.readLe32_drop hreads (by decide), Nat.zero_add]
  exact initBackend_header hread (by rw [hfield]; exact hsig)

end NextUfs.Label
