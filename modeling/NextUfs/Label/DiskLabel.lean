/-
  NextUfs.Label.DiskLabel
  ───────────────────────
  **THE DISK LABEL.**

  `label.c`: a label describes the partitions of a disk in about seven
  kilobytes, of which several copies stand at the start of the image.  It is
  written and read by byte offset, by two programs that share no code.

    • `labelDecode`   — a copy as the readers see it, or none,
    • `pickSlice`     — where the root partition lies,
    • `labelCopy`     — the bytes of a new copy,
    • `labelWritePath` — the four copies of a new image,
    • `labelPatchSliceSizeFd` — the size of the root partition changed in
      place, in every copy that describes the slice.

  A buffer is a byte area; the host may refuse a write at an offset with an
  error of its own.
-/
import NextUfs.Core.Types
import NextUfs.Lib.Fields
import NextUfs.Lib.HostFile

namespace NextUfs.Label

open Host Window Fields

/-! ## §1. Offsets. -/

def DEV_SECTOR_SIZE : Nat := 512
def LABEL_COPY_COUNT : Nat := 4
def LABEL_COPY_STRIDE : Nat := 7680
def LABEL_VALIDATE_SIZE : Nat := 0x660
def LABEL_WRITE_SIZE : Nat := 0x300
def LABEL_CKSUM_SIZE : Nat := 0x230
def LABEL_FRONT_PORCH_BYTES : Nat := 160 * 1024
def LABEL_SECTOR_SIZE : Nat := 1024
def LABEL_SCAN_LIMIT : Nat := 128 * 1024
def LABEL_DECODE_SIZE : Nat := 0x1c5a
def LABEL_PART_COUNT : Nat := 8
def LABEL_NAME_LEN : Nat := 24
def LABEL_FSTYPE_LEN : Nat := 8

def DL_V1 : Nat := 0x4e655854
def DL_V2 : Nat := 0x646c5632
def DL_V3 : Nat := 0x646c5633
def DL_DISKTAB_OFF : Nat := 0x2c
def DL_V3_CKSUM_OFF : Nat := 0x22e
def DL_CKSUM_OFF : Nat := 0x1c58

/-- Fields of the disk table, from the start of a copy. -/
def DT_NAME_OFF : Nat := DL_DISKTAB_OFF + 0x00
def DT_TYPE_OFF : Nat := DL_DISKTAB_OFF + 0x18
def DT_SECSIZE_OFF : Nat := DL_DISKTAB_OFF + 0x32
def DT_NTRACKS_OFF : Nat := DL_DISKTAB_OFF + 0x36
def DT_NSECTORS_OFF : Nat := DL_DISKTAB_OFF + 0x3a
def DT_NCYLINDERS_OFF : Nat := DL_DISKTAB_OFF + 0x3e
def DT_RPM_OFF : Nat := DL_DISKTAB_OFF + 0x42
def DT_FRONT_OFF : Nat := DL_DISKTAB_OFF + 0x44
def DT_BACK_OFF : Nat := DL_DISKTAB_OFF + 0x46
def DT_BOOT0_BLKNO_OFF : Nat := DL_DISKTAB_OFF + 0x56
def DT_BOOTFILE_OFF : Nat := DL_DISKTAB_OFF + 0x58
def DT_HOSTNAME_OFF : Nat := DL_DISKTAB_OFF + 0x70
def DT_ROOTPART_OFF : Nat := DL_DISKTAB_OFF + 0x90
def DT_RWPART_OFF : Nat := DL_DISKTAB_OFF + 0x91
def DT_PARTITIONS_OFF : Nat := DL_DISKTAB_OFF + 0x94
def DT_PARTITION_SIZE : Nat := 0x40

def PART_BASE_OFF : Nat := 0x00
def PART_SIZE_OFF : Nat := 0x03
def PART_BSIZE_OFF : Nat := 0x06
def PART_FSIZE_OFF : Nat := 0x08
def PART_OPT_OFF : Nat := 0x0a
def PART_CPG_OFF : Nat := 0x0c
def PART_DENSITY_OFF : Nat := 0x0e
def PART_MINFREE_OFF : Nat := 0x10
def PART_NEWFS_OFF : Nat := 0x11
def PART_AUTOMNT_OFF : Nat := 0x22
def PART_TYPE_OFF : Nat := 0x23

/-- The letter of the first partition. -/
def PART_A : Nat := 0x61

/-- Partition `i`, from the start of a copy. -/
def partOff (i : Nat) : Nat := DT_PARTITIONS_OFF + i * DT_PARTITION_SIZE

/-- The bytes of a text of the source. -/
def ascii (s : List Char) : List UInt8 := s.map fun c => UInt8.ofNat c.toNat

/-- `"4.3BSD"`. -/
def BSD : List UInt8 := ascii ['4', '.', '3', 'B', 'S', 'D']

/-! ## §2. The checksum. -/

/-- One word of the sum, with its carry added back. -/
def addWord (sum word : Nat) : Nat :=
  if 65535 < sum + word then sum + word - 65535 else sum + word

/-- `checksum_be16`. -/
def checksumBe16 (buf : Nat → UInt8) (size : Nat) : Nat :=
  (List.range (size / 2)).foldl
    (fun sum k => addWord sum (beAt buf (2 * k) 2)) 0 % 2 ^ 16

/-- A copy without the fields its checksum leaves out: its block number and
the checksum itself. -/
def blanked (buf : Nat → UInt8) : Nat → UInt8 :=
  putBe (putBe buf 0x04 4 0) DL_V3_CKSUM_OFF 2 0

/-- The checksum of a copy. -/
def labelChecksum (buf : Nat → UInt8) : Nat :=
  checksumBe16 (blanked buf) LABEL_CKSUM_SIZE

/-! ## §3. Decoding. -/

/-- `struct nextufs_label_partition`. -/
structure LabelPartition where
  present : Bool
  baseBlocks : Nat
  sizeBlocks : Nat
  blockSize : Nat
  fragSize : Nat
  type : List UInt8

/-- `struct nextufs_disk_label`. -/
structure DiskLabel where
  labelOff : Nat
  version : Nat
  labelBlkno : Nat
  secsize : Nat
  front : Nat
  name : List UInt8
  rootpartition : Nat
  part : Nat → LabelPartition
  checksum : Nat
  checksumValid : Bool
  checksumPresent : Bool

/-- `nextufs_label_is_version`. -/
def labelIsVersion (version : Nat) : Bool :=
  version == DL_V1 || version == DL_V2 || version == DL_V3

/-- `copy_cstr_field`. -/
def copyCstrField (dstSize : Nat) (buf : Nat → UInt8) (off n : Nat) :
    List UInt8 := (textAt buf off n).take (dstSize - 1)

/-- The partition at `p`. -/
def decodePartition (buf : Nat → UInt8) (p : Nat) : LabelPartition :=
  let allZero := (load buf p DT_PARTITION_SIZE).all (· == 0)
  let allFf := (load buf p DT_PARTITION_SIZE).all (· == 0xff)
  let baseBlocks := beAt buf (p + PART_BASE_OFF) 3
  let sizeBlocks := beAt buf (p + PART_SIZE_OFF) 3
  let blockSize := beAt buf (p + PART_BSIZE_OFF) 2
  let fragSize := beAt buf (p + PART_FSIZE_OFF) 2
  let type := copyCstrField (LABEL_FSTYPE_LEN + 1) buf (p + PART_TYPE_OFF)
    LABEL_FSTYPE_LEN
  { present := !allZero && !allFf && baseBlocks != 0xffffff &&
      sizeBlocks != 0 && sizeBlocks != 0xffffff && blockSize != 0 &&
      blockSize != 0xffff && fragSize != 0 && fragSize != 0xffff &&
      decide (fragSize ≤ blockSize) && type != []
    baseBlocks, sizeBlocks, blockSize, fragSize, type }

/-- The fields of a copy at `off` of the image. -/
def labelFields (buf : Nat → UInt8) (off : Nat) : DiskLabel :=
  let version := beAt buf 0x00 4
  let checksum :=
    if version = DL_V3 then beAt buf DL_V3_CKSUM_OFF 2
    else beAt buf DL_CKSUM_OFF 2
  { labelOff := off
    version
    labelBlkno := beAt buf 0x04 4
    secsize := beAt buf DT_SECSIZE_OFF 2
    front := beAt buf DT_FRONT_OFF 2
    name := copyCstrField (LABEL_NAME_LEN + 1) buf 0x0c LABEL_NAME_LEN
    rootpartition := (buf DT_ROOTPART_OFF).toNat
    part := fun i => decodePartition buf (partOff i)
    checksum
    checksumValid := version == DL_V3 && labelChecksum buf == checksum
    checksumPresent := checksum != 0 }

/-- `nextufs_label_decode`: the `size` bytes of a buffer as a label that
stands at `off` of the image. -/
def labelDecode (buf : Nat → UInt8) (size off : Nat) : Option DiskLabel :=
  let dl := labelFields buf off
  if size < LABEL_DECODE_SIZE then none
  else if labelIsVersion dl.version = false then none
  else if dl.secsize = 0 ∨ dl.secsize % DEV_SECTOR_SIZE ≠ 0 then none
  else if dl.labelBlkno * DEV_SECTOR_SIZE ≠ off then none
  else if dl.checksumPresent = true ∧ dl.checksumValid = false then none
  else some dl

/-- First byte and length of a partition, in bytes. -/
def DiskLabel.slice (dl : DiskLabel) (i : Nat) : Nat × Nat :=
  ((dl.front + (dl.part i).baseBlocks) * dl.secsize,
    (dl.part i).sizeBlocks * dl.secsize)

/-- `dl->part[i].present && dl->part[i].size_blocks != 0`. -/
def DiskLabel.used (dl : DiskLabel) (i : Nat) : Bool :=
  (dl.part i).present && (dl.part i).sizeBlocks != 0

/-- `nextufs_label_pick_slice`. -/
def pickSlice (dl : DiskLabel) : Option (Nat × Nat) :=
  if PART_A ≤ dl.rootpartition ∧ dl.rootpartition < PART_A + LABEL_PART_COUNT
      ∧ dl.used (dl.rootpartition - PART_A) then
    some (dl.slice (dl.rootpartition - PART_A))
  else
    ((List.range LABEL_PART_COUNT).find? fun i =>
      dl.used i && (dl.part i).type == BSD).map dl.slice

/-! ## §4. Writing a copy. -/

/-- The head of a new copy. -/
def putHead (off totalBlocks : Nat) (label : CString) (buf : Nat → UInt8) :
    Nat → UInt8 :=
  let buf := putBe buf 0x00 4 DL_V3
  let buf := putBe buf 0x04 4 (off / DEV_SECTOR_SIZE)
  let buf := putBe buf 0x08 4 totalBlocks
  putText buf 0x0c LABEL_NAME_LEN label.val

/-- Its disk table. -/
def putDisktab (ncyl : Nat) (buf : Nat → UInt8) : Nat → UInt8 :=
  let buf := putText buf DT_NAME_OFF 24 (ascii ['n', 'e', 'x', 't', 'u', 'f', 's'])
  let buf := putText buf DT_TYPE_OFF 24 (ascii ['f', 'i', 'x', 'e', 'd', '_',
    'r', 'w', '_', 's', 'c', 's', 'i'])
  let buf := putBe buf DT_SECSIZE_OFF 2 LABEL_SECTOR_SIZE
  let buf := putBe buf DT_NTRACKS_OFF 2 4
  let buf := putBe buf DT_NSECTORS_OFF 2 32
  let buf := putBe buf DT_NCYLINDERS_OFF 2 ncyl
  let buf := putBe buf DT_RPM_OFF 2 3600
  let buf := putBe buf DT_FRONT_OFF 2 (LABEL_FRONT_PORCH_BYTES / LABEL_SECTOR_SIZE)
  let buf := putBe buf DT_BACK_OFF 2 0
  let buf := putBe buf DT_BOOT0_BLKNO_OFF 4 32
  let buf := putBe buf (DT_BOOT0_BLKNO_OFF + 4) 4 96
  let buf := putText buf DT_BOOTFILE_OFF 24 (ascii ['s', 'd', 'm', 'a', 'c', 'h'])
  let buf := putText buf DT_HOSTNAME_OFF 32 (ascii ['l', 'o', 'c', 'a', 'l', 'h',
    'o', 's', 't'])
  let buf := store buf DT_ROOTPART_OFF (ascii ['a'])
  store buf DT_RWPART_OFF (ascii ['b'])

/-- Its partitions, of which the first is used. -/
def putPartitions (sliceBlocks : Nat) (buf : Nat → UInt8) : Nat → UInt8 :=
  let part := partOff 0
  let buf := store buf DT_PARTITIONS_OFF
    (List.replicate (LABEL_PART_COUNT * DT_PARTITION_SIZE) 0xff)
  let buf := store buf part (List.replicate DT_PARTITION_SIZE 0)
  let buf := putBe buf (part + PART_BASE_OFF) 3 0
  let buf := putBe buf (part + PART_SIZE_OFF) 3 sliceBlocks
  let buf := putBe buf (part + PART_BSIZE_OFF) 2 8192
  let buf := putBe buf (part + PART_FSIZE_OFF) 2 1024
  let buf := store buf (part + PART_OPT_OFF) (ascii ['t'])
  let buf := putBe buf (part + PART_CPG_OFF) 2 16
  let buf := putBe buf (part + PART_DENSITY_OFF) 2 4096
  let buf := store buf (part + PART_MINFREE_OFF) [10]
  let buf := store buf (part + PART_NEWFS_OFF) [1]
  let buf := store buf (part + PART_AUTOMNT_OFF) [1]
  putText buf (part + PART_TYPE_OFF) LABEL_FSTYPE_LEN BSD

/-- Its checksum, taken and stored with the block number cleared, and then the
block number. -/
def sealLabel (off : Nat) (buf : Nat → UInt8) : Nat → UInt8 :=
  let buf := blanked buf
  let buf := putBe buf DL_V3_CKSUM_OFF 2 (checksumBe16 buf LABEL_CKSUM_SIZE)
  putBe buf 0x04 4 (off / DEV_SECTOR_SIZE)

/-- The buffer of `write_label_copy`. -/
def labelCopy (off totalBlocks sliceBlocks ncyl : Nat) (label : CString) :
    Nat → UInt8 :=
  sealLabel off (putPartitions sliceBlocks (putDisktab ncyl
    (putHead off totalBlocks label fun _ => 0)))

/-! ## §5. The host file. -/

/-- An operation on an open file. -/
abbrev FdOp := EStateM Errno ByteFile

/-- A file's bytes from `off` on. -/
def areaAt (f : ByteFile) (off : Nat) : Nat → UInt8 := fun i => f.byte (off + i)

/-- `nextufs__read_exact_fd`: fails at the end of the file. -/
def readExactFd (off n : Nat) : FdOp (Nat → UInt8) := do
  let f ← get
  if off + n ≤ f.size then return areaAt f off else throw Errno.EIO

/-- `nextufs__write_exact_fd`, where the host answers a write at an offset with
the error of `refuse`, if it has one. -/
def writeExactFd (refuse : Nat → Option Errno) (off : Nat) (data : List UInt8) :
    FdOp Unit :=
  match refuse off with
  | some e => throw e
  | none => modify fun f => f.pwrite off data

/-- `write_label_copy`. -/
def writeLabelCopy (refuse : Nat → Option Errno)
    (off totalBlocks sliceBlocks ncyl : Nat) (label : CString) : FdOp Unit :=
  writeExactFd refuse off
    (load (labelCopy off totalBlocks sliceBlocks ncyl label) 0 LABEL_WRITE_SIZE)

/-- The offsets of the copies of a new image. -/
def copyOffsets : List Nat :=
  (List.range LABEL_COPY_COUNT).map (· * LABEL_COPY_STRIDE)

/-- `nextufs_label_write_path` on an open target.  The sizes are narrowed to
32 bits before they are checked. -/
def labelWritePath (refuse : Nat → Option Errno)
    (imageBytes sliceBytes : Nat) (label : CString) : FdOp Unit := do
  let totalBlocks := imageBytes / LABEL_SECTOR_SIZE % 2 ^ 32
  let sliceBlocks := sliceBytes / LABEL_SECTOR_SIZE % 2 ^ 32
  let ncyl32 := totalBlocks / (4 * 32)
  if 0xffffff < totalBlocks ∨ 0xffffff < sliceBlocks then throw .EFBIG
  else if 0xffff < ncyl32 then throw .EFBIG
  else
    copyOffsets.forM fun off =>
      writeLabelCopy refuse off totalBlocks sliceBlocks ncyl32 label

/-! ## §6. Changing the size of the slice. -/

/-- The copy with another size of a partition, and with its checksum where the
version has one. -/
def patchedLabel (version i sizeBlocks : Nat) (label : Nat → UInt8) :
    Nat → UInt8 :=
  let label := putBe label (partOff i + PART_SIZE_OFF) 3 sizeBlocks
  if version = DL_V3 then putBe label DL_V3_CKSUM_OFF 2 (labelChecksum label)
  else label

/-- `patch_one_label_partition_size`. -/
def patchOneLabel (refuse : Nat → Option Errno) (sliceBase sliceBytes : Nat)
    (labelOff : Nat) : FdOp Bool := do
  let label ← readExactFd labelOff LABEL_VALIDATE_SIZE
  let version := beAt label 0x00 4
  let labelBlkno := beAt label 0x04 4
  let secsize := beAt label DT_SECSIZE_OFF 2
  let front := beAt label DT_FRONT_OFF 2
  let rootpartition := (label DT_ROOTPART_OFF).toNat
  if labelIsVersion version = false then return false
  else if labelBlkno * DEV_SECTOR_SIZE ≠ labelOff then return false
  else if rootpartition < PART_A ∨ PART_A + LABEL_PART_COUNT ≤ rootpartition ∨
      secsize = 0 ∨ sliceBytes % secsize ≠ 0 then return false
  else
    let sizeBlocks := sliceBytes / secsize % 2 ^ 32
    let i := rootpartition - PART_A
    if 0xffffff < sizeBlocks then throw .EFBIG
    else if (front + beAt label (partOff i + PART_BASE_OFF) 3) * secsize
        ≠ sliceBase then return false
    else do
      writeExactFd refuse labelOff
        (load (patchedLabel version i sizeBlocks label) 0 LABEL_VALIDATE_SIZE)
      return true

/-- The sectors a copy may start at. -/
def labelOffsets : List Nat :=
  ((List.range (LABEL_SCAN_LIMIT / DEV_SECTOR_SIZE)).map
    (· * DEV_SECTOR_SIZE)).filter fun off =>
      decide (off + LABEL_VALIDATE_SIZE ≤ LABEL_SCAN_LIMIT)

/-- The loop over them; the offsets of the copies that were patched. -/
def patchLabels (refuse : Nat → Option Errno) (sliceBase sliceBytes : Nat) :
    List Nat → FdOp (List Nat)
  | [] => return []
  | off :: offs => do
    let didPatch ← patchOneLabel refuse sliceBase sliceBytes off
    let patched ← patchLabels refuse sliceBase sliceBytes offs
    return if didPatch then off :: patched else patched

/-- `nextufs_label_patch_slice_size_fd`; its count is the number of offsets. -/
def labelPatchSliceSizeFd (refuse : Nat → Option Errno)
    (sliceBase sliceBytes : Nat) : FdOp (List Nat) := do
  let patched ← patchLabels refuse sliceBase sliceBytes labelOffsets
  if patched = [] then throw .EINVAL else return patched

/-! ## §7. What the fields depend on. -/

section Fields

variable {f g : Nat → UInt8}

theorem checksumBe16_congr {size : Nat} (h : Same f g 0 size) :
    checksumBe16 f size = checksumBe16 g size := by
  have hfold : ∀ (ks : List Nat), (∀ k ∈ ks, 2 * k + 2 ≤ size) → ∀ sum,
      ks.foldl (fun sum k => addWord sum (beAt f (2 * k) 2)) sum =
        ks.foldl (fun sum k => addWord sum (beAt g (2 * k) 2)) sum := by
    intro ks
    induction ks with
    | nil =>
      intro _ sum
      rw [List.foldl_nil, List.foldl_nil]
    | cons k ks ih =>
      intro hks sum
      have hk := hks k List.mem_cons_self
      rw [List.foldl_cons, List.foldl_cons,
        beAt_congr (h.mono (Nat.zero_le _) hk)]
      exact ih (fun j hj => hks j (List.mem_cons_of_mem k hj)) _
  unfold checksumBe16
  rw [hfold]
  intro k hk
  have hlt := List.mem_range.1 hk
  omega

theorem checksumBe16_lt (f : Nat → UInt8) (size : Nat) :
    checksumBe16 f size < 2 ^ 16 := Nat.mod_lt _ (by decide)

/-- The block number and the checksum do not count. -/
theorem blanked_same
    (h : ∀ i < LABEL_CKSUM_SIZE, (i < 0x04 ∨ 0x08 ≤ i) →
      (i < DL_V3_CKSUM_OFF ∨ DL_V3_CKSUM_OFF + 2 ≤ i) → f i = g i) :
    Same (blanked f) (blanked g) 0 LABEL_CKSUM_SIZE := by
  have hzero : ∀ buf : Nat → UInt8, ∀ i, (0x04 ≤ i ∧ i < 0x08 ∨
      DL_V3_CKSUM_OFF ≤ i ∧ i < DL_V3_CKSUM_OFF + 2) →
      blanked buf i = blanked (fun _ => 0) i := by
    intro buf i hi
    unfold DL_V3_CKSUM_OFF at hi
    unfold blanked DL_V3_CKSUM_OFF
    have hstored : ∀ off n (a b : Nat → UInt8),
        Same (putBe a off n 0) (putBe b off n 0) off (off + n) := by
      intro off n a b
      apply beAt_inj
      rw [beAt_putBe, beAt_putBe]
    rcases hi with hi | hi
    · exact (putBe_out (Or.inl (by omega))).trans
        ((hstored 0x04 4 _ _ i (by omega) (by omega)).trans
          (putBe_out (Or.inl (by omega))).symm)
    · exact hstored 0x22e 2 _ _ i (by omega) (by omega)
  intro i _ hi
  by_cases hin : 0x04 ≤ i ∧ i < 0x08 ∨
      DL_V3_CKSUM_OFF ≤ i ∧ i < DL_V3_CKSUM_OFF + 2
  · rw [hzero f i hin, hzero g i hin]
  · have hout := h i hi (by omega) (by omega)
    unfold blanked
    rw [putBe_out (by omega), putBe_out (by omega), putBe_out (by omega),
      putBe_out (by omega), hout]

theorem labelChecksum_congr
    (h : ∀ i < LABEL_CKSUM_SIZE, (i < 0x04 ∨ 0x08 ≤ i) →
      (i < DL_V3_CKSUM_OFF ∨ DL_V3_CKSUM_OFF + 2 ≤ i) → f i = g i) :
    labelChecksum f = labelChecksum g := checksumBe16_congr (blanked_same h)

/-- **A stored checksum is right**: storing it does not change it. -/
theorem labelChecksum_stored (label : Nat → UInt8) :
    labelChecksum (putBe label DL_V3_CKSUM_OFF 2 (labelChecksum label)) =
      beAt (putBe label DL_V3_CKSUM_OFF 2 (labelChecksum label))
        DL_V3_CKSUM_OFF 2 := by
  rw [beAt_putBe_of_lt (checksumBe16_lt _ _)]
  exact labelChecksum_congr fun i _ _ hi => putBe_out hi

theorem copyCstrField_congr {dstSize off n : Nat} (h : Same f g off (off + n)) :
    copyCstrField dstSize f off n = copyCstrField dstSize g off n := by
  unfold copyCstrField
  rw [textAt_congr h]

end Fields

/-! ## §8. What a label says. -/

/-- The decoder's checks, one by one. -/
theorem labelDecode_eq_some {buf : Nat → UInt8} {size off : Nat}
    {dl : DiskLabel} :
    labelDecode buf size off = some dl ↔
      labelFields buf off = dl ∧ LABEL_DECODE_SIZE ≤ size
        ∧ labelIsVersion dl.version = true
        ∧ dl.secsize ≠ 0 ∧ dl.secsize % DEV_SECTOR_SIZE = 0
        ∧ dl.labelBlkno * DEV_SECTOR_SIZE = off
        ∧ (dl.checksumPresent = true → dl.checksumValid = true) := by
  unfold labelDecode
  dsimp only
  generalize labelFields buf off = fields
  by_cases hsize : size < LABEL_DECODE_SIZE
  · rw [if_pos hsize]
    exact iff_of_false nofun fun h => absurd h.2.1 (by omega)
  rw [if_neg hsize]
  by_cases hversion : labelIsVersion fields.version = false
  · rw [if_pos hversion]
    refine iff_of_false nofun ?_
    rintro ⟨rfl, -, h, -⟩
    rw [hversion] at h
    cases h
  rw [if_neg hversion]
  by_cases hsec : fields.secsize = 0 ∨ fields.secsize % DEV_SECTOR_SIZE ≠ 0
  · rw [if_pos hsec]
    refine iff_of_false nofun ?_
    rintro ⟨rfl, -, -, h1, h2, -⟩
    exact hsec.elim h1 fun h => h h2
  rw [if_neg hsec]
  by_cases hblkno : fields.labelBlkno * DEV_SECTOR_SIZE ≠ off
  · rw [if_pos hblkno]
    refine iff_of_false nofun ?_
    rintro ⟨rfl, -, -, -, -, h, -⟩
    exact hblkno h
  rw [if_neg hblkno]
  by_cases hsum : fields.checksumPresent = true ∧ fields.checksumValid = false
  · rw [if_pos hsum]
    refine iff_of_false nofun ?_
    rintro ⟨rfl, -, -, -, -, -, h⟩
    rw [h hsum.1] at hsum
    cases hsum.2
  · rw [if_neg hsum, Option.some.injEq]
    refine ⟨?_, fun h => h.1⟩
    rintro rfl
    exact ⟨rfl, by omega, Bool.of_not_eq_false hversion,
      fun h => hsec (Or.inl h), not_not.1 fun h => hsec (Or.inr h),
      not_not.1 hblkno,
      fun hpresent => Bool.of_not_eq_false fun h => hsum ⟨hpresent, h⟩⟩

/-- A partition of zeros has no size, and one of ones has no base: the fields
alone decide. -/
theorem decodePartition_present {buf : Nat → UInt8} {p : Nat} :
    (decodePartition buf p).present = true ↔
      (decodePartition buf p).baseBlocks ≠ 0xffffff
        ∧ (decodePartition buf p).sizeBlocks ≠ 0
        ∧ (decodePartition buf p).sizeBlocks ≠ 0xffffff
        ∧ (decodePartition buf p).blockSize ≠ 0
        ∧ (decodePartition buf p).blockSize ≠ 0xffff
        ∧ (decodePartition buf p).fragSize ≠ 0
        ∧ (decodePartition buf p).fragSize ≠ 0xffff
        ∧ (decodePartition buf p).fragSize ≤ (decodePartition buf p).blockSize
        ∧ (decodePartition buf p).type ≠ [] := by
  have hbytes : ∀ b, (load buf p DT_PARTITION_SIZE).all (· == b) = true →
      ∀ i, p ≤ i → i < p + DT_PARTITION_SIZE → buf i = (fun _ => b) i := by
    intro b hall i hlo hhi
    obtain ⟨k, rfl⟩ := Nat.exists_eq_add_of_le hlo
    have hk : k < (load buf p DT_PARTITION_SIZE).length := by
      rw [length_load]
      omega
    have h := List.all_eq_true.1 hall _ (List.getElem_mem hk)
    rw [getElem_load] at h
    exact eq_of_beq h
  have hfields : ∀ b, (load buf p DT_PARTITION_SIZE).all (· == b) = true →
      ∀ o n, o + n ≤ DT_PARTITION_SIZE →
        beAt buf (p + o) n = beAt (fun _ => b) 0 n := by
    intro b hall o n hon
    have hsame : beAt buf (p + o) n = beAt (fun _ => b) (p + o) n :=
      beAt_congr fun i hlo hhi => hbytes b hall i (by omega) (by omega)
    have hconst : ∀ n, beAt (fun _ => b) (p + o) n = beAt (fun _ => b) 0 n := by
      intro n
      induction n with
      | zero => rfl
      | succ n ih =>
        show beAt (fun _ => b) (p + o) n * 2 ^ 8 + _ = beAt (fun _ => b) 0 n * 2 ^ 8 + _
        rw [ih]
    rw [hsame, hconst]
  have hzero : (decodePartition buf p).sizeBlocks ≠ 0 →
      (load buf p DT_PARTITION_SIZE).all (· == 0) = false := by
    intro hne
    by_contra h
    exact hne (hfields 0 (by simpa using h) PART_SIZE_OFF 3 (by decide))
  have hff : (decodePartition buf p).baseBlocks ≠ 0xffffff →
      (load buf p DT_PARTITION_SIZE).all (· == 0xff) = false := by
    intro hne
    by_contra h
    exact hne (hfields 0xff (by simpa using h) PART_BASE_OFF 3 (by decide))
  constructor
  · intro h
    unfold decodePartition at h ⊢
    simp only [Bool.and_eq_true, Bool.not_eq_true', bne_iff_ne, ne_eq,
      decide_eq_true_eq] at h
    obtain ⟨⟨⟨⟨⟨⟨⟨⟨⟨⟨-, -⟩, h1⟩, h2⟩, h3⟩, h4⟩, h5⟩, h6⟩, h7⟩, h8⟩, h9⟩ := h
    exact ⟨h1, h2, h3, h4, h5, h6, h7, h8, h9⟩
  · rintro ⟨h1, h2, h3, h4, h5, h6, h7, h8, h9⟩
    have hz := hzero h2
    have hf := hff h1
    unfold decodePartition at h1 h2 h3 h4 h5 h6 h7 h8 h9 ⊢
    simp only [Bool.and_eq_true, Bool.not_eq_true', bne_iff_ne, ne_eq,
      decide_eq_true_eq]
    exact ⟨⟨⟨⟨⟨⟨⟨⟨⟨⟨hz, hf⟩, h1⟩, h2⟩, h3⟩, h4⟩, h5⟩, h6⟩, h7⟩, h8⟩, h9⟩

/-- The label's root partition is present. -/
def DiskLabel.rootPresent (dl : DiskLabel) : Prop :=
  (PART_A ≤ dl.rootpartition ∧ dl.rootpartition < PART_A + LABEL_PART_COUNT)
    ∧ (dl.part (dl.rootpartition - PART_A)).present = true

/-- The size of a slice that is picked is that of a used partition. -/
theorem pickSlice_used {dl : DiskLabel} {base size : Nat}
    (h : pickSlice dl = some (base, size)) :
    ∃ i, dl.used i = true ∧ size = (dl.part i).sizeBlocks * dl.secsize := by
  unfold pickSlice at h
  split at h
  case isTrue hroot =>
    cases h
    exact ⟨_, hroot.2.2, rfl⟩
  case isFalse =>
    cases hfind : (List.range LABEL_PART_COUNT).find? fun i =>
        dl.used i && (dl.part i).type == BSD with
    | none =>
      rw [hfind] at h
      cases h
    | some i =>
      rw [hfind] at h
      cases h
      have hi := List.find?_some hfind
      rw [Bool.and_eq_true] at hi
      exact ⟨i, hi.1, rfl⟩

/-- A root partition that is present is picked. -/
theorem pickSlice_root {dl : DiskLabel} (h : dl.rootPresent)
    (hsize : (dl.part (dl.rootpartition - PART_A)).sizeBlocks ≠ 0) :
    pickSlice dl = some (dl.slice (dl.rootpartition - PART_A)) := by
  unfold pickSlice
  refine if_pos ⟨h.1.1, h.1.2, ?_⟩
  unfold DiskLabel.used
  rw [h.2, Bool.true_and]
  exact bne_iff_ne.2 hsize

end NextUfs.Label
