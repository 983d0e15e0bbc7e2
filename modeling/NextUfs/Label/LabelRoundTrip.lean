/-
  NextUfs.Label.LabelRoundTrip
  ────────────────────────────
  **A NEW LABEL, READ BACK.**

  The writer puts a copy together by offset and the decoder takes it apart by
  offset.  What the decoder reads is computed field by field, from the part of
  the copy the field lies in:

    • `Holds.decodes`         — a copy decodes to the label that was written,
    • `writeCopies`           — the file after the four copies,
    • `openFile_newLabel`     — the opener follows the first of them,
    • `label_round_trips_iff` — so a new label is read back exactly when the
      size of the image was not cut to 32 bits,
    • `cutSize_written`       — an image of more than four terabytes.
-/
import NextUfs.Label.LabelPatch
import NextUfs.Label.Opener

namespace NextUfs.Label

open Host Window Fields State

/-! ## §1. The parts of a copy. -/

section Parts

variable {buf : Nat → UInt8} {i : Nat}

theorem putText_out {off n : Nat} {s : List UInt8}
    (h : i < off ∨ off + (n - 1) ≤ i) : putText buf off n s i = buf i := by
  apply store_out
  rw [List.length_take]
  omega

theorem beAt_putText_out {off n off' n' : Nat} {s : List UInt8}
    (h : off + n ≤ off' ∨ off' + (n' - 1) ≤ off) :
    beAt (putText buf off' n' s) off n = beAt buf off n :=
  beAt_congr fun _ _ _ => putText_out (by omega)

/-- The disk table lies between the head and the partitions. -/
theorem putDisktab_out (ncyl : Nat) (h : i < DL_DISKTAB_OFF ∨ DT_PARTITIONS_OFF ≤ i) :
    putDisktab ncyl buf i = buf i := by
  unfold DT_PARTITIONS_OFF DL_DISKTAB_OFF at h
  unfold putDisktab DT_NAME_OFF DT_TYPE_OFF DT_SECSIZE_OFF DT_NTRACKS_OFF
    DT_NSECTORS_OFF DT_NCYLINDERS_OFF DT_RPM_OFF DT_FRONT_OFF DT_BACK_OFF
    DT_BOOT0_BLKNO_OFF DT_BOOTFILE_OFF DT_HOSTNAME_OFF DT_ROOTPART_OFF
    DT_RWPART_OFF DL_DISKTAB_OFF
  have hchar : ∀ c, (ascii [c]).length = 1 := fun _ => rfl
  simp (disch := first | omega | (simp only [hchar]; omega)) only
    [putBe_out, putText_out, store_out]

/-- The partitions lie behind the disk table. -/
theorem putPartitions_out (sliceBlocks : Nat)
    (h : i < DT_PARTITIONS_OFF ∨ partOff LABEL_PART_COUNT ≤ i) :
    putPartitions sliceBlocks buf i = buf i := by
  unfold partOff DT_PARTITIONS_OFF DL_DISKTAB_OFF LABEL_PART_COUNT
    DT_PARTITION_SIZE at h
  unfold putPartitions partOff PART_BASE_OFF PART_SIZE_OFF PART_BSIZE_OFF
    PART_FSIZE_OFF PART_OPT_OFF PART_CPG_OFF PART_DENSITY_OFF PART_MINFREE_OFF
    PART_NEWFS_OFF PART_AUTOMNT_OFF PART_TYPE_OFF DT_PARTITIONS_OFF
    DL_DISKTAB_OFF LABEL_FSTYPE_LEN
  have hchar : ∀ c, (ascii [c]).length = 1 := fun _ => rfl
  have hone : ∀ b : UInt8, [b].length = 1 := fun _ => rfl
  have hpart : (List.replicate DT_PARTITION_SIZE (0 : UInt8)).length = 0x40 :=
    List.length_replicate
  have hall : (List.replicate (LABEL_PART_COUNT * DT_PARTITION_SIZE)
    (0xff : UInt8)).length = 0x200 := List.length_replicate
  simp (disch := first | omega | (simp only [hchar, hone, hpart, hall]; omega))
    only [putBe_out, putText_out, store_out]

/-- The seal changes the block number and the checksum. -/
theorem sealLabel_out (off : Nat) (hblkno : i < 0x04 ∨ 0x08 ≤ i)
    (hsum : i < DL_V3_CKSUM_OFF ∨ DL_V3_CKSUM_OFF + 2 ≤ i) :
    sealLabel off buf i = buf i := by
  unfold sealLabel blanked
  rw [putBe_out hblkno, putBe_out hsum, putBe_out hsum, putBe_out hblkno]

/-- **A sealed copy has a correct checksum.** -/
theorem labelChecksum_sealed (off : Nat) :
    labelChecksum (sealLabel off buf) =
      beAt (sealLabel off buf) DL_V3_CKSUM_OFF 2 := by
  have hstored : beAt (sealLabel off buf) DL_V3_CKSUM_OFF 2 = labelChecksum buf := by
    unfold sealLabel
    rw [beAt_putBe_out (Or.inr (by decide)),
      beAt_putBe_of_lt (checksumBe16_lt _ _)]
    rfl
  rw [hstored]
  exact labelChecksum_congr fun i _ hblkno hsum => sealLabel_out off hblkno hsum

end Parts

/-! ## §2. The fields of a copy. -/

section Copy

variable {off totalBlocks sliceBlocks ncyl : Nat} {label : CString}

/-- A field of the head. -/
theorem labelCopy_head {o n : Nat} (hlow : o + n ≤ 0x04 ∨ 0x08 ≤ o)
    (hhigh : o + n ≤ DL_DISKTAB_OFF) :
    Same (labelCopy off totalBlocks sliceBlocks ncyl label)
      (putHead off totalBlocks label fun _ => 0) o (o + n) := by
  unfold DL_DISKTAB_OFF at hhigh
  intro i hlo hhi
  unfold labelCopy
  rw [sealLabel_out off (by omega) (Or.inl (by unfold DL_V3_CKSUM_OFF; omega)),
    putPartitions_out _ (Or.inl (by
      unfold DT_PARTITIONS_OFF DL_DISKTAB_OFF
      omega)),
    putDisktab_out _ (Or.inl (by unfold DL_DISKTAB_OFF; omega))]

/-- A field of the disk table. -/
theorem labelCopy_disktab {o n : Nat} (hlow : 0x08 ≤ o)
    (hhigh : o + n ≤ DT_PARTITIONS_OFF) :
    Same (labelCopy off totalBlocks sliceBlocks ncyl label)
      (putDisktab ncyl (putHead off totalBlocks label fun _ => 0)) o (o + n) := by
  unfold DT_PARTITIONS_OFF DL_DISKTAB_OFF at hhigh
  intro i hlo hhi
  unfold labelCopy
  rw [sealLabel_out off (by omega) (Or.inl (by unfold DL_V3_CKSUM_OFF; omega)),
    putPartitions_out _ (Or.inl (by
      unfold DT_PARTITIONS_OFF DL_DISKTAB_OFF
      omega))]

/-- A field of the first partition. -/
theorem labelCopy_part {o n : Nat} (hhigh : o + n ≤ DT_PARTITION_SIZE) :
    Same (labelCopy off totalBlocks sliceBlocks ncyl label)
      (putPartitions sliceBlocks (putDisktab ncyl
        (putHead off totalBlocks label fun _ => 0)))
      (partOff 0 + o) (partOff 0 + o + n) := by
  unfold DT_PARTITION_SIZE at hhigh
  intro i hlo hhi
  unfold partOff DT_PARTITIONS_OFF DL_DISKTAB_OFF at hlo hhi
  exact sealLabel_out off (Or.inr (by omega))
    (Or.inl (by unfold DL_V3_CKSUM_OFF; omega))

/-- A buffer whose first bytes are those of a copy. -/
def Holds (buf : Nat → UInt8) (off totalBlocks sliceBlocks ncyl : Nat)
    (label : CString) : Prop :=
  Same buf (labelCopy off totalBlocks sliceBlocks ncyl label) 0 LABEL_WRITE_SIZE

section Fields

variable {buf : Nat → UInt8}
variable (hbuf : Holds buf off totalBlocks sliceBlocks ncyl label)

include hbuf

theorem Holds.version : (labelFields buf off).version = DL_V3 := by
  have hcopy : beAt buf 0x00 4 =
      beAt (labelCopy off totalBlocks sliceBlocks ncyl label) 0x00 4 :=
    beAt_congr (hbuf.mono (by decide) (by decide))
  show beAt buf 0x00 4 = DL_V3
  rw [hcopy, beAt_congr (labelCopy_head (by decide) (by decide))]
  unfold putHead
  rw [beAt_putText_out (by decide), beAt_putBe_out (by decide),
    beAt_putBe_out (by decide), beAt_putBe]
  decide

theorem Holds.blkno (hoff : off < 2 ^ 41) :
    (labelFields buf off).labelBlkno = off / DEV_SECTOR_SIZE := by
  have hcopy : beAt buf 0x04 4 =
      beAt (labelCopy off totalBlocks sliceBlocks ncyl label) 0x04 4 :=
    beAt_congr (hbuf.mono (by decide) (by decide))
  show beAt buf 0x04 4 = _
  rw [hcopy]
  apply beAt_putBe_of_lt
  unfold DEV_SECTOR_SIZE
  omega

theorem Holds.name : (labelFields buf off).name = label.val.take 23 := by
  have hcopy : textAt buf 0x0c LABEL_NAME_LEN =
      textAt (labelCopy off totalBlocks sliceBlocks ncyl label) 0x0c
        LABEL_NAME_LEN :=
    textAt_congr (hbuf.mono (by decide) (by decide))
  have htext : textAt buf 0x0c LABEL_NAME_LEN = label.val.take 23 := by
    rw [hcopy, textAt_congr (labelCopy_head (by decide) (by decide))]
    apply textAt_putText label.property (by decide)
    intro i hlo _
    rw [putBe_out (Or.inr (by omega)), putBe_out (Or.inr (by omega)),
      putBe_out (Or.inr (by omega))]
  show (textAt buf 0x0c LABEL_NAME_LEN).take LABEL_NAME_LEN = _
  rw [htext, List.take_take]
  rfl

theorem Holds.secsize : (labelFields buf off).secsize = 1024 := by
  have hcopy : beAt buf DT_SECSIZE_OFF 2 =
      beAt (labelCopy off totalBlocks sliceBlocks ncyl label) DT_SECSIZE_OFF 2 :=
    beAt_congr (hbuf.mono (by decide) (by decide))
  show beAt buf DT_SECSIZE_OFF 2 = 1024
  rw [hcopy, beAt_congr (labelCopy_disktab (by decide) (by decide))]
  unfold putDisktab
  simp (disch := decide) only [beAt_store_out, beAt_putText_out,
    beAt_putBe_out, beAt_putBe_of_lt]
  rfl

theorem Holds.front : (labelFields buf off).front = 160 := by
  have hcopy : beAt buf DT_FRONT_OFF 2 =
      beAt (labelCopy off totalBlocks sliceBlocks ncyl label) DT_FRONT_OFF 2 :=
    beAt_congr (hbuf.mono (by decide) (by decide))
  show beAt buf DT_FRONT_OFF 2 = 160
  rw [hcopy, beAt_congr (labelCopy_disktab (by decide) (by decide))]
  unfold putDisktab
  simp (disch := decide) only [beAt_store_out, beAt_putText_out,
    beAt_putBe_out, beAt_putBe_of_lt]
  rfl

theorem Holds.rootpartition : (labelFields buf off).rootpartition = PART_A := by
  have hbyte : buf DT_ROOTPART_OFF = UInt8.ofNat PART_A := by
    rw [hbuf _ (by decide) (by decide),
      labelCopy_disktab (o := DT_ROOTPART_OFF) (n := 1) (by decide) (by decide)
        DT_ROOTPART_OFF (by decide) (by decide)]
    unfold putDisktab
    rw [store_out (Or.inl (by decide))]
    have hone : 0 < (ascii ['a']).length := by decide
    exact store_in hone
  show (buf DT_ROOTPART_OFF).toNat = PART_A
  rw [hbyte]
  decide

theorem Holds.checksumValid : (labelFields buf off).checksumValid = true := by
  have hversion := hbuf.version
  have hstored : (labelFields buf off).checksum = beAt buf DL_V3_CKSUM_OFF 2 :=
    if_pos hversion
  have hcopy : beAt buf DL_V3_CKSUM_OFF 2 =
      beAt (labelCopy off totalBlocks sliceBlocks ncyl label) DL_V3_CKSUM_OFF 2 :=
    beAt_congr (hbuf.mono (by decide) (by decide))
  have hsum : labelChecksum buf =
      labelChecksum (labelCopy off totalBlocks sliceBlocks ncyl label) :=
    labelChecksum_congr fun i hi _ _ => hbuf i (Nat.zero_le i)
      (Nat.lt_trans hi (by decide))
  show ((labelFields buf off).version == DL_V3
    && labelChecksum buf == (labelFields buf off).checksum) = true
  rw [hversion, hstored, hsum, hcopy]
  unfold labelCopy
  rw [labelChecksum_sealed]
  simp

/-- The first partition is the slice. -/
theorem Holds.part (hblocks : sliceBlocks < 2 ^ 24) :
    ((labelFields buf off).part 0).baseBlocks = 0
      ∧ ((labelFields buf off).part 0).sizeBlocks = sliceBlocks
      ∧ ((labelFields buf off).part 0).blockSize = 8192
      ∧ ((labelFields buf off).part 0).fragSize = 1024
      ∧ ((labelFields buf off).part 0).type = BSD := by
  have hfield : ∀ o n, o + n ≤ DT_PARTITION_SIZE →
      beAt buf (partOff 0 + o) n =
        beAt (putPartitions sliceBlocks (putDisktab ncyl
          (putHead off totalBlocks label fun _ => 0))) (partOff 0 + o) n := by
    intro o n hon
    have hin : partOff 0 + o + n ≤ LABEL_WRITE_SIZE := by
      unfold DT_PARTITION_SIZE at hon
      unfold partOff DT_PARTITIONS_OFF DL_DISKTAB_OFF LABEL_WRITE_SIZE
      omega
    rw [beAt_congr (hbuf.mono (Nat.zero_le _) hin),
      beAt_congr (labelCopy_part hon)]
  refine ⟨?_, ?_, ?_, ?_, ?_⟩
  · show beAt buf (partOff 0 + PART_BASE_OFF) 3 = 0
    rw [hfield _ _ (by decide)]
    unfold putPartitions
    simp (disch := decide) only [beAt_store_out, beAt_putText_out,
      beAt_putBe_out, beAt_putBe_of_lt]
  · show beAt buf (partOff 0 + PART_SIZE_OFF) 3 = sliceBlocks
    rw [hfield _ _ (by decide)]
    unfold putPartitions
    simp (disch := decide) only [beAt_store_out, beAt_putText_out,
      beAt_putBe_out]
    exact beAt_putBe_of_lt hblocks
  · show beAt buf (partOff 0 + PART_BSIZE_OFF) 2 = 8192
    rw [hfield _ _ (by decide)]
    unfold putPartitions
    simp (disch := decide) only [beAt_store_out, beAt_putText_out,
      beAt_putBe_out, beAt_putBe_of_lt]
  · show beAt buf (partOff 0 + PART_FSIZE_OFF) 2 = 1024
    rw [hfield _ _ (by decide)]
    unfold putPartitions
    simp (disch := decide) only [beAt_store_out, beAt_putText_out,
      beAt_putBe_out, beAt_putBe_of_lt]
  · have htext : textAt buf (partOff 0 + PART_TYPE_OFF) LABEL_FSTYPE_LEN = BSD := by
      rw [textAt_congr (hbuf.mono (by decide) (by decide)),
        textAt_congr (labelCopy_part (by decide))]
      unfold putPartitions
      rw [textAt_putText (by decide) (by decide)]
      · rfl
      -- the field was cleared with its partition
      intro i hlo hhi
      have hlow : 0xe3 ≤ i := hlo
      have hhigh : i < 0xeb := hhi
      have hchar : ∀ c, (ascii [c]).length = 1 := fun _ => rfl
      have hone : ∀ b : UInt8, [b].length = 1 := fun _ => rfl
      have hpart : partOff 0 = 0xc0 := rfl
      rw [hpart]
      unfold PART_BASE_OFF PART_SIZE_OFF PART_BSIZE_OFF PART_FSIZE_OFF
        PART_OPT_OFF PART_CPG_OFF PART_DENSITY_OFF PART_MINFREE_OFF
        PART_NEWFS_OFF PART_AUTOMNT_OFF
      simp (disch := first | omega | (simp only [hchar, hone]; omega)) only
        [putBe_out, store_out]
      obtain ⟨k, rfl⟩ : ∃ k, i = 0xc0 + k := ⟨i - 0xc0, by omega⟩
      rw [store_in (by rw [List.length_replicate]; unfold DT_PARTITION_SIZE; omega),
        List.getElem_replicate]
    show (textAt buf (partOff 0 + PART_TYPE_OFF) LABEL_FSTYPE_LEN).take
      LABEL_FSTYPE_LEN = BSD
    rw [htext]
    rfl

/-- **A copy decodes** to the label that was written: with a correct checksum,
the name cut to 23 bytes, and the slice behind the front porch. -/
theorem Holds.decodes {size : Nat} (hsize : LABEL_DECODE_SIZE ≤ size)
    (hoff : off < 2 ^ 41) (hmul : off % DEV_SECTOR_SIZE = 0)
    (h0 : sliceBlocks ≠ 0) (hff : sliceBlocks < 0xffffff) :
    labelDecode buf size off = some (labelFields buf off)
      ∧ pickSlice (labelFields buf off) =
        some (LABEL_FRONT_PORCH_BYTES, sliceBlocks * LABEL_SECTOR_SIZE) := by
  obtain ⟨hbase, hblocks, hbsize, hfsize, htype⟩ :=
    hbuf.part (show sliceBlocks < 2 ^ 24 by omega)
  have hroot := hbuf.rootpartition
  have hpresent : (labelFields buf off).rootPresent := by
    unfold DiskLabel.rootPresent
    rw [hroot, Nat.sub_self]
    refine ⟨⟨Nat.le_refl _, by decide⟩, decodePartition_present.2 ?_⟩
    change ((labelFields buf off).part 0).baseBlocks ≠ _
      ∧ ((labelFields buf off).part 0).sizeBlocks ≠ _
      ∧ ((labelFields buf off).part 0).sizeBlocks ≠ _
      ∧ ((labelFields buf off).part 0).blockSize ≠ _
      ∧ ((labelFields buf off).part 0).blockSize ≠ _
      ∧ ((labelFields buf off).part 0).fragSize ≠ _
      ∧ ((labelFields buf off).part 0).fragSize ≠ _
      ∧ ((labelFields buf off).part 0).fragSize
        ≤ ((labelFields buf off).part 0).blockSize
      ∧ ((labelFields buf off).part 0).type ≠ _
    rw [hbase, hblocks, hbsize, hfsize, htype]
    exact ⟨by decide, h0, by omega, by decide, by decide, by decide, by decide,
      by decide, by decide⟩
  refine ⟨labelDecode_eq_some.2 ⟨rfl, hsize, ?_, ?_, ?_, ?_, fun _ =>
    hbuf.checksumValid⟩, ?_⟩
  · rw [hbuf.version]
    decide
  · rw [hbuf.secsize]
    decide
  · rw [hbuf.secsize]
    decide
  · rw [hbuf.blkno hoff]
    exact Nat.div_mul_cancel (Nat.dvd_of_mod_eq_zero hmul)
  · have hsized : ((labelFields buf off).part
        ((labelFields buf off).rootpartition - PART_A)).sizeBlocks ≠ 0 := by
      rw [hroot, Nat.sub_self, hblocks]
      exact h0
    rw [pickSlice_root hpresent hsized]
    unfold DiskLabel.slice
    rw [hroot, Nat.sub_self, hbase, hblocks, hbuf.secsize, hbuf.front]
    rfl

end Fields

end Copy

/-! ## §3. The file after the copies. -/

section Writing

variable {refuse : Nat → Option Errno}

/-- Buffers written at ascending offsets of a file that has them all. -/
theorem writeCopies (copy : Nat → Nat → UInt8) (offs : List Nat) :
    ∀ {f f' : ByteFile}, offs.Pairwise (fun a b => a + LABEL_WRITE_SIZE ≤ b) →
      (∀ off ∈ offs, off + LABEL_WRITE_SIZE ≤ f.size) →
      offs.forM (fun off => writeExactFd refuse off
        (load (copy off) 0 LABEL_WRITE_SIZE)) f = .ok () f' →
      f'.size = f.size
        ∧ (∀ off ∈ offs, Same (areaAt f' off) (copy off) 0 LABEL_WRITE_SIZE)
        ∧ ∀ i < f.size, (∀ off ∈ offs, i < off ∨ off + LABEL_WRITE_SIZE ≤ i) →
          f'.byte i = f.byte i := by
  induction offs with
  | nil =>
    intro f f' _ _ hrun
    cases hrun
    exact ⟨rfl, fun _ h => absurd h List.not_mem_nil, fun _ _ _ => rfl⟩
  | cons off offs ih =>
    intro f f' hasc hfits hrun
    obtain ⟨hlater, hasc⟩ := List.pairwise_cons.1 hasc
    obtain ⟨_, g, hfirst, hrest⟩ := bind_eq_ok
      (x := writeExactFd refuse off (load (copy off) 0 LABEL_WRITE_SIZE)) hrun
    have hlen : (load (copy off) 0 LABEL_WRITE_SIZE).length = LABEL_WRITE_SIZE :=
      length_load _ _ _
    have hoff := hfits off List.mem_cons_self
    have hget : ∀ k < LABEL_WRITE_SIZE,
        (load (copy off) 0 LABEL_WRITE_SIZE).getD k 0 = copy off k := by
      intro k hk
      rw [getD_load 0 hk, Nat.zero_add]
    have hg : g = f.pwrite off (load (copy off) 0 LABEL_WRITE_SIZE) :=
      writeExactFd_ok hfirst
    have hgsize : g.size = f.size := by
      rw [hg]
      generalize load (copy off) 0 LABEL_WRITE_SIZE = data at hlen
      show (if data = [] then f.size else max f.size (off + data.length)) = _
      rw [hlen]
      split
      · rfl
      · omega
    have hgin : Same (areaAt g off) (copy off) 0 LABEL_WRITE_SIZE := by
      intro k _ hk
      rw [hg]
      generalize load (copy off) 0 LABEL_WRITE_SIZE = data at hlen hget
      show (if off ≤ off + k ∧ off + k < off + data.length then
        data.getD (off + k - off) 0 else _) = _
      rw [if_pos (by omega), Nat.add_sub_cancel_left, hget k hk]
    have hgout : ∀ i < f.size, (i < off ∨ off + LABEL_WRITE_SIZE ≤ i) →
        g.byte i = f.byte i := by
      intro i hi hout
      rw [hg]
      generalize load (copy off) 0 LABEL_WRITE_SIZE = data at hlen
      show (if off ≤ i ∧ i < off + data.length then _
        else if i < f.size then f.byte i else 0) = _
      rw [if_neg (by omega), if_pos hi]
    obtain ⟨hsize, hin, hout⟩ := ih hasc (fun q hq => by
      rw [hgsize]
      exact hfits q (List.mem_cons_of_mem off hq)) hrest
    refine ⟨hsize.trans hgsize, fun q hq => ?_, fun i hi hall => ?_⟩
    · rcases List.mem_cons.1 hq with rfl | hq
      · -- the later copies leave this one
        intro k hlo hk
        rw [← hgin k hlo hk]
        refine hout (q + k) (by omega) fun p hp => ?_
        have hle := hlater p hp
        omega
      · exact hin q hq
    · rw [hout i (by omega) fun q hq => hall q (List.mem_cons_of_mem off hq)]
      exact hgout i hi (hall off List.mem_cons_self)

theorem copyOffsets_spaced :
    copyOffsets.Pairwise fun a b => a + LABEL_WRITE_SIZE ≤ b := by decide

theorem copyOffsets_le {off : Nat} (h : off ∈ copyOffsets) :
    off ≤ 23040 ∧ off % DEV_SECTOR_SIZE = 0 :=
  (show ∀ off ∈ copyOffsets, off ≤ 23040 ∧ off % DEV_SECTOR_SIZE = 0 by decide)
    off h

/-- What a successful writer has checked and written. -/
theorem labelWritePath_ok {imageBytes sliceBytes : Nat} {label : CString}
    {f f' : ByteFile} (hsize : LABEL_FRONT_PORCH_BYTES ≤ f.size)
    (hrun : labelWritePath refuse imageBytes sliceBytes label f = .ok () f') :
    imageBytes / LABEL_SECTOR_SIZE % 2 ^ 32 / 128 ≤ 0xffff
      ∧ sliceBytes / LABEL_SECTOR_SIZE % 2 ^ 32 ≤ 0xffffff
      ∧ f'.size = f.size
      ∧ ∀ off ∈ copyOffsets, Holds (areaAt f' off) off
          (imageBytes / LABEL_SECTOR_SIZE % 2 ^ 32)
          (sliceBytes / LABEL_SECTOR_SIZE % 2 ^ 32)
          (imageBytes / LABEL_SECTOR_SIZE % 2 ^ 32 / (4 * 32)) label := by
  unfold labelWritePath at hrun
  by_cases hbig : 0xffffff < imageBytes / LABEL_SECTOR_SIZE % 2 ^ 32
      ∨ 0xffffff < sliceBytes / LABEL_SECTOR_SIZE % 2 ^ 32
  · rw [if_pos hbig] at hrun
    cases hrun
  rw [if_neg hbig] at hrun
  by_cases hcyl : 0xffff < imageBytes / LABEL_SECTOR_SIZE % 2 ^ 32 / (4 * 32)
  · rw [if_pos hcyl] at hrun
    cases hrun
  rw [if_neg hcyl] at hrun
  have hfits : ∀ off ∈ copyOffsets, off + LABEL_WRITE_SIZE ≤ f.size := by
    intro off hoff
    have hle := (copyOffsets_le hoff).1
    unfold LABEL_FRONT_PORCH_BYTES at hsize
    unfold LABEL_WRITE_SIZE
    omega
  obtain ⟨hsame, hholds, -⟩ := writeCopies
    (fun off => labelCopy off (imageBytes / LABEL_SECTOR_SIZE % 2 ^ 32)
      (sliceBytes / LABEL_SECTOR_SIZE % 2 ^ 32)
      (imageBytes / LABEL_SECTOR_SIZE % 2 ^ 32 / (4 * 32)) label)
    copyOffsets copyOffsets_spaced hfits hrun
  exact ⟨Nat.le_of_not_lt hcyl, Nat.le_of_not_lt fun h => hbig (Or.inr h),
    hsame, hholds⟩

end Writing

/-! ## §4. The opener on a new label. -/

/-- The file holds a superblock for a slice at `base`. -/
def HoldsSuperblock (g : ByteFile) (base : Nat) : Prop :=
  base + UFS_SBLOCK_OFFSET + SUPER_READ_SIZE ≤ g.size
    ∧ superblockAccepted (areaAt g (base + UFS_SBLOCK_OFFSET)) = true

/-- The disk table's name does not reach the signature of a virtual disk. -/
theorem initBackend_newLabel {g : ByteFile}
    {totalBlocks sliceBlocks ncyl : Nat} {label : CString}
    (hcopy : Holds (areaAt g 0) 0 totalBlocks sliceBlocks ncyl label)
    (hsize : 512 ≤ g.size) : Vdi.initBackend g = .ok none := by
  apply initBackend_raw hsize
  have hzero : ∀ i, 0x40 ≤ i → i < 0x44 → g.byte i = 0 := by
    intro i hlo hhi
    have h := hcopy i (Nat.zero_le i) (by unfold LABEL_WRITE_SIZE; omega)
    have harea : areaAt g 0 i = g.byte i := by
      unfold areaAt
      rw [Nat.zero_add]
    rw [harea] at h
    rw [h, labelCopy_disktab (o := 0x40) (n := 4) (by decide) (by decide) i hlo
      (by omega)]
    have hname : (ascii ['n', 'e', 'x', 't', 'u', 'f', 's']).length = 7 := rfl
    have hchar : ∀ c, (ascii [c]).length = 1 := fun _ => rfl
    unfold putDisktab putHead DT_TYPE_OFF DT_SECSIZE_OFF DT_NTRACKS_OFF
      DT_NSECTORS_OFF DT_NCYLINDERS_OFF DT_RPM_OFF DT_FRONT_OFF DT_BACK_OFF
      DT_BOOT0_BLKNO_OFF DT_BOOTFILE_OFF DT_HOSTNAME_OFF DT_ROOTPART_OFF
      DT_RWPART_OFF DT_NAME_OFF DL_DISKTAB_OFF
    simp (disch := first | omega | (simp only [hchar]; omega)) only
      [putBe_out, putText_out, store_out]
    unfold putText
    rw [store_out (by rw [List.length_take, hname]; omega)]
    exact (putText_out (by unfold LABEL_NAME_LEN; omega)).trans
      ((putBe_out (Or.inr (by omega))).trans
        ((putBe_out (Or.inr (by omega))).trans (putBe_out (Or.inr (by omega)))))
  have hbyte : ∀ i, 0x40 ≤ i → i < 0x44 → Vdi.fileByte g i = 0 := by
    intro i hlo hhi
    unfold Vdi.fileByte ByteFile.byteAt OFFSET_END
    rw [if_pos (by omega), hzero i hlo hhi]
    rfl
  unfold Vdi.le32At Vdi.VDI_SIG_OFF
  rw [hbyte 0x40 (by omega) (by omega), hbyte (0x40 + 1) (by omega) (by omega),
    hbyte (0x40 + 2) (by omega) (by omega),
    hbyte (0x40 + 3) (by omega) (by omega)]
  decide

/-- **The opener follows a new label.**  Where the first copy is as it was
written and the slice holds a superblock, the image opens with that slice. -/
theorem openFile_newLabel {g : ByteFile} {parents : List Vdi.Backend}
    {totalBlocks sliceBlocks ncyl : Nat} {label : CString}
    (hcopy : Holds (areaAt g 0) 0 totalBlocks sliceBlocks ncyl label)
    (h0 : sliceBlocks ≠ 0) (hff : sliceBlocks < 0xffffff)
    (hsize : g.size = LABEL_FRONT_PORCH_BYTES + sliceBlocks * LABEL_SECTOR_SIZE)
    (hsuper : HoldsSuperblock g LABEL_FRONT_PORCH_BYTES) :
    openFile parents g = .ok
      ⟨decodeSuperblock (areaAt g (LABEL_FRONT_PORCH_BYTES + UFS_SBLOCK_OFFSET)),
        LABEL_FRONT_PORCH_BYTES, sliceBlocks * LABEL_SECTOR_SIZE,
        some (labelFields (areaAt g 0) 0)⟩ := by
  obtain ⟨hend, haccept⟩ := hsuper
  unfold LABEL_FRONT_PORCH_BYTES at hsize
  unfold LABEL_FRONT_PORCH_BYTES UFS_SBLOCK_OFFSET SUPER_READ_SIZE at hend
  have hraw := initBackend_newLabel hcopy (by omega)
  have hscan : (rawBacking g).readExact 0 (min DEFAULT_SCAN_LIMIT g.size) =
      .ok (areaAt g 0) := if_pos (by omega)
  have hwhole : scanAt (areaAt g 0) 0 = areaAt g 0 := by
    funext i
    unfold scanAt
    rw [Nat.zero_add]
  have hlimit : LABEL_DECODE_SIZE ≤ min DEFAULT_SCAN_LIMIT g.size := by
    unfold LABEL_DECODE_SIZE DEFAULT_SCAN_LIMIT
    omega
  obtain ⟨hdl, hpick⟩ := hcopy.decodes hlimit (by decide) (by decide) h0 hff
  have hread : readSuperblock (rawBacking g) LABEL_FRONT_PORCH_BYTES =
      some (decodeSuperblock
        (areaAt g (LABEL_FRONT_PORCH_BYTES + UFS_SBLOCK_OFFSET))) := by
    refine readSuperblock_eq_some.2 ⟨_, if_pos ?_, haccept, rfl⟩
    unfold LABEL_FRONT_PORCH_BYTES UFS_SBLOCK_OFFSET SUPER_READ_SIZE
    omega
  have hmagic := magic_of_accepted haccept
  have hfirst : openAtLabel (rawBacking g) (areaAt g 0)
      (min DEFAULT_SCAN_LIMIT g.size) 0 = some
        ⟨decodeSuperblock (areaAt g (LABEL_FRONT_PORCH_BYTES + UFS_SBLOCK_OFFSET)),
          LABEL_FRONT_PORCH_BYTES, sliceBlocks * LABEL_SECTOR_SIZE,
          some (labelFields (areaAt g 0) 0)⟩ := by
    refine openAtLabel_eq_some.2 ⟨_, _, _, _, ?_, hpick, ?_, ?_, ?_, ?_, hmagic,
      hread, rfl⟩
    · rw [hwhole, Nat.sub_zero]
      exact hdl
    · show LABEL_FRONT_PORCH_BYTES < g.size
      unfold LABEL_FRONT_PORCH_BYTES
      omega
    · unfold LABEL_SECTOR_SIZE
      omega
    · show LABEL_FRONT_PORCH_BYTES + _ ≤ g.size
      unfold LABEL_FRONT_PORCH_BYTES
      omega
    · unfold LABEL_FRONT_PORCH_BYTES UFS_SBLOCK_OFFSET UFS_SUPER_MAGIC_OFFSET
        DEFAULT_SCAN_LIMIT
      omega
  have hmem : 0 ∈ offsetsUpTo DEV_SECTOR_SIZE LABEL_DECODE_SIZE
      (min (min DEFAULT_SCAN_LIMIT g.size) LABEL_SCAN_LIMIT) := by
    refine mem_offsetsUpTo.2 ⟨Nat.zero_mod _, ?_⟩
    unfold LABEL_DECODE_SIZE DEFAULT_SCAN_LIMIT LABEL_SCAN_LIMIT
    omega
  have hsearch := findSome_first (offsetsUpTo_ascending (by decide)) hmem hfirst
    fun c _ hc => absurd hc (Nat.not_lt_zero c)
  unfold openFile
  rw [hraw]
  unfold openWithMode
  dsimp only
  rw [show (rawBacking g).imageSize = g.size from rfl, hscan]
  dsimp only
  rw [hsearch]

/-! ## §5. The round trip. -/

/-- What is to hold of the file after a label has been written: every copy
decodes, with a correct checksum, to the name and the slice that were given,
and the image opens with that slice once it holds a superblock. -/
structure RoundTrips (f' : ByteFile) (sliceBytes : Nat) (label : CString) :
    Prop where
  copies : ∀ off ∈ copyOffsets, ∀ size, LABEL_DECODE_SIZE ≤ size →
    ∃ dl, labelDecode (areaAt f' off) size off = some dl
      ∧ dl.checksumValid = true ∧ dl.name = label.val.take 23
      ∧ pickSlice dl = some (LABEL_FRONT_PORCH_BYTES, sliceBytes)
  opens : ∀ parents g, g.size = f'.size →
    (∀ i < LABEL_FRONT_PORCH_BYTES, g.byte i = f'.byte i) →
    HoldsSuperblock g LABEL_FRONT_PORCH_BYTES →
    ∃ opened, openFile parents g = .ok opened
      ∧ opened.sliceBase = LABEL_FRONT_PORCH_BYTES
      ∧ opened.sliceSize = sliceBytes

section RoundTrip

variable {refuse : Nat → Option Errno} {imageBytes sliceBytes : Nat}
variable {label : CString} {f f' : ByteFile}

/-- A slice that is read back has a size the label can hold. -/
theorem RoundTrips.small (h : RoundTrips f' sliceBytes label)
    (hsec : (labelFields (areaAt f' 0) 0).secsize = 1024) :
    sliceBytes < 2 ^ 34 := by
  obtain ⟨dl, hdl, -, -, hpick⟩ := h.copies 0 (by decide) _ (Nat.le_refl _)
  obtain ⟨rfl, -⟩ := labelDecode_eq_some.1 hdl
  have husable := (usableSize_of_picked (by rw [hsec]; decide) hpick).2
  rw [hsec] at husable
  omega

/-- **Label round trip.**  On an image of `imageBytes` bytes, a front porch and
a slice of whole kilobytes: the label that is written is read back, in every
copy and by the opener, exactly when the image has fewer than 2^42 bytes. -/
theorem label_round_trips_iff (hslice : sliceBytes ≠ 0)
    (hmul : sliceBytes % 1024 = 0)
    (himage : LABEL_FRONT_PORCH_BYTES + sliceBytes = imageBytes)
    (hsize : f.size = imageBytes)
    (hrun : labelWritePath refuse imageBytes sliceBytes label f = .ok () f') :
    RoundTrips f' sliceBytes label ↔ imageBytes < 2 ^ 42 := by
  obtain ⟨hcyl, hblocks, hsame, hholds⟩ := labelWritePath_ok (by omega) hrun
  unfold LABEL_SECTOR_SIZE at hcyl hblocks hholds
  constructor
  · intro h
    have hsmall := h.small (hholds 0 (by decide)).secsize
    unfold LABEL_FRONT_PORCH_BYTES at himage
    omega
  intro hlt
  unfold LABEL_FRONT_PORCH_BYTES at himage
  -- nothing was cut
  have hcut : sliceBytes / 1024 % 2 ^ 32 = sliceBytes / 1024 :=
    Nat.mod_eq_of_lt (by omega)
  have hcut' : imageBytes / 1024 % 2 ^ 32 = imageBytes / 1024 :=
    Nat.mod_eq_of_lt (by omega)
  rw [hcut] at hblocks hholds
  rw [hcut'] at hcyl
  have h0 : sliceBytes / 1024 ≠ 0 := by omega
  have hff : sliceBytes / 1024 < 0xffffff := by omega
  have hbytes : sliceBytes / 1024 * LABEL_SECTOR_SIZE = sliceBytes :=
    Nat.div_mul_cancel (Nat.dvd_of_mod_eq_zero hmul)
  refine ⟨fun off hoff size hdecode => ?_, fun parents g hg hporch hsuper => ?_⟩
  · obtain ⟨hle, hsector⟩ := copyOffsets_le hoff
    have hcopy := hholds off hoff
    obtain ⟨hdl, hpick⟩ := hcopy.decodes hdecode (by omega) hsector h0 hff
    rw [hbytes] at hpick
    exact ⟨_, hdl, hcopy.checksumValid, hcopy.name, hpick⟩
  · have hfirst : Holds (areaAt g 0) 0 (imageBytes / 1024 % 2 ^ 32)
        (sliceBytes / 1024) (imageBytes / 1024 % 2 ^ 32 / (4 * 32)) label := by
      intro i hlo hhi
      have h := hholds 0 (by decide) i hlo hhi
      have hbyte := hporch (0 + i) (by
        unfold LABEL_WRITE_SIZE at hhi
        unfold LABEL_FRONT_PORCH_BYTES
        omega)
      exact hbyte.trans h
    refine ⟨_, openFile_newLabel hfirst h0 hff ?_ hsuper, rfl, hbytes⟩
    rw [hbytes, hg, hsame, hsize]
    exact himage.symm

end RoundTrip

/-- An empty file of a size. -/
def blankFile (size : Nat) : ByteFile := ⟨size, fun _ => 0⟩

/-- Where the host takes every write, a size that passes the checks is
written. -/
theorem labelWritePath_accepted {imageBytes sliceBytes : Nat} (label : CString)
    (f : ByteFile) (hcyl : imageBytes / 1024 % 2 ^ 32 ≤ 0x7fffff)
    (hblocks : sliceBytes / 1024 % 2 ^ 32 ≤ 0xffffff) :
    ∃ f', labelWritePath (fun _ => none) imageBytes sliceBytes label f =
      .ok () f' := by
  unfold labelWritePath LABEL_SECTOR_SIZE
  rw [if_neg (by omega), if_neg (by omega)]
  exact ⟨_, rfl⟩

/-- A label of a megabyte. -/
theorem label_round_trips_megabyte : ∃ f',
    labelWritePath (fun _ => none) (1024 * 1024) (864 * 1024)
        ⟨ascii ['h', 'd'], by decide⟩ (blankFile (1024 * 1024)) = .ok () f'
      ∧ RoundTrips f' (864 * 1024) ⟨ascii ['h', 'd'], by decide⟩ := by
  obtain ⟨f', hrun⟩ := labelWritePath_accepted ⟨ascii ['h', 'd'], by decide⟩
    (blankFile (1024 * 1024)) (show 1024 * 1024 / 1024 % 2 ^ 32 ≤ 0x7fffff by
      decide) (show 864 * 1024 / 1024 % 2 ^ 32 ≤ 0xffffff by decide)
  exact ⟨f', hrun, (label_round_trips_iff (f := blankFile (1024 * 1024))
    (by decide) (by decide) (by decide) rfl hrun).2 (by decide)⟩

/-- **A size that is cut.**  The label of an image of four terabytes and a
megabyte is written, for the checks see a megabyte, and its slice is not read
back. -/
theorem cutSize_written : ∃ f',
    labelWritePath (fun _ => none) (2 ^ 42 + 1024 * 1024)
        (2 ^ 42 + 864 * 1024) ⟨ascii ['h', 'd'], by decide⟩
        (blankFile (2 ^ 42 + 1024 * 1024)) = .ok () f'
      ∧ LABEL_FRONT_PORCH_BYTES + (2 ^ 42 + 864 * 1024) = 2 ^ 42 + 1024 * 1024
      ∧ ¬RoundTrips f' (2 ^ 42 + 864 * 1024) ⟨ascii ['h', 'd'], by decide⟩ := by
  obtain ⟨f', hrun⟩ := labelWritePath_accepted ⟨ascii ['h', 'd'], by decide⟩
    (blankFile (2 ^ 42 + 1024 * 1024))
    (show (2 ^ 42 + 1024 * 1024) / 1024 % 2 ^ 32 ≤ 0x7fffff by decide)
    (show (2 ^ 42 + 864 * 1024) / 1024 % 2 ^ 32 ≤ 0xffffff by decide)
  refine ⟨f', hrun, by decide, fun h => ?_⟩
  obtain ⟨-, -, -, hholds⟩ := labelWritePath_ok
    (show LABEL_FRONT_PORCH_BYTES ≤ 2 ^ 42 + 1024 * 1024 by decide) hrun
  exact absurd (h.small (hholds 0 (by decide)).secsize) (by decide)

end NextUfs.Label
