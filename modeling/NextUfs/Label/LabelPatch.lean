/-
  NextUfs.Label.LabelPatch
  ────────────────────────
  **CHANGING THE SIZE OF THE SLICE IN PLACE.**

  A copy that the walk patches is decoded again at the end.

    • `Reached.givesSlice_iff` — one copy, from the file it is read in,
    • `version_reached`        — its version when the walk reaches it,
    • `patch_keeps_labels`     — a copy that was valid stays valid and gives the
      new size exactly when that size is one the decoder takes for used, and
      its version is not under another copy's size field,
    • `unusedSize_patched`     — the largest size, which means an unused one.
-/
import NextUfs.Label.PatchWalk

namespace NextUfs.Label

open Host Window Fields State

section Copy

variable {refuse : Nat → Option Errno} {f h f' : ByteFile}
variable {sliceBase sliceBytes q : Nat} {offs patched : List Nat}

section Fields

variable (hr : Reached f h f' sliceBase sliceBytes q)

include hr

/-! ## §1. The copy decoded at the end. -/

theorem Reached.version_after : (labelFields (areaAt f' q) q).version =
    beAt (areaAt h q) 0x00 4 := by
  have hfits := hr.fits
  unfold LABEL_VALIDATE_SIZE at hfits
  apply hr.beAt_after
  · omega
  · exact Or.inl (by omega)
  · unfold partOff DT_PARTITIONS_OFF DL_DISKTAB_OFF
    omega
  · exact Or.inl (by decide)

theorem Reached.blkno_after : (labelFields (areaAt f' q) q).labelBlkno =
    beAt (areaAt h q) 0x04 4 := by
  have hfits := hr.fits
  unfold LABEL_VALIDATE_SIZE at hfits
  apply hr.beAt_after
  · omega
  · exact Or.inl (by omega)
  · unfold partOff DT_PARTITIONS_OFF DL_DISKTAB_OFF
    omega
  · exact Or.inl (by decide)

/-- Fields of the disk table. -/
theorem Reached.disktab_after {o n : Nat} (hlow : 0x46 ≤ o) (hhigh : o + n ≤ 0x83) :
    beAt (areaAt f' q) o n = beAt (areaAt f q) o n := by
  have hfits := hr.fits
  unfold LABEL_VALIDATE_SIZE at hfits
  rw [hr.beAt_after (by omega) (Or.inl (by omega)), hr.beAt_before (by omega)]
  · intro r hlo hhi
    unfold Under
    omega
  · unfold partOff DT_PARTITIONS_OFF DL_DISKTAB_OFF
    omega
  · unfold DL_V3_CKSUM_OFF
    omega

theorem Reached.letter_after : (labelFields (areaAt f' q) q).rootpartition =
    (labelFields (areaAt f q) q).rootpartition := by
  have hfits := hr.fits
  unfold LABEL_VALIDATE_SIZE at hfits
  have hlast := hr.after DT_ROOTPART_OFF
    (by unfold DT_ROOTPART_OFF DL_DISKTAB_OFF; omega) (Or.inl (by decide))
  rw [newLabel_out] at hlast
  · show (f'.byte (q + DT_ROOTPART_OFF)).toNat = (f.byte (q + DT_ROOTPART_OFF)).toNat
    rw [hlast, hr.letter]
  · unfold SizeField ChecksumField partOff DT_PARTITIONS_OFF DT_ROOTPART_OFF
      DL_DISKTAB_OFF DL_V3_CKSUM_OFF
    omega

/-- Fields of the root partition other than its size. -/
theorem Reached.part_same {o n : Nat} (hlow : o + n ≤ PART_SIZE_OFF ∨
      PART_SIZE_OFF + 3 ≤ o) (hhigh : o + n ≤ 0x2e) :
    Same (areaAt f' q) (areaAt f q) (partOff (rootIndex f q) + o)
      (partOff (rootIndex f q) + o + n) := by
  have hfits := hr.fits
  have hroot := hr.rootIndex_lt
  unfold LABEL_VALIDATE_SIZE at hfits
  unfold LABEL_PART_COUNT at hroot
  intro r hlo hhi
  have hin : partOff (rootIndex f q) + o ≤ r
      ∧ r < partOff (rootIndex f q) + o + n := ⟨hlo, hhi⟩
  unfold partOff DT_PARTITIONS_OFF DL_DISKTAB_OFF DT_PARTITION_SIZE at hlo hhi
  have hlast := hr.after r (by omega) (Or.inl (by omega))
  rw [newLabel_out] at hlast
  · show f'.byte (q + r) = f.byte (q + r)
    rw [hlast, hr.before r (by omega) (by unfold Under; omega)]
  · unfold SizeField ChecksumField
    rw [hr.rootIndex_eq]
    unfold partOff DT_PARTITIONS_OFF DL_DISKTAB_OFF DT_PARTITION_SIZE
      DL_V3_CKSUM_OFF at *
    unfold PART_SIZE_OFF at *
    generalize rootIndex f q = k at *
    interval_cases k <;> omega

/-- The checksum of a copy that is of version 3 when the walk reaches it. -/
theorem Reached.checksum_after (hversion : beAt (areaAt h q) 0x00 4 = DL_V3) :
    (labelFields (areaAt f' q) q).checksumValid = true := by
  have hfits := hr.fits
  unfold LABEL_VALIDATE_SIZE at hfits
  have hlast : ∀ r < 0x2c0, areaAt f' q r = newLabel h sliceBytes q r :=
    fun r hlt => hr.after r (by omega) (Or.inl hlt)
  have hlabel : newLabel h sliceBytes q = putBe
      (putBe (areaAt h q) (partOff (rootIndex h q) + PART_SIZE_OFF) 3
        (newBlocks h sliceBytes q)) DL_V3_CKSUM_OFF 2
      (labelChecksum (putBe (areaAt h q)
        (partOff (rootIndex h q) + PART_SIZE_OFF) 3
        (newBlocks h sliceBytes q))) := by
    unfold newLabel patchedLabel
    rw [if_pos hversion]
  have hsum : labelChecksum (areaAt f' q) =
      beAt (areaAt f' q) DL_V3_CKSUM_OFF 2 := by
    rw [labelChecksum_congr (g := newLabel h sliceBytes q) fun r hlt _ _ => hlast r
        (by unfold LABEL_CKSUM_SIZE at hlt; omega),
      beAt_congr (g := newLabel h sliceBytes q) fun r _ hhi => hlast r
        (by unfold DL_V3_CKSUM_OFF at hhi; omega), hlabel]
    exact labelChecksum_stored _
  have hfinal := hr.version_after
  rw [hversion] at hfinal
  have hstored : (labelFields (areaAt f' q) q).checksum =
      beAt (areaAt f' q) DL_V3_CKSUM_OFF 2 := if_pos hfinal
  show ((labelFields (areaAt f' q) q).version == DL_V3
    && labelChecksum (areaAt f' q) == (labelFields (areaAt f' q) q).checksum) = true
  rw [hfinal, hstored, hsum]
  simp

/-- The old checksum, of a copy that is of an older version throughout. -/
theorem Reached.checksum_old {size : Nat} (hsize : q + size ≤ f.size)
    (hlen : LABEL_DECODE_SIZE ≤ size)
    (hbefore : (labelFields (areaAt f q) q).version ≠ DL_V3)
    (hlater : beAt (areaAt h q) 0x00 4 ≠ DL_V3) :
    (labelFields (areaAt f' q) q).checksum =
      (labelFields (areaAt f q) q).checksum := by
  have hroot := hr.rootIndex_lt
  unfold LABEL_PART_COUNT at hroot
  unfold LABEL_DECODE_SIZE at hlen
  rw [← hr.version_after] at hlater
  have h1 : (labelFields (areaAt f' q) q).checksum =
      beAt (areaAt f' q) DL_CKSUM_OFF 2 := if_neg hlater
  have h2 : (labelFields (areaAt f q) q).checksum =
      beAt (areaAt f q) DL_CKSUM_OFF 2 := if_neg hbefore
  rw [h1, h2, hr.beAt_after, hr.beAt_before]
  · unfold DL_CKSUM_OFF
    omega
  · intro r hlo hhi
    unfold Under
    unfold DL_CKSUM_OFF at hlo
    omega
  · unfold DL_CKSUM_OFF
    omega
  · exact Or.inr (by decide)
  · unfold partOff DT_PARTITIONS_OFF DL_DISKTAB_OFF DT_PARTITION_SIZE
      PART_SIZE_OFF DL_CKSUM_OFF
    omega
  · exact Or.inr (by decide)

theorem Reached.baseBlocks_after :
    ((labelFields (areaAt f' q) q).part (rootIndex f q)).baseBlocks =
      ((labelFields (areaAt f q) q).part (rootIndex f q)).baseBlocks :=
  beAt_congr (hr.part_same (Or.inl (by decide)) (by decide))

/-- The root partition is present under a size that can be used. -/
theorem Reached.rootPresent_after
    (hroot : (labelFields (areaAt f q) q).rootPresent)
    (h0 : newBlocks f sliceBytes q ≠ 0)
    (hff : newBlocks f sliceBytes q ≠ 0xffffff) :
    (labelFields (areaAt f' q) q).rootPresent := by
  have hbsize : ((labelFields (areaAt f' q) q).part (rootIndex f q)).blockSize =
      ((labelFields (areaAt f q) q).part (rootIndex f q)).blockSize :=
    beAt_congr (hr.part_same (Or.inr (by decide)) (by decide))
  have hfsize : ((labelFields (areaAt f' q) q).part (rootIndex f q)).fragSize =
      ((labelFields (areaAt f q) q).part (rootIndex f q)).fragSize :=
    beAt_congr (hr.part_same (Or.inr (by decide)) (by decide))
  have htype : ((labelFields (areaAt f' q) q).part (rootIndex f q)).type =
      ((labelFields (areaAt f q) q).part (rootIndex f q)).type :=
    copyCstrField_congr (hr.part_same (Or.inr (by decide)) (by decide))
  have hsize : ((labelFields (areaAt f' q) q).part (rootIndex f q)).sizeBlocks =
      newBlocks f sliceBytes q := hr.size_after
  have hbase := hr.baseBlocks_after
  obtain ⟨p1, -, -, p4, p5, p6, p7, p8, p9⟩ :=
    decodePartition_present.1 hroot.2
  change ((labelFields (areaAt f q) q).part (rootIndex f q)).baseBlocks ≠ _ at p1
  change ((labelFields (areaAt f q) q).part (rootIndex f q)).blockSize ≠ _ at p4 p5
  change ((labelFields (areaAt f q) q).part (rootIndex f q)).fragSize ≠ _ at p6 p7
  change ((labelFields (areaAt f q) q).part (rootIndex f q)).fragSize
    ≤ ((labelFields (areaAt f q) q).part (rootIndex f q)).blockSize at p8
  change ((labelFields (areaAt f q) q).part (rootIndex f q)).type ≠ _ at p9
  rw [← hbase] at p1
  rw [← hbsize] at p4 p5 p8
  rw [← hfsize] at p6 p7 p8
  rw [← htype] at p9
  rw [← hsize] at h0 hff
  refine ⟨by rw [hr.letter_after]; exact hroot.1, ?_⟩
  rw [hr.letter_after]
  exact decodePartition_present.2 ⟨p1, h0, hff, p4, p5, p6, p7, p8, p9⟩

/-- The slice it then describes. -/
theorem Reached.slice_after :
    (labelFields (areaAt f' q) q).slice (rootIndex f q) =
      (sliceBase, newBlocks f sliceBytes q
        * (labelFields (areaAt f q) q).secsize) := by
  have hsecsize : (labelFields (areaAt f' q) q).secsize =
      (labelFields (areaAt f q) q).secsize :=
    hr.disktab_after (by decide) (by decide)
  have hfront : (labelFields (areaAt f' q) q).front =
      (labelFields (areaAt f q) q).front :=
    hr.disktab_after (by decide) (by decide)
  have hsize : ((labelFields (areaAt f' q) q).part (rootIndex f q)).sizeBlocks =
      newBlocks f sliceBytes q := hr.size_after
  have hfits := hr.fits
  unfold LABEL_VALIDATE_SIZE at hfits
  have hf : beAt (areaAt h q) DT_FRONT_OFF 2 =
      (labelFields (areaAt f q) q).front := by
    apply hr.beAt_before
    · unfold DT_FRONT_OFF DL_DISKTAB_OFF
      omega
    · intro r hlo hhi
      unfold DT_FRONT_OFF DL_DISKTAB_OFF at *
      unfold Under
      omega
  have hp : beAt (areaAt h q) (partOff (rootIndex f q) + PART_BASE_OFF) 3 =
      ((labelFields (areaAt f q) q).part (rootIndex f q)).baseBlocks := by
    have hroot := hr.rootIndex_lt
    apply hr.beAt_before
    · unfold partOff DT_PARTITIONS_OFF DL_DISKTAB_OFF DT_PARTITION_SIZE
        PART_BASE_OFF
      unfold LABEL_PART_COUNT at hroot
      omega
    · intro r hlo hhi
      unfold partOff DT_PARTITIONS_OFF DL_DISKTAB_OFF DT_PARTITION_SIZE
        PART_BASE_OFF at *
      unfold Under
      omega
  have hb := hr.patch.base
  rw [hr.secsize, hr.rootIndex_eq, hf, hp] at hb
  unfold DiskLabel.slice
  rw [hsize, hr.baseBlocks_after, hsecsize, hfront]
  exact Prod.ext hb rfl

end Fields

/-- Only version 3 has a checksum that can be right. -/
theorem checksumValid_version {buf : Nat → UInt8}
    (hvalid : (labelFields buf q).checksumValid = true) :
    (labelFields buf q).version = DL_V3 := by
  have hand := Bool.and_eq_true_iff.1
    (show ((labelFields buf q).version == DL_V3
      && labelChecksum buf == (labelFields buf q).checksum) = true from hvalid)
  exact eq_of_beq hand.1

/-- The copy at `q` decodes as a label, with a correct checksum where it is to
have one, and the label gives the slice. -/
def GivesSlice (f : ByteFile) (q size : Nat) (summed : Prop)
    (sliceBase sliceBytes : Nat) : Prop :=
  ∃ dl, labelDecode (areaAt f q) size q = some dl
    ∧ (summed → dl.checksumValid = true)
    ∧ pickSlice dl = some (sliceBase, sliceBytes)

/-- A size the decoder takes for that of a used partition. -/
def UsableSize (blocks : Nat) : Prop := 0 < blocks ∧ blocks < 0xffffff

/-- A slice that is picked has a usable size. -/
theorem usableSize_of_picked {buf : Nat → UInt8} {base size : Nat}
    (hsec : (labelFields buf q).secsize ≠ 0)
    (hpick : pickSlice (labelFields buf q) = some (base, size)) :
    UsableSize (size / (labelFields buf q).secsize) := by
  obtain ⟨i, hused, rfl⟩ := pickSlice_used hpick
  unfold DiskLabel.used at hused
  rw [Bool.and_eq_true] at hused
  obtain ⟨-, h0, hff, -⟩ := decodePartition_present.1 hused.1
  change ((labelFields buf q).part i).sizeBlocks ≠ 0 at h0
  change ((labelFields buf q).part i).sizeBlocks ≠ 0xffffff at hff
  have hlt : ((labelFields buf q).part i).sizeBlocks < 2 ^ 24 := beAt_lt _ _ 3
  rw [Nat.mul_div_cancel _ (Nat.pos_of_ne_zero hsec)]
  unfold UsableSize
  omega

/-- **One copy**, from the file the walk reaches it in. -/
theorem Reached.givesSlice_iff (hr : Reached f h f' sliceBase sliceBytes q)
    {size : Nat} (hsize : q + size ≤ f.size) {dl : DiskLabel}
    (hdl : labelDecode (areaAt f q) size q = some dl) (hroot : dl.rootPresent) :
    GivesSlice f' q size (dl.version = DL_V3) sliceBase sliceBytes ↔
      UsableSize (sliceBytes / dl.secsize)
        ∧ (dl.version = DL_V3 → beAt (areaAt h q) 0x00 4 = DL_V3) := by
  obtain ⟨rfl, hlen, hversion, hsec0, hsec, hblkno, hsum⟩ :=
    labelDecode_eq_some.1 hdl
  have hsecsize : (labelFields (areaAt f' q) q).secsize =
      (labelFields (areaAt f q) q).secsize :=
    hr.disktab_after (by decide) (by decide)
  constructor
  · rintro ⟨dl', hdl', hvalid, hpick⟩
    obtain ⟨rfl, -⟩ := labelDecode_eq_some.1 hdl'
    refine ⟨?_, fun h3 => ?_⟩
    · rw [← hsecsize]
      exact usableSize_of_picked (hsecsize.symm ▸ hsec0) hpick
    · rw [← hr.version_after]
      exact checksumValid_version (hvalid h3)
  rintro ⟨⟨hpos, hlt⟩, h3⟩
  -- the number of blocks was not cut
  have hcut : newBlocks f sliceBytes q =
      sliceBytes / (labelFields (areaAt f q) q).secsize :=
    Nat.mod_eq_of_lt (Nat.lt_trans hlt (by decide))
  have hdivides : newBlocks f sliceBytes q
      * (labelFields (areaAt f q) q).secsize = sliceBytes := by
    have hmod := hr.patch.divides
    rw [hr.secsize] at hmod
    rw [hcut]
    exact Nat.div_mul_cancel (Nat.dvd_of_mod_eq_zero hmod)
  have hroot' := hr.rootPresent_after hroot (by omega) (by omega)
  have hindex : (labelFields (areaAt f' q) q).rootpartition - PART_A =
      rootIndex f q := by
    rw [hr.letter_after]
    rfl
  have hblkno' : (labelFields (areaAt f' q) q).labelBlkno * DEV_SECTOR_SIZE = q := by
    rw [hr.blkno_after]
    exact hr.patch.blkno
  have hversion' : labelIsVersion (labelFields (areaAt f' q) q).version = true := by
    rw [hr.version_after]
    exact hr.patch.version
  refine ⟨labelFields (areaAt f' q) q, labelDecode_eq_some.2 ⟨rfl, hlen,
    hversion', hsecsize.symm ▸ hsec0, hsecsize.symm ▸ hsec, hblkno',
    fun hp => ?_⟩, fun h => hr.checksum_after (h3 h), ?_⟩
  · by_cases hv : beAt (areaAt h q) 0x00 4 = DL_V3
    · exact hr.checksum_after hv
    -- an older version has no checksum
    have hv' : (labelFields (areaAt f q) q).version ≠ DL_V3 := fun h => hv (h3 h)
    have hpresent : (labelFields (areaAt f q) q).checksumPresent = true := by
      show ((labelFields (areaAt f q) q).checksum != 0) = true
      rw [← hr.checksum_old hsize hlen hv' hv]
      exact hp
    exact absurd (checksumValid_version (hsum hpresent)) hv'
  · have hsized : ((labelFields (areaAt f' q) q).part (rootIndex f q)).sizeBlocks =
        newBlocks f sliceBytes q := hr.size_after
    rw [pickSlice_root hroot' (by rw [hindex, hsized]; omega), hindex,
      hr.slice_after, hdivides]

end Copy

/-! ## §2. The version of a copy. -/

/-- A copy of version 3 whose version lies under the size of the sixth
partition of a patched copy one sector before, and becomes version 2. -/
def Overlaid (f : ByteFile) (patched : List Nat) (sliceBytes q : Nat) : Prop :=
  beAt (areaAt f q) 0x00 4 = DL_V3 ∧ ∃ p ∈ patched, p + DEV_SECTOR_SIZE = q
    ∧ rootIndex f p = 5 ∧ newBlocks f sliceBytes p = 0x320000

section Version

variable {refuse : Nat → Option Errno} {f h f' : ByteFile}
variable {sliceBase sliceBytes q : Nat} {front ps : List Nat}

/-- The version, when the walk reaches the copy. -/
theorem version_reached (hasc : Ascending front)
    (hfar : ∀ p ∈ front, p % DEV_SECTOR_SIZE = 0 ∧ p + DEV_SECTOR_SIZE ≤ q)
    (hrun : patchLabels refuse sliceBase sliceBytes front f = .ok ps h)
    (hr : Reached f h f' sliceBase sliceBytes q) (hq : q < LABEL_SCAN_LIMIT) :
    (beAt (areaAt f q) 0x00 4 = DL_V3 → beAt (areaAt h q) 0x00 4 = DL_V3) ↔
      ¬Overlaid f ps sliceBytes q := by
  have hfits := hr.fits
  unfold LABEL_VALIDATE_SIZE at hfits
  have hqmul : q % DEV_SECTOR_SIZE = 0 := by
    rw [← hr.patch.blkno]
    exact Nat.mul_mod_left _ _
  by_cases hover : ∃ p ∈ ps, p + DEV_SECTOR_SIZE = q ∧ rootIndex f p = 5
  case neg =>
    -- no field reaches the version
    have hsame : beAt (areaAt h q) 0x00 4 = beAt (areaAt f q) 0x00 4 := by
      apply beAt_congr
      intro r _ hhi
      by_contra hne
      obtain ⟨p, hp, hroot, hfield⟩ :=
        (patchLabels_frame hasc hrun).2 (q + r) (by omega) hne
      obtain ⟨hpmul, hpq⟩ := hfar p (patchLabels_mem hrun p hp)
      obtain ⟨hnext, hunder, hsixth⟩ :=
        overlap hroot hpmul hqmul hpq hfield.field
      unfold Under at hunder
      exact hover ⟨p, hp, hnext, hsixth (by omega) (by omega)⟩
    rw [hsame]
    refine iff_of_true id ?_
    rintro ⟨-, p, hp, hnext, hroot, -⟩
    exact hover ⟨p, hp, hnext, hroot⟩
  obtain ⟨p, hp, hnext, hroot⟩ := hover
  -- the number that lies on the version
  obtain ⟨_, _, hp', -, -, -, -, -, hreached⟩ := patchLabels_reached hasc
    (fun p hp => (hfar p hp).1) hrun hp
  have hnumber : beAt (areaAt h q) 3 3 = newBlocks f sliceBytes p := by
    rw [← hreached.size_after, hroot]
    unfold areaAt partOff DT_PARTITIONS_OFF DL_DISKTAB_OFF DT_PARTITION_SIZE
      PART_SIZE_OFF
    rw [← hnext]
    unfold DEV_SECTOR_SIZE
    unfold beAt beAt beAt beAt
    simp only [Nat.add_assoc, Nat.reduceAdd, Nat.reduceMul]
  have hfront : beAt (areaAt h q) 0 3 = beAt (areaAt f q) 0 3 := by
    apply hr.beAt_before (by omega)
    intro r _ hhi
    unfold Under
    omega
  have hversion := hr.patch.version
  have hblkno := hr.patch.blkno
  have hsplit : ∀ g : Nat → UInt8,
      beAt g 0 4 = beAt g 0 3 * 2 ^ 8 + (g 3).toNat := fun g => rfl
  have hsplit3 : beAt (areaAt h q) 3 3 = ((areaAt h q 3).toNat * 2 ^ 8
      + (areaAt h q 4).toNat) * 2 ^ 8 + (areaAt h q 5).toNat := by
    unfold beAt beAt beAt beAt
    simp only [Nat.reduceAdd]
    omega
  have hsplit4 : beAt (areaAt h q) 4 4 = (((areaAt h q 4).toNat * 2 ^ 8
      + (areaAt h q 5).toNat) * 2 ^ 8 + (areaAt h q 6).toNat) * 2 ^ 8
      + (areaAt h q 7).toNat := by
    unfold beAt beAt beAt beAt beAt
    simp only [Nat.reduceAdd]
    omega
  have hb3 := (areaAt h q 3).toNat_lt
  have ha3 := (areaAt f q 3).toNat_lt
  -- the sector's number is small, so the last two bytes of the size are zero
  have hsmall : (areaAt h q 4).toNat = 0 ∧ (areaAt h q 5).toNat = 0 := by
    unfold DEV_SECTOR_SIZE at hblkno
    unfold LABEL_SCAN_LIMIT at hq
    omega
  have hsize : newBlocks f sliceBytes p = (areaAt h q 3).toNat * 2 ^ 16 := by
    rw [← hnumber, hsplit3, hsmall.1, hsmall.2]
    omega
  have hthree : beAt (areaAt h q) 0 4 = DL_V1 ∨ beAt (areaAt h q) 0 4 = DL_V2
      ∨ beAt (areaAt h q) 0 4 = DL_V3 := by
    unfold labelIsVersion at hversion
    rw [Bool.or_eq_true, Bool.or_eq_true, beq_iff_eq, beq_iff_eq, beq_iff_eq]
      at hversion
    omega
  have hsplitF := hsplit (areaAt f q)
  have hsplitH := hsplit (areaAt h q)
  constructor
  · rintro hkeep ⟨h3, p', -, hnext', -, hblocks⟩
    obtain rfl : p' = p := by omega
    have hv := hkeep h3
    unfold DL_V3 at hv
    omega
  · intro hnot h3
    have hne : newBlocks f sliceBytes p ≠ 0x320000 := fun h0 =>
      hnot ⟨h3, p, hp, hnext, hroot, h0⟩
    unfold DL_V3 at h3
    unfold DL_V1 DL_V2 DL_V3 at hthree
    unfold DL_V3
    omega

/-- **The patch keeps labels.**  A successful patch changes the size fields of
the copies it patches, the checksums of those of version 3, and no other byte.
A patched copy that decoded as a label with its root partition still does, with
a correct checksum where the version has one, and gives the same base and the
new size, exactly when the new size in its blocks is that of a used partition
and the copy does not lie under the size field of another. -/
theorem patch_keeps_labels {patched : List Nat}
    (hrun : labelPatchSliceSizeFd refuse sliceBase sliceBytes f =
      .ok patched f') :
    (f'.size = f.size ∧ ∀ i < f.size, f'.byte i ≠ f.byte i →
        ∃ q ∈ patched,
          PatchedField f (labelFields (areaAt f' q) q).version q i)
      ∧ ∀ q ∈ patched, ∀ size dl, q + size ≤ f.size →
        labelDecode (areaAt f q) size q = some dl → dl.rootPresent →
        (GivesSlice f' q size (dl.version = DL_V3) sliceBase sliceBytes ↔
          UsableSize (sliceBytes / dl.secsize)
            ∧ ¬Overlaid f patched sliceBytes q) := by
  have hwalk : patchLabels refuse sliceBase sliceBytes labelOffsets f =
      .ok patched f' := by
    unfold labelPatchSliceSizeFd at hrun
    obtain ⟨ps, g, hwalk, hrest⟩ := bind_eq_ok hrun
    by_cases hnone : ps = []
    · rw [if_pos hnone] at hrest
      cases hrest
    · rw [if_neg hnone] at hrest
      cases hrest
      exact hwalk
  obtain ⟨hsize, hframe⟩ := patchLabels_frame labelOffsets_ascending hwalk
  refine ⟨⟨hsize, fun i hi hne => ?_⟩, fun q hq size dl hin hdl hroot => ?_⟩
  · obtain ⟨p, hp, -, hfield⟩ := hframe i hi hne
    exact ⟨p, hp, hfield⟩
  have hsector : ∀ p ∈ labelOffsets, p % DEV_SECTOR_SIZE = 0 := fun p hp =>
    (labelOffsets_sector hp).1
  obtain ⟨front, ps, h, hasc, hfar, hearlier, hsub, hfront, hr⟩ :=
    patchLabels_reached labelOffsets_ascending hsector hwalk hq
  have hlimit := (labelOffsets_sector (patchLabels_mem hwalk q hq)).2
  have hdlv : dl.version = beAt (areaAt f q) 0x00 4 := by
    obtain ⟨rfl, -⟩ := labelDecode_eq_some.1 hdl
    rfl
  have hover : Overlaid f ps sliceBytes q ↔ Overlaid f patched sliceBytes q := by
    constructor
    · rintro ⟨h3, p, hp, hrest⟩
      exact ⟨h3, p, hsub p hp, hrest⟩
    · rintro ⟨h3, p, hp, hnext, hrest⟩
      refine ⟨h3, p, hearlier p hp ?_, hnext, hrest⟩
      unfold DEV_SECTOR_SIZE at hnext
      omega
  rw [hr.givesSlice_iff hin hdl hroot, ← hover, hdlv,
    version_reached hasc hfar hfront hr hlimit]

end Version

/-! ## §3. One copy at the start of the image. -/

/-- The label area with one new copy, for a slice of 160 blocks. -/
def oneLabel : ByteFile where
  size := LABEL_SCAN_LIMIT
  byte := fun i =>
    if i < LABEL_WRITE_SIZE then
      labelCopy 0 320 160 2 ⟨[], List.not_mem_nil⟩ i
    else 0

theorem oneLabel_patchable {sliceBytes : Nat} (hmul : sliceBytes % 1024 = 0)
    (hfit : sliceBytes / 1024 ≤ 0xffffff) :
    Patchable oneLabel LABEL_FRONT_PORCH_BYTES sliceBytes 0 := by
  have hsec : beAt (areaAt oneLabel 0) DT_SECSIZE_OFF 2 = 1024 := by
    decide +kernel
  refine ⟨by decide, by decide +kernel, by decide +kernel, by decide +kernel,
    by decide +kernel, by rwa [hsec], ?_, by decide +kernel⟩
  unfold newBlocks
  rw [hsec]
  omega

/-- The patch finds that copy only. -/
theorem oneLabel_patched {sliceBytes : Nat} (hmul : sliceBytes % 1024 = 0)
    (hfit : sliceBytes / 1024 ≤ 0xffffff) :
    labelPatchSliceSizeFd (fun _ => none) LABEL_FRONT_PORCH_BYTES sliceBytes
      oneLabel = .ok [0] (patchedFile oneLabel sliceBytes 0) := by
  have hpatch := oneLabel_patchable hmul hfit
  have hroot : rootIndex oneLabel 0 = 0 := by decide +kernel
  have hoffs : labelOffsets = 0 :: labelOffsets.tail := by decide +kernel
  have hnone : ∀ p ∈ labelOffsets.tail, 512 ≤ p
      ∧ p + LABEL_VALIDATE_SIZE ≤ oneLabel.size
      ∧ labelIsVersion (beAt (areaAt oneLabel p) 0x00 4) = false := by
    decide +kernel
  have hrest : patchLabels (fun _ => none) LABEL_FRONT_PORCH_BYTES sliceBytes
      labelOffsets.tail (patchedFile oneLabel sliceBytes 0) =
        .ok [] (patchedFile oneLabel sliceBytes 0) := by
    apply patchLabels_none
    intro p hp
    obtain ⟨hlow, hfits, hversion⟩ := hnone p hp
    rw [patchedFile_size hpatch.fits]
    refine ⟨hfits, ?_⟩
    -- the patch changes bytes of the first sector, and the checksum
    have hsame : beAt (areaAt (patchedFile oneLabel sliceBytes 0) p) 0x00 4 =
        beAt (areaAt oneLabel p) 0x00 4 := by
      apply beAt_congr
      intro i _ hi
      apply patchedFile_out hpatch.rootIndex_lt
      · unfold LABEL_VALIDATE_SIZE at hfits
        omega
      · unfold SizeField ChecksumField
        rw [hroot]
        unfold partOff DT_PARTITIONS_OFF DL_DISKTAB_OFF DT_PARTITION_SIZE
          PART_SIZE_OFF DL_V3_CKSUM_OFF
        have hmem : p ∈ labelOffsets := by
          rw [hoffs]
          exact List.mem_cons_of_mem 0 hp
        have hsector := (labelOffsets_sector hmem).1
        unfold DEV_SECTOR_SIZE at hsector
        omega
    rw [hsame]
    exact hversion
  unfold labelPatchSliceSizeFd
  rw [hoffs]
  have hwalk : patchLabels (fun _ => none) LABEL_FRONT_PORCH_BYTES sliceBytes
      (0 :: labelOffsets.tail) oneLabel =
        .ok [0] (patchedFile oneLabel sliceBytes 0) := by
    unfold patchLabels
    rw [bind_of_ok (hpatch.patchOneLabel rfl), bind_of_ok hrest]
    rfl
  rw [bind_of_ok hwalk]
  rfl

/-- The label as it decodes. -/
theorem oneLabel_decodes : ∃ dl,
    labelDecode (areaAt oneLabel 0) LABEL_DECODE_SIZE 0 = some dl
      ∧ dl.rootPresent ∧ dl.version = DL_V3 ∧ dl.secsize = 1024 := by
  refine ⟨labelFields (areaAt oneLabel 0) 0, labelDecode_eq_some.2 ⟨rfl,
    Nat.le_refl _, by decide +kernel, by decide +kernel, by decide +kernel,
    by decide +kernel, by decide +kernel⟩, ⟨by decide +kernel, by decide +kernel⟩,
    by decide +kernel, by decide +kernel⟩

/-- The slice of 160 blocks made one of 100. -/
theorem patch_keeps_labels_shrink : GivesSlice
    (patchedFile oneLabel (100 * 1024) 0) 0 LABEL_DECODE_SIZE True
      LABEL_FRONT_PORCH_BYTES (100 * 1024) := by
  obtain ⟨dl, hdl, hroot, hversion, hsec⟩ := oneLabel_decodes
  have hrun := @oneLabel_patched (100 * 1024) (by decide) (by decide)
  have halone : ¬Overlaid oneLabel [0] (100 * 1024) 0 := by
    rintro ⟨-, p, -, hp, -⟩
    unfold DEV_SECTOR_SIZE at hp
    omega
  have husable : UsableSize (100 * 1024 / dl.secsize) := by
    rw [hsec]
    exact ⟨by decide, by decide⟩
  obtain ⟨dl', hdl', hvalid, hpick⟩ := ((patch_keeps_labels hrun).2 0
    List.mem_cons_self LABEL_DECODE_SIZE dl (by decide) hdl hroot).2
    ⟨husable, halone⟩
  exact ⟨dl', hdl', fun _ => hvalid hversion, hpick⟩

/-- **The size that means an unused partition.**  The largest size the patch
accepts is the mark of an unused one: the patch succeeds on a valid label, and
no label that the copy then decodes to gives the slice. -/
theorem unusedSize_patched : ∃ f',
    labelPatchSliceSizeFd (fun _ => none) LABEL_FRONT_PORCH_BYTES
        (0xffffff * 1024) oneLabel = .ok [0] f'
      ∧ (∃ dl, labelDecode (areaAt oneLabel 0) LABEL_DECODE_SIZE 0 = some dl
        ∧ dl.rootPresent ∧ dl.version = DL_V3)
      ∧ ∀ dl, labelDecode (areaAt f' 0) LABEL_DECODE_SIZE 0 = some dl →
        pickSlice dl ≠ some (LABEL_FRONT_PORCH_BYTES, 0xffffff * 1024) := by
  obtain ⟨dl, hdl, hroot, hversion, -⟩ := oneLabel_decodes
  refine ⟨_, oneLabel_patched (by decide) (by decide),
    ⟨dl, hdl, hroot, hversion⟩, fun dl' hdl' hpick => ?_⟩
  obtain ⟨rfl, -⟩ := labelDecode_eq_some.1 hdl'
  have hsec : (labelFields (areaAt (patchedFile oneLabel (0xffffff * 1024) 0) 0)
      0).secsize = 1024 := by decide +kernel
  have husable := usableSize_of_picked (by rw [hsec]; decide) hpick
  rw [hsec] at husable
  exact absurd husable.2 (by decide)

end NextUfs.Label
