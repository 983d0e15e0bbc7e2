/-
  NextUfs.Label.PatchWalk
  ───────────────────────
  **THE WALK OF A PATCH OVER THE SECTORS.**

  The patch visits the sectors of the label area and changes, in each copy that
  describes the slice, the size of the root partition and the checksum.  The
  copies may overlap: a copy's fields are read when the walk reaches it.

    • `patchOneLabel_cases` — what one sector does,
    • `patchLabels_frame`   — a walk changes size and checksum fields only,
    • `patchLabels_at`      — the file when the walk reaches a copy,
    • `overlap`             — the bytes of a copy under an earlier one's fields,
    • `patchLabels_reached` — a copy before, at and after its patch.
-/
import Mathlib.Tactic.IntervalCases
import NextUfs.Label.DiskLabel

namespace NextUfs.Label

open Host Window Fields State

/-! ## §1. One sector. -/

/-- The partition the copy at `off` boots from. -/
def rootIndex (f : ByteFile) (off : Nat) : Nat :=
  (f.byte (off + DT_ROOTPART_OFF)).toNat - PART_A

/-- The bytes of the root partition's size. -/
def SizeField (f : ByteFile) (off i : Nat) : Prop :=
  off + partOff (rootIndex f off) + PART_SIZE_OFF ≤ i
    ∧ i < off + partOff (rootIndex f off) + PART_SIZE_OFF + 3

/-- The bytes of the checksum. -/
def ChecksumField (off i : Nat) : Prop :=
  off + DL_V3_CKSUM_OFF ≤ i ∧ i < off + DL_V3_CKSUM_OFF + 2

/-- The bytes that a patch changes in a copy of a version: its size, and its
checksum if it has one there. -/
def PatchedField (f : ByteFile) (version off i : Nat) : Prop :=
  SizeField f off i ∨ version = DL_V3 ∧ ChecksumField off i

/-- The new size in the blocks of the copy at `off`. -/
def newBlocks (f : ByteFile) (sliceBytes off : Nat) : Nat :=
  sliceBytes / beAt (areaAt f off) DT_SECSIZE_OFF 2 % 2 ^ 32

/-- The sector holds a copy that describes the slice. -/
structure Patchable (f : ByteFile) (sliceBase sliceBytes off : Nat) : Prop where
  fits : off + LABEL_VALIDATE_SIZE ≤ f.size
  version : labelIsVersion (beAt (areaAt f off) 0x00 4) = true
  blkno : beAt (areaAt f off) 0x04 4 * DEV_SECTOR_SIZE = off
  letter : PART_A ≤ (f.byte (off + DT_ROOTPART_OFF)).toNat
    ∧ (f.byte (off + DT_ROOTPART_OFF)).toNat < PART_A + LABEL_PART_COUNT
  secsize : beAt (areaAt f off) DT_SECSIZE_OFF 2 ≠ 0
  divides : sliceBytes % beAt (areaAt f off) DT_SECSIZE_OFF 2 = 0
  blocks : newBlocks f sliceBytes off ≤ 0xffffff
  base : (beAt (areaAt f off) DT_FRONT_OFF 2
    + beAt (areaAt f off) (partOff (rootIndex f off) + PART_BASE_OFF) 3)
    * beAt (areaAt f off) DT_SECSIZE_OFF 2 = sliceBase

/-- The copy that is written back. -/
def newLabel (f : ByteFile) (sliceBytes off : Nat) : Nat → UInt8 :=
  patchedLabel (beAt (areaAt f off) 0x00 4) (rootIndex f off)
    (newBlocks f sliceBytes off) (areaAt f off)

/-- The file with it. -/
def patchedFile (f : ByteFile) (sliceBytes off : Nat) : ByteFile :=
  f.pwrite off (load (newLabel f sliceBytes off) 0 LABEL_VALIDATE_SIZE)

section OneSector

variable {refuse : Nat → Option Errno} {f f' : ByteFile}
variable {sliceBase sliceBytes off i : Nat}

theorem writeExactFd_ok {data : List UInt8} {u : Unit}
    (hrun : writeExactFd refuse off data f = .ok u f') :
    f' = f.pwrite off data := by
  unfold writeExactFd at hrun
  cases hrefuse : refuse off with
  | some e =>
    rw [hrefuse] at hrun
    cases hrun
  | none =>
    rw [hrefuse] at hrun
    cases hrun
    rfl

/-- **What one sector does**: nothing, or its copy is written back. -/
theorem patchOneLabel_cases {b : Bool}
    (hrun : patchOneLabel refuse sliceBase sliceBytes off f = .ok b f') :
    (b = false ∧ f' = f) ∨
      (b = true ∧ Patchable f sliceBase sliceBytes off
        ∧ f' = patchedFile f sliceBytes off) := by
  unfold patchOneLabel at hrun
  obtain ⟨label, g, hread, hrest⟩ := bind_eq_ok hrun
  unfold readExactFd at hread
  rw [bind_get] at hread
  by_cases hfits : off + LABEL_VALIDATE_SIZE ≤ f.size
  case neg =>
    rw [if_neg hfits] at hread
    cases hread
  rw [if_pos hfits] at hread
  cases hread
  dsimp only at hrest
  by_cases hversion : labelIsVersion (beAt (areaAt f off) 0x00 4) = false
  · rw [if_pos hversion] at hrest
    cases hrest
    exact Or.inl ⟨rfl, rfl⟩
  rw [if_neg hversion] at hrest
  by_cases hblkno : beAt (areaAt f off) 0x04 4 * DEV_SECTOR_SIZE ≠ off
  · rw [if_pos hblkno] at hrest
    cases hrest
    exact Or.inl ⟨rfl, rfl⟩
  rw [if_neg hblkno] at hrest
  by_cases hroot : (areaAt f off DT_ROOTPART_OFF).toNat < PART_A ∨
      PART_A + LABEL_PART_COUNT ≤ (areaAt f off DT_ROOTPART_OFF).toNat ∨
      beAt (areaAt f off) DT_SECSIZE_OFF 2 = 0 ∨
      sliceBytes % beAt (areaAt f off) DT_SECSIZE_OFF 2 ≠ 0
  · rw [if_pos hroot] at hrest
    cases hrest
    exact Or.inl ⟨rfl, rfl⟩
  rw [if_neg hroot] at hrest
  by_cases hblocks : 0xffffff <
      sliceBytes / beAt (areaAt f off) DT_SECSIZE_OFF 2 % 2 ^ 32
  · rw [if_pos hblocks] at hrest
    cases hrest
  rw [if_neg hblocks] at hrest
  by_cases hbase : (beAt (areaAt f off) DT_FRONT_OFF 2
      + beAt (areaAt f off) (partOff ((areaAt f off DT_ROOTPART_OFF).toNat
        - PART_A) + PART_BASE_OFF) 3)
      * beAt (areaAt f off) DT_SECSIZE_OFF 2 ≠ sliceBase
  · rw [if_pos hbase] at hrest
    cases hrest
    exact Or.inl ⟨rfl, rfl⟩
  rw [if_neg hbase] at hrest
  obtain ⟨_, h, hwrite, hdone⟩ := bind_eq_ok hrest
  have hfile : h = patchedFile f sliceBytes off := writeExactFd_ok hwrite
  cases hdone
  have hletter : PART_A ≤ (f.byte (off + DT_ROOTPART_OFF)).toNat
      ∧ (f.byte (off + DT_ROOTPART_OFF)).toNat < PART_A + LABEL_PART_COUNT :=
    ⟨Nat.le_of_not_lt fun h => hroot (Or.inl h),
      Nat.lt_of_not_le fun h => hroot (Or.inr (Or.inl h))⟩
  have hsecsize : beAt (areaAt f off) DT_SECSIZE_OFF 2 ≠ 0 := fun h =>
    hroot (Or.inr (Or.inr (Or.inl h)))
  have hdivides : sliceBytes % beAt (areaAt f off) DT_SECSIZE_OFF 2 = 0 :=
    not_not.1 fun h => hroot (Or.inr (Or.inr (Or.inr h)))
  exact Or.inr ⟨rfl, ⟨hfits, by simpa using hversion, not_not.1 hblkno, hletter,
    hsecsize, hdivides, Nat.le_of_not_lt hblocks, not_not.1 hbase⟩, hfile⟩

/-- A copy that describes the slice is written back. -/
theorem Patchable.patchOneLabel (h : Patchable f sliceBase sliceBytes off)
    (haccept : refuse off = none) :
    patchOneLabel refuse sliceBase sliceBytes off f =
      .ok true (patchedFile f sliceBytes off) := by
  have hread : readExactFd off LABEL_VALIDATE_SIZE f =
      .ok (areaAt f off) f := by
    unfold readExactFd
    rw [bind_get, if_pos h.fits]
    rfl
  have hletter := h.letter
  have hwrite : ∀ data, writeExactFd refuse off data f =
      .ok () (f.pwrite off data) := by
    intro data
    unfold writeExactFd
    rw [haccept]
    rfl
  have hroot : ¬((areaAt f off DT_ROOTPART_OFF).toNat < PART_A ∨
      PART_A + LABEL_PART_COUNT ≤ (areaAt f off DT_ROOTPART_OFF).toNat ∨
      beAt (areaAt f off) DT_SECSIZE_OFF 2 = 0 ∨
      sliceBytes % beAt (areaAt f off) DT_SECSIZE_OFF 2 ≠ 0) := by
    rintro (hr | hr | hr | hr)
    · exact absurd hletter.1 (Nat.not_le_of_lt hr)
    · exact absurd hletter.2 (Nat.not_lt_of_le hr)
    · exact h.secsize hr
    · exact hr h.divides
  have hblocks : ¬0xffffff <
      sliceBytes / beAt (areaAt f off) DT_SECSIZE_OFF 2 % 2 ^ 32 :=
    Nat.not_lt_of_le h.blocks
  have hbase : ¬(beAt (areaAt f off) DT_FRONT_OFF 2
      + beAt (areaAt f off) (partOff ((areaAt f off DT_ROOTPART_OFF).toNat
        - PART_A) + PART_BASE_OFF) 3)
      * beAt (areaAt f off) DT_SECSIZE_OFF 2 ≠ sliceBase := not_not.2 h.base
  unfold Label.patchOneLabel
  rw [bind_of_ok hread]
  dsimp only
  rw [if_neg (by rw [h.version]; decide), if_neg (not_not.2 h.blkno),
    if_neg hroot, if_neg hblocks, if_neg hbase,
    bind_of_ok (hwrite _)]
  rfl

theorem Patchable.rootIndex_lt (h : Patchable f sliceBase sliceBytes off) :
    rootIndex f off < LABEL_PART_COUNT := by
  have hlow := h.letter.1
  have hhigh := h.letter.2
  unfold rootIndex
  omega

/-- The fields of a patch lie in the first bytes of its copy. -/
theorem patchField_range (hroot : rootIndex f off < LABEL_PART_COUNT)
    (hi : SizeField f off i ∨ ChecksumField off i) :
    off + 0xc3 ≤ i ∧ i < off + 0x286 := by
  unfold SizeField ChecksumField partOff DT_PARTITIONS_OFF DL_DISKTAB_OFF
    DT_PARTITION_SIZE PART_SIZE_OFF DL_V3_CKSUM_OFF at hi
  unfold LABEL_PART_COUNT at hroot
  omega

@[simp] theorem patchedFile_size (h : off + LABEL_VALIDATE_SIZE ≤ f.size) :
    (patchedFile f sliceBytes off).size = f.size := by
  have hlen : (load (newLabel f sliceBytes off) 0 LABEL_VALIDATE_SIZE).length =
    LABEL_VALIDATE_SIZE := length_load _ _ _
  unfold patchedFile
  generalize load (newLabel f sliceBytes off) 0 LABEL_VALIDATE_SIZE = data at hlen
  show (if data = [] then f.size else max f.size (off + data.length)) = _
  rw [hlen]
  split
  · rfl
  · omega

theorem PatchedField.field {version : Nat} (h : PatchedField f version off i) :
    SizeField f off i ∨ ChecksumField off i :=
  Or.imp_right And.right h

/-- The other bytes of a copy stay. -/
theorem newLabel_keeps
    (h : ¬PatchedField f (beAt (areaAt f off) 0x00 4) off (off + i)) :
    newLabel f sliceBytes off i = f.byte (off + i) := by
  unfold PatchedField SizeField ChecksumField at h
  unfold newLabel patchedLabel
  split
  · rw [putBe_out (by omega), putBe_out (by omega)]
    rfl
  · rw [putBe_out (by omega)]
    rfl

/-- The bytes of a copy that is not its size or its checksum stay. -/
theorem newLabel_out (h : ¬(SizeField f off (off + i) ∨ ChecksumField off (off + i))) :
    newLabel f sliceBytes off i = f.byte (off + i) :=
  newLabel_keeps fun hfield => h hfield.field

theorem patchedFile_area (hroot : rootIndex f off < LABEL_PART_COUNT)
    (hi : off + i < f.size) :
    (patchedFile f sliceBytes off).byte (off + i) =
      newLabel f sliceBytes off i := by
  show (if off ≤ off + i ∧ off + i < off + _ then _
    else if off + i < f.size then f.byte (off + i) else 0) = _
  rw [length_load]
  by_cases hin : i < LABEL_VALIDATE_SIZE
  · rw [if_pos (by omega), Nat.add_sub_cancel_left, getD_load 0 hin, Nat.zero_add]
  · rw [if_neg (by omega), if_pos hi, newLabel_out]
    intro hfield
    have hrange := patchField_range hroot hfield
    unfold LABEL_VALIDATE_SIZE at hin
    omega

/-- **The frame of one patch.** -/
theorem patchedFile_keeps (hroot : rootIndex f off < LABEL_PART_COUNT)
    (hi : i < f.size) (hout : ¬PatchedField f (beAt (areaAt f off) 0x00 4) off i) :
    (patchedFile f sliceBytes off).byte i = f.byte i := by
  by_cases hle : off ≤ i
  · obtain ⟨k, rfl⟩ := Nat.exists_eq_add_of_le hle
    rw [patchedFile_area hroot hi, newLabel_keeps hout]
  · show (if off ≤ i ∧ _ then _ else if i < f.size then f.byte i else 0) = _
    rw [if_neg (by omega), if_pos hi]

theorem patchedFile_out (hroot : rootIndex f off < LABEL_PART_COUNT)
    (hi : i < f.size) (hout : ¬(SizeField f off i ∨ ChecksumField off i)) :
    (patchedFile f sliceBytes off).byte i = f.byte i :=
  patchedFile_keeps hroot hi fun hfield => hout hfield.field

end OneSector

/-! ## §2. The walk. -/

/-- Sectors in ascending order. -/
def Ascending (offs : List Nat) : Prop :=
  offs.Pairwise fun a b => a + DEV_SECTOR_SIZE ≤ b

theorem labelOffsets_ascending : Ascending labelOffsets := by
  unfold labelOffsets Ascending
  apply List.Pairwise.filter
  rw [List.pairwise_map]
  refine List.pairwise_lt_range.imp fun {a b} hab => ?_
  unfold DEV_SECTOR_SIZE
  omega

theorem labelOffsets_sector {off : Nat} (h : off ∈ labelOffsets) :
    off % DEV_SECTOR_SIZE = 0 ∧ off < LABEL_SCAN_LIMIT := by
  unfold labelOffsets at h
  obtain ⟨hmem, hlimit⟩ := List.mem_filter.1 h
  obtain ⟨k, -, rfl⟩ := List.mem_map.1 hmem
  have hle := of_decide_eq_true hlimit
  unfold LABEL_VALIDATE_SIZE at hle
  exact ⟨Nat.mul_mod_left k _, by omega⟩

section Walk

variable {refuse : Nat → Option Errno} {f f' : ByteFile}
variable {sliceBase sliceBytes off : Nat} {offs patched : List Nat}

theorem patchLabels_cons
    (hrun : patchLabels refuse sliceBase sliceBytes (off :: offs) f =
      .ok patched f') :
    ∃ b g rest, patchOneLabel refuse sliceBase sliceBytes off f = .ok b g
      ∧ patchLabels refuse sliceBase sliceBytes offs g = .ok rest f'
      ∧ patched = if b then off :: rest else rest := by
  unfold patchLabels at hrun
  obtain ⟨b, g, hone, hrest⟩ := bind_eq_ok hrun
  obtain ⟨rest, h, hwalk, hdone⟩ := bind_eq_ok hrest
  cases hdone
  exact ⟨b, g, rest, hone, hwalk, rfl⟩

/-- A walk over two stretches is one over the first and one over the second. -/
theorem patchLabels_append (front back : List Nat) :
    ∀ {f f' : ByteFile} {patched : List Nat},
      patchLabels refuse sliceBase sliceBytes (front ++ back) f =
        .ok patched f' →
      ∃ ps g qs, patchLabels refuse sliceBase sliceBytes front f = .ok ps g
        ∧ patchLabels refuse sliceBase sliceBytes back g = .ok qs f'
        ∧ patched = ps ++ qs := by
  induction front with
  | nil =>
    intro f f' patched hrun
    exact ⟨[], f, patched, rfl, hrun, rfl⟩
  | cons off front ih =>
    intro f f' patched hrun
    obtain ⟨b, g, rest, hone, hwalk, rfl⟩ := patchLabels_cons hrun
    obtain ⟨ps, h, qs, hfront, hback, rfl⟩ := ih hwalk
    refine ⟨if b then off :: ps else ps, h, qs, ?_, hback, ?_⟩
    · unfold patchLabels
      rw [bind_of_ok hone, bind_of_ok hfront]
      rfl
    · cases b <;> rfl

/-- Only visited sectors are patched. -/
theorem patchLabels_mem : ∀ {offs : List Nat} {f f' : ByteFile}
    {patched : List Nat},
    patchLabels refuse sliceBase sliceBytes offs f = .ok patched f' →
    ∀ p ∈ patched, p ∈ offs := by
  intro offs
  induction offs with
  | nil =>
    intro f f' patched hrun p hp
    cases hrun
    exact hp
  | cons off offs ih =>
    intro f f' patched hrun p hp
    obtain ⟨b, g, rest, -, hwalk, rfl⟩ := patchLabels_cons hrun
    cases b with
    | false => exact List.mem_cons_of_mem off (ih hwalk p hp)
    | true =>
      rcases List.mem_cons.1 hp with rfl | hp
      · exact List.mem_cons_self
      · exact List.mem_cons_of_mem off (ih hwalk p hp)

/-- **The frame of a walk**: what changes is the size of a copy that is patched,
or its checksum when the copy is of version 3 at the end.  Induction on the
sectors; a copy's letter lies behind the fields of those before it, and its
version before the fields of those behind it. -/
theorem patchLabels_frame : ∀ {offs : List Nat} {f f' : ByteFile}
    {patched : List Nat}, Ascending offs →
    patchLabels refuse sliceBase sliceBytes offs f = .ok patched f' →
    f'.size = f.size ∧ ∀ i < f.size, f'.byte i ≠ f.byte i →
      ∃ p ∈ patched, rootIndex f p < LABEL_PART_COUNT
        ∧ PatchedField f (beAt (areaAt f' p) 0x00 4) p i := by
  intro offs
  induction offs with
  | nil =>
    intro f f' patched _ hrun
    cases hrun
    exact ⟨rfl, fun i _ hne => absurd rfl hne⟩
  | cons off offs ih =>
    intro f f' patched hasc hrun
    obtain ⟨hlater, hasc⟩ := List.pairwise_cons.1 hasc
    obtain ⟨b, g, rest, hone, hwalk, rfl⟩ := patchLabels_cons hrun
    obtain ⟨hsize, hframe⟩ := ih hasc hwalk
    rcases patchOneLabel_cases hone with ⟨rfl, rfl⟩ | ⟨rfl, hpatch, rfl⟩
    · exact ⟨hsize, hframe⟩
    have hroot := hpatch.rootIndex_lt
    have hsame : (patchedFile f sliceBytes off).size = f.size :=
      patchedFile_size hpatch.fits
    refine ⟨hsize.trans hsame, fun i hi hne => ?_⟩
    by_cases hhere : PatchedField f (beAt (areaAt f off) 0x00 4) off i
    · -- the copy's version, at the end
      have hversion : beAt (areaAt f' off) 0x00 4 = beAt (areaAt f off) 0x00 4 := by
        have hfits := hpatch.fits
        unfold LABEL_VALIDATE_SIZE at hfits
        apply beAt_congr
        intro r _ hr
        have hown : (patchedFile f sliceBytes off).byte (off + r)
            = f.byte (off + r) := by
          refine patchedFile_out hroot (by omega) fun h => ?_
          have hrange := patchField_range hroot h
          omega
        show f'.byte (off + r) = f.byte (off + r)
        rw [← hown]
        by_contra hlast
        obtain ⟨p, hp, hproot, hfield⟩ := hframe (off + r) (by omega) hlast
        have hfar := hlater p (patchLabels_mem hwalk p hp)
        have hrange := patchField_range hproot hfield.field
        omega
      rw [← hversion] at hhere
      exact ⟨off, List.mem_cons_self, hroot, hhere⟩
    have hstep : (patchedFile f sliceBytes off).byte i = f.byte i :=
      patchedFile_keeps hroot hi hhere
    obtain ⟨p, hp, hproot, hfield⟩ := hframe i (by omega) (by rwa [hstep])
    have hfar := hlater p (patchLabels_mem hwalk p hp)
    -- the letter of a later copy
    have hletter : rootIndex (patchedFile f sliceBytes off) p = rootIndex f p := by
      have hi := patchField_range hproot hfield.field
      unfold rootIndex
      rw [patchedFile_out hroot]
      · unfold DT_ROOTPART_OFF DL_DISKTAB_OFF
        omega
      · intro h
        have hrange := patchField_range hroot h
        unfold DT_ROOTPART_OFF DL_DISKTAB_OFF at hrange
        unfold DEV_SECTOR_SIZE at hfar
        omega
    refine ⟨p, List.mem_cons_of_mem off hp, hletter ▸ hproot, ?_⟩
    unfold PatchedField SizeField at hfield ⊢
    rwa [hletter] at hfield

/-- Sectors without a label are left. -/
theorem patchLabels_none (hnone : ∀ p ∈ offs, p + LABEL_VALIDATE_SIZE ≤ f.size
      ∧ labelIsVersion (beAt (areaAt f p) 0x00 4) = false) :
    patchLabels refuse sliceBase sliceBytes offs f = .ok [] f := by
  induction offs with
  | nil => rfl
  | cons off offs ih =>
    obtain ⟨hfits, hversion⟩ := hnone off List.mem_cons_self
    have hone : patchOneLabel refuse sliceBase sliceBytes off f = .ok false f := by
      have hread : readExactFd off LABEL_VALIDATE_SIZE f =
          .ok (areaAt f off) f := by
        unfold readExactFd
        rw [bind_get, if_pos hfits]
        rfl
      unfold patchOneLabel
      rw [bind_of_ok hread]
      dsimp only
      rw [if_pos hversion]
      rfl
    unfold patchLabels
    rw [bind_of_ok hone,
      bind_of_ok (ih fun p hp => hnone p (List.mem_cons_of_mem off hp))]
    rfl

/-- **A copy that is patched**: the walk up to it, the file it is read from,
and the walk behind it. -/
theorem patchLabels_at {q : Nat} (hasc : Ascending offs)
    (hrun : patchLabels refuse sliceBase sliceBytes offs f = .ok patched f')
    (hq : q ∈ patched) :
    ∃ front back ps h qs, offs = front ++ q :: back ∧ patched = ps ++ q :: qs
      ∧ patchLabels refuse sliceBase sliceBytes front f = .ok ps h
      ∧ Patchable h sliceBase sliceBytes q
      ∧ patchLabels refuse sliceBase sliceBytes back
          (patchedFile h sliceBytes q) = .ok qs f' := by
  obtain ⟨front, back, rfl⟩ := List.append_of_mem (patchLabels_mem hrun q hq)
  obtain ⟨ps, h, qs, hfront, hback, rfl⟩ := patchLabels_append front _ hrun
  obtain ⟨b, g, rest, hone, hwalk, rfl⟩ := patchLabels_cons hback
  have hparts := List.pairwise_append.1 hasc
  rcases patchOneLabel_cases hone with ⟨rfl, rfl⟩ | ⟨rfl, hpatch, rfl⟩
  · -- a sector is visited once
    rcases List.mem_append.1 hq with hmem | hmem
    · have hlt := hparts.2.2 q (patchLabels_mem hfront q hmem) q
        List.mem_cons_self
      unfold DEV_SECTOR_SIZE at hlt
      omega
    · have hlt := (List.pairwise_cons.1 hparts.2.1).1 q
        (patchLabels_mem hwalk q hmem)
      unfold DEV_SECTOR_SIZE at hlt
      omega
  · exact ⟨front, back, ps, h, rest, rfl, rfl, hfront, hpatch, hwalk⟩

end Walk

/-! ## §3. One copy. -/

/-- The bytes of a copy that can lie under fields of the copy one sector
before it. -/
def Under (r : Nat) : Prop :=
  (0x03 ≤ r ∧ r < 0x06) ∨ (0x2e ≤ r ∧ r < 0x30) ∨ (0x43 ≤ r ∧ r < 0x46)
    ∨ (0x83 ≤ r ∧ r < 0x86)

/-- **Overlapping copies.**  A field of an earlier copy reaches only the next
sector, and there only a few bytes; it is the size of the sixth partition that
reaches the version. -/
theorem overlap {f : ByteFile} {p q r : Nat}
    (hroot : rootIndex f p < LABEL_PART_COUNT) (hp : p % DEV_SECTOR_SIZE = 0)
    (hq : q % DEV_SECTOR_SIZE = 0) (hpq : p + DEV_SECTOR_SIZE ≤ q)
    (hfield : SizeField f p (q + r) ∨ ChecksumField p (q + r)) :
    p + DEV_SECTOR_SIZE = q ∧ Under r
      ∧ (0x03 ≤ r → r < 0x06 → rootIndex f p = 5) := by
  have hrange := patchField_range hroot hfield
  unfold SizeField ChecksumField partOff DT_PARTITIONS_OFF DL_DISKTAB_OFF
    DT_PARTITION_SIZE PART_SIZE_OFF DL_V3_CKSUM_OFF at hfield
  unfold LABEL_PART_COUNT at hroot
  unfold DEV_SECTOR_SIZE at *
  unfold Under
  omega

/-- What a copy of the file `f` goes through: the file `h` in which the walk
reaches it, and the file `f'` at the end. -/
structure Reached (f h f' : ByteFile) (sliceBase sliceBytes q : Nat) : Prop where
  size : h.size = f.size
  before : ∀ r, q + r < f.size → ¬Under r → h.byte (q + r) = f.byte (q + r)
  patch : Patchable h sliceBase sliceBytes q
  after : ∀ r, q + r < f.size → r < 0x2c0 ∨ 0x1c58 ≤ r ∧ r < 0x1c5a →
    f'.byte (q + r) = newLabel h sliceBytes q r

section Copy

variable {refuse : Nat → Option Errno} {f h f' : ByteFile}
variable {sliceBase sliceBytes q : Nat} {offs patched : List Nat}

theorem patchLabels_reached (hasc : Ascending offs)
    (hmul : ∀ p ∈ offs, p % DEV_SECTOR_SIZE = 0)
    (hrun : patchLabels refuse sliceBase sliceBytes offs f = .ok patched f')
    (hq : q ∈ patched) :
    ∃ front ps h, Ascending front
      ∧ (∀ p ∈ front, p % DEV_SECTOR_SIZE = 0 ∧ p + DEV_SECTOR_SIZE ≤ q)
      ∧ (∀ p ∈ patched, p < q → p ∈ ps) ∧ (∀ p ∈ ps, p ∈ patched)
      ∧ patchLabels refuse sliceBase sliceBytes front f = .ok ps h
      ∧ Reached f h f' sliceBase sliceBytes q := by
  obtain ⟨front, back, ps, h, qs, rfl, rfl, hfront, hpatch, hback⟩ :=
    patchLabels_at hasc hrun hq
  obtain ⟨hasc1, hasc2, hcross⟩ := List.pairwise_append.1 hasc
  obtain ⟨hlater, hasc3⟩ := List.pairwise_cons.1 hasc2
  have hfar : ∀ p ∈ front, p % DEV_SECTOR_SIZE = 0 ∧ p + DEV_SECTOR_SIZE ≤ q :=
    fun p hp => ⟨hmul p (List.mem_append_left _ hp),
      hcross p hp q List.mem_cons_self⟩
  have hqmul := hmul q (List.mem_append_right _ List.mem_cons_self)
  obtain ⟨hsize, hframe⟩ := patchLabels_frame hasc1 hfront
  obtain ⟨hsize', hframe'⟩ := patchLabels_frame hasc3 hback
  rw [patchedFile_size hpatch.fits] at hsize' hframe'
  refine ⟨front, ps, h, hasc1, hfar, ?_, fun p hp => List.mem_append_left _ hp,
    hfront, ?_⟩
  · intro p hp hlt
    rcases List.mem_append.1 hp with hp | hp
    · exact hp
    rcases List.mem_cons.1 hp with rfl | hp
    · exact absurd hlt (Nat.lt_irrefl _)
    · have hle := hlater p (patchLabels_mem hback p hp)
      omega
  refine ⟨hsize, ?_, hpatch, ?_⟩
  · intro r hr hunder
    by_contra hne
    obtain ⟨p, hp, hroot, hfield⟩ := hframe (q + r) hr hne
    obtain ⟨hpmul, hpq⟩ := hfar p (patchLabels_mem hfront p hp)
    exact hunder (overlap hroot hpmul hqmul hpq hfield.field).2.1
  · intro r hr hdecoded
    rw [← patchedFile_area hpatch.rootIndex_lt (by omega)]
    by_contra hne
    obtain ⟨p, hp, hroot, hfield⟩ := hframe' (q + r) (by omega) hne
    have hmem := patchLabels_mem hback p hp
    have hle := hlater p hmem
    have hpmul := hmul p (List.mem_append_right _ (List.mem_cons_of_mem q hmem))
    -- a later copy's fields lie behind, and not on the old checksum
    have hfield := hfield.field
    unfold SizeField ChecksumField partOff DT_PARTITIONS_OFF DL_DISKTAB_OFF
      DT_PARTITION_SIZE PART_SIZE_OFF DL_V3_CKSUM_OFF at hfield
    unfold LABEL_PART_COUNT at hroot
    unfold DEV_SECTOR_SIZE at *
    generalize rootIndex (patchedFile h sliceBytes q) p = k at hroot hfield
    interval_cases k <;> omega

section Fields

variable (hr : Reached f h f' sliceBase sliceBytes q)

include hr

theorem Reached.beAt_before {o n : Nat} (hin : q + (o + n) ≤ f.size)
    (hout : ∀ r, o ≤ r → r < o + n → ¬Under r) :
    beAt (areaAt h q) o n = beAt (areaAt f q) o n :=
  beAt_congr fun r hlo hhi => hr.before r (by omega) (hout r hlo hhi)

theorem Reached.fits : q + LABEL_VALIDATE_SIZE ≤ f.size := hr.size ▸ hr.patch.fits

theorem Reached.secsize : beAt (areaAt h q) DT_SECSIZE_OFF 2 =
    beAt (areaAt f q) DT_SECSIZE_OFF 2 := by
  have hfits := hr.fits
  unfold LABEL_VALIDATE_SIZE at hfits
  apply hr.beAt_before
  · unfold DT_SECSIZE_OFF DL_DISKTAB_OFF
    omega
  · intro r hlo hhi
    unfold DT_SECSIZE_OFF DL_DISKTAB_OFF at *
    unfold Under
    omega

theorem Reached.newBlocks_eq : newBlocks h sliceBytes q = newBlocks f sliceBytes q := by
  unfold newBlocks
  rw [hr.secsize]

theorem Reached.letter : h.byte (q + DT_ROOTPART_OFF) = f.byte (q + DT_ROOTPART_OFF) := by
  have hfits := hr.fits
  unfold LABEL_VALIDATE_SIZE at hfits
  apply hr.before
  · unfold DT_ROOTPART_OFF DL_DISKTAB_OFF
    omega
  · unfold Under DT_ROOTPART_OFF DL_DISKTAB_OFF
    omega

theorem Reached.rootIndex_eq : rootIndex h q = rootIndex f q := by
  unfold rootIndex
  rw [hr.letter]

theorem Reached.rootIndex_lt : rootIndex f q < LABEL_PART_COUNT :=
  hr.rootIndex_eq ▸ hr.patch.rootIndex_lt

/-- A field that the patch leaves, at the end of the walk. -/
theorem Reached.beAt_after {o n : Nat} (hin : q + (o + n) ≤ f.size)
    (hdecoded : o + n ≤ 0x2c0 ∨ 0x1c58 ≤ o ∧ o + n ≤ 0x1c5a)
    (hsize : o + n ≤ partOff (rootIndex f q) + PART_SIZE_OFF
      ∨ partOff (rootIndex f q) + PART_SIZE_OFF + 3 ≤ o)
    (hsum : o + n ≤ DL_V3_CKSUM_OFF ∨ DL_V3_CKSUM_OFF + 2 ≤ o) :
    beAt (areaAt f' q) o n = beAt (areaAt h q) o n := by
  apply beAt_congr
  intro r hlo hhi
  have h1 := hr.after r (by omega) (by omega)
  rw [newLabel_out] at h1
  · exact h1
  · unfold SizeField ChecksumField
    rw [hr.rootIndex_eq]
    omega

/-- The size that has been written. -/
theorem Reached.size_after :
    beAt (areaAt f' q) (partOff (rootIndex f q) + PART_SIZE_OFF) 3 =
      newBlocks f sliceBytes q := by
  have hfits := hr.fits
  have hroot := hr.rootIndex_lt
  have hblocks := hr.patch.blocks
  rw [hr.newBlocks_eq] at hblocks
  have hlabel : beAt (areaAt f' q) (partOff (rootIndex f q) + PART_SIZE_OFF) 3 =
      beAt (newLabel h sliceBytes q)
        (partOff (rootIndex f q) + PART_SIZE_OFF) 3 := by
    apply beAt_congr
    intro r hlo hhi
    unfold partOff DT_PARTITIONS_OFF DL_DISKTAB_OFF DT_PARTITION_SIZE
      PART_SIZE_OFF at hlo hhi
    unfold LABEL_PART_COUNT at hroot
    unfold LABEL_VALIDATE_SIZE at hfits
    exact hr.after r (by omega) (by omega)
  have hput : beAt (putBe (areaAt h q)
      (partOff (rootIndex f q) + PART_SIZE_OFF) 3 (newBlocks f sliceBytes q))
      (partOff (rootIndex f q) + PART_SIZE_OFF) 3 = newBlocks f sliceBytes q :=
    beAt_putBe_of_lt (by omega)
  rw [hlabel]
  unfold newLabel patchedLabel
  rw [hr.rootIndex_eq, hr.newBlocks_eq]
  split
  · rw [beAt_putBe_out, hput]
    unfold partOff DT_PARTITIONS_OFF DL_DISKTAB_OFF DT_PARTITION_SIZE
      PART_SIZE_OFF DL_V3_CKSUM_OFF
    unfold LABEL_PART_COUNT at hroot
    omega
  · exact hput

end Fields

end Copy

end NextUfs.Label
