/-
  NextUfs.Fsck.Address
  ────────────────────
  **WHERE THE CORE AND THE CHECKER LOOK.**

  The core multiplies fragment numbers by the fragment size in 64 bits.  The
  checker turns them into device blocks of 1024 bytes, in 32 bits, and shifts
  those into bytes, again in 32 bits: `dbtob` wraps at 4 GiB.

    • `fsbtodb`, `dbtob`, `cgtod`, `itod` — the macros of `ufs/fs.h` and
      `sys/param.h`, as `bread` and `bwrite` use them,
    • `byteOffset_eq`      — the offset they come to,
    • `byteOffset_eq_iff`  — it is the core's for an address below 4 GiB that
      is a multiple of a device block, and for no other one,
    • `addressesAgree_iff` — when the two agree on a whole file system.

  Offsets count from the start of the file system.  `fs_fragshift`, which both
  sides shift by, is a parameter.
-/
import NextUfs.Core.Directory

namespace NextUfs.Fsck.Address

/-! ## §1. The macros. -/

/-- Bytes of the checker's device blocks. -/
def DEV_BSIZE : Nat := 1024

/-- `DEV_BSHIFT`. -/
def DEV_BSHIFT : Nat := 10

section Macros

variable (sb : Superblock) (fragShift : Nat)

/-- `fsbtodb`: through `uint64_t` into `ufs_daddr_t`. -/
def fsbtodb (b : BitVec 32) : BitVec 32 :=
  (b.signExtend 64 * (BitVec.ofNat 32 sb.fragSize).signExtend 64
    / BitVec.ofNat 64 DEV_BSIZE).setWidth 32

/-- `dbtob`: an `unsigned` shifted. -/
def dbtob (db : BitVec 32) : BitVec 32 := db <<< DEV_BSHIFT

/-- The offset of `bread` and `bwrite` for a fragment, as `getblk` passes it. -/
def byteOffset (b : BitVec 32) : Nat := (dbtob (fsbtodb sb b)).toNat

/-- `cgbase`. -/
def cgbase (c : BitVec 32) : BitVec 32 := BitVec.ofNat 32 sb.fragsPerGroup * c

/-- `cgstart`. -/
def cgstart (c : BitVec 32) : BitVec 32 :=
  cgbase sb c
    + BitVec.ofNat 32 sb.cgDelta * (c &&& ~~~BitVec.ofNat 32 sb.cgCycMask)

/-- `cgtod`. -/
def cgtod (c : BitVec 32) : BitVec 32 := cgstart sb c + BitVec.ofNat 32 sb.cgOff

/-- `cgimin`. -/
def cgimin (c : BitVec 32) : BitVec 32 :=
  cgstart sb c + BitVec.ofNat 32 sb.inoOff

/-- `itog`. -/
def itog (x : Nat) : Nat := x / sb.inodesPerGroup

/-- `itod`. -/
def itod (x : Nat) : BitVec 32 :=
  cgimin sb (BitVec.ofNat 32 (itog sb x))
    + BitVec.ofNat 32
        ((x % sb.inodesPerGroup / sb.inodesPerBlock) <<< fragShift)

/-- `itoo`. -/
def itoo (x : Nat) : Nat := x % sb.inodesPerBlock

/-- Where the checker reads and writes a fragment. -/
def fragOffset (frag : Nat) : Nat := byteOffset sb (BitVec.ofNat 32 frag)

/-- Where it reads and writes a cylinder group. -/
def cgOffset (cg : Nat) : Nat := byteOffset sb (cgtod sb (BitVec.ofNat 32 cg))

/-- Where it reads and writes an inode: `ginode`'s block, and the place in
it. -/
def inodeOffset (x : Nat) : Nat :=
  byteOffset sb (itod sb fragShift x) + itoo sb x * UFS_INODE_SIZE

end Macros

/-! ## §2. One address. -/

section One

variable {sb : Superblock} {a n : Nat} {b : BitVec 32}

/-- Sign extension keeps the low bits. -/
theorem signExtend_toNat_mod (b : BitVec 32) :
    (b.signExtend 64).toNat % 2 ^ 32 = b.toNat := by
  have hlt := b.isLt
  rw [BitVec.toNat_signExtend, BitVec.toNat_setWidth]
  split <;> omega

/-- **The checker's offset**: the product, cut to device blocks and to 32
bits. -/
theorem byteOffset_eq (sb : Superblock) (b : BitVec 32) :
    byteOffset sb b
      = b.toNat * sb.fragSize % 2 ^ 32 / DEV_BSIZE * DEV_BSIZE := by
  have hb := signExtend_toNat_mod b
  have hsize := signExtend_toNat_mod (BitVec.ofNat 32 sb.fragSize)
  have hmul : ((b.signExtend 64).toNat
        * ((BitVec.ofNat 32 sb.fragSize).signExtend 64).toNat % 2 ^ 64)
          % 2 ^ 32
      = b.toNat * sb.fragSize % 2 ^ 32 := by
    rw [Nat.mod_mod_of_dvd _ (by decide), Nat.mul_mod, hb, hsize,
      BitVec.toNat_ofNat, Nat.mul_mod_mod]
  unfold byteOffset dbtob fsbtodb DEV_BSHIFT
  rw [BitVec.toNat_shiftLeft, BitVec.toNat_setWidth, BitVec.toNat_udiv,
    BitVec.toNat_mul, ← hmul]
  generalize (b.signExtend 64).toNat
    * ((BitVec.ofNat 32 sb.fragSize).signExtend 64).toNat % 2 ^ 64 = p
  have hdev : (BitVec.ofNat 64 DEV_BSIZE).toNat = 1024 := rfl
  rw [hdev, Nat.shiftLeft_eq]
  unfold DEV_BSIZE
  omega

/-- **The two sides agree on an address** below 4 GiB that is a multiple of a
device block, and on no other one. -/
theorem byteOffset_eq_iff (hb : b.toNat = a % 2 ^ 32) :
    byteOffset sb b = a * sb.fragSize ↔
      a * sb.fragSize < 2 ^ 32 ∧ DEV_BSIZE ∣ a * sb.fragSize := by
  rw [byteOffset_eq, hb, Nat.mod_mul_mod]
  generalize a * sb.fragSize = p
  unfold DEV_BSIZE
  omega

end One

/-! ## §3. A whole file system. -/

/-- The numbers of a superblock are 32-bit numbers, and the blocks of its
groups are fragments of the file system. -/
structure Inside (sb : Superblock) (fragShift : Nat) : Prop where
  hasInodes : hasInodes sb
  cgCycMask_lt : sb.cgCycMask < 2 ^ 32
  fragSize_lt : sb.fragSize < 2 ^ 32
  inodesPerBlock_lt : sb.inodesPerBlock < 2 ^ 32
  fragCount_gt : 1 < sb.fragCount
  fragCount_lt : sb.fragCount < 2 ^ 32
  cgCount_lt : sb.cgCount < 2 ^ 32
  groups : ∀ c < sb.cgCount, NextUfs.cgstart sb c + sb.cgOff < sb.fragCount
  inodes : ∀ x < sb.inodesPerGroup * sb.cgCount,
    inodeFrag sb fragShift x < sb.fragCount

/-- **The core and the checker look in the same places.** -/
structure AddressesAgree (sb : Superblock) (fragShift : Nat) : Prop where
  frags : ∀ f < sb.fragCount, fragOffset sb f = NextUfs.fragOffset sb f
  groups : ∀ c < sb.cgCount, cgOffset sb c = cgBlockOffset sb c
  inodes : ∀ x < sb.inodesPerGroup * sb.cgCount,
    inodeOffset sb fragShift x = NextUfs.inodeOffset sb fragShift x

section Whole

variable {sb : Superblock} {fragShift : Nat}

/-- The checker's groups start where the core's do, in 32 bits. -/
theorem cgstart_toNat (hmask : sb.cgCycMask < 2 ^ 32) {c : Nat}
    (hc : c < 2 ^ 32) :
    (cgstart sb (BitVec.ofNat 32 c)).toNat = NextUfs.cgstart sb c % 2 ^ 32 := by
  have hand : (BitVec.ofNat 32 c &&& ~~~BitVec.ofNat 32 sb.cgCycMask).toNat
      = c &&& (2 ^ 32 - 1 - sb.cgCycMask) := by
    rw [BitVec.toNat_and, BitVec.toNat_not, BitVec.toNat_ofNat,
      BitVec.toNat_ofNat, Nat.mod_eq_of_lt hc, Nat.mod_eq_of_lt hmask]
  unfold cgstart cgbase NextUfs.cgstart
  rw [BitVec.toNat_add, BitVec.toNat_mul, BitVec.toNat_mul, hand,
    BitVec.toNat_ofNat, BitVec.toNat_ofNat, BitVec.toNat_ofNat,
    Nat.mod_eq_of_lt hc, Nat.mod_mul_mod, Nat.mod_mul_mod, ← Nat.add_mod]

theorem cgtod_toNat (hmask : sb.cgCycMask < 2 ^ 32) {c : Nat}
    (hc : c < 2 ^ 32) :
    (cgtod sb (BitVec.ofNat 32 c)).toNat
      = (NextUfs.cgstart sb c + sb.cgOff) % 2 ^ 32 := by
  unfold cgtod
  rw [BitVec.toNat_add, cgstart_toNat hmask hc, BitVec.toNat_ofNat,
    ← Nat.add_mod]

theorem itod_toNat (hmask : sb.cgCycMask < 2 ^ 32) {x : Nat}
    (hx : x / sb.inodesPerGroup < 2 ^ 32) :
    (itod sb fragShift x).toNat = inodeFrag sb fragShift x % 2 ^ 32 := by
  unfold itod cgimin itog inodeFrag
  rw [BitVec.toNat_add, BitVec.toNat_add, cgstart_toNat hmask hx,
    BitVec.toNat_ofNat, BitVec.toNat_ofNat]
  generalize NextUfs.cgstart sb (x / sb.inodesPerGroup) = start
  generalize (x % sb.inodesPerGroup / sb.inodesPerBlock) <<< fragShift = block
  omega

/-- Below the last fragment's offset nothing is wrapped. -/
theorem Inside.bytes_lt (hlast : (sb.fragCount - 1) * sb.fragSize < 2 ^ 32)
    {a : Nat} (ha : a < sb.fragCount) : a * sb.fragSize < 2 ^ 32 :=
  Nat.lt_of_le_of_lt
    (Nat.mul_le_mul_right sb.fragSize (show a ≤ sb.fragCount - 1 by omega))
    hlast

/-- The group of an inode. -/
theorem Inside.itog_lt (h : Inside sb fragShift) {x : Nat}
    (hx : x < sb.inodesPerGroup * sb.cgCount) :
    x / sb.inodesPerGroup < 2 ^ 32 :=
  (Nat.div_lt_of_lt_mul hx).trans h.cgCount_lt

/-- **The core and the checker look in the same places exactly when** a
fragment is a number of device blocks, the last fragment starts below 4 GiB,
and a second group's inodes start a block. -/
theorem addressesAgree_iff (h : Inside sb fragShift) :
    AddressesAgree sb fragShift ↔
      DEV_BSIZE ∣ sb.fragSize ∧
        (sb.fragCount - 1) * sb.fragSize < 2 ^ 32 ∧
        (sb.cgCount ≤ 1 ∨ sb.inodesPerBlock ∣ sb.inodesPerGroup) := by
  have hgt := h.fragCount_gt
  have hlt := h.fragCount_lt
  have hfrag : ∀ f < sb.fragCount, fragOffset sb f = NextUfs.fragOffset sb f ↔
      f * sb.fragSize < 2 ^ 32 ∧ DEV_BSIZE ∣ f * sb.fragSize := by
    intro f _
    exact byteOffset_eq_iff (BitVec.toNat_ofNat f 32)
  -- what an inode's block is found at
  have hblock : DEV_BSIZE ∣ sb.fragSize →
      (sb.fragCount - 1) * sb.fragSize < 2 ^ 32 →
      ∀ x < sb.inodesPerGroup * sb.cgCount,
        byteOffset sb (itod sb fragShift x)
            = inodeFrag sb fragShift x * sb.fragSize ∧
          inodeFrag sb fragShift x * sb.fragSize < 2 ^ 32 := by
    intro hdvd hlast x hx
    have hbytes := Inside.bytes_lt hlast (h.inodes x hx)
    refine ⟨(byteOffset_eq_iff (itod_toNat h.cgCycMask_lt (h.itog_lt hx))).mpr
      ⟨hbytes, hdvd.mul_left _⟩, hbytes⟩
  constructor
  · rintro ⟨hfrags, -, hinodes⟩
    obtain ⟨-, hdvd⟩ := (hfrag 1 hgt).mp (hfrags 1 hgt)
    rw [Nat.one_mul] at hdvd
    obtain ⟨hlast, -⟩ := (hfrag (sb.fragCount - 1) (by omega)).mp
      (hfrags (sb.fragCount - 1) (by omega))
    refine ⟨hdvd, hlast, ?_⟩
    by_cases hone : sb.cgCount ≤ 1
    · exact Or.inl hone
    right
    have hpos := Nat.pos_of_ne_zero h.hasInodes.1
    -- the first inode of the second group is the first one of its block
    have hx : sb.inodesPerGroup < sb.inodesPerGroup * sb.cgCount :=
      lt_mul_of_one_lt_right hpos (by omega)
    have heq := hinodes sb.inodesPerGroup hx
    obtain ⟨hchecker, hbytes⟩ := hblock hdvd hlast _ hx
    have hcore : NextUfs.inodeOffset sb fragShift sb.inodesPerGroup
        = inodeFrag sb fragShift sb.inodesPerGroup * sb.fragSize := by
      unfold NextUfs.inodeOffset
      rw [Nat.mod_self, Nat.zero_mod, Nat.zero_mul, Nat.add_zero]
      exact Nat.mod_eq_of_lt (by omega)
    unfold inodeOffset itoo UFS_INODE_SIZE at heq
    rw [hcore, hchecker] at heq
    exact Nat.dvd_of_mod_eq_zero (by omega)
  · rintro ⟨hdvd, hlast, hgroups⟩
    constructor
    · exact fun f hf =>
        (hfrag f hf).mpr ⟨Inside.bytes_lt hlast hf, hdvd.mul_left _⟩
    · intro c hc
      have hbytes := Inside.bytes_lt hlast (h.groups c hc)
      have hcg := (byteOffset_eq_iff (cgtod_toNat h.cgCycMask_lt
        (hc.trans h.cgCount_lt))).mpr ⟨hbytes, hdvd.mul_left _⟩
      unfold cgOffset cgBlockOffset
      rw [hcg, Nat.mod_eq_of_lt (by omega)]
    · intro x hx
      obtain ⟨hchecker, hbytes⟩ := hblock hdvd hlast x hx
      have hslot : x % sb.inodesPerBlock
          = x % sb.inodesPerGroup % sb.inodesPerBlock := by
        rcases hgroups with hone | hgroups
        · have hle := Nat.mul_le_mul_left sb.inodesPerGroup hone
          rw [Nat.mul_one] at hle
          rw [Nat.mod_eq_of_lt (show x < sb.inodesPerGroup by omega)]
        · exact (Nat.mod_mod_of_dvd x hgroups).symm
      have hlt := Nat.mod_lt (x % sb.inodesPerGroup)
        (Nat.pos_of_ne_zero h.hasInodes.2.2)
      have hipb := h.inodesPerBlock_lt
      unfold inodeOffset itoo NextUfs.inodeOffset UFS_INODE_SIZE
      rw [hchecker, hslot]
      exact (Nat.mod_eq_of_lt (by omega)).symm

end Whole

/-! ## §4. The default geometry, small and large. -/

/-- The geometry of a labeled image: blocks of 8 KiB, fragments of 1 KiB, 2048
fragments and 512 inodes in a group. -/
def labelSb (fragCount cgCount : Nat) : Superblock where
  sbOff := 16
  cgOff := 24
  inoOff := 32
  dataOff := 96
  cgDelta := 32
  cgCycMask := 0xfffffffc
  fragCount := fragCount
  cgCount := cgCount
  blockSize := 8192
  fragSize := 1024
  fragsPerBlock := 8
  sectorsPerFrag := 1
  cylSummaryAddr := 96
  csumSize := 1024
  cgSize := 2048
  sectorsPerTrack := 32
  sectorsPerCyl := 128
  ncyl := 16 * cgCount
  cpg := 16
  inodesPerGroup := 512
  inodesPerBlock := 64
  fragsPerGroup := 2048

/-- On an image of 4 MiB the two agree. -/
theorem addressesAgree_iff_small : AddressesAgree (labelSb 4096 2) 3 := by
  have hinside : Inside (labelSb 4096 2) 3 := by
    constructor <;> decide +kernel
  exact (addressesAgree_iff hinside).mpr (by decide +kernel)

/-- **On an image of 5 GiB they do not**: the checker's offset of the fragment
at 4 GiB is 0. -/
theorem not_addressesAgree_large :
    ¬AddressesAgree (labelSb (5 * 2 ^ 20) 2560) 3 := by
  intro h
  have hfrag := h.frags (2 ^ 22) (by decide)
  have hzero : fragOffset (labelSb (5 * 2 ^ 20) 2560) (2 ^ 22) = 0 := by
    decide
  rw [hzero] at hfrag
  exact absurd hfrag (by decide)

end NextUfs.Fsck.Address
