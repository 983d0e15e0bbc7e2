/-
  NextUfs.Format.Geometry
  ───────────────────────
  **THE GEOMETRY `mkimg` DERIVES.**

  `nextufs_format` turns its options into a superblock by a chain of
  computations and rejections, and writes groups only when the chain ends.
  This file is that chain, up to the first group:

    • `blockSizes`, `cylinderGroup`   — blocks, rotation, cylinders a group,
    • `countCylinders`, `groupCount`  — how many of each,
    • `layOut`                        — where a group keeps its metadata,
    • `dropShortGroup`                — the last group, when its metadata does
      not fit,
    • `nextufsFormat`                 — the whole chain.

  Signed arithmetic is exact.  Where a product of the source can leave the
  range of an `int` the source has no meaning, and the chain ends with
  `overflow`.
-/
import Mathlib.Data.Int.Bitwise
import NextUfs.Core.Layout

namespace NextUfs.Format

/-! ## §1. Constants and options. -/

def DEV_BSIZE : Nat := 1024
def MINBSIZE : Nat := 4096
def MAXBSIZE : Nat := 8192
def MAXFRAG : Nat := 8
def BBSIZE : Nat := 8192
def SBSIZE : Nat := 8192
def NBBY : Nat := 8
def MAXIPG : Nat := 2048
def DESCPG : Nat := 16
def NBPI : Nat := 2048
def LONG_MAX : Nat := 2 ^ 63 - 1
def FORMAT_COMPAT_MAX_SECTORS : Nat := 4294836224 / 1024

/-- `sizeof(struct cg)`: the map's first byte is at `CG_FREE_OFF`. -/
def SIZEOF_CG : Nat := 988

/-- `sizeof(struct csum)`. -/
def SIZEOF_CSUM : Nat := 16

/-- `sizeof(struct dinode)`. -/
def SIZEOF_DINODE : Nat := 128

/-- The range of an `int`. -/
def INT_MAX : Nat := 2 ^ 31 - 1

/-- The options of `struct nextufs_format_options` the geometry depends on. -/
structure FormatOptions where
  size1kSectors : Nat
  nsect : Int
  ntrak : Int
  bsize : Int
  fsize : Int
  cpg : Int
  nbpi : Int
  forceSize : Bool

/-- Why a format is refused, in the order of the tests. -/
inductive FormatError where
  | invalidSize | compatibilityLimit | preposterousNtrak | preposterousNsect
  | bsizeNotPowerOf2 | fsizeNotPowerOf2 | fsizeTooSmall | bsizeTooSmall
  | bsizeBelowFsize | tooManyFrags | cpcTooLarge | cpgTooSmall | cpgTooLarge
  | cpgNotMultiple | noCylinder | spcTooLarge | groupTooLarge | notTolerable
  | inodeBlocks
  /-- No message: a product left the range of an `int`. -/
  | overflow
  deriving DecidableEq, Repr

/-! ## §2. Macros. -/

/-- `howmany(x, y)`. -/
def howmany (x y : Nat) : Nat := (x + (y - 1)) / y

/-- `roundup(x, y)`. -/
def roundup (x y : Nat) : Nat := (x + (y - 1)) / y * y

/-- `POWEROF2(num)`, which zero passes too. -/
def POWEROF2 (num : Int) : Bool := num.land (num - 1) = 0

/-- `for (shift = 0; i > 1; i >>= 1) shift++`. -/
def shiftOf (i : Nat) : Nat := i.log2

/-! ## §3. Blocks and fragments. -/

/-- What the two sizes determine. -/
structure Blocks where
  bsize : Nat
  fsize : Nat
  frag : Nat
  fragshift : Nat
  inopb : Nat
  nspf : Nat
  fsbtodb : Nat
  deriving DecidableEq, Repr

namespace Blocks

variable (b : Blocks)

/-- `NSPB(fs)`: sectors a block. -/
def NSPB : Nat := b.nspf <<< b.fragshift

/-- `INOPF(fs)`: inodes a fragment. -/
def INOPF : Nat := b.inopb >>> b.fragshift

/-- `MAXBPG(fs)`: the blocks a group's map has room for. -/
def MAXBPG : Nat := (NBBY * (b.bsize - SIZEOF_CG)) >>> b.fragshift

/-- `fragroundup(fs, size)`. -/
def fragroundup (size : Nat) : Nat := roundup size b.fsize

def sblkno : Nat := roundup (howmany (BBSIZE + SBSIZE) b.fsize) b.frag

def cblkno : Nat := b.sblkno + roundup (howmany SBSIZE b.fsize) b.frag

def iblkno : Nat := b.cblkno + b.frag

end Blocks

/-- The sizes as `nextufs_format` checks and stores them. -/
def blockSizes (bsize fsize : Int) : Except FormatError Blocks :=
  if ¬POWEROF2 bsize then .error .bsizeNotPowerOf2
  else if ¬POWEROF2 fsize then .error .fsizeNotPowerOf2
  else if fsize < DEV_BSIZE then .error .fsizeTooSmall
  else if bsize < MINBSIZE then .error .bsizeTooSmall
  else if bsize < fsize then .error .bsizeBelowFsize
  else
    let frag := bsize.toNat >>> shiftOf fsize.toNat
    let nspf := fsize.toNat / DEV_BSIZE
    if MAXFRAG < frag then .error .tooManyFrags
    else .ok {
      bsize := bsize.toNat
      fsize := fsize.toNat
      frag := frag
      fragshift := shiftOf frag
      inopb := bsize.toNat / SIZEOF_DINODE
      nspf := nspf
      fsbtodb := shiftOf nspf }

/-! ## §4. Cylinders a group. -/

/-- `for (cpc = NSPB, i = spc; cpc > 1 && (i & 1) == 0; cpc >>= 1, i >>= 1)`;
every round halves `cpc`, which bounds the rounds. -/
def cpcLoop : Nat → Nat → Nat → Nat
  | 0, cpc, _ => cpc
  | fuel + 1, cpc, i =>
    if 1 < cpc ∧ i % 2 = 0 then cpcLoop fuel (cpc / 2) (i / 2) else cpc

/-- Cylinders before the rotational pattern repeats. -/
def cpcOf (b : Blocks) (spc : Nat) : Nat := cpcLoop b.NSPB b.NSPB spc

/-- `fs_fpg` of a group of `cpg` cylinders. -/
def fpgOf (b : Blocks) (spc cpg : Nat) : Nat := cpg * spc / b.nspf

/-- The loop that takes `cpc` cylinders at a time off a default group until
its map fits. -/
def shrinkCpg (b : Blocks) (spc cpc : Nat) : Nat → Nat → Nat
  | 0, cpg => cpg
  | fuel + 1, cpg =>
    if b.MAXBPG < fpgOf b spc cpg / b.frag ∧ cpc < cpg then
      shrinkCpg b spc cpc fuel (cpg - cpc)
    else cpg

/-- `fs_cpg`: the option, or the default that fits. -/
def cpgOf (b : Blocks) (spc : Nat) (cpg : Int) : Nat :=
  if 0 < cpg then cpg.toNat
  else
    let cpg := max (cpcOf b spc) DESCPG
    shrinkCpg b spc (cpcOf b spc) cpg cpg

/-- Choose `fs_cpg` and check it. -/
def cylinderGroup (b : Blocks) (spc : Nat) (cpg : Int) :
    Except FormatError Nat :=
  let cpc := cpcOf b spc
  let cpg := cpgOf b spc cpg
  if MAXCPG < cpc then .error .cpcTooLarge
  else if INT_MAX < cpg * spc then .error .overflow
  else if cpg < 1 then .error .cpgTooSmall
  else if MAXCPG < cpg then .error .cpgTooLarge
  else if cpg % cpc ≠ 0 then .error .cpgNotMultiple
  else .ok cpg

/-! ## §5. Cylinders and groups. -/

/-- `fs_ncyl` of a file system of `fssize` fragments: a last cylinder that is
only partly there counts. -/
def countCylinders (b : Blocks) (spc fssize : Nat) :
    Except FormatError Nat :=
  let ncyl := fssize * b.nspf / spc
  if INT_MAX < ncyl * spc then .error .overflow
  else
    let ncyl := if ncyl * spc < fssize * b.nspf then ncyl + 1 else ncyl
    if ncyl < 1 then .error .noCylinder else .ok ncyl

/-- `fs_ncg`. -/
def groupCount (ncyl cpg : Nat) : Nat :=
  ncyl / cpg + if ncyl % cpg ≠ 0 then 1 else 0

/-- The limits on a cylinder and on a group. -/
def checkGroup (b : Blocks) (spc cpg : Nat) : Except FormatError Unit :=
  if b.MAXBPG * b.NSPB < spc then .error .spcTooLarge
  else if b.MAXBPG * b.frag < fpgOf b spc cpg then .error .groupTooLarge
  else if spc * cpg % b.nspf ≠ 0 then .error .notTolerable
  else .ok ()

/-! ## §6. The superblock. -/

/-- The fields of `struct fs` the groups are built from. -/
structure Fs extends Blocks where
  dblkno : Nat
  cgoffset : Nat
  cgmask : Nat
  size : Nat
  ncg : Nat
  csaddr : Nat
  cssize : Nat
  cgsize : Nat
  ntrak : Nat
  nsect : Nat
  spc : Nat
  ncyl : Nat
  cpg : Nat
  ipg : Nat
  fpg : Nat
  deriving DecidableEq, Repr

namespace Fs

variable (fs : Fs)

/-- `~fs_cgmask`: the staggered positions of a group. -/
def cgStagger : Nat := 2 ^ 32 - 1 - fs.cgmask

def cgbase (c : Nat) : Nat := fs.fpg * c

def cgstart (c : Nat) : Nat := fs.cgbase c + fs.cgoffset * (c &&& fs.cgStagger)

def cgsblock (c : Nat) : Nat := fs.cgstart c + fs.sblkno

def cgtod (c : Nat) : Nat := fs.cgstart c + fs.cblkno

def cgimin (c : Nat) : Nat := fs.cgstart c + fs.iblkno

def cgdmin (c : Nat) : Nat := fs.cgstart c + fs.dblkno

/-- The superblock an open handle decodes from the one that was written. -/
def decoded : Superblock where
  sbOff := fs.sblkno
  cgOff := fs.cblkno
  inoOff := fs.iblkno
  dataOff := fs.dblkno
  cgDelta := fs.cgoffset
  cgCycMask := fs.cgmask
  fragCount := fs.size
  cgCount := fs.ncg
  blockSize := fs.bsize
  fragSize := fs.fsize
  fragsPerBlock := fs.frag
  sectorsPerFrag := fs.nspf
  cylSummaryAddr := fs.csaddr
  csumSize := fs.cssize
  cgSize := fs.cgsize
  sectorsPerTrack := fs.nsect
  sectorsPerCyl := fs.spc
  ncyl := fs.ncyl
  cpg := fs.cpg
  inodesPerGroup := fs.ipg
  inodesPerBlock := fs.inopb
  fragsPerGroup := fs.fpg

end Fs

/-- `fs_cgmask`: all ones shifted left by the tracks' logarithm, rounded
up. -/
def cgmaskOf (ntrak : Nat) : Nat :=
  2 ^ 32 - 2 ^ (shiftOf ntrak + if POWEROF2 ntrak then 0 else 1)

/-- `fs_ipg`: inodes for one in `nbpi` bytes of data, in whole blocks and at
most `MAXIPG`. -/
def ipgOf (b : Blocks) (fssize ncg : Nat) (nbpi : Int) : Nat :=
  let per : Int := if 0 < nbpi then nbpi else max (NBPI : Int) b.fsize
  let i := b.iblkno + MAXIPG / b.INOPF
  let inos :=
    ((((fssize : Int) - ncg * i) * b.fsize).tdiv per).tdiv b.inopb
  let inos := if inos ≤ 0 then 1 else inos.toNat
  let ipg := (inos / ncg + 1) * b.inopb
  if MAXIPG < ipg then MAXIPG else ipg

/-- The superblock before the last group is looked at; `csaddr` and `cssize`
are stored at the end. -/
def layOut (b : Blocks) (ntrak nsect fssize ncyl cpg : Nat) (nbpi : Int) : Fs :=
  let spc := ntrak * nsect
  let fpg := fpgOf b spc cpg
  let ncg := groupCount ncyl cpg
  let ipg := ipgOf b fssize ncg nbpi
  { toBlocks := b
    dblkno := b.iblkno + ipg / b.INOPF
    cgoffset := roundup (howmany nsect (b.fsize / DEV_BSIZE)) b.frag
    cgmask := cgmaskOf ntrak
    size := fssize
    ncg := ncg
    csaddr := 0
    cssize := 0
    cgsize := b.fragroundup (SIZEOF_CG + howmany fpg NBBY)
    ntrak := ntrak
    nsect := nsect
    spc := spc
    ncyl := ncyl
    cpg := cpg
    ipg := ipg
    fpg := fpg }

/-- Some group's metadata fills the group. -/
def metadataTooLarge (fs : Fs) : Bool :=
  let i := min fs.cgStagger (fs.ncg - 1)
  fs.fpg ≤ fs.cgdmin i - fs.cgbase i

/-- The last group is short, and shorter than its metadata. -/
def lastGroupTooShort (fs : Fs) : Bool :=
  let j := fs.ncg - 1
  let i := fs.size - j * fs.fpg
  i < fs.fpg ∧ i < fs.cgdmin j - fs.cgbase j

/-- Give up a last group without room for its metadata. -/
def dropShortGroup (fs : Fs) : Except FormatError Fs :=
  if lastGroupTooShort fs then
    let ncyl := fs.ncyl - fs.ncyl % fs.cpg
    if INT_MAX < ncyl * fs.spc then .error .overflow
    else .ok
      { fs with ncg := fs.ncg - 1, ncyl := ncyl, size := ncyl * fs.spc / fs.nspf }
  else .ok fs

/-- Place the summary area of the final group count. -/
def placeSummary (fs : Fs) : Fs :=
  { fs with
    csaddr := fs.cgdmin 0
    cssize := fs.fragroundup (fs.ncg * SIZEOF_CSUM) }

/-! ## §7. The chain. -/

/-- `nextufs_format` up to its first group: the superblock it builds, or the
test that refuses the options.  The sector count is printed as an `int`. -/
def nextufsFormat (opts : FormatOptions) : Except FormatError Fs := do
  if opts.size1kSectors = 0 ∨ LONG_MAX < opts.size1kSectors then
    .error .invalidSize
  else if opts.forceSize = false ∧
      FORMAT_COMPAT_MAX_SECTORS < opts.size1kSectors then
    .error .compatibilityLimit
  else if opts.ntrak ≤ 0 then
    .error .preposterousNtrak
  else if opts.nsect ≤ 0 then
    .error .preposterousNsect
  else
    let ntrak := opts.ntrak.toNat
    let nsect := opts.nsect.toNat
    let spc := ntrak * nsect
    if INT_MAX < spc then
      .error .overflow
    else
      let b ← blockSizes opts.bsize opts.fsize
      let cpg ← cylinderGroup b spc opts.cpg
      let fssize := opts.size1kSectors >>> b.fsbtodb
      let ncyl ← countCylinders b spc fssize
      checkGroup b spc cpg
      let fs := layOut b ntrak nsect fssize ncyl cpg opts.nbpi
      if metadataTooLarge fs then
        .error .inodeBlocks
      else
        let fs ← dropShortGroup fs
        if INT_MAX < fs.size * fs.nspf then .error .overflow
        else .ok (placeSummary fs)

end NextUfs.Format
