/-
  NextUfs.Core.Types
  ──────────────────
  **THE DISK AS THE CORE LIBRARY SEES IT.**

  `Superblock` is the decoded geometry an open handle keeps (`img->sb`): it
  is read once and never written back by the functions modelled here, so it is
  a parameter of every operation.  `Disk` is what lies on the device and
  changes: the superblock totals, the summary table, the cylinder groups, the
  inode table and the bytes of the fragments.

  Each on-disk structure is a record of its decoded fields.  Counters keep
  their width (`UInt32`, `UInt16`), because they are moved by two's-complement
  deltas; sizes and fragment numbers are `Nat`.  The data area is a byte array
  indexed by the byte offset in the slice, `frag * fragSize + i`.
-/
import Mathlib.Algebra.Group.Nat.Defs
import Mathlib.Logic.Function.Basic
import NextUfs.Lib.State

namespace NextUfs

/-! ## §1. Error codes. -/

/-- The error numbers the library returns (negated in the source). -/
inductive Errno where
  | EINVAL | EIO | ENOENT | EEXIST | ENOTDIR | EISDIR | ENOTEMPTY | ENOSPC
  | EACCES | EPERM | EROFS | EMLINK | EFBIG | ENAMETOOLONG | ELOOP | EBUSY
  | EOVERFLOW | ENOTSUP
  deriving DecidableEq, Repr

/-! ## §2. Geometry. -/

/-- The fields of `struct nextufs_superblock` that the core reads. -/
structure Superblock where
  sbOff : Nat
  cgOff : Nat
  inoOff : Nat
  dataOff : Nat
  cgDelta : Nat
  cgCycMask : Nat
  fragCount : Nat
  cgCount : Nat
  blockSize : Nat
  fragSize : Nat
  fragsPerBlock : Nat
  sectorsPerFrag : Nat
  cylSummaryAddr : Nat
  csumSize : Nat
  cgSize : Nat
  sectorsPerTrack : Nat
  sectorsPerCyl : Nat
  ncyl : Nat
  cpg : Nat
  inodesPerGroup : Nat
  inodesPerBlock : Nat
  fragsPerGroup : Nat

/-- Rotational positions per cylinder (`NRPOS`). -/
def NRPOS : Nat := 8

/-- Cylinders a group's tables have room for. -/
def MAXCPG : Nat := 32

/-- Offset of the fragment bitmap in a group's block. -/
def CG_FREE_OFF : Nat := 984

/-- Magic number of a cylinder group. -/
def CG_MAGIC : Nat := 0x00090255

/-! ## §3. Summaries and cylinder groups. -/

/-- `struct csum`: the four counters of a group, or of the whole disk. -/
@[ext] structure Csum where
  ndir : UInt32
  nbfree : UInt32
  nifree : UInt32
  nffree : UInt32
  deriving DecidableEq, Repr

/-- Field by field sum, wrapping. -/
def Csum.add (a b : Csum) : Csum :=
  ⟨a.ndir + b.ndir, a.nbfree + b.nbfree, a.nifree + b.nifree,
    a.nffree + b.nffree⟩

instance : Add Csum := ⟨Csum.add⟩

instance : Zero Csum := ⟨⟨0, 0, 0, 0⟩⟩

@[simp] theorem Csum.add_ndir (a b : Csum) : (a + b).ndir = a.ndir + b.ndir :=
  rfl

@[simp] theorem Csum.add_nbfree (a b : Csum) :
    (a + b).nbfree = a.nbfree + b.nbfree := rfl

@[simp] theorem Csum.add_nifree (a b : Csum) :
    (a + b).nifree = a.nifree + b.nifree := rfl

@[simp] theorem Csum.add_nffree (a b : Csum) :
    (a + b).nffree = a.nffree + b.nffree := rfl

/-- A cylinder group block.  `iused` and `free` are its two bitmaps, `b` its
block counts per cylinder and rotational position. -/
structure Cg where
  link : UInt32
  rlink : UInt32
  time : UInt32
  cgx : Nat
  ncyl : Nat
  niblk : Nat
  ndblk : Nat
  cs : Csum
  rotor : Nat
  frotor : Nat
  irotor : Nat
  frsum : Nat → UInt32
  btot : Nat → UInt32
  b : Nat → Nat → UInt16
  iused : Nat → Bool
  magic : Nat
  free : Nat → Bool

/-! ## §4. Inodes. -/

/-- There is a first direct pointer, -/
instance neZero_direct : @NeZero Nat Zero.ofOfNat0 12 := ⟨Nat.succ_ne_zero 11⟩

/-- and a first indirect one. -/
instance neZero_indirect : @NeZero Nat Zero.ofOfNat0 3 := ⟨Nat.succ_ne_zero 2⟩

/-- `struct nextufs_inode`. -/
structure Inode where
  mode : UInt16
  nlink : UInt16
  uid : UInt16
  gid : UInt16
  size : Nat
  atime : UInt32
  mtime : UInt32
  ctime : UInt32
  db : Fin 12 → Nat
  ib : Fin 3 → Nat
  flags : UInt32
  blocks : UInt32
  gen : UInt32

/-- `NEXTUFS_IFMT`: the file-type bits of a mode. -/
def IFMT : UInt16 := 0o170000
def IFDIR : UInt16 := 0o040000
def IFREG : UInt16 := 0o100000
def IFLNK : UInt16 := 0o120000

/-- `(mode & NEXTUFS_IFMT) == NEXTUFS_IFDIR`. -/
def isDirMode (mode : UInt16) : Bool := mode &&& IFMT == IFDIR

/-! ## §5. The disk. -/

/-- What the device holds. -/
structure Disk where
  cstotal : Csum
  sbTime : UInt32
  csum : Nat → Csum
  cgs : Nat → Cg
  inodes : Nat → Inode
  data : Nat → UInt8
  clock : UInt32

/-- An operation of the library: it may fail, and what it wrote before it
failed stays written. -/
abbrev Op := EStateM Errno Disk

/-- Run `x` and hand its error to the caller, as code that tests `rc` does. -/
def attempt {α : Type} (x : Op α) : Op (Except Errno α) := fun d =>
  match x d with
  | .ok a d' => .ok (.ok a) d'
  | .error e d' => .ok (.error e) d'

end NextUfs
