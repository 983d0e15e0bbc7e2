/-
  NextUfs.Core.Directory
  ──────────────────────
  **NODES AND DIRECTORIES.**

  The inode table as `image.c` and `layout.c` read and write it, the directory
  records of `layout.c`, and the iteration of `directory.c`.

    • `readDirent`            — one record, or none where the bytes are not one,
    • `records`               — the records a walk over a chunk of bytes sees,
    • `directoryIterate`      — the live records of a directory, in order,
    • `findNameInDirectory`   — the inode a name stands for, 0 for none.

  A C string is the list of its bytes before the first NUL.
-/
import NextUfs.Core.Storage

namespace NextUfs

/-! ## §1. Nodes. -/

/-- Bytes of a path, a name or a link target. -/
abbrev Bytes := List UInt8

/-- `struct nextufs_node`: an inode number and a copy of the inode. -/
structure Node where
  inodeNo : Nat
  inode : Inode

/-- `NEXTUFS_ROOT_INODE`. -/
def ROOT_INODE : Nat := 2

/-- `nextufs_node_is_dir`. -/
def nodeIsDir (node : Node) : Bool := isDirMode node.inode.mode

/-- `nextufs_node_is_reg`. -/
def nodeIsReg (node : Node) : Bool := node.inode.mode &&& IFMT == IFREG

/-- `nextufs_node_is_lnk`. -/
def nodeIsLnk (node : Node) : Bool := node.inode.mode &&& IFMT == IFLNK

/-- `nextufs__inode_offset` fails for a geometry without inodes. -/
def hasInodes (sb : Superblock) : Prop :=
  sb.inodesPerGroup ≠ 0 ∧ sb.fragsPerGroup ≠ 0 ∧ sb.inodesPerBlock ≠ 0

instance (sb : Superblock) : Decidable (hasInodes sb) := by
  unfold hasInodes
  infer_instance

/-- `nextufs_inode_read`. -/
def inodeRead (sb : Superblock) (inodeNo : Nat) : Op Inode :=
  if hasInodes sb then do
    let d ← get
    return d.inodes inodeNo
  else throw .EINVAL

/-- `nextufs__write_inode_raw`. -/
def writeInodeRaw (sb : Superblock) (inodeNo : Nat) (ino : Inode) : Op Unit :=
  if hasInodes sb then
    modify fun d => { d with inodes := Function.update d.inodes inodeNo ino }
  else throw .EINVAL

/-- `nextufs_node_get_by_inode`. -/
def nodeGetByInode (sb : Superblock) (inodeNo : Nat) : Op Node := do
  let inode ← inodeRead sb inodeNo
  return ⟨inodeNo, inode⟩

/-- `(uint32_t)time(NULL)`. -/
def timeNow : Op UInt32 := do
  return (← get).clock

/-! ## §2. Directory records. -/

/-- `DIRBLKSIZ`: records do not cross a multiple of it. -/
def DIRBLKSIZ : Nat := 1024

/-- `nextufs__read_be16`. -/
def readBe16 (p : Bytes) : Nat :=
  (p.getD 0 0).toNat * 2 ^ 8 + (p.getD 1 0).toNat

/-- `nextufs__write_be16`. -/
def writeBe16 (v : Nat) : Bytes := [UInt8.ofNat (v / 2 ^ 8), UInt8.ofNat v]

/-- `struct nextufs_dirent_view`. -/
structure Dirent where
  ino : Nat
  reclen : Nat
  namlen : Nat
  name : Bytes
  deriving DecidableEq, Repr

/-- `nextufs__dirent_size`. -/
def direntSize (nameLen : Nat) : Nat := 8 + (nameLen + 1 + 3) / 4 * 4

/-- `nextufs__read_dirent`. -/
def readDirent (buf : Bytes) (size off : Nat) : Option Dirent :=
  if size < off + 8 then none
  else
    let reclen := readBe16 (buf.drop (off + 4))
    let namlen := readBe16 (buf.drop (off + 6))
    if reclen < 8 ∨ size < off + reclen ∨ size < off + 8 + namlen then none
    else
      some
        { ino := readBe32 (buf.drop off)
          reclen := reclen
          namlen := namlen
          name := (buf.drop (off + 8)).take namlen }

/-- The records a walk from `off` sees, with their offsets: it ends at `size`
or where a record cannot be read.  A record has at least 8 bytes, so the size
bounds the walk. -/
def recordsFrom (buf : Bytes) (size : Nat) : Nat → Nat → List (Nat × Dirent)
  | 0, _ => []
  | fuel + 1, off =>
    if off < size then
      match readDirent buf size off with
      | none => []
      | some ent => (off, ent) :: recordsFrom buf size fuel (off + ent.reclen)
    else []

/-- The records of the first `size` bytes. -/
def records (buf : Bytes) (size : Nat) : List (Nat × Dirent) :=
  recordsFrom buf size size 0

/-! ## §3. Iteration. -/

/-- Read logical block `k` of a directory: its bytes up to the directory's
end. -/
def readDirBlock (sb : Superblock) (dirino : Inode) (k : Nat) : Op Bytes := do
  match ← attempt (inodeReadData sb dirino (k * sb.blockSize)
      (chunkBytes sb dirino.size k)) with
  | .error _ => throw Errno.EIO
  | .ok buf => return buf

/-- The blocks of `directoryIterate` still to be walked. -/
def iterateBlocks {β : Type} (sb : Superblock) (dirino : Inode)
    (cb : Nat → Bytes → Option β) : List Nat → Op (Option β)
  | [] => return none
  | k :: rest => do
    let buf ← readDirBlock sb dirino k
    match (records buf (chunkBytes sb dirino.size k)).findSome? fun r =>
        if r.2.ino ≠ 0 ∧ r.2.namlen ≠ 0 then cb r.2.ino r.2.name
        else none with
    | some b => return some b
    | none => iterateBlocks sb dirino cb rest

/-- `nextufs_directory_iterate`: `cb` sees every live record, until it returns
something. -/
def directoryIterate {β : Type} (sb : Superblock) (dirino : Inode)
    (cb : Nat → Bytes → Option β) : Op (Option β) :=
  iterateBlocks sb dirino cb (List.range (fileBlocks sb dirino.size))

/-- `find_name_cb`. -/
def findNameCb (targetName : Bytes) (ino : Nat) (name : Bytes) : Option Nat :=
  if name = targetName then some ino else none

/-- `nextufs__find_name_in_directory`. -/
def findNameInDirectory (sb : Superblock) (dirino : Inode)
    (targetName : Bytes) : Op Nat := do
  match ← directoryIterate sb dirino (findNameCb targetName) with
  | some ino => return ino
  | none => return 0

end NextUfs
