/-
  NextUfs.Mutate.Rewrite
  ──────────────────────
  **REWRITING A FILE.**

  The operations of `mutate.c` that give a regular file new content.  Each
  reads what it keeps into memory, edits it there, and calls
  `rewriteInodeContents`, which stores the content in a copy of the inode
  without pointers, writes that copy, and frees the old storage last.

    • `rewriteFileContents` — overwrite and append,
    • `pathTruncate`, `pathPwrite`.

  `SIZE_MAX` is that of a 64-bit host.
-/
import NextUfs.Core.Path
import NextUfs.Mutate.Policy

namespace NextUfs

/-! ## §1. One inode. -/

/-- Run the writer on a copy of an inode: its verdict, and the copy as it left
it. -/
def runStorer (x : Storer Unit) (ino : Inode) :
    Op (Except Errno Unit × Inode) := fun d =>
  match x ⟨d, ino, 0⟩ with
  | .ok _ s => .ok (.ok (), s.ino) s.disk
  | .error e s => .ok (.error e, s.ino) s.disk

/-- `nextufs__clear_inode_layout`. -/
def clearInodeLayout (ino : Inode) : Inode :=
  { ino with db := fun _ => 0, ib := fun _ => 0, size := 0, blocks := 0 }

/-- `nextufs__rewrite_inode_contents`. -/
def rewriteInodeContents (sb : Superblock) (inodeNo : Nat) (inode : Inode)
    (preferredCg : Nat) (data : Bytes) : Op Unit := do
  let (rc, new) ← runStorer (allocateDataForInode sb preferredCg data)
    (clearInodeLayout inode)
  match rc with
  | .error e => throw e
  | .ok _ =>
    let now ← timeNow
    writeInodeRaw sb inodeNo { new with mtime := now, ctime := now, atime := now }
    let (rc, _) ← runStorer (freeFileStorage sb) inode
    liftCheck rc

/-! ## §2. The operations. -/

/-- `SIZE_MAX`. -/
def SIZE_MAX : Nat := 2 ^ 64 - 1

/-- A zeroed buffer of `n` bytes with `bytes` at its start. -/
def zeroPadded (n : Nat) (bytes : Bytes) : Bytes :=
  bytes ++ List.replicate (n - bytes.length) 0

/-- `memcpy(buf + off, data, ...)`. -/
def overlay (buf : Bytes) (off : Nat) (data : Bytes) : Bytes :=
  buf.take off ++ data ++ buf.drop (off + data.length)

/-- The file an operation writes to: a regular one the caller may write, or
the error `notReg`. -/
def lookupForWrite (sb : Superblock) (ctx : WriteCtx) (path : Bytes)
    (notReg : Errno) : Op Node := do
  let target ← nodeLookup sb path false
  if nodeIsReg target = false then throw notReg
  else
    liftCheck (requireUserAccess ctx target W_OK)
    return target

/-- `nextufs__rewrite_file_contents`. -/
def rewriteFileContents (sb : Superblock) (ctx : WriteCtx) (path : Bytes)
    (data : Bytes) (append : Bool) : Op Unit := do
  liftCheck (requireCtxIdsFit ctx)
  let target ← lookupForWrite sb ctx path .EISDIR
  let oldSize := target.inode.size
  let buf ←
    if append ∧ oldSize ≠ 0 then do
      let old ← inodeReadData sb target.inode 0 oldSize
      pure (old ++ data)
    else pure data
  rewriteInodeContents sb target.inodeNo target.inode
    (target.inodeNo / sb.inodesPerGroup) buf

/-- `nextufs_path_overwrite_file`. -/
def pathOverwriteFile (sb : Superblock) (ctx : WriteCtx) (path data : Bytes) :
    Op Unit :=
  rewriteFileContents sb ctx path data false

/-- `nextufs_path_append_file`. -/
def pathAppendFile (sb : Superblock) (ctx : WriteCtx) (path data : Bytes) :
    Op Unit :=
  rewriteFileContents sb ctx path data true

/-- `nextufs_path_truncate`. -/
def pathTruncate (sb : Superblock) (ctx : WriteCtx) (path : Bytes)
    (size : Nat) : Op Unit := do
  if SIZE_MAX < size then throw .EFBIG
  else
    liftCheck (requireCtxIdsFit ctx)
    let target ← lookupForWrite sb ctx path .EINVAL
    let copySize := min target.inode.size size
    let old ←
      if copySize ≠ 0 then inodeReadData sb target.inode 0 copySize
      else pure []
    rewriteInodeContents sb target.inodeNo target.inode
      (target.inodeNo / sb.inodesPerGroup) (zeroPadded size old)

/-- `nextufs_path_pwrite`. -/
def pathPwrite (sb : Superblock) (ctx : WriteCtx) (path data : Bytes)
    (offset : Nat) : Op Unit := do
  if SIZE_MAX < offset ∨ SIZE_MAX - offset < data.length then throw .EFBIG
  else
    liftCheck (requireCtxIdsFit ctx)
    let target ← lookupForWrite sb ctx path .EINVAL
    let oldSize := target.inode.size
    let finalSize := max oldSize (offset + data.length)
    let old ←
      if oldSize ≠ 0 then inodeReadData sb target.inode 0 oldSize
      else pure []
    rewriteInodeContents sb target.inodeNo target.inode
      (target.inodeNo / sb.inodesPerGroup)
      (overlay (zeroPadded finalSize old) offset data)

end NextUfs
