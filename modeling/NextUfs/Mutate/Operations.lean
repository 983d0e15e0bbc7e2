/-
  NextUfs.Mutate.Operations
  ─────────────────────────
  **THE OPERATIONS ON NAMES.**

  The rest of `mutate.c`: the operations that make, remove and rename names,
  and those that change an inode's mode and owner.  `Mutation` is a request,
  `Mutation.run` what the library does with it.

    • `pathCreateFile`, `pathMkdir`, `pathSymlink`, `pathLink`, `pathMknod`,
    • `pathUnlink`, `pathRmdir`, `pathRename`,
    • `pathChmod`, `pathChown`, `pathUtimes`.

  Opening the image, the final `fsync` and a context that is `NULL` are not
  modelled.
-/
import NextUfs.Mutate.DirMutate

namespace NextUfs

/-! ## §1. Names and parents. -/

/-- `char parent_path[4096]`, `char name[256]`. -/
def splitPath (path : Bytes) : Except Errno (Bytes × Bytes) :=
  pathSplit path 4096 256

/-- `nextufs__disallow_dot_names`. -/
def disallowDotNames (name : Bytes) : Except Errno Unit :=
  if nameIsDotOrDotdot name then .error .EINVAL else .ok ()

/-- `nextufs__disallow_target_dot_names`. -/
def disallowTargetDotNames (name : Bytes) : Except Errno Unit :=
  if nameIsDotOrDotdot name then .error .ENOTEMPTY else .ok ()

/-- The parent a name is to be changed in; `needDir` where the operation
itself asks for a directory. -/
def lookupParent (sb : Superblock) (ctx : WriteCtx) (parentPath : Bytes)
    (needDir : Bool) : Op Node := do
  let parent ← nodeLookup sb parentPath true
  if needDir ∧ nodeIsDir parent = false then throw .ENOTDIR
  else
    liftCheck (requireParentMutation ctx parent)
    return parent

/-- The start of most operations on a name: the parent, and the name in it. -/
def findParent (sb : Superblock) (ctx : WriteCtx) (path : Bytes)
    (needDir : Bool) : Op (Node × Bytes) := do
  liftCheck (requireCtxIdsFit ctx)
  let (parentPath, name) ← liftCheck (splitPath path)
  liftCheck (disallowDotNames name)
  let parent ← lookupParent sb ctx parentPath needDir
  return (parent, name)

/-- There must be nothing at `path`. -/
def requireAbsent (sb : Superblock) (path : Bytes) : Op Unit := do
  match ← attempt (nodeLookup sb path false) with
  | .ok _ => throw .EEXIST
  | .error .ENOENT => return ()
  | .error e => throw e

/-- An inode of zero bytes. -/
def clearedInode : Inode where
  mode := 0
  nlink := 0
  uid := 0
  gid := 0
  size := 0
  atime := 0
  mtime := 0
  ctime := 0
  db := fun _ => 0
  ib := fun _ => 0
  flags := 0
  blocks := 0
  gen := 0

/-- A new inode: owner and mode as the context has it, everything now. -/
def newInode (ctx : WriteCtx) (parent : Node) (mode nlink : UInt16)
    (size : Nat) (now : UInt32) : Inode :=
  { sanitizeNewInodeMode ctx (setNewInodeOwner ctx parent
      { clearedInode with mode := mode, nlink := nlink }) with
    size := size
    atime := now
    mtime := now
    ctime := now }

/-! ## §2. Inodes that go. -/

/-- `nextufs__discard_new_inode`. -/
def discardNewInode (sb : Superblock) (inodeNo : Nat) (ino : Inode) :
    Op Unit := do
  let (rc, freed) ← runStorer (freeFileStorage sb) ino
  liftCheck rc
  writeInodeRaw sb inodeNo clearedInode
  freeInodeInGroup sb inodeNo freed.mode

/-- `NEXTUFS_IFIFO`, `NEXTUFS_IFCHR`, `NEXTUFS_IFBLK`, `NEXTUFS_IFSOCK`. -/
def IFIFO : UInt16 := 0o010000
def IFCHR : UInt16 := 0o020000
def IFBLK : UInt16 := 0o060000
def IFSOCK : UInt16 := 0o140000

/-- Inodes without storage. -/
def isSpecialMode (mode : UInt16) : Bool :=
  mode &&& IFMT == IFIFO || mode &&& IFMT == IFCHR || mode &&& IFMT == IFBLK
    || mode &&& IFMT == IFSOCK

/-- `nextufs__remove_linked_inode`. -/
def removeLinkedInode (sb : Superblock) (target : Node) : Op Unit := do
  if target.inode.nlink = 0 then throw .EINVAL
  else
    let inode := { target.inode with nlink := target.inode.nlink - 1 }
    if inode.nlink = 0 then
      if isSpecialMode inode.mode = false then
        let (rc, _) ← runStorer (freeFileStorage sb) inode
        liftCheck rc
      writeInodeRaw sb target.inodeNo clearedInode
      freeInodeInGroup sb target.inodeNo inode.mode
    else
      let now ← timeNow
      writeInodeRaw sb target.inodeNo { inode with ctime := now }

/-- `nextufs__remove_dir_inode`: the parent as it was written. -/
def removeDirInode (sb : Superblock) (parent target : Node) : Op Node := do
  let (rc, _) ← runStorer (freeFileStorage sb) target.inode
  liftCheck rc
  writeInodeRaw sb target.inodeNo clearedInode
  freeInodeInGroup sb target.inodeNo target.inode.mode
  let now ← timeNow
  let inode :=
    { parent.inode with
      nlink := parent.inode.nlink - 1, ctime := now, mtime := now }
  writeInodeRaw sb parent.inodeNo inode
  return { parent with inode := inode }

/-! ## §3. New names. -/

/-- `nextufs_path_create_file`. -/
def pathCreateFile (sb : Superblock) (ctx : WriteCtx) (path data : Bytes) :
    Op Unit := do
  let (parent, name) ← findParent sb ctx path true
  requireAbsent sb path
  let parentCg := parent.inodeNo / sb.inodesPerGroup
  let newInodeNo ← allocateInodeInGroup sb parentCg (IFREG ||| 0o644)
  let now ← timeNow
  let (rc, ino) ← runStorer (allocateDataForInode sb parentCg data)
    (newInode ctx parent (IFREG ||| 0o644) 1 data.length now)
  orCleanup
    (do
      liftCheck rc
      writeInodeRaw sb newInodeNo ino
      let _ ← insertDirent sb parent name newInodeNo)
    (discardNewInode sb newInodeNo ino)

/-- `nextufs_path_mkdir`. -/
def pathMkdir (sb : Superblock) (ctx : WriteCtx) (path : Bytes)
    (mode : UInt16) : Op Unit := do
  let (parent, name) ← findParent sb ctx path true
  requireAbsent sb path
  let parentCg := parent.inodeNo / sb.inodesPerGroup
  let dirMode := IFDIR ||| (mode &&& 0o777)
  let newInodeNo ← allocateInodeInGroup sb parentCg dirMode
  let allocFrag ← allocateFragsAnycg sb parentCg 1
  orCleanup (writeNewDirectoryBlock sb allocFrag newInodeNo parent.inodeNo)
    (do
      let _ ← attempt (freeFragmentRun sb allocFrag 1)
      freeInodeInGroup sb newInodeNo dirMode)
  let now ← timeNow
  let ino :=
    { (newInode ctx parent dirMode 2 DIRBLKSIZ now).setDb 0 allocFrag with
      blocks := UInt32.ofNat sb.sectorsPerFrag }
  let parent ← orCleanup
    (do
      writeInodeRaw sb newInodeNo ino
      insertDirent sb parent name newInodeNo)
    (discardNewInode sb newInodeNo ino)
  writeInodeRaw sb parent.inodeNo
    { parent.inode with
      nlink := parent.inode.nlink + 1, ctime := now, mtime := now }

/-- `nextufs__store_inline_symlink`: the target in the pointer area. -/
def storeInlineSymlink (ino : Inode) (target : Bytes) : Inode :=
  { ino with
    db := fun i => readBe32 (zeroPadded 60 target |>.drop (i * 4))
    ib := fun i => readBe32 (zeroPadded 60 target |>.drop (48 + i * 4)) }

/-- `nextufs_path_symlink`. -/
def pathSymlink (sb : Superblock) (ctx : WriteCtx) (target linkPath : Bytes) :
    Op Unit := do
  let (parent, name) ← findParent sb ctx linkPath false
  requireAbsent sb linkPath
  let parentCg := parent.inodeNo / sb.inodesPerGroup
  let newInodeNo ← allocateInodeInGroup sb parentCg (IFLNK ||| 0o777)
  let now ← timeNow
  let ino := newInode ctx parent (IFLNK ||| 0o777) 1 target.length now
  let (rc, ino) ←
    if target.length ≤ 60 then
      pure (.ok (), storeInlineSymlink { ino with flags := IC_FASTLINK } target)
    else runStorer (allocateDataForInode sb parentCg target) ino
  orCleanup
    (do
      liftCheck rc
      writeInodeRaw sb newInodeNo ino
      let _ ← insertDirent sb parent name newInodeNo)
    (discardNewInode sb newInodeNo ino)

/-- The kinds of inode that `mknod` makes. -/
def isMknodMode (mode : UInt16) : Bool :=
  mode &&& IFMT == IFREG || isSpecialMode mode

/-- The inode of a device node has the device number as its first pointer. -/
def setDevice (ino : Inode) (mode : UInt16) (rdev : Nat) : Inode :=
  if mode &&& IFMT = IFCHR ∨ mode &&& IFMT = IFBLK then ino.setDb 0 rdev else ino

/-- `nextufs_path_mknod`. -/
def pathMknod (sb : Superblock) (ctx : WriteCtx) (path : Bytes)
    (mode : UInt16) (rdev : Nat) : Op Unit := do
  if isMknodMode mode = false then throw .EINVAL
  else
    let (parent, name) ← findParent sb ctx path true
    requireAbsent sb path
    let parentCg := parent.inodeNo / sb.inodesPerGroup
    let newInodeNo ← allocateInodeInGroup sb parentCg mode
    let now ← timeNow
    let ino := setDevice (newInode ctx parent mode 1 0 now) mode rdev
    orCleanup
      (do
        writeInodeRaw sb newInodeNo ino
        let _ ← insertDirent sb parent name newInodeNo)
      (discardNewInode sb newInodeNo ino)

/-- `nextufs_path_link`. -/
def pathLink (sb : Superblock) (ctx : WriteCtx)
    (sourcePath targetPath : Bytes) : Op Unit := do
  let (parent, name) ← findParent sb ctx targetPath false
  let source ← nodeLookup sb sourcePath false
  if nodeIsDir source then throw .EPERM
  else
    requireAbsent sb targetPath
    let now ← timeNow
    writeInodeRaw sb source.inodeNo
      { source.inode with nlink := source.inode.nlink + 1, ctime := now }
    let _ ← insertDirent sb parent name source.inodeNo

/-! ## §4. Names that go. -/

/-- Remove `name`, which must stand for inode `inodeNo`. -/
def removeName (sb : Superblock) (parent : Node) (name : Bytes)
    (inodeNo : Nat) : Op Node := do
  let (parent, removedInode) ← removeDirent sb parent name
  if removedInode ≠ inodeNo then throw .EINVAL
  else return parent

/-- `nextufs_path_unlink`. -/
def pathUnlink (sb : Superblock) (ctx : WriteCtx) (path : Bytes) :
    Op Unit := do
  let (parent, name) ← findParent sb ctx path true
  let target ← nodeLookup sb path false
  if nodeIsDir target then throw .EISDIR
  else
    liftCheck (checkStickyParent ctx parent target)
    liftCheck (requireUserAccess ctx target W_OK)
    let _ ← removeName sb parent name target.inodeNo
    removeLinkedInode sb target

/-- `nextufs_path_rmdir`. -/
def pathRmdir (sb : Superblock) (ctx : WriteCtx) (path : Bytes) :
    Op Unit := do
  liftCheck (requireCtxIdsFit ctx)
  let (parentPath, name) ← liftCheck (splitPath path)
  let parent ← lookupParent sb ctx parentPath false
  let target ← nodeLookup sb path false
  if nodeIsDir target = false then throw .ENOTDIR
  else
    liftCheck (checkStickyParent ctx parent target)
    let empty ←
      if target.inode.nlink ≠ 2 then pure false
      else directoryIsEmpty sb target parent.inodeNo
    if empty = false then throw .ENOTEMPTY
    else
      let parent ← removeName sb parent name target.inodeNo
      let _ ← removeDirInode sb parent target

/-- Make way for a rename onto `existing`: the new parent as it is then. -/
def replaceTarget (sb : Superblock) (ctx : WriteCtx) (movingDir : Bool)
    (newParent existing : Node) (newName : Bytes) : Op Node := do
  if movingDir ≠ nodeIsDir existing then
    throw (if movingDir then .ENOTDIR else .EISDIR)
  else
    liftCheck (checkStickyParent ctx newParent existing)
    let inTheWay ←
      if movingDir = false then pure false
      else if 2 < existing.inode.nlink then pure true
      else do
        let empty ← directoryIsEmpty sb existing newParent.inodeNo
        pure (!empty)
    if inTheWay then throw .ENOTEMPTY
    else
      let newParent ← removeName sb newParent newName existing.inodeNo
      if movingDir then removeDirInode sb newParent existing
      else
        removeLinkedInode sb existing
        return newParent

/-- The second half of a rename: the name under the new parent, the old one
gone, and the links of a directory that changes its parent. -/
def moveName (sb : Superblock) (movingDir changingParent : Bool)
    (source oldParent newParent : Node) (oldName newName : Bytes) :
    Op Unit := do
  let newParent ← insertDirent sb newParent newName source.inodeNo
  let oldParent ← removeName sb oldParent oldName source.inodeNo
  let now ← timeNow
  let source ←
    if movingDir ∧ changingParent then do
      let source ← updateDirectoryParentInode sb source newParent.inodeNo
      writeInodeRaw sb oldParent.inodeNo
        { oldParent.inode with
          nlink := oldParent.inode.nlink - 1, ctime := now, mtime := now }
      writeInodeRaw sb newParent.inodeNo
        { newParent.inode with
          nlink := newParent.inode.nlink + 1, ctime := now, mtime := now }
      pure source
    else pure source
  writeInodeRaw sb source.inodeNo { source.inode with ctime := now }

/-- `nextufs_path_rename`. -/
def pathRename (sb : Superblock) (ctx : WriteCtx)
    (sourcePath targetPath : Bytes) : Op Unit := do
  liftCheck (requireCtxIdsFit ctx)
  let (oldParentPath, oldName) ← liftCheck (splitPath sourcePath)
  liftCheck (disallowDotNames oldName)
  let (newParentPath, newName) ← liftCheck (splitPath targetPath)
  liftCheck (disallowTargetDotNames newName)
  if sourcePath = targetPath then return ()
  else
    let source ← nodeLookup sb sourcePath false
    let oldParent ← lookupParent sb ctx oldParentPath false
    let newParent ← lookupParent sb ctx newParentPath true
    let movingDir := nodeIsDir source
    let changingParent := oldParent.inodeNo != newParent.inodeNo
    liftCheck (checkStickyParent ctx oldParent source)
    if movingDir ∧ changingParent then
      liftCheck (requireUserAccess ctx source W_OK)
    let below ←
      if movingDir then directoryHasAncestor sb newParent source.inodeNo
      else pure false
    if below then throw .EINVAL
    else
      match ← attempt (nodeLookup sb targetPath false) with
      | .ok existing =>
        if existing.inodeNo = source.inodeNo then return ()
        else
          let newParent ← replaceTarget sb ctx movingDir newParent existing
            newName
          moveName sb movingDir changingParent source oldParent newParent
            oldName newName
      | .error .ENOENT =>
        moveName sb movingDir changingParent source oldParent newParent oldName
          newName
      | .error e => throw e

/-! ## §5. Modes and owners. -/

/-- `nextufs__require_chmod_allowed`. -/
def requireChmodAllowed (ctx : WriteCtx) (node : Node) : Except Errno Unit :=
  if ctx.policy ≠ .USER then .ok ()
  else if ctxIsRoot ctx ∨ ctx.uid = node.inode.uid.toNat then .ok ()
  else .error .EPERM

/-- `nextufs__sanitize_chmod_mode`. -/
def sanitizeChmodMode (ctx : WriteCtx) (node : Node) (mode : UInt16) :
    UInt16 :=
  let newMode := node.inode.mode &&& IFMT ||| mode &&& 0o7777
  if ctx.policy ≠ .USER ∨ ctxIsRoot ctx then newMode
  else
    let noSticky :=
      if newMode &&& IFMT ≠ IFDIR then newMode &&& ~~~0o1000 else newMode
    if noSticky &&& 0o2000 ≠ 0 ∧ ctxInGroup ctx node.inode.gid.toNat = false then
      noSticky &&& ~~~0o2000
    else noSticky

/-- `nextufs_path_chmod`. -/
def pathChmod (sb : Superblock) (ctx : WriteCtx) (path : Bytes)
    (mode : UInt16) : Op Unit := do
  liftCheck (requireCtxIdsFit ctx)
  let node ← nodeLookup sb path false
  liftCheck (requireChmodAllowed ctx node)
  let now ← timeNow
  writeInodeRaw sb node.inodeNo
    { node.inode with mode := sanitizeChmodMode ctx node mode, ctime := now }

/-- `(uid_t)-1` and `(gid_t)-1`: leave it as it is. -/
def NO_ID : Nat := 2 ^ 32 - 1

/-- `nextufs__require_owner_ids_fit`. -/
def requireOwnerIdsFit (uid gid : Nat) : Except Errno Unit :=
  if uid ≠ NO_ID ∧ INT16_MAX < uid then .error .EOVERFLOW
  else if gid ≠ NO_ID ∧ INT16_MAX < gid then .error .EOVERFLOW
  else .ok ()

/-- `nextufs__require_chown_allowed`. -/
def requireChownAllowed (ctx : WriteCtx) (node : Node) (uid gid : Nat) :
    Except Errno Unit :=
  if ctx.policy ≠ .USER then .ok ()
  else if ctxIsRoot ctx then .ok ()
  else if ctx.uid ≠ node.inode.uid.toNat then .error .EPERM
  else if uid ≠ node.inode.uid.toNat then .error .EPERM
  else if ctxInGroup ctx gid then .ok ()
  else .error .EPERM

/-- `nextufs_path_chown`. -/
def pathChown (sb : Superblock) (ctx : WriteCtx) (path : Bytes)
    (uid gid : Nat) : Op Unit := do
  liftCheck (requireCtxIdsFit ctx)
  liftCheck (requireOwnerIdsFit uid gid)
  let node ← nodeLookup sb path false
  let newUid := if uid = NO_ID then node.inode.uid.toNat else uid
  let newGid := if gid = NO_ID then node.inode.gid.toNat else gid
  liftCheck (requireChownAllowed ctx node newUid newGid)
  let mode :=
    if ctx.policy = .USER ∧ ctxIsRoot ctx = false then
      node.inode.mode &&& ~~~(0o4000 ||| 0o2000)
    else node.inode.mode
  let now ← timeNow
  writeInodeRaw sb node.inodeNo
    { node.inode with
      uid := UInt16.ofNat newUid
      gid := UInt16.ofNat newGid
      mode := mode
      ctime := now }

/-- `nextufs_path_utimes`. -/
def pathUtimes (sb : Superblock) (ctx : WriteCtx) (path : Bytes)
    (atime mtime : UInt32) : Op Unit := do
  liftCheck (requireCtxIdsFit ctx)
  let node ← nodeLookup sb path false
  if ctx.policy = .USER ∧ ctxIsRoot ctx = false ∧
      ctx.uid ≠ node.inode.uid.toNat then
    throw .EPERM
  else
    let now ← timeNow
    writeInodeRaw sb node.inodeNo
      { node.inode with atime := atime, mtime := mtime, ctime := now }

/-! ## §6. Requests. -/

/-- A mutation that takes paths. -/
inductive Mutation where
  | create (path data : Bytes)
  | unlink (path : Bytes)
  | mkdir (path : Bytes) (mode : UInt16)
  | rmdir (path : Bytes)
  | link (sourcePath targetPath : Bytes)
  | symlink (target linkPath : Bytes)
  | rename (sourcePath targetPath : Bytes)
  | overwrite (path data : Bytes)
  | append (path data : Bytes)
  | truncate (path : Bytes) (size : Nat)
  | pwrite (path data : Bytes) (offset : Nat)
  | chmod (path : Bytes) (mode : UInt16)
  | chown (path : Bytes) (uid gid : Nat)

/-- What the library does with it. -/
def Mutation.run (sb : Superblock) (ctx : WriteCtx) : Mutation → Op Unit
  | .create path data => pathCreateFile sb ctx path data
  | .unlink path => pathUnlink sb ctx path
  | .mkdir path mode => pathMkdir sb ctx path mode
  | .rmdir path => pathRmdir sb ctx path
  | .link sourcePath targetPath => pathLink sb ctx sourcePath targetPath
  | .symlink target linkPath => pathSymlink sb ctx target linkPath
  | .rename sourcePath targetPath => pathRename sb ctx sourcePath targetPath
  | .overwrite path data => pathOverwriteFile sb ctx path data
  | .append path data => pathAppendFile sb ctx path data
  | .truncate path size => pathTruncate sb ctx path size
  | .pwrite path data offset => pathPwrite sb ctx path data offset
  | .chmod path mode => pathChmod sb ctx path mode
  | .chown path uid gid => pathChown sb ctx path uid gid

end NextUfs
