/-
  NextUfs.Mutate.DirMutate
  ────────────────────────
  **CHANGING A DIRECTORY.**

  `dir_mutate.c`: records go into the first place that has room, a directory
  without room grows by one block of `DIRBLKSIZ` bytes, and a record goes by
  being joined to the one before it.

    • `insertDirent`, `growDirectoryByDirblk`,
    • `removeDirent`,
    • `directoryIsEmpty`, `directoryHasAncestor`,
    • `updateDirectoryParentInode`.

  A buffer on the heap is the list of its bytes; what a record without room
  would write behind its end is dropped, as the write-back does.
-/
import NextUfs.Mutate.Rewrite

namespace NextUfs

/-! ## §1. Records. -/

/-- `nextufs__name_is_dot_or_dotdot`. -/
def nameIsDotOrDotdot (name : Bytes) : Bool :=
  name == [DOT] || name == [DOT, DOT]

/-- `nextufs__write_dirent_raw`: the record's bytes. -/
def writeDirentRaw (ino reclen : Nat) (name : Bytes) : Except Errno Bytes :=
  if 255 < name.length then .error .ENAMETOOLONG
  else
    .ok (writeBe32 ino ++ writeBe16 reclen ++ writeBe16 name.length ++ name
      ++ List.replicate (reclen - (8 + name.length)) 0)

/-- `nextufs__update_node_times`: the node as it is read back. -/
def updateNodeTimes (sb : Superblock) (node : Node) : Op Node := do
  let now ← timeNow
  writeInodeRaw sb node.inodeNo
    { node.inode with mtime := now, ctime := now, atime := now }
  nodeGetByInode sb node.inodeNo

/-! ## §2. Inserting. -/

/-- The run that takes the next `DIRBLKSIZ` bytes of a block that has some:
the run as it is, longer, or in another place. -/
def growTail (sb : Superblock) (preferredCg frag oldFrags newFrags : Nat) :
    Op Nat :=
  if frag = 0 then throw .EINVAL
  else if newFrags ≤ oldFrags then return frag
  else do
    match ← attempt (extendFragmentRun sb frag oldFrags newFrags) with
    | .ok _ => return frag
    | .error .ENOSPC =>
      reallocateFragmentRun sb frag oldFrags newFrags preferredCg
    | .error e => throw e

/-- `nextufs__grow_directory_by_dirblk`: the node, and where the new block
lies in the data area. -/
def growDirectoryByDirblk (sb : Superblock) (dirnode : Node) :
    Op (Node × Nat) :=
  let oldSize := dirnode.inode.size
  let logicalBlock := oldSize / sb.blockSize % 2 ^ 32
  let inblock := oldSize % sb.blockSize
  let preferredCg := dirnode.inodeNo / sb.inodesPerGroup
  if oldSize % DIRBLKSIZ ≠ 0 then throw .EINVAL
  else if h : logicalBlock < 12 then do
    let oldFrags := (inblock + sb.fragSize - 1) / sb.fragSize
    let newFrags :=
      if inblock = 0 then 1
      else (inblock + DIRBLKSIZ + sb.fragSize - 1) / sb.fragSize
    let frag ←
      if inblock = 0 then allocateFragsAnycg sb preferredCg 1
      else
        growTail sb preferredCg (dirnode.inode.db ⟨logicalBlock, h⟩) oldFrags
          newFrags
    let inode := dirnode.inode.setDb ⟨logicalBlock, h⟩ frag
    let node ← updateNodeTimes sb
      { dirnode with
        inode :=
          { inode with
            size := oldSize + DIRBLKSIZ
            blocks := inode.blocks
              + UInt32.ofNat ((newFrags - oldFrags) * sb.sectorsPerFrag) } }
    return (node, frag * sb.fragSize + inblock)
  else throw .EFBIG

/-- The block with a record for `name` at record `r`, if it has room: a record
that is not in use, or the slack behind one that is.  The slack is a `size_t`:
of a record shorter than its name it is very large. -/
def placeDirent (name : Bytes) (newInode : Nat) (block : Bytes)
    (r : Nat × Dirent) : Option (Except Errno Bytes) :=
  let need := direntSize name.length
  if r.2.ino = 0 then
    if need ≤ r.2.reclen then
      some ((writeDirentRaw newInode r.2.reclen name).map (overlay block r.1))
    else none
  else
    let used := direntSize r.2.namlen
    let slack := (r.2.reclen + 2 ^ 64 - used) % 2 ^ 64
    if need ≤ slack then
      some ((writeDirentRaw newInode (slack % 2 ^ 16) name).map
        (overlay (overlay block (r.1 + 4) (writeBe16 used)) (r.1 + used)))
    else none

/-- The blocks of `insertDirent` still to be searched. -/
def insertBlocks (sb : Superblock) (dirnode : Node) (name : Bytes)
    (newInode : Nat) : List Nat → Op (Option Node)
  | [] => return none
  | k :: rest => do
    let block ← readDirBlock sb dirnode.inode k
    let chunk := chunkBytes sb dirnode.inode.size k
    match (records block chunk).findSome? (placeDirent name newInode block) with
    | none => insertBlocks sb dirnode name newInode rest
    | some (.error _) => throw .EINVAL
    | some (.ok new) =>
      if h : k < 12 then do
        writeExact (dirnode.inode.db ⟨k, h⟩ * sb.fragSize) (new.take chunk)
        let node ← updateNodeTimes sb dirnode
        return some node
      else throw .ENOSPC

/-- `nextufs__insert_dirent`. -/
def insertDirent (sb : Superblock) (dirnode : Node) (name : Bytes)
    (newInode : Nat) : Op Node := do
  match ← insertBlocks sb dirnode name newInode
      (List.range (fileBlocks sb dirnode.inode.size)) with
  | some node => return node
  | none =>
    if DIRBLKSIZ < direntSize name.length then throw .ENOSPC
    else
      match ← attempt (growDirectoryByDirblk sb dirnode) with
      | .error _ => throw .ENOSPC
      | .ok (node, newBlockOff) =>
        match writeDirentRaw newInode DIRBLKSIZ name with
        | .error _ => throw .EINVAL
        | .ok newDirblk =>
          writeExact newBlockOff newDirblk
          return node

/-! ## §3. Removing. -/

/-- Remove `name` from the records of one `DIRBLKSIZ` block at `base`: the
block's new bytes and the inode number that stood there.  `prev` is the last
record in use so far. -/
def removeRecord (name block : Bytes) (base : Nat) :
    Option (Nat × Dirent) → List (Nat × Dirent) →
      Option (Except Errno (Bytes × Nat))
  | _, [] => none
  | prev, r :: rest =>
    if r.2.ino ≠ 0 ∧ r.2.name = name then
      if nameIsDotOrDotdot name then some (.error .EINVAL)
      else
        match prev with
        | some p =>
          some (.ok (overlay block (base + p.1 + 4)
            (writeBe16 (p.2.reclen + r.2.reclen)), r.2.ino))
        | none => some (.ok (overlay block (base + r.1) (writeBe32 0), r.2.ino))
    else removeRecord name block base (if r.2.ino ≠ 0 then some r else prev) rest

/-- The `DIRBLKSIZ` blocks of one block of the directory. -/
def removeInBlock (name block : Bytes) (chunk : Nat) :
    Option (Except Errno (Bytes × Nat)) :=
  (List.range ((chunk + DIRBLKSIZ - 1) / DIRBLKSIZ)).findSome? fun j =>
    let base := j * DIRBLKSIZ
    removeRecord name block base none
      (records (block.drop base) (min DIRBLKSIZ (chunk - base)))

/-- The blocks of `removeDirent` still to be searched. -/
def removeBlocks (sb : Superblock) (dirnode : Node) (name : Bytes) :
    List Nat → Op (Node × Nat)
  | [] => throw .ENOENT
  | k :: rest => do
    let block ← readDirBlock sb dirnode.inode k
    let chunk := chunkBytes sb dirnode.inode.size k
    if h : k < 12 then
      let dataFrag := dirnode.inode.db ⟨k, h⟩
      if dataFrag = 0 then throw .EINVAL
      else
        match removeInBlock name block chunk with
        | none => removeBlocks sb dirnode name rest
        | some (.error e) => throw e
        | some (.ok (new, removedInode)) => do
          writeExact (dataFrag * sb.fragSize) (new.take chunk)
          let node ← updateNodeTimes sb dirnode
          return (node, removedInode)
    else throw .EINVAL

/-- `nextufs__remove_dirent`: the node, and the inode number of the record. -/
def removeDirent (sb : Superblock) (dirnode : Node) (name : Bytes) :
    Op (Node × Nat) :=
  removeBlocks sb dirnode name (List.range (fileBlocks sb dirnode.inode.size))

/-! ## §4. New and empty directories. -/

/-- `nextufs__write_new_directory_block`. -/
def writeNewDirectoryBlock (sb : Superblock) (fragAddr selfIno parentIno : Nat) :
    Op Unit := do
  let dot ← liftCheck (writeDirentRaw selfIno (direntSize 1) [DOT])
  let dotdot ← liftCheck
    (writeDirentRaw parentIno (DIRBLKSIZ - direntSize 1) [DOT, DOT])
  writeExact (fragAddr * sb.fragSize) (dot ++ dotdot)

/-- The records of a block from `off` on are `.` and `..` of this directory,
or not in use; which of the two have been seen. -/
def dotsOnly (selfIno parentIno : Nat) (buf : Bytes) (size : Nat) :
    Nat → Nat → Bool × Bool → Option (Bool × Bool)
  | 0, _, seen => some seen
  | fuel + 1, off, seen =>
    if off < size then
      match readDirent buf size off with
      | none => none
      | some ent =>
        let next := off + ent.reclen
        if ent.ino = 0 then dotsOnly selfIno parentIno buf size fuel next seen
        else if ent.name = [DOT] then
          if ent.ino = selfIno then
            dotsOnly selfIno parentIno buf size fuel next (true, seen.2)
          else none
        else if ent.name = [DOT, DOT] then
          if ent.ino = parentIno then
            dotsOnly selfIno parentIno buf size fuel next (seen.1, true)
          else none
        else none
    else some seen

/-- The blocks of `directoryIsEmpty` still to be looked at. -/
def emptyBlocks (sb : Superblock) (dirnode : Node) (parentIno : Nat) :
    List Nat → Bool × Bool → Op Bool
  | [], seen => return seen.1 && seen.2
  | k :: rest, seen => do
    match ← attempt (readDirBlock sb dirnode.inode k) with
    | .error _ => return false
    | .ok buf =>
      let chunk := chunkBytes sb dirnode.inode.size k
      match dotsOnly dirnode.inodeNo parentIno buf chunk chunk 0 seen with
      | none => return false
      | some seen => emptyBlocks sb dirnode parentIno rest seen

/-- `nextufs__directory_is_empty`. -/
def directoryIsEmpty (sb : Superblock) (dirnode : Node) (parentIno : Nat) :
    Op Bool :=
  if nodeIsDir dirnode = false then return false
  else
    emptyBlocks sb dirnode parentIno
      (List.range (fileBlocks sb dirnode.inode.size)) (false, false)

/-! ## §5. Parents. -/

/-- The first `DIRBLKSIZ` bytes of a directory. -/
def readFirstDirblk (sb : Superblock) (dirnode : Node) : Op Bytes := do
  match ← attempt (inodeReadData sb dirnode.inode 0 DIRBLKSIZ) with
  | .error _ => throw Errno.EIO
  | .ok dirblk => return dirblk

/-- `nextufs__read_directory_parent_inode`. -/
def readDirectoryParentInode (sb : Superblock) (dirnode : Node) : Op Nat :=
  if nodeIsDir dirnode = false ∨ dirnode.inode.size < DIRBLKSIZ then
    throw .ENOTDIR
  else do
    let dirblk ← readFirstDirblk sb dirnode
    match readDirent dirblk DIRBLKSIZ 0 with
    | none => throw .EINVAL
    | some first =>
      if first.ino ≠ dirnode.inodeNo ∨ first.name ≠ [DOT] then throw .EINVAL
      else
        match readDirent dirblk DIRBLKSIZ first.reclen with
        | none => throw .EINVAL
        | some second =>
          if second.name ≠ [DOT, DOT] then throw .EINVAL
          else return second.ino

/-- `nextufs__directory_has_ancestor`, from `cur` upwards.  A chain of more
directories than there are inode numbers is a circle, which the source follows
for ever. -/
def hasAncestorLoop (sb : Superblock) (ancestorInode : Nat) :
    Nat → Node → Op Bool
  | 0, _ => throw .ELOOP
  | fuel + 1, cur =>
    if cur.inodeNo = ancestorInode then return true
    else if cur.inodeNo = ROOT_INODE then return false
    else do
      match ← attempt (readDirectoryParentInode sb cur) with
      | .error _ => return false
      | .ok parentInode =>
        if parentInode = cur.inodeNo then return false
        else
          match ← attempt (nodeGetByInode sb parentInode) with
          | .error _ => return false
          | .ok parent => hasAncestorLoop sb ancestorInode fuel parent

/-- `nextufs__directory_has_ancestor`. -/
def directoryHasAncestor (sb : Superblock) (dirnode : Node)
    (ancestorInode : Nat) : Op Bool :=
  hasAncestorLoop sb ancestorInode (2 ^ 32 + 1) dirnode

/-- `nextufs__update_directory_parent_inode`. -/
def updateDirectoryParentInode (sb : Superblock) (dirnode : Node)
    (parentInode : Nat) : Op Node :=
  if nodeIsDir dirnode = false ∨ dirnode.inode.size < DIRBLKSIZ ∨
      dirnode.inode.db 0 = 0 then
    throw .ENOTDIR
  else do
    let dirblk ← readFirstDirblk sb dirnode
    match readDirent dirblk DIRBLKSIZ 0 with
    | none => throw .EINVAL
    | some first =>
      match readDirent dirblk DIRBLKSIZ first.reclen with
      | none => throw .EINVAL
      | some second =>
        if second.name ≠ [DOT, DOT] then throw .EINVAL
        else do
          writeExact (dirnode.inode.db 0 * sb.fragSize)
            (overlay dirblk first.reclen (writeBe32 parentInode))
          updateNodeTimes sb dirnode

end NextUfs
