/-
  NextUfs.Core.Path
  ─────────────────
  **PATH LOOKUP.**

  `path.c`: the walk over a path's components, which starts again from a new
  path at every symbolic link it follows.

    • `lookupLoop`          — the components of one path,
    • `lookupPathRecursive` — restarts, at most `MAX_LOOKUP_DEPTH` of them,
    • `nodeLookup`          — what the operations call.
-/
import NextUfs.Core.Directory

namespace NextUfs

/-! ## §1. Strings. -/

/-- `'/'`. -/
def SLASH : UInt8 := 47

/-- `'.'`. -/
def DOT : UInt8 := 46

/-- `NEXTUFS_MAX_PATH_LEN`: a path buffer, its NUL included. -/
def MAX_PATH_LEN : Nat := 4096

/-- `NEXTUFS_MAX_LOOKUP_DEPTH`. -/
def MAX_LOOKUP_DEPTH : Nat := 16

/-- The string in a buffer: its bytes before the first NUL. -/
def cString (raw : Bytes) : Bytes := raw.takeWhile (· ≠ 0)

/-- `strsep(&cursor, "/")`: the bytes before the first slash, and those after
it. -/
def strsep (s : Bytes) : Bytes × Option Bytes :=
  (s.takeWhile (· ≠ SLASH),
    match s.dropWhile (· ≠ SLASH) with
    | [] => none
    | _ :: rest => some rest)

/-- A path that fits the buffer it is printed to. -/
def checkPathLen (path : Bytes) : Op Bytes :=
  if MAX_PATH_LEN ≤ path.length then throw .ENAMETOOLONG else return path

/-- `append_path_component`. -/
def appendPathComponent (path component : Bytes) : Op Bytes :=
  if path = [SLASH] ∨ path = [] then checkPathLen (SLASH :: component)
  else checkPathLen (path ++ SLASH :: component)

/-- `nextufs__path_split`: the parent's path and the last name. -/
def pathSplit (path : Bytes) (parentSize nameSize : Nat) :
    Except Errno (Bytes × Bytes) :=
  let name := (path.reverse.takeWhile (· ≠ SLASH)).reverse
  let parent := path.take (path.length - name.length - 1)
  if path.head? ≠ some SLASH ∨ name = [] then .error .EINVAL
  else if nameSize ≤ name.length then .error .ENAMETOOLONG
  else if parent = [] then
    if parentSize < 2 then .error .ENAMETOOLONG else .ok ([SLASH], name)
  else if parentSize < parent.length + 1 then .error .ENAMETOOLONG
  else .ok (parent, name)

/-! ## §2. Symbolic links. -/

/-- The 60 bytes of the pointer area. -/
def pointerBytes (ino : Inode) : Bytes :=
  (List.finRange 12).flatMap (fun i => writeBe32 (ino.db i))
    ++ (List.finRange 3).flatMap fun i => writeBe32 (ino.ib i)

/-- `decode_inline_symlink`: the bytes it puts in the buffer. -/
def decodeInlineSymlink (ino : Inode) (outSize : Nat) : Bytes :=
  if isFastLink ino = false ∨ ino.size = 0 ∨ 60 < ino.size ∨ outSize = 0 then
    []
  else (pointerBytes ino).take (min ino.size (outSize - 1))

/-- `nextufs_inode_readlink`: the string in the buffer. -/
def inodeReadlink (sb : Superblock) (ino : Inode) (outSize : Nat) :
    Op Bytes :=
  if (ino.mode &&& IFMT == IFLNK) = false ∨ outSize = 0 then throw .EINVAL
  else if decodeInlineSymlink ino outSize ≠ [] then
    return cString (decodeInlineSymlink ino outSize)
  else do
    match ← attempt (inodeReadData sb ino 0 (outSize - 1)) with
    | .error _ => throw Errno.EIO
    | .ok out => return cString out

/-! ## §3. The walk. -/

/-- An error of a step that the walk reports as an I/O error. -/
def orIoError {α : Type} (x : Op α) : Op α := do
  match ← attempt x with
  | .error _ => throw Errno.EIO
  | .ok a => return a

/-- The path that replaces one whose component is a link to `linkTarget`:
`pfx` is the path walked so far, `remainder` what follows the link. -/
def linkPath (pfx linkTarget remainder : Bytes) : Bytes :=
  let tail := if remainder = [] then [] else SLASH :: remainder
  if linkTarget.head? = some SLASH then linkTarget ++ tail
  else pfx ++ SLASH :: (linkTarget ++ tail)

/-- The loop of `lookup_path_recursive`: `current` has been reached by `pfx`,
and `cursor` is what is left of the path.  Every round takes a byte off it or
ends it, so its length bounds the rounds. -/
def lookupLoop (sb : Superblock) (followFinal : Bool)
    (restart : Bytes → Op Node) :
    Nat → Bytes → Node → Option Bytes → Op Node
  | 0, _, current, _ => return current
  | _ + 1, _, current, none => return current
  | fuel + 1, pfx, current, some path =>
    let segment := (strsep path).1
    let cursor := (strsep path).2
    let remainder := cursor.getD []
    if segment = [] then
      lookupLoop sb followFinal restart fuel pfx current cursor
    else if nodeIsDir current = false then
      throw .ENOTDIR
    else do
      let next ← orIoError (findNameInDirectory sb current.inode segment)
      if next = 0 then
        throw .ENOENT
      else
        let node ← orIoError (nodeGetByInode sb next)
        if MAX_PATH_LEN ≤ remainder.length then
          throw .ENAMETOOLONG
        else if nodeIsLnk node ∧ (remainder = [] → followFinal) then
          let linkTarget ← orIoError (inodeReadlink sb node.inode MAX_PATH_LEN)
          restart (← checkPathLen (linkPath pfx linkTarget remainder))
        else
          let pfx ← appendPathComponent pfx segment
          lookupLoop sb followFinal restart fuel pfx node cursor

/-- `lookup_path_recursive`, by the depth that is left. -/
def lookupPathRecursive (sb : Superblock) (followFinal : Bool) :
    Nat → Bytes → Op Node
  | 0, _ => throw .ELOOP
  | depth + 1, path => do
    let root ← orIoError (nodeGetByInode sb ROOT_INODE)
    let path := path.dropWhile (· = SLASH)
    if path = [] then return root
    else
      lookupLoop sb followFinal (lookupPathRecursive sb followFinal depth)
        (path.length + 2) [SLASH] root (some path)

/-- `nextufs_node_lookup`. -/
def nodeLookup (sb : Superblock) (path : Bytes) (followFinal : Bool) :
    Op Node :=
  lookupPathRecursive sb followFinal (MAX_LOOKUP_DEPTH + 1) path

end NextUfs
