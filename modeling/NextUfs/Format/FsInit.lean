/-
  NextUfs.Format.FsInit
  ─────────────────────
  **`fsinit`: THE FORMATTER MAKES THE FIRST TWO DIRECTORIES.**

  When the groups are written, `/lost+found` gets a block and `/` a fragment
  of group 0, and both their inodes are put.  The group buffer, the directory
  buffer and the inode are the formatter's only ones, so what one step leaves
  in them the next one finds.

    • `putDirent`, `makedir` — the bytes of a directory,
    • `alloc`                — a block, or the first fragments of one,
    • `iput`                 — an inode,
    • `fsinit`               — the two directories,
    • `writeFormat`          — the groups and the directories: the new disk.

  `alloc` hands out fragment 0 where it finds no block; the formatter goes on.
  `none` stands for an inode outside the file system, where it gives up.
-/
import NextUfs.Format.WriteSuper
import NextUfs.Mutate.DirMutate

namespace NextUfs.Format

open Bits Loop

/-! ## §1. Directories. -/

/-- `struct direct`, as far as a predefined entry sets it. -/
structure Direct where
  ino : Nat
  namlen : Nat
  name : Bytes

def ROOTINO : Nat := 2

/-- `root_dir`. -/
def rootDir : List Direct :=
  [⟨ROOTINO, 1, [46]⟩, ⟨ROOTINO, 2, [46, 46]⟩,
    ⟨LOSTFOUNDINO, 10, [108, 111, 115, 116, 43, 102, 111, 117, 110, 100]⟩]

/-- `lost_found_dir`; its last entry is not put. -/
def lostFoundDir : List Direct :=
  [⟨LOSTFOUNDINO, 1, [46]⟩, ⟨ROOTINO, 2, [46, 46]⟩, ⟨0, 0, []⟩]

/-- `put_dirent(buf + at, ...)`. -/
def putDirent (buf : Bytes) (cp ino reclen namlen : Nat) (name : Bytes) :
    Bytes :=
  overlay (overlay buf cp (List.replicate reclen 0)) cp
    (writeBe32 ino ++ writeBe16 reclen ++ writeBe16 namlen ++ name.take namlen)

/-- The loop of `makedir`: every entry but the last is as long as it needs,
the last takes what is left. -/
def makedirFrom : List Direct → Nat → Nat → Bytes → Bytes
  | [], _, _, buf => buf
  | [e], cp, spcleft, buf => putDirent buf cp e.ino spcleft e.namlen e.name
  | e :: rest, cp, spcleft, buf =>
    let reclen := direntSize e.namlen
    makedirFrom rest (cp + reclen) (spcleft - reclen)
      (putDirent buf cp e.ino reclen e.namlen e.name)

/-- `makedir`: the buffer it leaves.  What it returns is `DIRBLKSIZ`. -/
def makedir (protodir : List Direct) (entries : Nat) : Bytes :=
  makedirFrom (protodir.take entries) 0 DIRBLKSIZ (List.replicate MAXBSIZE 0)

/-- The directory buffer of `/lost+found`: the chunks behind the first hold one
free record each. -/
def lostFoundBuf (fs : Fs) : Bytes :=
  (forLoop (fun i => i < fs.bsize) DIRBLKSIZ
    (fun i buf => putDirent buf i 0 DIRBLKSIZ 0 []) fs.bsize DIRBLKSIZ
    (makedir lostFoundDir 2)).2

/-! ## §2. Blocks. -/

/-- `isblock`: every fragment of block `h` is free. -/
def isblock (frag : Nat) (map : Nat → Bool) (h : Nat) : Bool :=
  knownFrag frag && allSet map (h * frag) frag

/-- What the formatter has in memory and on the device while it makes the
directories. -/
structure Image extends Formatter where
  inodes : Nat → Inode
  data : Nat → UInt8

/-- `read_cg_block` of group 0 into the group buffer.  `fs_cgsize` bytes are
read; behind them the map keeps what the buffer had. -/
def readCg (fs : Fs) (im : Image) : Cg :=
  { im.cgs 0 with
    free := fun i =>
      if i < NBBY * (fs.cgsize - CG_FREE_OFF) then (im.cgs 0).free i
      else im.acg.free i }

/-- What `alloc` adds to the counters of the group, its summary entry and the
totals. -/
def allocDelta (fs : Fs) (size : Nat) (mode : UInt16) : Csum where
  ndir := if mode &&& IFDIR ≠ 0 then 1 else 0
  nbfree := -1
  nifree := 0
  nffree :=
    if size = fs.bsize then 0
    else UInt32.ofNat (fs.frag - howmany size fs.fsize)

/-- Take the block at fragment `d` for `size` bytes; the fragments behind them
are free again. -/
def takeBlock (fs : Fs) (size : Nat) (mode : UInt16) (d : Nat) (acg : Cg) :
    Cg :=
  let cyl := cbtocylno fs d
  let pos := cbtorpos fs d
  let acg :=
    { acg with
      free := clrblock fs.frag acg.free (d / fs.frag)
      cs := acg.cs + allocDelta fs size mode
      btot := Function.update acg.btot cyl (acg.btot cyl - 1)
      b := Function.update acg.b cyl
        (Function.update (acg.b cyl) pos (acg.b cyl pos - 1)) }
  if size = fs.bsize then acg
  else
    let n := howmany size fs.fsize
    { acg with
      frsum := Function.update acg.frsum (fs.frag - n)
        (acg.frsum (fs.frag - n) + 1)
      free := setRange acg.free (d + n) (fs.frag - n) }

/-- The first block of group 0 that is free. -/
def findBlock (fs : Fs) (acg : Cg) : Option Nat :=
  (List.range (howmany acg.ndblk fs.frag)).find? (isblock fs.frag acg.free)

/-- `alloc(size, mode)`: the fragment it hands out. -/
def alloc (fs : Fs) (size : Nat) (mode : UInt16) (im : Image) : Nat × Image :=
  let acg := readCg fs im
  if acg.magic ≠ CG_MAGIC then (0, { im with acg := acg })
  else if acg.cs.nbfree = 0 then (0, { im with acg := acg })
  else
    match findBlock fs acg with
    | none => (0, { im with acg := acg })
    | some h =>
      let d := h * fs.frag
      let delta := allocDelta fs size mode
      let acg := takeBlock fs size mode d acg
      (d, { im with
        acg := acg
        cgs := Function.update im.cgs 0 acg
        cstotal := im.cstotal + delta
        csums := Function.update im.csums 0 (im.csums 0 + delta) })

/-! ## §3. Inodes. -/

/-- A zeroed inode. -/
def zeroInode : Inode where
  mode := 0
  nlink := 0
  uid := 0
  gid := 0
  size := 0
  atime := 0
  mtime := 0
  ctime := 0
  db := fun _ => 0
  ib := fun _ => 0
  flags := 0
  blocks := 0
  gen := 0

/-- What `iput` adds to the counters. -/
def iputDelta : Csum := ⟨0, 0, -1, 0⟩

/-- `iput`: inode `number` is in use and is `node`.  The group is written
before the number is looked at. -/
def iput (fs : Fs) (number : Nat) (node : Inode) (im : Image) :
    Option Image :=
  let acg := readCg fs im
  if acg.magic ≠ CG_MAGIC then none
  else
    let acg :=
      { acg with
        cs := acg.cs + iputDelta
        iused := Function.update acg.iused number true }
    if fs.ipg * fs.ncg ≤ number then none
    else some { im with
      acg := acg
      cgs := Function.update im.cgs 0 acg
      cstotal := im.cstotal + iputDelta
      csums := Function.update im.csums 0 (im.csums 0 + iputDelta)
      inodes := Function.update im.inodes number node }

/-! ## §4. The first two directories. -/

/-- `UMASK`. -/
def UMASK : UInt16 := 0o755

/-- `write_dir_block`: the first `size` bytes of the buffer go to fragment
`d`. -/
def writeDirBlock (fs : Fs) (d size : Nat) (buf : Bytes) (im : Image) :
    Image :=
  let off := d * fs.fsize
  { im with
    data := fun i =>
      if off ≤ i ∧ i < off + size then buf.getD (i - off) 0 else im.data i }

/-- The inode of a directory with `size` bytes at fragment `d`. -/
def dirInode (fs : Fs) (now : UInt32) (nlink : UInt16) (size d : Nat) :
    Inode :=
  { zeroInode with
    mode := IFDIR ||| UMASK
    nlink := nlink
    size := size
    atime := now
    mtime := now
    ctime := now
    db := Function.update (fun _ => 0) 0 d
    blocks := UInt32.ofNat (fs.fragroundup size / DEV_BSIZE) }

/-- `fsinit`. -/
def fsinit (fs : Fs) (now : UInt32) (im : Image) : Option Image := do
  let (d, im) := alloc fs fs.bsize (IFDIR ||| UMASK) im
  let im := writeDirBlock fs d fs.bsize (lostFoundBuf fs) im
  let im ← iput fs LOSTFOUNDINO (dirInode fs now 2 fs.bsize d) im
  let (d, im) := alloc fs fs.fsize (IFDIR ||| UMASK) im
  let im := writeDirBlock fs d fs.fsize (makedir rootDir 3) im
  iput fs ROOTINO (dirInode fs now 3 DIRBLKSIZ d) im

/-- The image when the groups are written: their inodes are zeroed, and the
data area is as it was. -/
def Formatter.image (f : Formatter) (data : Nat → UInt8) : Image :=
  { toFormatter := f
    inodes := fun _ => zeroInode
    data := data }

/-- The disk an open handle finds. -/
def Image.disk (im : Image) (now : UInt32) : Disk where
  cstotal := im.cstotal
  sbTime := now
  csum := im.csums
  cgs := im.cgs
  inodes := im.inodes
  data := im.data
  clock := now

/-- `nextufs_format` once it has the geometry: the groups and the directories
on a device with `data` in its data area. -/
def writeFormat (fs : Fs) (now : UInt32) (data : Nat → UInt8) :
    Option Disk := do
  let f ← formatGroups fs now
  let im ← fsinit fs now (f.image data)
  return im.disk now

end NextUfs.Format
