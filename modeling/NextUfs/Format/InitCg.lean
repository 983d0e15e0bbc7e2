/-
  NextUfs.Format.InitCg
  ─────────────────────
  **`initcg`: THE FORMATTER WRITES A GROUP.**

  `initcg` works in one buffer that all groups share (`acg`), so each field is
  either assigned or left as the group before had it.  The fragment map is
  built front to back, by a loop for every region:

    • the blocks before the superblock copy,
    • the metadata, up to the first data block,
    • the data blocks, and the ragged end of the last group,
    • the rest of the map.

  `initcgs` is the loop over the groups.  `none` stands for a run that the
  source gives no meaning to: a buffer overrun or an `int` out of range.
-/
import NextUfs.Lib.Bits
import NextUfs.Lib.Loop
import NextUfs.Format.Geometry

namespace NextUfs.Format

open Bits Loop

/-! ## §1. The map of a group. -/

/-- The fragments a block `setblock` and `clrblock` know. -/
def knownFrag (frag : Nat) : Bool :=
  frag = 8 ∨ frag = 4 ∨ frag = 2 ∨ frag = 1

/-- `setblock`: set the bits of block `h`. -/
def setblock (frag : Nat) (map : Nat → Bool) (h : Nat) : Nat → Bool :=
  if knownFrag frag then setRange map (h * frag) frag else map

/-- `clrblock`: clear the bits of block `h`. -/
def clrblock (frag : Nat) (map : Nat → Bool) (h : Nat) : Nat → Bool :=
  if knownFrag frag then clearRange map (h * frag) frag else map

/-- `cbtocylno(fs, bno)`. -/
def cbtocylno (fs : Fs) (bno : Nat) : Nat := bno * fs.nspf / fs.spc

/-- `cbtorpos(fs, bno)`. -/
def cbtorpos (fs : Fs) (bno : Nat) : Nat :=
  bno * fs.nspf % fs.spc % fs.nsect * NRPOS / fs.nsect

/-- Mark the block at fragment `d` free and count it. -/
def freeBlock (fs : Fs) (d : Nat) (acg : Cg) : Cg :=
  let cyl := cbtocylno fs d
  let pos := cbtorpos fs d
  { acg with
    free := setblock fs.frag acg.free (d / fs.frag)
    cs := { acg.cs with nbfree := acg.cs.nbfree + 1 }
    btot := Function.update acg.btot cyl (acg.btot cyl + 1)
    b := Function.update acg.b cyl
      (Function.update (acg.b cyl) pos (acg.b cyl pos + 1)) }

/-- Mark the block at fragment `d` used. -/
def clearBlock (fs : Fs) (d : Nat) (acg : Cg) : Cg :=
  { acg with free := clrblock fs.frag acg.free (d / fs.frag) }

/-- Mark the run `[d, d + n)` free and count it as fragments. -/
def freeRun (d n : Nat) (acg : Cg) : Cg :=
  { acg with
    free := setRange acg.free d n
    cs := { acg.cs with nffree := acg.cs.nffree + UInt32.ofNat n }
    frsum := Function.update acg.frsum n (acg.frsum n + 1) }

/-! ## §2. The fields that are reset. -/

/-- Clear one block of inodes in the inode map and count them free. -/
def clearInodes (fs : Fs) (i : Nat) (acg : Cg) : Cg :=
  { acg with
    iused := clearRange acg.iused i fs.inopb
    cs := { acg.cs with nifree := acg.cs.nifree + UInt32.ofNat fs.inopb } }

/-- The header of group `cylno`. -/
def resetHeader (fs : Fs) (now : UInt32) (cylno ndblk : Nat) (acg : Cg) : Cg :=
  { acg with
    time := now
    magic := CG_MAGIC
    cgx := cylno
    ncyl := if cylno = fs.ncg - 1 then fs.ncyl % fs.cpg else fs.cpg
    niblk := fs.ipg
    ndblk := ndblk
    cs := 0
    rotor := 0
    frotor := 0
    irotor := 0
    frsum := fun j => if j < fs.frag then 0 else acg.frsum j }

/-- The header, the inode map and the tables of group `cylno`. -/
def resetCg (fs : Fs) (now : UInt32) (cylno ndblk : Nat) (acg : Cg) : Cg :=
  let r := forLoop (fun i => i < fs.ipg) fs.inopb (clearInodes fs)
    (fs.ipg + 1) 0 (resetHeader fs now cylno ndblk acg)
  let acg := r.2
  let acg :=
    if cylno = 0 then
      -- inodes 0 and 1 are never given out
      { acg with
        iused := setRange acg.iused 0 2
        cs := { acg.cs with nifree := acg.cs.nifree - 2 } }
    else acg
  { acg with
    iused := clearRange acg.iused r.1 (MAXIPG - r.1)
    btot := fun c => if c < MAXCPG then 0 else acg.btot c
    b := fun c p => if c < MAXCPG ∧ p < NRPOS then 0 else acg.b c p }

/-! ## §3. The regions of the map. -/

/-- The blocks before the superblock copy: used in group 0, where the boot
area lies, free in every other. -/
def lowerBlocks (fs : Fs) (cylno dlower : Nat) (acg : Cg) : Nat × Cg :=
  forLoop (fun d => d < dlower) fs.frag
    (if cylno = 0 then clearBlock fs else freeBlock fs) (dlower + 1) 0 acg

/-- The metadata.  If it ends inside a block, the rest of that block is a
free run. -/
def metadataBlocks (fs : Fs) (dupper : Nat) (r : Nat × Cg) : Nat × Cg :=
  let r := forLoop (fun d => d < dupper) fs.frag (clearBlock fs) (dupper + 1)
    r.1 r.2
  (r.1, if dupper < r.1 then freeRun dupper (r.1 - dupper) r.2 else r.2)

/-- The whole data blocks. -/
def dataBlocks (fs : Fs) (ndblk : Nat) (r : Nat × Cg) : Nat × Cg :=
  forLoop (fun d => d + fs.frag ≤ ndblk) fs.frag (freeBlock fs) (ndblk + 1)
    r.1 r.2

/-- The fragments of a last block that is only partly there. -/
def tailFrags (fs : Fs) (ndblk : Nat) (r : Nat × Cg) : Nat × Cg :=
  if r.1 < ndblk then
    let acg := freeRun r.1 (ndblk - r.1) r.2
    let stop := roundup ndblk fs.frag
    (stop, { acg with free := clearRange acg.free ndblk (stop - ndblk) })
  else r

/-- The rest of the map, which no fragment of the disk has. -/
def restOfMap (fs : Fs) (r : Nat × Cg) : Cg :=
  (forLoop (fun h => h < fs.MAXBPG) 1
    (fun h acg => { acg with free := clrblock fs.frag acg.free h })
    (fs.MAXBPG + 1) (r.1 / fs.frag) r.2).2

/-- The fragment map and its counters. -/
def groupBlocks (fs : Fs) (cylno dlower dupper ndblk : Nat) (acg : Cg) : Cg :=
  restOfMap fs (tailFrags fs ndblk (dataBlocks fs ndblk
    (metadataBlocks fs dupper (lowerBlocks fs cylno dlower acg))))

/-! ## §4. One group, and all of them. -/

/-- What the formatter has in memory and on the device while it writes the
groups. -/
structure Formatter where
  acg : Cg
  dsize : Int
  cstotal : Csum
  csums : Nat → Csum
  cgs : Nat → Cg

/-- End of group `cylno` in the file system (`dmax`). -/
def dmaxOf (fs : Fs) (cylno : Nat) : Nat :=
  let dmax := fs.cgbase cylno + fs.fpg
  if fs.size < dmax then fs.size else dmax

/-- End of the metadata of group `cylno` (`dupper`); in group 0 the summary
area follows it. -/
def dupperOf (fs : Fs) (cylno : Nat) : Nat :=
  fs.cgdmin cylno - fs.cgbase cylno +
    if cylno = 0 then howmany fs.cssize fs.fsize else 0

/-- The runs of `initcg` that stay inside its buffers and its `int`s: the
group buffer and its copy have `MAXBSIZE` bytes. -/
def initcgDefined (fs : Fs) (cylno : Nat) : Bool :=
  fs.cgbase cylno + fs.fpg ≤ INT_MAX ∧
  fs.bsize ≤ MAXBSIZE ∧
  roundup (dupperOf fs cylno) fs.frag ≤ NBBY * (MAXBSIZE - CG_FREE_OFF)

/-- `initcg(cylno)`. -/
def initcg (fs : Fs) (now : UInt32) (cylno : Nat) (f : Formatter) :
    Option Formatter :=
  if initcgDefined fs cylno then
    let cbase := fs.cgbase cylno
    let ndblk := dmaxOf fs cylno - cbase
    let dlower := fs.cgsblock cylno - cbase
    let dupper := dupperOf fs cylno
    let acg := groupBlocks fs cylno dlower dupper ndblk
      (resetCg fs now cylno ndblk f.acg)
    some {
      acg := acg
      dsize := f.dsize + (if cylno = 0 then 0 else dlower)
        + ((ndblk : Int) - dupper)
      cstotal := f.cstotal + acg.cs
      csums := Function.update f.csums cylno acg.cs
      cgs := Function.update f.cgs cylno acg }
  else none

/-- A zeroed group buffer. -/
def Cg.zeroed : Cg where
  link := 0
  rlink := 0
  time := 0
  cgx := 0
  ncyl := 0
  niblk := 0
  ndblk := 0
  cs := 0
  rotor := 0
  frotor := 0
  irotor := 0
  frsum := fun _ => 0
  btot := fun _ => 0
  b := fun _ _ => 0
  iused := fun _ => false
  magic := 0
  free := fun _ => false

/-- The formatter before its first group. -/
def Formatter.start : Formatter where
  acg := Cg.zeroed
  dsize := 0
  cstotal := 0
  csums := fun _ => 0
  cgs := fun _ => Cg.zeroed

/-- The first `n` groups. -/
def initcgs (fs : Fs) (now : UInt32) : Nat → Option Formatter
  | 0 => some Formatter.start
  | n + 1 => (initcgs fs now n).bind (initcg fs now n)

/-- The loop of `nextufs_format` over the groups. -/
def formatGroups (fs : Fs) (now : UInt32) : Option Formatter :=
  initcgs fs now fs.ncg

end NextUfs.Format
