/-
  NextUfs.Fsck.DirScan
  ────────────────────
  **SCANNING A DIRECTORY BLOCK.**

  `dirscan` (`dir_scan.c`) hands the records of a directory block to a
  callback, one after the other.  `fsck_readdir` finds the next one and repairs
  on its way: a chunk whose first record is bad becomes one empty record, and
  a record before a bad one takes the rest of its chunk.

    • `dircheck`      — what makes a record good,
    • `fsckReaddir`   — the next record, with the repairs,
    • `dirscan`       — the scan.

  What the scan has handed out is kept beside its state.  In phase 2 and later
  the checker does not run by itself: `pfatal` ends it (`preen`), so a repair is
  the operator's answer.
-/
import NextUfs.Core.Directory
import NextUfs.Fsck.Buffer
import NextUfs.Fsck.Pass1

namespace NextUfs.Fsck

open Window Address

/-! ## §1. Records in memory. -/

/-- `MAXNAMLEN`. -/
def MAXNAMLEN : Nat := 255

/-- An `unsigned short` as the host keeps it. -/
def putLe16 (v : Nat) : Bytes := [UInt8.ofNat v, UInt8.ofNat (v / 2 ^ 8)]

/-- A `uint32_t` as the host keeps it. -/
def putLe32 (v : Nat) : Bytes := putLe16 v ++ putLe16 (v / 2 ^ 16)

/-- `d_ino`, `d_reclen`, `d_namlen` of the record at `dp`. -/
def dIno (buf : Nat → UInt8) (dp : Nat) : Nat := le32 buf dp
def dReclen (buf : Nat → UInt8) (dp : Nat) : Nat := le16 buf (dp + 4)
def dNamlen (buf : Nat → UInt8) (dp : Nat) : Nat := le16 buf (dp + 6)

/-- `DIRSIZ(dp)`. -/
def DIRSIZ (buf : Nat → UInt8) (dp : Nat) : Nat := direntSize (dNamlen buf dp)

/-- The name of the record at `dp` is made of characters below 0200 and ends
where its length says. -/
def nameOk (buf : Nat → UInt8) (dp : Nat) : Bool :=
  ((List.range (dNamlen buf dp)).all fun k =>
    buf (dp + 8 + k) != 0 && buf (dp + 8 + k) &&& 0o200 == 0) &&
  buf (dp + 8 + dNamlen buf dp) == 0

/-- What `dircheck` asks of a record with `spaceleft` bytes to the end of its
chunk, the size of the directory aside. -/
def recordOk (imax : Nat) (buf : Nat → UInt8) (dp spaceleft : Nat) : Bool :=
  decide (dIno buf dp < imax ∧ dReclen buf dp ≠ 0 ∧ dReclen buf dp ≤ spaceleft ∧
    dReclen buf dp % 4 = 0 ∧ DIRSIZ buf dp ≤ dReclen buf dp ∧
    dNamlen buf dp ≤ MAXNAMLEN) &&
  (dIno buf dp == 0 || nameOk buf dp)

/-- `dircheck` of the record at `loc` (`id_loc`). -/
def dircheck (imax : Nat) (buf : Nat → UInt8) (loc : Nat) (filesize : Int) :
    Bool :=
  recordOk imax buf loc (DIRBLKSIZ - loc % DIRBLKSIZ) &&
    decide ((DIRSIZ buf loc : Int) ≤ filesize)

/-! ## §2. The state of a scan. -/

/-- `struct inodesc`, the fields a scan uses. -/
structure Inodesc where
  fix : FixMode
  number : Nat
  parent : Nat
  blkno : Nat
  numfrags : Nat
  filesize : Int
  loc : Nat
  entryno : Nat

/-- A scan: the buffer, the descriptor, what the callback keeps, and the records
handed to it so far with their places. -/
structure ScanState (σ : Type) where
  io : DirIo
  idesc : Inodesc
  env : σ
  delivered : List (Nat × Bytes)

/-- What a callback returns: `ALTERED`, `STOP`. -/
structure ScanRet where
  altered : Bool
  stop : Bool
  deriving DecidableEq, Repr

/-- `id_func`: the copy of the record it was given, as it leaves it. -/
abbrev ScanFunc (σ : Type) :=
  ScanState σ → Bytes → ScanState σ × Bytes × ScanRet

namespace ScanState

variable {σ : Type}

/-- `dirblk.b_buf`. -/
def buf (s : ScanState σ) : Nat → UInt8 := s.io.fileblk.buf

/-- Write to `dirblk.b_buf`. -/
def setBuf (s : ScanState σ) (buf : Nat → UInt8) : ScanState σ :=
  { s with io := { s.io with fileblk := { s.io.fileblk with buf := buf } } }

/-- `id_loc += n; id_filesize -= n`. -/
def advance (s : ScanState σ) (n : Nat) : ScanState σ :=
  { s with
    idesc :=
      { s.idesc with loc := s.idesc.loc + n, filesize := s.idesc.filesize - n } }

/-- `if (dofix(idesc, "DIRECTORY CORRUPTED")) dirty(&fileblk)`. -/
def corrupted (s : ScanState σ) (yes : Bool) : ScanState σ :=
  let (answer, ok) := dofix yes s.idesc.fix
  let s := { s with idesc := { s.idesc with fix := answer } }
  if ok then { s with io := markDirty s.io } else s

/-- One more record is handed out. -/
def deliver (s : ScanState σ) (dp : Nat) (rec : Bytes) : ScanState σ :=
  { s with delivered := s.delivered ++ [(dp, rec)] }

end ScanState

/-! ## §3. The scan. -/

/-- An empty record that takes a whole chunk. -/
def emptyRecord : Bytes := putLe32 0 ++ putLe16 DIRBLKSIZ ++ putLe16 0 ++ [0]

section Scan

variable {σ : Type} (sb : Superblock) (needswap yes : Bool) (imax : Nat)

/-- The block in the buffer, in fragments of the file system. -/
def blockBytes (s : ScanState σ) : Nat := s.idesc.numfrags * sb.fragSize

/-- `getblk(&fileblk, idesc->id_blkno, blksiz)`. -/
def getScanned (s : ScanState σ) : ScanState σ :=
  { s with
    io := getblk sb needswap (BitVec.ofNat 32 s.idesc.blkno) (blockBytes sb s)
      s.io }

/-- The record at `id_loc` and, if the one behind it is bad, the rest of the
chunk with it. -/
def nextRecord (s : ScanState σ) : Option Nat × ScanState σ :=
  let dp := s.idesc.loc
  if s.idesc.filesize ≤ 0 ∨ blockBytes sb s ≤ dp then (none, s)
  else
    let s := s.advance (dReclen s.buf dp)
    if s.idesc.loc % DIRBLKSIZ = 0 then (some dp, s)
    else if s.idesc.loc < blockBytes sb s ∧ 0 < s.idesc.filesize ∧
        dircheck imax s.buf s.idesc.loc s.idesc.filesize = false then
      let size := DIRBLKSIZ - s.idesc.loc % DIRBLKSIZ
      let s := s.setBuf
        (store s.buf (dp + 4) (putLe16 (dReclen s.buf dp + size)))
      (some dp, (s.advance size).corrupted yes)
    else (some dp, s)

/-- `fsck_readdir`: where the next record is. -/
def fsckReaddir (s : ScanState σ) : Option Nat × ScanState σ :=
  let s := getScanned sb needswap s
  if s.io.fileblk.errs ≠ 0 then
    let rest := (blockBytes sb s : Int) - s.idesc.loc
    (none,
      { s with idesc := { s.idesc with filesize := s.idesc.filesize - rest } })
  else
    let dp := s.idesc.loc
    if dp % DIRBLKSIZ = 0 ∧ 0 < s.idesc.filesize ∧ dp < blockBytes sb s ∧
        dircheck imax s.buf dp s.idesc.filesize = false then
      let s := s.advance DIRBLKSIZ
      let s := s.setBuf (store s.buf dp emptyRecord)
      (some dp, s.corrupted yes)
    else nextRecord sb yes imax s

variable (func : ScanFunc σ)

/-- The callback's copy of the record goes back to the buffer. -/
def putBack (dp : Nat) (dbuf : Bytes) (s : ScanState σ) : ScanState σ × Bool :=
  let s := getScanned sb needswap s
  if s.io.fileblk.errs ≠ 0 then (s, false)
  else
    let s := s.setBuf (store s.buf dp dbuf)
    ({ s with io := markDirty s.io }, true)

/-- The loop of `dirscan`.  Every record takes bytes of the block, so the size
of the block bounds the loop. -/
def scanLoop : Nat → ScanState σ → ScanState σ × ScanRet
  | 0, s => (s, ⟨false, false⟩)
  | fuel + 1, s =>
    match fsckReaddir sb needswap yes imax s with
    | (none, s) => (s, ⟨false, decide (s.idesc.filesize ≤ 0)⟩)
    | (some dp, s) =>
      let dsize := dReclen s.buf dp
      let dbuf := load s.buf dp dsize
      match func (s.deliver dp dbuf) dbuf with
      | (s, dbuf, n) =>
        if n.altered then
          let (s, ok) := putBack sb needswap dp (dbuf.take dsize) s
          if n.stop then (s, ⟨ok, true⟩) else scanLoop fuel s
        else if n.stop then (s, n)
        else scanLoop fuel s

/-- `roundup(size, DIRBLKSIZ)`. -/
def roundupDirblk (size : Int) : Int :=
  (size + (DIRBLKSIZ - 1)) / DIRBLKSIZ * DIRBLKSIZ

/-- `dirscan`. -/
def dirscan (s : ScanState σ) : ScanState σ × ScanRet :=
  let s :=
    if s.idesc.entryno = 0 then
      { s with
        idesc := { s.idesc with filesize := roundupDirblk s.idesc.filesize } }
    else s
  if outrange sb s.idesc.blkno s.idesc.numfrags then
    -- `SKIP`
    ({ s with
        idesc := { s.idesc with filesize := s.idesc.filesize - blockBytes sb s } },
      ⟨false, false⟩)
  else
    scanLoop sb needswap yes imax func (blockBytes sb s + 1)
      { s with idesc := { s.idesc with loc := 0 } }

end Scan

end NextUfs.Fsck
