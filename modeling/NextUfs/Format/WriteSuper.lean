/-
  NextUfs.Format.WriteSuper
  ─────────────────────────
  **THE FORMATTER WRITES THE SUPERBLOCK AND ITS COPIES.**

  The last writes of `nextufs_format`: the superblock behind the boot area, the
  blocks of the summary, and a copy of the superblock in every group.  What the
  file held before them is left open, and so are the superblock's bytes that no
  field of the model occupies.

    • `superblockBytes` — the buffer `write_superblock` puts together,
    • `finishFormat`    — the writes, in the order of the source,
    • `Formatted`       — an image the formatter has finished,
    • `groupZeroCopy`   — the copy of group 0 stands 16 kilobytes into the
      slice, whatever the geometry.
-/
import Mathlib.Tactic.IntervalCases
import NextUfs.Format.GeometrySpec
import NextUfs.Format.InitCgSpec
import NextUfs.Lib.Fields
import NextUfs.Lib.HostFile

namespace NextUfs.Format

open Host Window Fields Loop

/-! ## §1. The writes. -/

/-- `SBLOCK`, in sectors. -/
def SBLOCK : Nat := BBSIZE / DEV_BSIZE

def FS_MAGIC : Nat := 0x011954

/-- `LOSTFOUNDINO`, the first inode `fsinit` puts. -/
def LOSTFOUNDINO : Nat := 3

/-- `fsbtodb(fs, b)`. -/
def Fs.toDb (fs : Fs) (b : Nat) : Nat := b <<< fs.fsbtodb

/-- `wtfs` on a slice that begins at `base`. -/
def wtfs (base bno : Nat) (bf : List UInt8) (f : ByteFile) : ByteFile :=
  f.pwrite (base + bno * DEV_BSIZE) bf

/-- The buffer of `write_superblock`, after `swap_superblock`; `rest` are the
bytes of the other fields. -/
def superblockBytes (fs : Fs) (rest : Nat → UInt8) : Nat → UInt8 :=
  let out := putBe rest 0x08 4 fs.sblkno
  let out := putBe out 0x0c 4 fs.cblkno
  let out := putBe out 0x10 4 fs.iblkno
  let out := putBe out 0x14 4 fs.dblkno
  let out := putBe out 0x18 4 fs.cgoffset
  let out := putBe out 0x1c 4 fs.cgmask
  let out := putBe out 0x24 4 fs.size
  let out := putBe out 0x2c 4 fs.ncg
  let out := putBe out 0x30 4 fs.bsize
  let out := putBe out 0x34 4 fs.fsize
  let out := putBe out 0x38 4 fs.frag
  let out := putBe out 0x60 4 fs.fragshift
  let out := putBe out 0x64 4 fs.fsbtodb
  let out := putBe out 0x78 4 fs.inopb
  let out := putBe out 0x7c 4 fs.nspf
  let out := putBe out 0x98 4 fs.csaddr
  let out := putBe out 0x9c 4 fs.cssize
  let out := putBe out 0xa0 4 fs.cgsize
  let out := putBe out 0xa4 4 fs.ntrak
  let out := putBe out 0xa8 4 fs.nsect
  let out := putBe out 0xac 4 fs.spc
  let out := putBe out 0xb0 4 fs.ncyl
  let out := putBe out 0xb4 4 fs.cpg
  let out := putBe out 0xb8 4 fs.ipg
  let out := putBe out 0xbc 4 fs.fpg
  putBe out 0x55c 4 FS_MAGIC

/-- `write_superblock`. -/
def writeSuperblock (base : Nat) (fs : Fs) (rest : Nat → UInt8) (bno : Nat)
    (f : ByteFile) : ByteFile :=
  wtfs base bno (load (superblockBytes fs rest) 0 SBSIZE) f

/-- The loop over the blocks of the summary, whose bytes are `sums`. -/
def writeSummary (base : Nat) (fs : Fs) (sums : Nat → UInt8) (f : ByteFile) :
    ByteFile :=
  (forLoop (fun i => i < fs.cssize) fs.bsize
    (fun i => wtfs base (fs.toDb (fs.csaddr + i / fs.fsize))
      (load sums i (if fs.cssize - i < fs.bsize then fs.cssize - i else fs.bsize)))
    fs.cssize 0 f).2

/-- The loop over the copies. -/
def writeCopiesOf (base : Nat) (fs : Fs) (rest : Nat → UInt8) (f : ByteFile) :
    ByteFile :=
  (forLoop (fun cylno => cylno < fs.ncg) 1
    (fun cylno => writeSuperblock base fs rest (fs.toDb (fs.cgsblock cylno)))
    fs.ncg 0 f).2

/-- `nextufs_format` from its first write of the superblock on. -/
def finishFormat (base : Nat) (fs : Fs) (rest sums : Nat → UInt8)
    (f : ByteFile) : ByteFile :=
  writeCopiesOf base fs rest
    (writeSummary base fs sums (writeSuperblock base fs rest SBLOCK f))

/-- **An image the formatter has finished**: the options were accepted, every
group was written, `fsinit` found its inodes in the file system, and the last
writes have been made. -/
structure Formatted (base : Nat) (opts : FormatOptions) (fs : Fs)
    (image : ByteFile) : Prop where
  geometry : nextufsFormat opts = .ok fs
  groups : ∃ now f, formatGroups fs now = some f
  inodes : LOSTFOUNDINO < fs.ipg * fs.ncg
  written : ∃ rest sums f, image = finishFormat base fs rest sums f

/-! ## §2. Where the copies stand. -/

/-- The superblock is placed in bytes, not in blocks. -/
structure SuperPlaced (b : Blocks) : Prop where
  bsize_pos : 0 < b.bsize
  bsize_le : b.bsize ≤ MAXBSIZE
  fsize_pos : 0 < b.fsize
  fsize_le : b.fsize ≤ b.bsize
  sectors : 2 ^ b.fsbtodb * DEV_BSIZE = b.fsize
  copy : b.sblkno * b.fsize = BBSIZE + SBSIZE
  room : b.sblkno * b.fsize + SBSIZE ≤ b.cblkno * b.fsize

/-- The sizes that are left when a block fits the formatter's buffers. -/
theorem blockSizes_placed {bsize fsize : Int} {b : Blocks}
    (h : blockSizes bsize fsize = .ok b) (hmax : b.bsize ≤ MAXBSIZE) :
    SuperPlaced b := by
  obtain ⟨p, q, hp, hq, hqp, hpq, rfl⟩ := blockSizes_ok h
  have hp13 : p ≤ 13 := by
    apply (Nat.pow_le_pow_iff_right (by decide : 1 < 2)).mp
    exact hmax
  -- four, two or one fragments of one to eight sectors
  interval_cases p <;> interval_cases q <;>
    first
    | omega
    | constructor <;> decide

theorem toDb_bytes {fs : Fs} (h : SuperPlaced fs.toBlocks) (b : Nat) :
    fs.toDb b * DEV_BSIZE = b * fs.fsize := by
  unfold Fs.toDb
  rw [Nat.shiftLeft_eq, Nat.mul_assoc, h.sectors]

theorem cgsblock_zero (fs : Fs) : fs.cgsblock 0 = fs.sblkno := by
  unfold Fs.cgsblock Fs.cgstart Fs.cgbase
  rw [Nat.zero_and]
  omega

/-- A later copy lies behind that of group 0. -/
theorem cgsblock_apart {fs : Fs} (hl : LaidOut fs)
    (hb : SuperPlaced fs.toBlocks) {c : Nat} (hc : 0 < c) (hlt : c < fs.ncg) :
    fs.sblkno * fs.fsize + SBSIZE ≤ fs.cgsblock c * fs.fsize := by
  -- a group is larger than its metadata
  have hmeta := hl.metadata c hlt
  rw [hl.dupper_eq] at hmeta
  have hdata : fs.cblkno ≤ fs.dblkno := by
    rw [hl.dblkno_eq]
    exact Nat.le_trans (Nat.le_add_right fs.cblkno fs.frag) (Nat.le_add_right _ _)
  have hbase : fs.fpg ≤ fs.cgbase c := Nat.le_mul_of_pos_right _ hc
  have hle : fs.cblkno ≤ fs.cgsblock c := by
    unfold Fs.cgsblock Fs.cgstart
    omega
  exact Nat.le_trans hb.room (Nat.mul_le_mul_right _ hle)

/-! ## §3. The copy of group 0. -/

section Copy

variable {base : Nat} {fs : Fs} {rest : Nat → UInt8} {f : ByteFile}

/-- Copy of the superblock at byte `off`. -/
def HasCopy (f : ByteFile) (off : Nat) (fs : Fs) (rest : Nat → UInt8) : Prop :=
  off + SBSIZE ≤ f.size ∧
    ∀ i < SBSIZE, f.byte (off + i) = superblockBytes fs rest i

/-- A superblock that is written is there. -/
theorem writeSuperblock_has (bno : Nat) :
    HasCopy (writeSuperblock base fs rest bno f) (base + bno * DEV_BSIZE) fs rest := by
  have hlen : (load (superblockBytes fs rest) 0 SBSIZE).length = SBSIZE :=
    length_load _ _ _
  have hget : ∀ i < SBSIZE, (load (superblockBytes fs rest) 0 SBSIZE).getD i 0 =
      superblockBytes fs rest i := by
    intro i hi
    rw [getD_load 0 hi, Nat.zero_add]
  unfold HasCopy writeSuperblock wtfs
  generalize load (superblockBytes fs rest) 0 SBSIZE = data at hlen hget
  refine ⟨?_, fun i hi => ?_⟩
  · have hne : data ≠ [] := by
      rintro rfl
      cases hlen
    have hend : base + bno * DEV_BSIZE + data.length ≤
        (f.pwrite (base + bno * DEV_BSIZE) data).size := ByteFile.end_le_pwrite hne
    rwa [hlen] at hend
  · rw [ByteFile.byte_pwrite_in (Nat.le_add_right _ _) (by omega),
      Nat.add_sub_cancel_left, hget i hi]

/-- A superblock written behind it leaves a copy alone. -/
theorem HasCopy.writeSuperblock {off : Nat} (h : HasCopy f off fs rest) {bno : Nat}
    (hbehind : off + SBSIZE ≤ base + bno * DEV_BSIZE) :
    HasCopy (writeSuperblock base fs rest bno f) off fs rest := by
  obtain ⟨hsize, hbytes⟩ := h
  refine ⟨Nat.le_trans hsize (ByteFile.size_le_pwrite f _ _), fun i hi => ?_⟩
  rw [← hbytes i hi]
  exact ByteFile.byte_pwrite_out (by omega) (Or.inl (by omega))

/-- **The copy of group 0** is written first, and the others lie behind it. -/
theorem writeCopiesOf_has (hl : LaidOut fs) (hb : SuperPlaced fs.toBlocks)
    (hncg : 0 < fs.ncg) :
    HasCopy (writeCopiesOf base fs rest f) (base + (BBSIZE + SBSIZE)) fs rest := by
  have hzero : base + fs.toDb (fs.cgsblock 0) * DEV_BSIZE =
      base + (BBSIZE + SBSIZE) := by
    rw [toDb_bytes hb, cgsblock_zero, hb.copy]
  have hbody : ∀ i g, decide (i < fs.ncg) = true →
      (0 < i → HasCopy g (base + (BBSIZE + SBSIZE)) fs rest) →
      (0 < i + 1 → HasCopy (NextUfs.Format.writeSuperblock base fs rest
        (fs.toDb (fs.cgsblock i)) g) (base + (BBSIZE + SBSIZE)) fs rest) := by
    intro i g hi hcopy _
    rcases Nat.eq_zero_or_pos i with rfl | hpos
    · rw [← hzero]
      exact writeSuperblock_has _
    · refine (hcopy hpos).writeSuperblock ?_
      have hapart := cgsblock_apart hl hb hpos (of_decide_eq_true hi)
      rw [hb.copy] at hapart
      rw [toDb_bytes hb]
      omega
  have hrun := forLoop_induct hbody fs.ncg 0 f (fun h => absurd h (Nat.lt_irrefl 0))
  refine hrun ?_
  -- the loop has passed group 0
  have hstop : ∀ i, fs.ncg ≤ i → decide (i < fs.ncg) = false :=
    fun i hi => decide_eq_false (Nat.not_lt.2 hi)
  have hdone := @forLoop_done _ _ _ (fun cylno => NextUfs.Format.writeSuperblock base
    fs rest (fs.toDb (fs.cgsblock cylno))) _ Nat.one_pos hstop fs.ncg 0 f (by omega)
  have hend := Nat.le_of_not_lt (of_decide_eq_false hdone)
  exact Nat.lt_of_lt_of_le hncg hend

end Copy

/-- **Where a finished image holds its first copy.** -/
theorem Formatted.groupZeroCopy {base : Nat} {opts : FormatOptions} {fs : Fs}
    {image : ByteFile} (h : Formatted base opts fs image) :
    SuperPlaced fs.toBlocks
      ∧ ∃ rest, HasCopy image (base + (BBSIZE + SBSIZE)) fs rest := by
  have hncg : 0 < fs.ncg := Nat.pos_of_ne_zero fun h0 => by
    have hinodes := h.inodes
    rw [h0] at hinodes
    exact absurd hinodes (Nat.not_lt_zero _)
  obtain ⟨hl, -⟩ := nextufsFormat_spec h.geometry
  obtain ⟨now, run, hrun⟩ := h.groups
  have hdef := initcgs_defined hrun 0 hncg
  unfold initcgDefined at hdef
  have hb := blockSizes_placed (nextufsFormat_blocks h.geometry)
    (of_decide_eq_true hdef).2.1
  obtain ⟨rest, sums, f, rfl⟩ := h.written
  exact ⟨hb, rest, writeCopiesOf_has hl hb hncg⟩

end NextUfs.Format
