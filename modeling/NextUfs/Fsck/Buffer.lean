/-
  NextUfs.Fsck.Buffer
  ───────────────────
  **THE BUFFER OF DIRECTORY BLOCKS.**

  The checker keeps one directory block at a time (`fileblk`, `buffer.c`).
  `getblk` brings one in and turns it into the order of the host, `flush` turns
  it back and writes it.  A sector that cannot be read is zeros, and such a
  block is not turned.

    • `bread`, `bwrite`, `getblk`, `flush`,
    • `flush_getblk`           — what the disk holds when a block that has been
      read is written as it is,
    • `flush_getblk_eq_iff`    — it is what it was exactly when the two walks of
      `swap_dirblock` undo each other.
-/
import NextUfs.Fsck.Address
import NextUfs.Fsck.DirSwap

namespace NextUfs.Fsck

open Window Address

/-! ## §1. The device and the buffer. -/

/-- `struct filecntl`: the bytes of the slice, which device blocks cannot be
read, and whether it may be written. -/
structure Device where
  data : Nat → UInt8
  bad : Nat → Bool
  writable : Bool

/-- `struct bufarea`, for `fileblk`, whose `b_type` is `BT_DIR`. -/
structure BufArea where
  bno : BitVec 32
  size : Nat
  errs : Nat
  buf : Nat → UInt8
  dirty : Bool
  swapped : Bool

/-- The device and the buffer. -/
structure DirIo where
  dev : Device
  fileblk : BufArea

/-- The device blocks of `size` bytes. -/
def deviceBlocks (size : Nat) : Nat := (size + DEV_BSIZE - 1) / DEV_BSIZE

/-- Byte `i` of the blocks from `blk` on, as it is read. -/
def Device.byteRead (d : Device) (blk : BitVec 32) (i : Nat) : UInt8 :=
  if d.bad ((dbtob blk).toNat / DEV_BSIZE + i / DEV_BSIZE) then 0
  else d.data ((dbtob blk).toNat + i)

/-- `bread`: the buffer and the number of blocks that could not be read.  The
operator continues. -/
def bread (d : Device) (blk : BitVec 32) (size : Nat) (buf : Nat → UInt8) :
    (Nat → UInt8) × Nat :=
  (fun i => if i < size then d.byteRead blk i else buf i,
    (List.range (deviceBlocks size)).countP fun i =>
      d.bad ((dbtob blk).toNat / DEV_BSIZE + i))

/-- `bwrite`. -/
def bwrite (d : Device) (buf : Nat → UInt8) (blk : BitVec 32) (size : Nat) :
    Device :=
  if d.writable then
    { d with data := store d.data (dbtob blk).toNat (load buf 0 size) }
  else d

section Buffer

variable (sb : Superblock) (needswap : Bool)

/-- `flush`, of `fileblk`. -/
def flush (s : DirIo) : DirIo :=
  if s.fileblk.dirty then
    let bp := { s.fileblk with dirty := false, errs := 0 }
    if needswap && bp.swapped then
      let out := swapDirblock bp.buf bp.size true
      { dev := bwrite s.dev out bp.bno bp.size
        fileblk := { bp with buf := swapDirblock out bp.size false } }
    else { dev := bwrite s.dev bp.buf bp.bno bp.size, fileblk := bp }
  else s

/-- `getblk`, into `fileblk`. -/
def getblk (blk : BitVec 32) (size : Nat) (s : DirIo) : DirIo :=
  let dblk := fsbtodb sb blk
  if s.fileblk.bno = dblk then s
  else
    let s := flush needswap s
    let (buf, errs) := bread s.dev dblk size s.fileblk.buf
    let swap := needswap && errs == 0
    { s with
      fileblk :=
        { s.fileblk with
          bno := dblk
          size := size
          errs := errs
          buf := if swap then swapDirblock buf size false else buf
          swapped := swap } }

/-- `dirty`. -/
def markDirty (s : DirIo) : DirIo :=
  { s with fileblk := { s.fileblk with dirty := true } }

end Buffer

/-! ## §2. Reading and writing as it is. -/

/-- Block `blk` is on the disk and not in the buffer, which holds nothing to be
written; it can be read, and the disk can be written. -/
structure Fresh (sb : Superblock) (s : DirIo) (blk : BitVec 32) (size : Nat) :
    Prop where
  clean : s.fileblk.dirty = false
  other : s.fileblk.bno ≠ fsbtodb sb blk
  readable : ∀ i < deviceBlocks size,
    s.dev.bad ((dbtob (fsbtodb sb blk)).toNat / DEV_BSIZE + i) = false
  writable : s.dev.writable = true

/-- The bytes of block `blk` on the disk. -/
def Device.block (sb : Superblock) (d : Device) (blk : BitVec 32) :
    Nat → UInt8 :=
  fun i => d.data (byteOffset sb blk + i)

section Unmodified

variable {sb : Superblock} {s : DirIo} {blk : BitVec 32} {size : Nat}
  {f g : Nat → UInt8}

/-- Both walks, over areas that agree on the block. -/
theorem swapDirblock_same (pass : Bool) (h : Same f g 0 size) :
    Same (swapDirblock f size pass) (swapDirblock g size pass) 0 size :=
  (swapFrom_local pass size size 0).inside f g h

/-- What is read of a block that can be read. -/
theorem Fresh.bread_same (h : Fresh sb s blk size) (buf : Nat → UInt8) :
    Same (bread s.dev (fsbtodb sb blk) size buf).1 (s.dev.block sb blk) 0 size := by
  intro i _ hi
  have hsector : i / DEV_BSIZE < deviceBlocks size := by
    unfold deviceBlocks DEV_BSIZE
    omega
  show (if i < size then _ else _) = _
  rw [if_pos hi]
  unfold Device.byteRead
  rw [h.readable _ hsector]
  rfl

theorem Fresh.bread_errs (h : Fresh sb s blk size) (buf : Nat → UInt8) :
    (bread s.dev (fsbtodb sb blk) size buf).2 = 0 := by
  show List.countP _ _ = 0
  rw [List.countP_eq_zero]
  intro i hi
  rw [List.mem_range] at hi
  rw [h.readable i hi]
  exact Bool.false_ne_true

/-- **What the disk holds** when a block has been read and is written as it is:
the block, walked over in both directions. -/
theorem flush_getblk (h : Fresh sb s blk size) :
    (flush true (markDirty (getblk sb true blk size s))).dev.data
      = store s.dev.data (byteOffset sb blk)
          (load (swapDirblock (swapDirblock (s.dev.block sb blk) size false) size
            true) 0 size) := by
  have hflush : flush true s = s := by
    unfold flush
    rw [h.clean]
    rfl
  have hget : getblk sb true blk size s
      = { s with
          fileblk :=
            { s.fileblk with
              bno := fsbtodb sb blk
              size := size
              errs := 0
              buf := swapDirblock
                (bread s.dev (fsbtodb sb blk) size s.fileblk.buf).1 size false
              swapped := true } } := by
    unfold getblk
    rw [if_neg h.other, hflush]
    simp only [h.bread_errs, BEq.rfl, Bool.and_self, if_true]
  have hsame := swapDirblock_same true
    (swapDirblock_same false (h.bread_same s.fileblk.buf))
  rw [hget]
  unfold flush markDirty bwrite
  simp only [Bool.and_self, if_true, h.writable]
  rw [load_congr (hsame.mono (Nat.le_refl _) (by omega))]
  rfl

/-- **The disk is what it was** exactly when the walks undo each other on the
bytes of the block. -/
theorem flush_getblk_eq_iff (h : Fresh sb s blk size) :
    (flush true (markDirty (getblk sb true blk size s))).dev.data = s.dev.data ↔
      swapDirblock (swapDirblock (s.dev.block sb blk) size false) size true
        = s.dev.block sb blk := by
  have hload : load (s.dev.block sb blk) 0 size
      = load s.dev.data (byteOffset sb blk) size := by
    apply List.ext_getElem
    · rw [length_load, length_load]
    · intro k hk hk'
      rw [getElem_load, getElem_load, Nat.zero_add]
      rfl
  have hlocal : ∀ pass, Window.Local (fun f => swapDirblock f size pass) 0 size :=
    fun pass => swapFrom_local pass size size 0
  rw [flush_getblk h]
  constructor
  · intro heq
    funext i
    by_cases hi : i < size
    · have hat := congrFun heq (byteOffset sb blk + i)
      rw [store_in (by rwa [length_load]), getElem_load, Nat.zero_add] at hat
      exact hat
    · rw [(hlocal true).outside _ i (by omega), (hlocal false).outside _ i (by omega)]
  · intro heq
    rw [heq, hload]
    exact store_load s.dev.data (byteOffset sb blk) size

end Unmodified

/-! ## §3. Blocks that survive the two walks. -/

/-- The walk that reads and the walk that writes undo each other. -/
def Restores (buf : Nat → UInt8) (size : Nat) : Prop :=
  swapDirblock (swapDirblock buf size false) size true = buf

/-- No two headers the lengths of the block lead to disturb each other. -/
def NothingDisturbed (buf : Nat → UInt8) (size : Nat) : Prop :=
  (headers buf size).IsChain (Undisturbed buf)

instance (buf : Nat → UInt8) (size : Nat) :
    Decidable (NothingDisturbed buf size) := by
  unfold NothingDisturbed
  infer_instance

/-- **A directory block survives** the way there and back when no two of its
headers disturb each other; if no header reaches the length field of the one
before it, in no other case.  What `getblk` reads and `flush` writes back is
the disk as it was exactly when the block survives. -/
theorem directory_block_restored (buf : Nat → UInt8) (size : Nat) :
    (NothingDisturbed buf size → Restores buf size) ∧
    ((headers buf size).IsChain Apart →
      (Restores buf size ↔ NothingDisturbed buf size)) ∧
    ∀ (sb : Superblock) (s : DirIo) (blk : BitVec 32) (size : Nat),
      Fresh sb s blk size →
        ((flush true (markDirty (getblk sb true blk size s))).dev.data
            = s.dev.data ↔
          Restores (s.dev.block sb blk) size) := by
  refine ⟨swapDirblock_restores, swapDirblock_restores_iff, ?_⟩
  intro sb s blk size h
  exact flush_getblk_eq_iff h

/-- A block whose first record is six bytes long: inode 5, a name of one
byte. -/
def shortRecordBlock : Nat → UInt8 := fun i =>
  if i = 3 then 5 else if i = 5 then 6 else if i = 7 then 1 else 0

/-- Its first header and the one six bytes further disturb each other. -/
theorem shortRecordBlock_lost :
    ¬∀ (buf : Nat → UInt8) (size : Nat),
      swapDirblock (swapDirblock buf size false) size true = buf := by
  intro hall
  have hapart : (headers shortRecordBlock 1024).IsChain Apart := by decide
  have hchain := (swapDirblock_restores_iff hapart).mp (hall _ _)
  exact absurd hchain (by decide)

/-- Two records of 512 bytes are further apart. -/
theorem directory_block_restored_512 :
    NothingDisturbed (fun i => if i = 4 ∨ i = 516 then 2 else 0) 1024 ∧
      Restores (fun i => if i = 4 ∨ i = 516 then 2 else 0) 1024 :=
  ⟨by decide, (directory_block_restored _ 1024).1 (by decide)⟩

end NextUfs.Fsck
