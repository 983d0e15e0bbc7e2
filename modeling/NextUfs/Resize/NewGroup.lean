/-
  NextUfs.Resize.NewGroup
  ───────────────────────
  **`build_new_cg`: RESIZE MAKES A GROUP.**

  A grown file system gets its new groups from `resize.c`, which starts from a
  zeroed group and adds the free ranges before and after the metadata.  A
  range is added block piece by block piece: the piece's bits are set, the
  run counts move by what the scan of the block finds before and after, and a
  block that became wholly free is counted as one.
-/
import NextUfs.Core.Alloc

namespace NextUfs.Resize

open Bits

/-! ## §1. Sizes of a group. -/

def cgsblock (sb : Superblock) (cg : Nat) : Nat := cgstart sb cg + sb.sbOff

def cgdmin (sb : Superblock) (cg : Nat) : Nat := cgstart sb cg + sb.dataOff

/-- Fragments of group `cg` in a file system of `fsFrags`. -/
def cgFragCount (sb : Superblock) (cg fsFrags : Nat) : Nat :=
  let remaining := fsFrags - cg * sb.fragsPerGroup
  if remaining < sb.fragsPerGroup then remaining else sb.fragsPerGroup

/-- `cg_ncyl` of group `cg`; the last group stores zero when it is full. -/
def cgCylinderCount (sb : Superblock) (cg ncg ncyl : Nat) : Nat :=
  (if cg = ncg - 1 then ncyl % sb.cpg else sb.cpg) % 2 ^ 16

/-! ## §2. Adding a free range. -/

/-- The group buffer and the counts added so far. -/
structure FreeRange where
  cg : Cg
  nbfree : UInt32
  nffree : UInt32

/-- `count_free_bits`. -/
def countFreeBits (freeMap : Nat → Bool) (start count : Nat) : Nat :=
  popRange freeMap start count

/-- First fragment after the part of `[start, stop)` in the block of `start`
(`add_end`). -/
def pieceEnd (sb : Superblock) (stop start : Nat) : Nat :=
  let blockEnd := start - start % sb.fragsPerBlock + sb.fragsPerBlock
  if stop < blockEnd then stop else blockEnd

/-- One round of `add_free_frag_range`: the part of `[start, stop)` in the
block of `start`. -/
def addBlockPiece (sb : Superblock) (stop start : Nat) (r : FreeRange) :
    Except Errno FreeRange :=
  let frags := sb.fragsPerBlock
  let blockBase := start - start % frags
  let addEnd := pieceEnd sb stop start
  if (List.range (addEnd - start)).any fun i => r.cg.free (start + i) then
    .error .EINVAL
  else
    let free := setRange r.cg.free start (addEnd - start)
    let cg :=
      { r.cg with free := free, frsum := frsumAfter sb r.cg blockBase free }
    let nffree := r.nffree + UInt32.ofNat (addEnd - start)
    if countFreeBits free blockBase frags = frags then
      -- the completed block, its old free fragments included
      .ok ⟨moveCylBlocks sb blockBase 1 1 cg, r.nbfree + 1,
        nffree - UInt32.ofNat frags⟩
    else .ok ⟨cg, r.nbfree, nffree⟩

/-- The rounds of `add_free_frag_range`; each moves `start` forward. -/
def addFreeFragLoop (sb : Superblock) (stop : Nat) :
    Nat → Nat → FreeRange → Except Errno FreeRange
  | 0, _, r => .ok r
  | fuel + 1, start, r =>
    if start < stop then
      match addBlockPiece sb stop start r with
      | .error e => .error e
      | .ok r' => addFreeFragLoop sb stop fuel (pieceEnd sb stop start) r'
    else .ok r

/-- `add_free_frag_range`. -/
def addFreeFragRange (sb : Superblock) (cg : Cg) (start stop : Nat) :
    Except Errno FreeRange :=
  if stop < start ∨ sb.fragsPerGroup < stop then .error .EINVAL
  else if sb.fragsPerBlock = 0 ∨ 8 < sb.fragsPerBlock then .error .ENOTSUP
  else addFreeFragLoop sb stop (stop - start) start ⟨cg, 0, 0⟩

/-! ## §3. The group. -/

/-- What `build_new_cg` hands back: the group buffer and its counts. -/
structure NewCg where
  cg : Cg
  nbfree : UInt32
  nifree : UInt32
  nffree : UInt32

/-- The zeroed buffer with the header of group `cg`. -/
def newHeader (sb : Superblock) (now : UInt32) (cg ncyl ndblk : Nat) : Cg where
  link := 0
  rlink := 0
  time := now
  cgx := cg
  ncyl := ncyl
  niblk := sb.inodesPerGroup % 2 ^ 16
  ndblk := ndblk
  cs := 0
  rotor := 0
  frotor := 0
  irotor := 0
  frsum := fun _ => 0
  btot := fun _ => 0
  b := fun _ _ => 0
  iused := fun _ => false
  magic := CG_MAGIC
  free := fun _ => false

/-- `build_new_cg`. -/
def buildNewCg (sb : Superblock) (now : UInt32) (cg ncyl ndblk : Nat) :
    Except Errno NewCg :=
  let cbase := sb.fragsPerGroup * cg
  let dlower := cgsblock sb cg - cbase
  let dupper := cgdmin sb cg - cbase
  if sb.fragsPerGroup < ndblk ∨ ndblk < dupper then .error .ENOSPC
  else
    match addFreeFragRange sb (newHeader sb now cg ncyl ndblk) 0 dlower with
    | .error e => .error e
    | .ok low =>
      match addFreeFragRange sb low.cg dupper ndblk with
      | .error e => .error e
      | .ok high =>
        let nbfree := low.nbfree + high.nbfree
        let nffree := low.nffree + high.nffree
        let nifree := UInt32.ofNat sb.inodesPerGroup
        .ok ⟨{ high.cg with cs := ⟨0, nbfree, nifree, nffree⟩ },
          nbfree, nifree, nffree⟩

/-! ## §4. The groups of a grown file system. -/

/-- Groups of a file system of `target` fragments. -/
def newNcg (sb : Superblock) (target : Nat) : Nat :=
  (target + sb.fragsPerGroup - 1) / sb.fragsPerGroup

/-- Cylinders of a file system of `target` fragments. -/
def newNcyl (sb : Superblock) (target : Nat) : Nat :=
  (target * sb.cpg + sb.fragsPerGroup - 1) / sb.fragsPerGroup

/-- The group `resize_grow` builds for index `cg` on its way to `target`
fragments. -/
def growGroup (sb : Superblock) (now : UInt32) (target cg : Nat) :
    Except Errno NewCg :=
  buildNewCg sb now cg
    (cgCylinderCount sb cg (newNcg sb target) (newNcyl sb target))
    (cgFragCount sb cg target)

end NextUfs.Resize
