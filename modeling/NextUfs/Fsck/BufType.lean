/-
  NextUfs.Fsck.BufType
  ────────────────────
  **WHAT A BUFFER IS TURNED AS.**

  A buffer descriptor has a type, and `swap_bufarea` turns a block into the
  order of the host, and back, as that type has it.  All but directories are
  records with fields in fixed places.

    • `superFields`, `cgFields`, `dinodeFields`, `fieldsOf` — the fields,
    • `swapBufarea`          — the block turned,
    • `hostView`, `diskView` — the two directions, on a machine that needs
      them,
    • `survives_of_fields`   — a block of fields survives the way there and
      back,
    • `hostView_same`        — what lies behind the block does not come in,
      if no field crosses its end.
-/
import NextUfs.Fsck.Buffer
import NextUfs.Lib.FieldSwap

namespace NextUfs.Fsck

open Window

/-! ## §1. Fields. -/

/-- `enum bufarea_type`. -/
inductive BufType where
  | unknown
  | indir
  | super
  | cg
  | inode
  | dir
  deriving DecidableEq

/-- `swap_superblock`: from `fs_sblkno` to `fs_cstotal`, `fs_cgrotor`,
`fs_cpc`, `fs_postbl`, `fs_magic`. -/
def superFields : List (Nat × Nat) :=
  fields 4 8 50 ++ (fields 4 724 1 ++ (fields 4 856 1
    ++ (fields 2 860 256 ++ fields 4 1372 1)))

/-- `swap_cgblock`: `cg_time` and `cg_cgx`, `cg_ncyl` and `cg_niblk`, from
`cg_ndblk` to `cg_btot`, `cg_b`, `cg_magic`. -/
def cgFields : List (Nat × Nat) :=
  fields 4 8 2 ++ (fields 2 16 2 ++ (fields 4 20 48
    ++ (fields 2 212 256 ++ fields 4 980 1)))

/-- `swap_dinode`: `di_mode` to `di_gid`, the size, the three times, the
pointers to `di_gen`. -/
def dinodeFields (off : Nat) : List (Nat × Nat) :=
  fields 2 off 4 ++ (fields 4 (off + 8) 3 ++ (fields 4 (off + 24) 1
    ++ (fields 4 (off + 32) 1 ++ fields 4 (off + 40) 18)))

/-- A descriptor, and what its accesses depend on: `NINDIR` and `INOPB` of the
superblock, and whether the host has the other byte order. -/
structure Descriptor where
  type : BufType
  sb : Superblock
  nindir : Nat
  inopb : Nat
  needswap : Bool

/-- The fields of a block, where it has any. -/
def Descriptor.fieldsOf (bp : Descriptor) : List (Nat × Nat) :=
  match bp.type with
  | .indir => fields 4 0 bp.nindir
  | .super => superFields
  | .cg => cgFields
  | .inode => (List.range bp.inopb).flatMap fun k => dinodeFields (k * 128)
  | .dir => []
  | .unknown => []

/-- `swap_bufarea`. -/
def Descriptor.swapBufarea (bp : Descriptor) (size : Nat) (dirWritePass : Bool)
    (buf : Nat → UInt8) : Nat → UInt8 :=
  if bp.type = .dir then swapDirblock buf size dirWritePass
  else reverseEach bp.fieldsOf buf

/-- No field of the type crosses the end of a block of `size` bytes. -/
def Descriptor.FitsIn (bp : Descriptor) (size : Nat) : Prop :=
  Fits bp.fieldsOf size

/-- The block as the host sees it once `getblk` has turned it. -/
def Descriptor.hostView (bp : Descriptor) (size : Nat) (buf : Nat → UInt8) :
    Nat → UInt8 :=
  if bp.needswap then bp.swapBufarea size false buf else buf

/-- The block as `flush` turns it to write it. -/
def Descriptor.diskView (bp : Descriptor) (size : Nat) (buf : Nat → UInt8) :
    Nat → UInt8 :=
  if bp.needswap then bp.swapBufarea size true buf else buf

/-- The way to the host's order and back leaves a block as it is. -/
def Descriptor.Survives (bp : Descriptor) (size : Nat) (block : Nat → UInt8) :
    Prop :=
  Same (bp.diskView size (bp.hostView size block)) block 0 size

/-- So does the way to the disk and back. -/
def Descriptor.SurvivesWrite (bp : Descriptor) (size : Nat)
    (view : Nat → UInt8) : Prop :=
  Same (bp.hostView size (bp.diskView size view)) view 0 size

/-! ## §2. They do not overlap. -/

theorem superFields_spread : Spread 8 1376 superFields := by
  unfold superFields
  refine .append 208 (.equal 4 8 50) ?_ (by omega) (by omega)
  refine .append 856 ((Spread.equal 4 724 1).mono (by omega) (by omega)) ?_
    (by omega) (by omega)
  refine .append 860 (.equal 4 856 1) ?_ (by omega) (by omega)
  exact .append 1372 (.equal 2 860 256) (.equal 4 1372 1) (by omega) (by omega)

theorem cgFields_spread : Spread 8 984 cgFields := by
  unfold cgFields
  refine .append 16 (.equal 4 8 2) ?_ (by omega) (by omega)
  refine .append 20 (.equal 2 16 2) ?_ (by omega) (by omega)
  refine .append 212 (.equal 4 20 48) ?_ (by omega) (by omega)
  exact .append 980 ((Spread.equal 2 212 256).mono (by omega) (by omega))
    (.equal 4 980 1) (by omega) (by omega)

theorem dinodeFields_spread (off : Nat) :
    Spread off (off + 128) (dinodeFields off) := by
  unfold dinodeFields
  refine .append (off + 8) (.equal 2 off 4) ?_ (by omega) (by omega)
  refine .append (off + 24)
    ((Spread.equal 4 (off + 8) 3).mono (by omega) (by omega)) ?_ (by omega) (by omega)
  refine .append (off + 32)
    ((Spread.equal 4 (off + 24) 1).mono (by omega) (by omega)) ?_ (by omega)
    (by omega)
  exact .append (off + 40)
    ((Spread.equal 4 (off + 32) 1).mono (by omega) (by omega))
    ((Spread.equal 4 (off + 40) 18).mono (by omega) (by omega)) (by omega) (by omega)

/-- **The fields of a type do not overlap.** -/
theorem fieldsOf_apart (bp : Descriptor) : bp.fieldsOf.Pairwise Before := by
  unfold Descriptor.fieldsOf
  cases bp.type with
  | unknown => exact List.Pairwise.nil
  | indir => exact (Spread.equal 4 0 bp.nindir).apart
  | super => exact superFields_spread.apart
  | cg => exact cgFields_spread.apart
  | inode => exact (Spread.repeated dinodeFields_spread bp.inopb).apart
  | dir => exact List.Pairwise.nil

/-! ## §3. The two views. -/

section Views

variable {bp : Descriptor} {size : Nat} {f g : Nat → UInt8}

theorem swapBufarea_same (hfits : bp.FitsIn size) (pass : Bool)
    (h : Same f g 0 size) :
    Same (bp.swapBufarea size pass f) (bp.swapBufarea size pass g) 0 size := by
  unfold Descriptor.swapBufarea
  by_cases hdir : bp.type = .dir
  · rw [if_pos hdir, if_pos hdir]
    exact swapDirblock_same pass h
  · rw [if_neg hdir, if_neg hdir]
    exact reverseEach_same hfits h

/-- **What lies behind the block does not come in.** -/
theorem hostView_same (hfits : bp.FitsIn size) (h : Same f g 0 size) :
    Same (bp.hostView size f) (bp.hostView size g) 0 size := by
  unfold Descriptor.hostView
  split
  · exact swapBufarea_same hfits false h
  · exact h

theorem diskView_same (hfits : bp.FitsIn size) (h : Same f g 0 size) :
    Same (bp.diskView size f) (bp.diskView size g) 0 size := by
  unfold Descriptor.diskView
  split
  · exact swapBufarea_same hfits true h
  · exact h

/-- **A block of fields survives** both ways. -/
theorem survives_of_fields (hdir : bp.type ≠ .dir) (f : Nat → UInt8) :
    bp.Survives size f ∧ bp.SurvivesWrite size f := by
  have htwice : ∀ pass pass' f,
      bp.swapBufarea size pass (bp.swapBufarea size pass' f) = f := by
    intro pass pass' f
    unfold Descriptor.swapBufarea
    rw [if_neg hdir, if_neg hdir]
    exact reverseEach_reverseEach f (fieldsOf_apart bp)
  unfold Descriptor.Survives Descriptor.SurvivesWrite Descriptor.diskView
    Descriptor.hostView
  cases bp.needswap with
  | false => exact ⟨Same.refl f _ _, Same.refl f _ _⟩
  | true =>
    rw [if_pos rfl, if_pos rfl, if_pos rfl, if_pos rfl, htwice, htwice]
    exact ⟨Same.refl f _ _, Same.refl f _ _⟩

/-- A directory block survives if no two of its headers disturb each other. -/
theorem survives_of_undisturbed (hdir : bp.type = .dir)
    (h : NothingDisturbed f size) : bp.Survives size f := by
  unfold Descriptor.Survives Descriptor.diskView Descriptor.hostView
    Descriptor.swapBufarea
  rw [if_pos hdir, if_pos hdir]
  split
  · rw [swapDirblock_restores h]
    exact Same.refl f _ _
  · exact Same.refl f _ _

end Views

end NextUfs.Fsck
