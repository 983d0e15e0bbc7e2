/-
  NextUfs.Fsck.DirSwap
  ────────────────────
  **DIRECTORY BLOCKS IN THE ORDER OF THE HOST.**

  `swap_dirblock` (`byteorder.c`) walks the records of a directory block and
  swaps the three numbers of each header.  The length that leads to the next
  record is taken after the swap when a block has been read and before it when
  a block is to be written.

    • `swapDirblock`               — the walk, in both directions,
    • `headers`                    — where the lengths on the disk lead,
    • `swapDirblock_restores`      — the second walk undoes the first when no
      two headers disturb each other,
    • `swapDirblock_restores_iff`  — and only then, if no header reaches the
      length field of the one before it.
-/
import Mathlib.Data.List.Chain
import Mathlib.Tactic.IntervalCases
import NextUfs.Lib.Window

namespace NextUfs.Fsck

open Window

/-! ## §1. Numbers in memory. -/

/-- The host is little-endian: an `unsigned short` at `off`. -/
def le16 (buf : Nat → UInt8) (off : Nat) : Nat :=
  (buf off).toNat + 2 ^ 8 * (buf (off + 1)).toNat

/-- A `uint32_t` at `off`. -/
def le32 (buf : Nat → UInt8) (off : Nat) : Nat :=
  le16 buf off + 2 ^ 16 * le16 buf (off + 2)

/-- A 16-bit number in the order of the disk. -/
def be16 (buf : Nat → UInt8) (off : Nat) : Nat :=
  2 ^ 8 * (buf off).toNat + (buf (off + 1)).toNat

/-- A 32-bit number in the order of the disk. -/
def be32 (buf : Nat → UInt8) (off : Nat) : Nat :=
  2 ^ 16 * be16 buf off + be16 buf (off + 2)

section Numbers

variable {f g : Nat → UInt8} {off : Nat}

theorem le16_congr (h : Same f g off (off + 2)) : le16 f off = le16 g off := by
  unfold le16
  rw [h off (by omega) (by omega), h (off + 1) (by omega) (by omega)]

theorem be16_congr (h : Same f g off (off + 2)) : be16 f off = be16 g off := by
  unfold be16
  rw [h off (by omega) (by omega), h (off + 1) (by omega) (by omega)]

theorem le32_congr (h : Same f g off (off + 4)) : le32 f off = le32 g off := by
  unfold le32
  rw [le16_congr (h.mono (by omega) (by omega)),
    le16_congr (h.mono (by omega) (by omega))]

/-- `swap16` of a field. -/
theorem le16_reverseAt (f : Nat → UInt8) (off : Nat) :
    le16 (reverseAt 2 off f) off = be16 f off := by
  have h0 := reverseAt_in off f (show 0 < 2 by omega)
  have h1 := reverseAt_in off f (show 1 < 2 by omega)
  rw [Nat.add_zero] at h0
  unfold le16 be16
  rw [h0, h1]
  exact Nat.add_comm _ _

/-- `swap32` of a field. -/
theorem le32_reverseAt (f : Nat → UInt8) (off : Nat) :
    le32 (reverseAt 4 off f) off = be32 f off := by
  have h0 : reverseAt 4 off f off = f (off + 3) :=
    reverseAt_in off f (show 0 < 4 by omega)
  have h1 : reverseAt 4 off f (off + 1) = f (off + 2) :=
    reverseAt_in off f (show 1 < 4 by omega)
  have h2 : reverseAt 4 off f (off + 2) = f (off + 1) :=
    reverseAt_in off f (show 2 < 4 by omega)
  have h3 : reverseAt 4 off f (off + 2 + 1) = f off :=
    reverseAt_in off f (show 3 < 4 by omega)
  unfold le32 be32 le16 be16
  rw [h0, h1, h2, h3]
  show _ = 2 ^ 16 * _ + (2 ^ 8 * _ + (f (off + 3)).toNat)
  omega

end Numbers

/-! ## §2. One header. -/

/-- `d_ino` and `d_reclen` swapped in place. -/
def swapFront (off : Nat) (buf : Nat → UInt8) : Nat → UInt8 :=
  reverseAt 2 (off + 4) (reverseAt 4 off buf)

/-- The header at `off` swapped in place: `d_ino`, `d_reclen`, `d_namlen`. -/
def swapHeader (off : Nat) (buf : Nat → UInt8) : Nat → UInt8 :=
  reverseAt 2 (off + 6) (swapFront off buf)

section Header

variable {off : Nat} {buf f g : Nat → UInt8}

theorem swapFront_local (off : Nat) : Window.Local (swapFront off) off (off + 6) :=
  ((reverseAt_local 4 off).mono (Nat.le_refl _) (by omega)).comp
    ((reverseAt_local 2 (off + 4)).mono (by omega) (by omega))

theorem swapHeader_local (off : Nat) : Window.Local (swapHeader off) off (off + 8) :=
  ((swapFront_local off).mono (Nat.le_refl _) (by omega)).comp
    ((reverseAt_local 2 (off + 6)).mono (by omega) (by omega))

/-- Swapping a header twice is nothing. -/
@[simp] theorem swapHeader_swapHeader (off : Nat) (buf : Nat → UInt8) :
    swapHeader off (swapHeader off buf) = buf := by
  unfold swapHeader
  rw [(swapFront_local off).comm (reverseAt_local 2 (off + 6)) (by omega),
    reverseAt_reverseAt]
  unfold swapFront
  rw [(reverseAt_local 4 off).comm (reverseAt_local 2 (off + 4)) (by omega),
    reverseAt_reverseAt, reverseAt_reverseAt]

/-- Where a byte of a header comes from. -/
def headerPlace : Nat → Nat
  | 0 => 3 | 1 => 2 | 2 => 1 | 3 => 0 | 4 => 5 | 5 => 4 | 6 => 7 | 7 => 6
  | k => k

/-- Where byte `k` comes from when the header at `a` is swapped. -/
def placeAt (a k : Nat) : Nat :=
  if a ≤ k ∧ k < a + 8 then a + headerPlace (k - a) else k

theorem headerPlace_lt {k : Nat} (hk : k < 8) :
    headerPlace k < 8 ∧ headerPlace (headerPlace k) = k ∧
      (4 ≤ k → 4 ≤ headerPlace k) := by
  interval_cases k <;> decide

theorem placeAt_placeAt (a k : Nat) : placeAt a (placeAt a k) = k := by
  by_cases hin : a ≤ k ∧ k < a + 8
  · obtain ⟨hlt, hback, -⟩ := headerPlace_lt (show k - a < 8 by omega)
    unfold placeAt
    rw [if_pos hin, if_pos (by omega), Nat.add_sub_cancel_left, hback]
    omega
  · unfold placeAt
    rw [if_neg hin, if_neg hin]

/-- The second half of a header is swapped by itself. -/
theorem le_placeAt {a k : Nat} (h : a + 4 ≤ k) : a + 4 ≤ placeAt a k := by
  unfold placeAt
  split
  · have hhalf := (headerPlace_lt (show k - a < 8 by omega)).2.2
    omega
  · exact h

theorem placeAt_out {a k : Nat} (h : a + 8 ≤ k) : placeAt a k = k :=
  if_neg (by omega)

/-- A byte, for a header that starts `a` bytes behind `off`. -/
theorem swapHeader_at (off a k : Nat) (f : Nat → UInt8) :
    swapHeader (off + a) f (off + k) = f (off + placeAt a k) := by
  unfold placeAt
  split
  next h =>
    obtain ⟨j, rfl⟩ := Nat.exists_eq_add_of_le h.1
    have hj : j < 8 := by omega
    rw [Nat.add_sub_cancel_left, ← Nat.add_assoc, ← Nat.add_assoc]
    generalize off + a = o
    unfold swapHeader swapFront reverseAt
    interval_cases j <;> simp [headerPlace]
  next h =>
    exact (swapHeader_local (off + a)).outside f _ (by omega)

/-- The first six bytes are swapped by themselves. -/
theorem swapHeader_front (off : Nat) (buf : Nat → UInt8) :
    Same (swapHeader off buf) (swapFront off buf) off (off + 6) :=
  (reverseAt_local 2 (off + 6)).keeps _ (by omega)

theorem swapHeader_same_front (h : Same f g off (off + 6)) :
    Same (swapHeader off f) (swapHeader off g) off (off + 6) :=
  ((swapHeader_front off f).trans ((swapFront_local off).inside f g h)).trans
    (swapHeader_front off g).symm

/-- The length after the swap is the one on the disk. -/
theorem le16_swapHeader (off : Nat) (buf : Nat → UInt8) :
    le16 (swapHeader off buf) (off + 4) = be16 buf (off + 4) := by
  rw [le16_congr ((swapHeader_front off buf).mono (by omega) (by omega))]
  unfold swapFront
  rw [le16_reverseAt]
  exact be16_congr ((reverseAt_local 4 off).keeps buf (by omega))

/-- The inode number after the swap. -/
theorem le32_swapHeader (off : Nat) (buf : Nat → UInt8) :
    le32 (swapHeader off buf) off = be32 buf off := by
  rw [le32_congr ((swapHeader_front off buf).mono (by omega) (by omega))]
  unfold swapFront
  rw [le32_congr ((reverseAt_local 2 (off + 4)).keeps _ (by omega)),
    le32_reverseAt]

end Header

/-! ## §3. The walk. -/

/-- The length the walk goes by: before the swap when the block is to be
written, after it when it has been read. -/
def reclenAt (dirWritePass : Bool) (off : Nat) (buf : Nat → UInt8) : Nat :=
  le16 (if dirWritePass then buf else swapHeader off buf) (off + 4)

/-- The walk of `swap_dirblock` from `off` on.  A record it steps over is not
empty, so the size bounds the walk. -/
def swapFrom (dirWritePass : Bool) (size : Nat) :
    Nat → Nat → (Nat → UInt8) → Nat → UInt8
  | 0, _, buf => buf
  | fuel + 1, off, buf =>
    if off + 8 ≤ size then
      let reclen := reclenAt dirWritePass off buf
      let swapped := swapHeader off buf
      if reclen = 0 ∨ size < off + reclen then swapped
      else swapFrom dirWritePass size fuel (off + reclen) swapped
    else buf

/-- `swap_dirblock`. -/
def swapDirblock (buf : Nat → UInt8) (size : Nat) (dirWritePass : Bool) :
    Nat → UInt8 :=
  swapFrom dirWritePass size size 0 buf

/-- The headers the lengths on the disk lead to, from `off` on. -/
def headersFrom (buf : Nat → UInt8) (size : Nat) : Nat → Nat → List Nat
  | 0, _ => []
  | fuel + 1, off =>
    if off + 8 ≤ size then
      let reclen := be16 buf (off + 4)
      if reclen = 0 ∨ size < off + reclen then [off]
      else off :: headersFrom buf size fuel (off + reclen)
    else []

/-- The headers the lengths on the disk lead to. -/
def headers (buf : Nat → UInt8) (size : Nat) : List Nat :=
  headersFrom buf size size 0

section Walk

variable {pass : Bool} {size fuel off : Nat} {buf f g : Nat → UInt8}

/-- Behind the last header nothing happens. -/
theorem swapFrom_end (h : size < off + 8) : swapFrom pass size fuel off buf = buf := by
  cases fuel with
  | zero => rfl
  | succ fuel => exact if_neg (by omega)

theorem headersFrom_end (h : size < off + 8) : headersFrom buf size fuel off = [] := by
  cases fuel with
  | zero => rfl
  | succ fuel => exact if_neg (by omega)

/-- One step of the walk. -/
theorem swapFrom_step (h : off + 8 ≤ size) :
    swapFrom pass size (fuel + 1) off buf
      = if reclenAt pass off buf = 0 ∨ size < off + reclenAt pass off buf then
          swapHeader off buf
        else
          swapFrom pass size fuel (off + reclenAt pass off buf)
            (swapHeader off buf) := by
  rw [swapFrom, if_pos h]

@[simp] theorem reclenAt_read (off : Nat) (buf : Nat → UInt8) :
    reclenAt false off buf = be16 buf (off + 4) :=
  le16_swapHeader off buf

@[simp] theorem reclenAt_write (off : Nat) (buf : Nat → UInt8) :
    reclenAt true off buf = le16 buf (off + 4) := rfl

/-- One step of the walk over a block that has been read. -/
theorem swapFrom_read (h : off + 8 ≤ size) :
    swapFrom false size (fuel + 1) off buf
      = if be16 buf (off + 4) = 0 ∨ size < off + be16 buf (off + 4) then
          swapHeader off buf
        else
          swapFrom false size fuel (off + be16 buf (off + 4))
            (swapHeader off buf) := by
  rw [swapFrom_step h, reclenAt_read]

/-- One step of the walk over a block that is to be written. -/
theorem swapFrom_write (h : off + 8 ≤ size) :
    swapFrom true size (fuel + 1) off buf
      = if le16 buf (off + 4) = 0 ∨ size < off + le16 buf (off + 4) then
          swapHeader off buf
        else
          swapFrom true size fuel (off + le16 buf (off + 4))
            (swapHeader off buf) := by
  rw [swapFrom_step h, reclenAt_write]

theorem reclenAt_congr (h : Same f g (off + 4) (off + 6)) :
    reclenAt pass off f = reclenAt pass off g := by
  cases pass with
  | true => exact le16_congr h
  | false =>
    rw [reclenAt_read, reclenAt_read]
    exact be16_congr h

theorem headersFrom_step (h : off + 8 ≤ size) :
    headersFrom buf size (fuel + 1) off
      = if be16 buf (off + 4) = 0 ∨ size < off + be16 buf (off + 4) then [off]
        else off :: headersFrom buf size fuel (off + be16 buf (off + 4)) := by
  rw [headersFrom, if_pos h]

/-- **The walk stays behind its start**, and what it does there depends on
nothing before. -/
theorem swapFrom_local (pass : Bool) (size : Nat) :
    ∀ fuel off, Window.Local (swapFrom pass size fuel off) off size := by
  intro fuel
  induction fuel with
  | zero => exact fun off => ⟨fun _ _ _ => rfl, fun _ _ hs => hs⟩
  | succ fuel ih =>
    intro off
    by_cases h8 : off + 8 ≤ size
    · have hhead := (swapHeader_local off).mono (Nat.le_refl _) h8
      have hrest : ∀ r, Window.Local (swapFrom pass size fuel (off + r)) off size :=
        fun r => (ih (off + r)).mono (Nat.le_add_right _ _) (Nat.le_refl _)
      constructor
      · intro f i hi
        rw [swapFrom_step h8]
        split
        · exact hhead.outside f i hi
        · rw [(hrest _).outside _ i hi]
          exact hhead.outside f i hi
      · intro f g hs
        rw [swapFrom_step h8, swapFrom_step h8,
          reclenAt_congr (hs.mono (by omega) (by omega))]
        split
        · exact hhead.inside f g hs
        · exact (hrest _).inside _ _ (hhead.inside f g hs)
    · constructor
      · intro f i _
        rw [swapFrom_end (by omega)]
      · intro f g hs
        rw [swapFrom_end (by omega), swapFrom_end (by omega)]
        exact hs

/-- Where the lengths lead depends on the lengths. -/
theorem headersFrom_congr :
    ∀ {fuel off}, Same f g (off + 4) size →
      headersFrom f size fuel off = headersFrom g size fuel off := by
  intro fuel
  induction fuel with
  | zero => exact fun _ => rfl
  | succ fuel ih =>
    intro off hs
    by_cases h8 : off + 8 ≤ size
    · rw [headersFrom_step h8, headersFrom_step h8,
        be16_congr (hs.mono (Nat.le_refl _) (by omega))]
      split
      · rfl
      · rw [ih (hs.mono (by omega) (Nat.le_refl _))]
    · rw [headersFrom_end (by omega), headersFrom_end (by omega)]

/-- A header that has room is the first of its walk. -/
theorem headersFrom_head (h : off + 8 ≤ size) :
    ∃ rest, headersFrom buf size (fuel + 1) off = off :: rest := by
  rw [headersFrom_step h]
  split
  · exact ⟨_, rfl⟩
  · exact ⟨_, rfl⟩

end Walk

/-! ## §4. Two headers that share bytes. -/

/-- The headers at `off` and `off'` can be swapped in either order: they share
no byte, or the shared name length and the inode number are made of equal
bytes. -/
def Undisturbed (buf : Nat → UInt8) (off off' : Nat) : Prop :=
  off + 8 ≤ off' ∨
    (off' = off + 6 ∧ buf (off + 6) = buf (off + 7) ∧
      buf (off + 8) = buf (off + 9)) ∨
    (off' = off + 7 ∧ buf (off + 6) = buf (off + 7) ∧
      buf (off + 7) = buf (off + 10))

instance (buf : Nat → UInt8) (off off' : Nat) :
    Decidable (Undisturbed buf off off') := by
  unfold Undisturbed
  infer_instance

/-- Both headers swapped, and swapped again in the same order. -/
def swappedTwice (off off' : Nat) (buf : Nat → UInt8) : Nat → UInt8 :=
  swapHeader off' (swapHeader off (swapHeader off' (swapHeader off buf)))

section Overlap

variable {off off' : Nat} {buf : Nat → UInt8}

theorem Undisturbed.le (h : Undisturbed buf off off') : off + 6 ≤ off' := by
  obtain h | ⟨h, -⟩ | ⟨h, -⟩ := h <;> omega

/-- Where byte `k` comes from when two headers are swapped twice. -/
theorem swappedTwice_at (off a k : Nat) (buf : Nat → UInt8) :
    swappedTwice off (off + a) buf (off + k)
      = buf (off + placeAt 0 (placeAt a (placeAt 0 (placeAt a k)))) := by
  have h0 : ∀ (f : Nat → UInt8) j,
      swapHeader off f (off + j) = f (off + placeAt 0 j) :=
    fun f j => swapHeader_at off 0 j f
  unfold swappedTwice
  rw [swapHeader_at, h0, swapHeader_at, h0]

theorem swappedTwice_before {i : Nat} (hi : i < off) (h : off ≤ off') :
    swappedTwice off off' buf i = buf i := by
  have hfar : ∀ f : Nat → UInt8, swapHeader off f i = f i := fun f =>
    (swapHeader_local off).outside f i (.inl hi)
  have hfar' : ∀ f : Nat → UInt8, swapHeader off' f i = f i := fun f =>
    (swapHeader_local off').outside f i (by omega)
  unfold swappedTwice
  rw [hfar', hfar, hfar', hfar]

/-- Only the bytes two headers share can differ. -/
theorem swappedTwice_after (h : off + 6 ≤ off') {i : Nat} (hi : off' + 4 ≤ i) :
    swappedTwice off off' buf i = buf i := by
  obtain ⟨a, rfl⟩ := Nat.exists_eq_add_of_le (show off ≤ off' by omega)
  obtain ⟨k, rfl⟩ := Nat.exists_eq_add_of_le (show off ≤ i by omega)
  have hge := le_placeAt (show a + 4 ≤ k by omega)
  rw [swappedTwice_at, placeAt_out (a := 0) (k := placeAt a k) (by omega),
    placeAt_placeAt, placeAt_out (by omega)]

/-- **Swapping twice in one order is nothing** exactly when the order does not
matter. -/
theorem swappedTwice_eq_iff (h : off + 6 ≤ off') :
    swappedTwice off off' buf = buf ↔ Undisturbed buf off off' := by
  obtain ⟨a, rfl⟩ := Nat.exists_eq_add_of_le (show off ≤ off' by omega)
  by_cases h8 : 8 ≤ a
  · refine iff_of_true ?_ (.inl (by omega))
    unfold swappedTwice
    rw [(swapHeader_local off).comm (swapHeader_local (off + a)) (by omega),
      swapHeader_swapHeader, swapHeader_swapHeader]
  have hbytes : swappedTwice off (off + a) buf = buf ↔
      ∀ k < a + 4, buf (off + placeAt 0 (placeAt a (placeAt 0 (placeAt a k))))
        = buf (off + k) := by
    constructor
    · intro heq k _
      have hk := congrFun heq (off + k)
      rwa [swappedTwice_at] at hk
    · intro hall
      funext i
      obtain hi | hi | hi : i < off ∨ (off ≤ i ∧ i < off + (a + 4)) ∨
          off + a + 4 ≤ i := by omega
      · exact swappedTwice_before hi (Nat.le_add_right _ _)
      · obtain ⟨k, rfl⟩ := Nat.exists_eq_add_of_le hi.1
        rw [swappedTwice_at]
        exact hall k (by omega)
      · exact swappedTwice_after h hi
  rw [hbytes]
  obtain rfl | rfl : a = 6 ∨ a = 7 := by omega
  · -- the name length (6, 7) lies in the inode number (6 to 9)
    constructor
    · intro hall
      have h76 : buf (off + 7) = buf (off + 6) := hall 6 (by omega)
      have h98 : buf (off + 9) = buf (off + 8) := hall 8 (by omega)
      exact .inr (.inl ⟨rfl, h76.symm, h98.symm⟩)
    · intro hu k hk
      obtain ⟨h67, h89⟩ : buf (off + 6) = buf (off + 7) ∧
          buf (off + 8) = buf (off + 9) := by
        obtain hu | ⟨-, hu⟩ | ⟨hu, -⟩ := hu
        · omega
        · exact hu
        · omega
      interval_cases k
      case «6» => exact h67.symm
      case «7» => exact h67
      case «8» => exact h89.symm
      case «9» => exact h89
      all_goals rfl
  · -- half of the name length (7) lies in the inode number (7 to 10)
    constructor
    · intro hall
      have h106 : buf (off + 10) = buf (off + 6) := hall 6 (by omega)
      have h67 : buf (off + 6) = buf (off + 7) := hall 7 (by omega)
      exact .inr (.inr ⟨rfl, h67, h67.symm.trans h106.symm⟩)
    · intro hu k hk
      obtain ⟨h67, h710⟩ : buf (off + 6) = buf (off + 7) ∧
          buf (off + 7) = buf (off + 10) := by
        obtain hu | ⟨hu, -⟩ | ⟨-, hu⟩ := hu
        · omega
        · omega
        · exact hu
      interval_cases k
      case «6» => exact (h67.trans h710).symm
      case «7» => exact h67
      case «10» => exact h710
      all_goals rfl

end Overlap

/-! ## §5. There and back. -/

/-- No header reaches the length field of the one before it. -/
def Apart (off off' : Nat) : Prop := off + 6 ≤ off'

instance (off off' : Nat) : Decidable (Apart off off') := by
  unfold Apart
  infer_instance

section RoundTrip

variable {pass : Bool} {size fuel off off' : Nat} {buf : Nat → UInt8}

/-- The length at a header leads nowhere, behind the last header, or six bytes
on at least. -/
def FarStep (size off reclen : Nat) : Prop :=
  reclen = 0 ∨ size < off + reclen + 8 ∨ 6 ≤ reclen

theorem farStep_of_apart (h8 : off + 8 ≤ size) (hfuel : size ≤ off + (fuel + 1))
    (hapart : (headersFrom buf size (fuel + 1) off).IsChain Apart) :
    FarStep size off (be16 buf (off + 4)) := by
  rw [headersFrom_step h8] at hapart
  unfold FarStep
  by_cases hstop : be16 buf (off + 4) = 0 ∨ size < off + be16 buf (off + 4)
  · omega
  · rw [if_neg hstop] at hapart
    by_cases hin : off + be16 buf (off + 4) + 8 ≤ size
    · obtain ⟨fuel, rfl⟩ : ∃ f, fuel = f + 1 := ⟨fuel - 1, by omega⟩
      obtain ⟨rest, hrest⟩ : ∃ rest, headersFrom buf size (fuel + 1)
          (off + be16 buf (off + 4)) =
            (off + be16 buf (off + 4)) :: rest := headersFrom_head hin
      rw [hrest, List.isChain_cons_cons] at hapart
      have hfirst := hapart.1
      unfold Apart at hfirst
      omega
    · omega

/-- The first six bytes after a walk are those of the header swapped. -/
theorem swapFrom_head (h8 : off + 8 ≤ size)
    (hfar : FarStep size off (reclenAt pass off buf)) {i : Nat}
    (hi : i < off + 6) :
    swapFrom pass size (fuel + 1) off buf i = swapHeader off buf i := by
  rw [swapFrom_step h8]
  split
  · rfl
  · obtain h0 | hend | h6 := hfar
    · omega
    · rw [swapFrom_end hend]
    · exact (swapFrom_local pass size fuel _).outside _ i (by omega)

/-- There and back, the first six bytes are what they were. -/
theorem writeRead_head (hfuel : size ≤ off + fuel)
    (hapart : (headersFrom buf size fuel off).IsChain Apart) {i : Nat}
    (hi : i < off + 6) :
    swapFrom true size fuel off (swapFrom false size fuel off buf) i = buf i := by
  by_cases h8 : off + 8 ≤ size
  · obtain ⟨fuel, rfl⟩ : ∃ f, fuel = f + 1 := ⟨fuel - 1, by omega⟩
    have hfar := farStep_of_apart h8 hfuel hapart
    have hread : ∀ i < off + 6, swapFrom false size (fuel + 1) off buf i
        = swapHeader off buf i := fun i hi =>
      swapFrom_head h8 (by rwa [reclenAt_read]) hi
    have hlen : le16 (swapFrom false size (fuel + 1) off buf) (off + 4)
        = be16 buf (off + 4) := by
      rw [← le16_swapHeader]
      exact le16_congr fun i _ hi => hread i (by omega)
    rw [swapFrom_head h8 (by rwa [reclenAt_write, hlen]) hi]
    by_cases hin : off ≤ i
    · have hfront : Same (swapFrom false size (fuel + 1) off buf)
          (swapHeader off buf) off (off + 6) := fun i _ hi => hread i (by omega)
      have hsame := swapHeader_same_front hfront i hin hi
      rw [hsame, swapHeader_swapHeader]
    · rw [(swapHeader_local off).outside _ i (by omega), hread i hi,
        (swapHeader_local off).outside _ i (by omega)]
  · rw [swapFrom_end (by omega), swapFrom_end (by omega)]

/-- A header swapped back after the walk behind it: the walk has then been over
two headers swapped twice. -/
theorem swapHeader_read (h : off + 6 ≤ off') (hin : off' + 8 ≤ size)
    (hfar : FarStep size off' (be16 buf (off' + 4))) :
    swapHeader off (swapFrom false size (fuel + 1) off' (swapHeader off buf))
      = swapFrom false size (fuel + 1) off' (swappedTwice off off' buf) := by
  have hlen : be16 (swapHeader off buf) (off' + 4) = be16 buf (off' + 4) :=
    be16_congr ((swapHeader_local off).keeps buf (by omega))
  have hlen' : be16 (swappedTwice off off' buf) (off' + 4)
      = be16 buf (off' + 4) :=
    be16_congr fun i hlo _ => swappedTwice_after h hlo
  have hback : swapHeader off' (swappedTwice off off' buf)
      = swapHeader off (swapHeader off' (swapHeader off buf)) :=
    swapHeader_swapHeader off' _
  rw [swapFrom_read hin, swapFrom_read hin, hlen, hlen', hback]
  split
  · rfl
  · obtain h0 | hend | h6 := hfar
    · omega
    · rw [swapFrom_end hend, swapFrom_end hend]
    · exact (swapHeader_local off).comm (swapFrom_local false size fuel _)
        (by omega) _

/-- **There and back from a header on**: nothing has changed exactly when no
two neighbours disturb each other. -/
theorem restores_from (size : Nat) :
    ∀ fuel off (buf : Nat → UInt8), size ≤ off + fuel →
      (headersFrom buf size fuel off).IsChain Apart →
      (swapFrom true size fuel off (swapFrom false size fuel off buf) = buf ↔
        (headersFrom buf size fuel off).IsChain (Undisturbed buf)) := by
  intro fuel
  induction fuel with
  | zero => exact fun _ _ _ _ => iff_of_true rfl List.isChain_nil
  | succ fuel ih =>
    intro off buf hfuel hapart
    by_cases h8 : off + 8 ≤ size
    case neg =>
      rw [swapFrom_end (by omega), swapFrom_end (by omega),
        headersFrom_end (by omega)]
      exact iff_of_true rfl List.isChain_nil
    have hback : le16 (swapHeader off buf) (off + 4) = be16 buf (off + 4) :=
      le16_swapHeader off buf
    by_cases hstop : be16 buf (off + 4) = 0 ∨ size < off + be16 buf (off + 4)
    · -- the walk ends with this header, both ways
      rw [swapFrom_read h8, if_pos hstop, swapFrom_write h8, hback,
        if_pos hstop, swapHeader_swapHeader, headersFrom_step h8, if_pos hstop]
      exact iff_of_true rfl (List.isChain_singleton off)
    rw [headersFrom_step h8, if_neg hstop] at hapart ⊢
    rw [swapFrom_read h8, if_neg hstop]
    generalize hoff' : off + be16 buf (off + 4) = off' at *
    by_cases hin : off' + 8 ≤ size
    case neg =>
      -- there is no room for another header
      have hend : ∀ pass f, swapFrom pass size fuel off' f = f :=
        fun _ _ => swapFrom_end (by omega)
      rw [hend, swapFrom_write h8, hback, hoff', if_neg hstop, hend,
        swapHeader_swapHeader, headersFrom_end (by omega)]
      exact iff_of_true rfl (List.isChain_singleton off)
    obtain ⟨fuel', rfl⟩ : ∃ f, fuel = f + 1 := ⟨fuel - 1, by omega⟩
    obtain ⟨rest, hrest⟩ : ∃ rest, headersFrom buf size (fuel' + 1) off' =
        off' :: rest := headersFrom_head hin
    have hlater : (headersFrom buf size (fuel' + 1) off').IsChain Apart :=
      hapart.tail
    have h6 : off + 6 ≤ off' := by
      rw [hrest, List.isChain_cons_cons] at hapart
      exact hapart.1
    have hfuel' : size ≤ off' + (fuel' + 1) := by omega
    have hfar := farStep_of_apart hin hfuel' hlater
    -- the walk back from `off` is the walk back from `off'` over other bytes
    have hlen : le16 (swapFrom false size (fuel' + 1) off' (swapHeader off buf))
        (off + 4) = be16 buf (off + 4) := by
      rw [← hback]
      exact le16_congr ((swapFrom_local false size _ off').keeps _ (by omega))
    rw [swapFrom_write h8, hlen, hoff', if_neg hstop, swapHeader_read h6 hin hfar]
    have hheaders : headersFrom (swappedTwice off off' buf) size (fuel' + 1) off'
        = headersFrom buf size (fuel' + 1) off' :=
      headersFrom_congr fun i hlo _ => swappedTwice_after h6 hlo
    have hlater' := hlater
    rw [← hheaders] at hlater'
    have hih := ih off' (swappedTwice off off' buf) hfuel' hlater'
    have hneighbours : (off :: headersFrom buf size (fuel' + 1) off').IsChain
          (Undisturbed buf) ↔ Undisturbed buf off off' ∧
        (headersFrom buf size (fuel' + 1) off').IsChain (Undisturbed buf) := by
      rw [hrest, List.isChain_cons_cons]
    rw [hneighbours]
    constructor
    · intro heq
      have hsame : swappedTwice off off' buf = buf := by
        funext i
        by_cases hi : i < off' + 6
        · rw [← writeRead_head hfuel' hlater' hi, heq]
        · exact swappedTwice_after h6 (by omega)
      rw [hsame] at hih heq
      exact ⟨(swappedTwice_eq_iff h6).mp hsame, hih.mp heq⟩
    · rintro ⟨hfirst, hothers⟩
      have hsame := (swappedTwice_eq_iff h6).mpr hfirst
      rw [hsame] at hih ⊢
      exact hih.mpr hothers

/-- **Blocks whose headers are six bytes apart** survive the way there and back
exactly when no two neighbours disturb each other. -/
theorem swapDirblock_restores_iff {buf : Nat → UInt8} {size : Nat}
    (hapart : (headers buf size).IsChain Apart) :
    swapDirblock (swapDirblock buf size false) size true = buf ↔
      (headers buf size).IsChain (Undisturbed buf) :=
  restores_from size size 0 buf (by omega) hapart

/-- **Nothing is lost** where no two neighbours disturb each other. -/
theorem swapDirblock_restores {buf : Nat → UInt8} {size : Nat}
    (h : (headers buf size).IsChain (Undisturbed buf)) :
    swapDirblock (swapDirblock buf size false) size true = buf :=
  (swapDirblock_restores_iff (h.imp fun _ _ hu => hu.le)).mpr h

end RoundTrip

end NextUfs.Fsck
