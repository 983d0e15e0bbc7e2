/-
  NextUfs.Fsck.FragSupport
  ────────────────────────
  **THE CHECKER'S FRAGMENT TABLES.**

  fsck does not scan a block for its free runs.  It extracts the block's bits
  as a number (`blkmap`), looks up in a table which run lengths occur at all,
  and finds the runs of each such length with a pair of sliding masks
  (`fragacct`).  `fragacct_eq` says that this adds exactly the run counts the
  allocator's scanner computes, for every bit pattern of every block size.
-/
import Mathlib.Data.Nat.Bitwise
import NextUfs.Core.BlockChange

namespace NextUfs.Fsck

open Bits

/-! ## §1. The tables. -/

/-- Masks that select a run and the bit on either side of it. -/
def around : List Nat :=
  [0x3, 0x7, 0xf, 0x1f, 0x3f, 0x7f, 0xff, 0x1ff, 0x3ff]

/-- What a run of free fragments looks like under `around`. -/
def inside : List Nat :=
  [0x0, 0x2, 0x6, 0xe, 0x1e, 0x3e, 0x7e, 0xfe, 0x1fe]

/-- Run lengths that occur in a bit pattern, for blocks of 1, 2 and 4. -/
def fragtbl124 : List Nat :=
  [
    0x00, 0x16, 0x16, 0x2a, 0x16, 0x16, 0x26, 0x4e,
    0x16, 0x16, 0x16, 0x3e, 0x2a, 0x3e, 0x4e, 0x8a,
    0x16, 0x16, 0x16, 0x3e, 0x16, 0x16, 0x36, 0x5e,
    0x16, 0x16, 0x16, 0x3e, 0x3e, 0x3e, 0x5e, 0x9e,
    0x16, 0x16, 0x16, 0x3e, 0x16, 0x16, 0x36, 0x5e,
    0x16, 0x16, 0x16, 0x3e, 0x3e, 0x3e, 0x5e, 0x9e,
    0x2a, 0x3e, 0x3e, 0x2a, 0x3e, 0x3e, 0x2e, 0x6e,
    0x3e, 0x3e, 0x3e, 0x3e, 0x2a, 0x3e, 0x6e, 0xaa,
    0x16, 0x16, 0x16, 0x3e, 0x16, 0x16, 0x36, 0x5e,
    0x16, 0x16, 0x16, 0x3e, 0x3e, 0x3e, 0x5e, 0x9e,
    0x16, 0x16, 0x16, 0x3e, 0x16, 0x16, 0x36, 0x5e,
    0x16, 0x16, 0x16, 0x3e, 0x3e, 0x3e, 0x5e, 0x9e,
    0x26, 0x36, 0x36, 0x2e, 0x36, 0x36, 0x26, 0x6e,
    0x36, 0x36, 0x36, 0x3e, 0x2e, 0x3e, 0x6e, 0xae,
    0x4e, 0x5e, 0x5e, 0x6e, 0x5e, 0x5e, 0x6e, 0x4e,
    0x5e, 0x5e, 0x5e, 0x7e, 0x6e, 0x7e, 0x4e, 0xce,
    0x16, 0x16, 0x16, 0x3e, 0x16, 0x16, 0x36, 0x5e,
    0x16, 0x16, 0x16, 0x3e, 0x3e, 0x3e, 0x5e, 0x9e,
    0x16, 0x16, 0x16, 0x3e, 0x16, 0x16, 0x36, 0x5e,
    0x16, 0x16, 0x16, 0x3e, 0x3e, 0x3e, 0x5e, 0x9e,
    0x16, 0x16, 0x16, 0x3e, 0x16, 0x16, 0x36, 0x5e,
    0x16, 0x16, 0x16, 0x3e, 0x3e, 0x3e, 0x5e, 0x9e,
    0x3e, 0x3e, 0x3e, 0x3e, 0x3e, 0x3e, 0x3e, 0x7e,
    0x3e, 0x3e, 0x3e, 0x3e, 0x3e, 0x3e, 0x7e, 0xbe,
    0x2a, 0x3e, 0x3e, 0x2a, 0x3e, 0x3e, 0x2e, 0x6e,
    0x3e, 0x3e, 0x3e, 0x3e, 0x2a, 0x3e, 0x6e, 0xaa,
    0x3e, 0x3e, 0x3e, 0x3e, 0x3e, 0x3e, 0x3e, 0x7e,
    0x3e, 0x3e, 0x3e, 0x3e, 0x3e, 0x3e, 0x7e, 0xbe,
    0x4e, 0x5e, 0x5e, 0x6e, 0x5e, 0x5e, 0x6e, 0x4e,
    0x5e, 0x5e, 0x5e, 0x7e, 0x6e, 0x7e, 0x4e, 0xce,
    0x8a, 0x9e, 0x9e, 0xaa, 0x9e, 0x9e, 0xae, 0xce,
    0x9e, 0x9e, 0x9e, 0xbe, 0xaa, 0xbe, 0xce, 0x8a]

/-- Run lengths that occur in a bit pattern, for blocks of 8. -/
def fragtbl8 : List Nat :=
  [
    0x00, 0x01, 0x01, 0x02, 0x01, 0x01, 0x02, 0x04,
    0x01, 0x01, 0x01, 0x03, 0x02, 0x03, 0x04, 0x08,
    0x01, 0x01, 0x01, 0x03, 0x01, 0x01, 0x03, 0x05,
    0x02, 0x03, 0x03, 0x02, 0x04, 0x05, 0x08, 0x10,
    0x01, 0x01, 0x01, 0x03, 0x01, 0x01, 0x03, 0x05,
    0x01, 0x01, 0x01, 0x03, 0x03, 0x03, 0x05, 0x09,
    0x02, 0x03, 0x03, 0x02, 0x03, 0x03, 0x02, 0x06,
    0x04, 0x05, 0x05, 0x06, 0x08, 0x09, 0x10, 0x20,
    0x01, 0x01, 0x01, 0x03, 0x01, 0x01, 0x03, 0x05,
    0x01, 0x01, 0x01, 0x03, 0x03, 0x03, 0x05, 0x09,
    0x01, 0x01, 0x01, 0x03, 0x01, 0x01, 0x03, 0x05,
    0x03, 0x03, 0x03, 0x03, 0x05, 0x05, 0x09, 0x11,
    0x02, 0x03, 0x03, 0x02, 0x03, 0x03, 0x02, 0x06,
    0x03, 0x03, 0x03, 0x03, 0x02, 0x03, 0x06, 0x0a,
    0x04, 0x05, 0x05, 0x06, 0x05, 0x05, 0x06, 0x04,
    0x08, 0x09, 0x09, 0x0a, 0x10, 0x11, 0x20, 0x40,
    0x01, 0x01, 0x01, 0x03, 0x01, 0x01, 0x03, 0x05,
    0x01, 0x01, 0x01, 0x03, 0x03, 0x03, 0x05, 0x09,
    0x01, 0x01, 0x01, 0x03, 0x01, 0x01, 0x03, 0x05,
    0x03, 0x03, 0x03, 0x03, 0x05, 0x05, 0x09, 0x11,
    0x01, 0x01, 0x01, 0x03, 0x01, 0x01, 0x03, 0x05,
    0x01, 0x01, 0x01, 0x03, 0x03, 0x03, 0x05, 0x09,
    0x03, 0x03, 0x03, 0x03, 0x03, 0x03, 0x03, 0x07,
    0x05, 0x05, 0x05, 0x07, 0x09, 0x09, 0x11, 0x21,
    0x02, 0x03, 0x03, 0x02, 0x03, 0x03, 0x02, 0x06,
    0x03, 0x03, 0x03, 0x03, 0x02, 0x03, 0x06, 0x0a,
    0x03, 0x03, 0x03, 0x03, 0x03, 0x03, 0x03, 0x07,
    0x02, 0x03, 0x03, 0x02, 0x06, 0x07, 0x0a, 0x12,
    0x04, 0x05, 0x05, 0x06, 0x05, 0x05, 0x06, 0x04,
    0x05, 0x05, 0x05, 0x07, 0x06, 0x07, 0x04, 0x0c,
    0x08, 0x09, 0x09, 0x0a, 0x09, 0x09, 0x0a, 0x0c,
    0x10, 0x11, 0x11, 0x12, 0x20, 0x21, 0x40, 0x80]

/-- The table for a block size. -/
def fragtbl (frag : Nat) : List Nat :=
  if frag = 8 then fragtbl8
  else if frag = 1 ∨ frag = 2 ∨ frag = 4 then fragtbl124
  else []

/-! ## §2. Counting with masks. -/

/-- The inner loop of `fragacct` for runs of length `siz`: slide the masks
over the pattern, jumping over each run that is found.  `pos` grows in every
round, so the block size bounds the rounds. -/
def fragacctLoop (frag fragmap siz : Nat) (cnt : UInt32) :
    Nat → Nat → Nat → Nat → UInt32 → UInt32
  | 0, _, _, _, total => total
  | fuel + 1, pos, field, subfield, total =>
    if pos ≤ frag then
      if fragmap &&& field = subfield then
        fragacctLoop frag fragmap siz cnt fuel (pos + siz + 1)
          (field <<< siz <<< 1) (subfield <<< siz <<< 1) (total + cnt)
      else
        fragacctLoop frag fragmap siz cnt fuel (pos + 1)
          (field <<< 1) (subfield <<< 1) total
    else total

/-- `fragacct`: add `cnt` to the list for every run of the pattern. -/
def fragacct (frag fragmap : Nat) (fraglist : Nat → UInt32) (cnt : UInt32) :
    Nat → UInt32 := fun siz =>
  let inblk := (fragtbl frag).getD fragmap 0 <<< 1
  if 1 ≤ siz ∧ siz < frag ∧ inblk &&& (1 <<< (siz + frag % 8)) ≠ 0 then
    fragacctLoop frag (fragmap <<< 1) siz cnt (frag + 1) siz
      (around.getD siz 0) (inside.getD siz 0) (fraglist siz)
  else fraglist siz

/-- Byte `n` of a bitmap. -/
def byteOf (map : Nat → Bool) (n : Nat) : Nat :=
  Nat.ofBits fun j : Fin 8 => map (8 * n + j)

/-- `blkmap`: the bits of the block at `loc`, from the byte they lie in. -/
def blkmap (frag : Nat) (map : Nat → Bool) (loc : Nat) : Nat :=
  (byteOf map (loc / 8) >>> (loc % 8)) &&& (0xff >>> (8 - frag))

/-! ## §3. The tables are right. -/

/-- What `fragacct` adds for runs of length `siz`, started from zero. -/
private def runsFound (frag fragmap siz : Nat) : UInt32 :=
  fragacct frag fragmap (fun _ => 0) 1 siz

/-- The masks find what the scanner finds: every pattern of every block
size. -/
private theorem runsFound_eq : ∀ frag ∈ [1, 2, 4, 8], ∀ fragmap < 2 ^ frag,
    ∀ siz < frag, runsFound frag fragmap siz
      = UInt32.ofNat (countFreeRunsInBlock fragmap.testBit 0 frag siz) := by
  decide +kernel

private theorem fragacctLoop_add (frag fragmap siz : Nat) (cnt : UInt32) :
    ∀ fuel pos field subfield total,
      fragacctLoop frag fragmap siz cnt fuel pos field subfield total
        = total
          + fragacctLoop frag fragmap siz cnt fuel pos field subfield 0 := by
  intro fuel
  induction fuel with
  | zero =>
    intro pos field subfield total
    show total = total + 0
    rw [UInt32.add_zero]
  | succ fuel ih =>
    intro pos field subfield total
    unfold fragacctLoop
    split
    · split
      · rw [ih, ih _ _ _ (0 + cnt), UInt32.zero_add, UInt32.add_assoc]
      · exact ih _ _ _ total
    · rw [UInt32.add_zero]

/-- `fragacct` adds to each entry what it would find from zero. -/
private theorem fragacct_add (frag fragmap : Nat) (fraglist : Nat → UInt32)
    (siz : Nat) :
    fragacct frag fragmap fraglist 1 siz
      = fraglist siz + runsFound frag fragmap siz := by
  unfold runsFound fragacct
  dsimp only
  split
  · exact fragacctLoop_add ..
  · rw [UInt32.add_zero]

/-- A length that is no proper part of a block is never counted. -/
theorem fragacct_of_not_lt {frag fragmap siz : Nat}
    (fraglist : Nat → UInt32) (cnt : UInt32) (h : ¬(1 ≤ siz ∧ siz < frag)) :
    fragacct frag fragmap fraglist cnt siz = fraglist siz := by
  unfold fragacct
  exact if_neg fun hc => h ⟨hc.1, hc.2.1⟩

private theorem mask_eq {frag : Nat} (hfrag : frag ∈ [1, 2, 4, 8]) :
    0xff >>> (8 - frag) = 2 ^ frag - 1 := by
  simp only [List.mem_cons, List.not_mem_nil, or_false] at hfrag
  rcases hfrag with rfl | rfl | rfl | rfl <;> rfl

theorem blkmap_lt {frag : Nat} (hfrag : frag ∈ [1, 2, 4, 8])
    (map : Nat → Bool) (loc : Nat) : blkmap frag map loc < 2 ^ frag := by
  unfold blkmap
  rw [mask_eq hfrag]
  have := Nat.and_le_right (n := byteOf map (loc / 8) >>> (loc % 8))
    (m := 2 ^ frag - 1)
  have := Nat.two_pow_pos frag
  omega

/-- The bits of `blkmap` are the bits of the block: a block never straddles
a byte. -/
theorem testBit_blkmap {frag loc i : Nat} (hfrag : frag ∈ [1, 2, 4, 8])
    (map : Nat → Bool) (hloc : frag ∣ loc) (hi : i < frag) :
    (blkmap frag map loc).testBit i = map (loc + i) := by
  have hbyte : loc % 8 + i < 8 := by
    simp only [List.mem_cons, List.not_mem_nil, or_false] at hfrag
    rcases hfrag with rfl | rfl | rfl | rfl <;> omega
  unfold blkmap
  rw [mask_eq hfrag, Nat.testBit_and, Nat.testBit_two_pow_sub_one,
    Nat.testBit_shiftRight]
  unfold byteOf
  rw [Nat.testBit_ofBits_lt _ _ hbyte]
  have haddr : 8 * (loc / 8) + (loc % 8 + i) = loc + i := by
    have := Nat.div_add_mod loc 8
    omega
  simp [hi, haddr]

/-- **The checker's tables and the allocator's scanner agree**, on every block
of every map. -/
theorem fragacct_eq {frag loc : Nat} (hfrag : frag ∈ [1, 2, 4, 8])
    (map : Nat → Bool) (hloc : frag ∣ loc) (fraglist : Nat → UInt32)
    (siz : Nat) :
    fragacct frag (blkmap frag map loc) fraglist 1 siz
      = fraglist siz
        + UInt32.ofNat (countFreeRunsInBlock map loc frag siz) := by
  by_cases hsiz : siz < frag
  · have hbits : countFreeRunsInBlock (blkmap frag map loc).testBit 0 frag siz
        = countFreeRunsInBlock map loc frag siz := by
      rw [countFreeRunsInBlock_eq _ _ hsiz, countFreeRunsInBlock_eq _ _ hsiz]
      refine runsOf_congr fun j hj => ?_
      rw [Nat.zero_add]
      exact testBit_blkmap hfrag map hloc hj
    rw [fragacct_add, runsFound_eq frag hfrag _ (blkmap_lt hfrag map loc) siz
      hsiz, hbits]
  · have hnot : ¬(1 ≤ siz ∧ siz < frag) := fun hc => hsiz hc.2
    rw [fragacct_of_not_lt _ _ hnot,
      countFreeRunsInBlock_of_le _ _ (Nat.le_of_not_lt hsiz)]
    exact (UInt32.add_zero _).symm

end NextUfs.Fsck
