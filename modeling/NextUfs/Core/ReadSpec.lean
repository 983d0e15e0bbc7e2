/-
  NextUfs.Core.ReadSpec
  ─────────────────────
  **WHAT READING AN INODE RETURNS.**

  The reader walks blocks; what it returns is one function of the byte
  position.

    • `fileByte`           — byte `p` of an inode, 0 in a hole,
    • `inodeReadData_ok`   — the reader returns those bytes when it can reach
      the blocks it needs, and `inodeReadData_error` otherwise,
    • `inodeReadData_congr` — two disks that agree on the fragments an inode
      claims give the same bytes.
-/
import NextUfs.Core.InodeTree

namespace NextUfs

open Bits Radix State

/-! ## §1. Bytes of a file. -/

/-- Byte `p` of an inode's data. -/
def fileByte (sb : Superblock) (d : Disk) (ino : Inode) (p : Nat) : UInt8 :=
  if blockAt sb d ino (p / sb.blockSize) = 0 then 0
  else
    d.data (blockAt sb d ino (p / sb.blockSize) * sb.fragSize
      + p % sb.blockSize)

/-- Bytes `[start, start + n)` of an inode's data. -/
def fileBytes (sb : Superblock) (d : Disk) (ino : Inode) (start n : Nat) :
    List UInt8 :=
  (List.range n).map fun i => fileByte sb d ino (start + i)

@[simp] theorem fileBytes_length (sb : Superblock) (d : Disk) (ino : Inode)
    (start n : Nat) : (fileBytes sb d ino start n).length = n := by
  simp [fileBytes]

theorem fileBytes_add (sb : Superblock) (d : Disk) (ino : Inode)
    (start m n : Nat) :
    fileBytes sb d ino start (m + n)
      = fileBytes sb d ino start m ++ fileBytes sb d ino (start + m) n := by
  unfold fileBytes
  rw [List.range_add, List.map_append, List.map_map]
  congr 1
  refine List.map_congr_left fun i _ => ?_
  show fileByte sb d ino (start + (m + i)) = _
  rw [Nat.add_assoc]

theorem fileBytes_take {sb : Superblock} {d : Disk} {ino : Inode}
    {start m n : Nat} (h : m ≤ n) :
    (fileBytes sb d ino start n).take m = fileBytes sb d ino start m := by
  obtain ⟨k, rfl⟩ := Nat.exists_eq_add_of_le h
  rw [fileBytes_add, List.take_left' (fileBytes_length ..)]

/-- Every block of `[start, start + n)` can be reached. -/
def Readable (sb : Superblock) (ino : Inode) (start n : Nat) : Prop :=
  ∀ p, start ≤ p → p < start + n → Reachable sb ino (p / sb.blockSize)

/-! ## §2. The loop. -/

section Loop

variable {sb : Superblock} {ino : Inode}

/-- The positions of one block. -/
theorem block_div_mod {sb : Superblock} {lb i : Nat} (hi : i < sb.blockSize) :
    (lb * sb.blockSize + i) / sb.blockSize = lb ∧
      (lb * sb.blockSize + i) % sb.blockSize = i := by
  constructor
  · rw [Nat.mul_comm, Nat.mul_add_div (by omega), Nat.div_eq_of_lt hi,
      Nat.add_zero]
  · rw [Nat.mul_comm, Nat.mul_add_mod, Nat.mod_eq_of_lt hi]

/-- A piece of one block. -/
theorem fileBytes_block {d : Disk} {lb off chunk : Nat}
    (hchunk : off + chunk ≤ sb.blockSize) :
    fileBytes sb d ino (lb * sb.blockSize + off) chunk
      = if blockAt sb d ino lb = 0 then List.replicate chunk 0
        else d.read (blockAt sb d ino lb * sb.fragSize + off) chunk := by
  have hbyte : ∀ i < chunk, fileByte sb d ino (lb * sb.blockSize + off + i)
      = if blockAt sb d ino lb = 0 then 0
        else d.data (blockAt sb d ino lb * sb.fragSize + off + i) := by
    intro i hi
    obtain ⟨hdiv, hmod⟩ := @block_div_mod sb lb (off + i) (by omega)
    rw [← Nat.add_assoc] at hdiv hmod
    unfold fileByte
    rw [hdiv, hmod, Nat.add_assoc]
  split
  · rename_i hhole
    refine List.eq_replicate_iff.mpr ⟨by simp, fun x hx => ?_⟩
    obtain ⟨i, hi, rfl⟩ := List.mem_map.mp hx
    rw [hbyte i (List.mem_range.mp hi), if_pos hhole]
  · rename_i hblock
    refine List.map_congr_left fun i hi => ?_
    rw [hbyte i (List.mem_range.mp hi), if_neg hblock]

/-- One round reads a piece of one block and goes on at the next. -/
theorem readBlocks_succ {fuel lb off rem : Nat} (d : Disk) (hrem : rem ≠ 0)
    (h : Reachable sb ino lb) :
    readBlocks sb ino (fuel + 1) lb off rem d
      = (do
          let rest ← readBlocks sb ino fuel (lb + 1) 0
            (rem - min (sb.blockSize - off) rem)
          return (if blockAt sb d ino lb = 0 then
              List.replicate (min (sb.blockSize - off) rem) 0
            else
              d.read (blockAt sb d ino lb * sb.fragSize + off)
                (min (sb.blockSize - off) rem)) ++ rest) d := by
  conv => lhs; unfold readBlocks
  rw [if_neg hrem]
  dsimp only
  rw [bind_of_ok (resolveFileBlockFrag_eq d h)]
  split
  · rfl
  · rfl

theorem readBlocks_ok (fuel : Nat) : ∀ {lb off rem : Nat} {d : Disk},
    off < sb.blockSize → rem ≤ fuel →
    Readable sb ino (lb * sb.blockSize + off) rem →
    readBlocks sb ino fuel lb off rem d
      = .ok (fileBytes sb d ino (lb * sb.blockSize + off) rem) d := by
  induction fuel with
  | zero =>
    intro lb off rem d _ hfuel _
    obtain rfl : rem = 0 := by omega
    rfl
  | succ fuel ih =>
    intro lb off rem d hoff hfuel hread
    by_cases hrem : rem = 0
    · subst hrem
      rfl
    · have hnext : (lb + 1) * sb.blockSize
          = lb * sb.blockSize + sb.blockSize := Nat.succ_mul _ _
      have hlb := hread (lb * sb.blockSize + off) le_rfl (by omega)
      rw [(block_div_mod hoff).1] at hlb
      rw [readBlocks_succ d hrem hlb]
      have hrest := @ih (lb + 1) 0 (rem - min (sb.blockSize - off) rem) d
        (by omega) (by omega) fun p hp hlt =>
          hread p (by omega) (by omega)
      rw [bind_of_ok hrest]
      show EStateM.Result.ok (_ ++ _) d = _
      congr 1
      rcases Nat.le_total (sb.blockSize - off) rem with hle | hle
      · -- the piece ends with its block, and the next one starts there
        rw [Nat.min_eq_left hle, ← fileBytes_block (by omega), hnext,
          Nat.add_zero]
        have hend : lb * sb.blockSize + sb.blockSize
            = lb * sb.blockSize + off + (sb.blockSize - off) := by omega
        rw [hend, ← fileBytes_add, Nat.add_sub_cancel' hle]
      · rw [Nat.min_eq_right hle, Nat.sub_self, ← fileBytes_block (by omega)]
        exact List.append_nil _

theorem readBlocks_error (fuel : Nat) : ∀ {lb off rem : Nat} {d : Disk},
    off < sb.blockSize → rem ≤ fuel →
    ¬Readable sb ino (lb * sb.blockSize + off) rem →
    readBlocks sb ino fuel lb off rem d = .error .EINVAL d := by
  induction fuel with
  | zero =>
    intro lb off rem d _ hfuel hread
    exact absurd (fun p hp hlt => by omega) hread
  | succ fuel ih =>
    intro lb off rem d hoff hfuel hread
    have hnext : (lb + 1) * sb.blockSize
        = lb * sb.blockSize + sb.blockSize := Nat.succ_mul _ _
    have hrem : rem ≠ 0 := by
      rintro rfl
      exact hread fun p hp hlt => by omega
    by_cases hlb : Reachable sb ino lb
    · rw [readBlocks_succ d hrem hlb]
      refine bind_of_error (@ih (lb + 1) 0 _ d (by omega) (by omega) ?_)
      -- what cannot be read is not in this block
      refine fun hrest => hread fun p hp hlt => ?_
      by_cases hin : p < lb * sb.blockSize + sb.blockSize
      · obtain ⟨i, rfl⟩ := Nat.exists_eq_add_of_le
          (show lb * sb.blockSize ≤ p by omega)
        rwa [(block_div_mod (by omega)).1]
      · exact hrest p (by omega) (by omega)
    · unfold readBlocks
      rw [if_neg hrem]
      exact bind_of_error (resolveFileBlockFrag_error d hlb)

end Loop

/-! ## §3. The reader. -/

section Read

variable {sb : Superblock} {ino : Inode} {start n : Nat}

/-- Bytes the reader is to return: at most `n`, and none past the end. -/
def readLength (ino : Inode) (start n : Nat) : Nat := min (ino.size - start) n

/-- **The reader returns the bytes of the file.** -/
theorem inodeReadData_ok (hbs : 0 < sb.blockSize) (d : Disk)
    (h : Readable sb ino start (readLength ino start n)) :
    inodeReadData sb ino start n d
      = .ok (fileBytes sb d ino start (readLength ino start n)) d := by
  unfold inodeReadData
  split
  · rename_i hend
    have hzero : readLength ino start n = 0 := by
      unfold readLength
      omega
    rw [hzero]
    rfl
  · have hsplit := Nat.div_add_mod' start sb.blockSize
    have hread := @readBlocks_ok sb ino
      (readLength ino start n) _ _ _ d (Nat.mod_lt start hbs) le_rfl
      (by rwa [hsplit])
    rwa [hsplit] at hread

/-- A block it cannot reach is an error. -/
theorem inodeReadData_error (hbs : 0 < sb.blockSize) (d : Disk)
    (h : ¬Readable sb ino start (readLength ino start n)) :
    inodeReadData sb ino start n d = .error .EINVAL d := by
  unfold inodeReadData
  split
  · rename_i hend
    refine absurd (fun p hp hlt => ?_) h
    unfold readLength at hlt
    omega
  · refine readBlocks_error _ (Nat.mod_lt start hbs) le_rfl ?_
    rwa [Nat.div_add_mod']

/-- **What a read that succeeded returned.** -/
theorem inodeReadData_eq_ok (hbs : 0 < sb.blockSize) {d d' : Disk}
    {bytes : List UInt8}
    (h : inodeReadData sb ino start n d = .ok bytes d') :
    bytes = fileBytes sb d ino start (readLength ino start n) ∧ d' = d := by
  by_cases hread : Readable sb ino start (readLength ino start n)
  · rw [inodeReadData_ok hbs d hread] at h
    cases h
    exact ⟨rfl, rfl⟩
  · rw [inodeReadData_error hbs d hread] at h
    cases h

end Read

/-! ## §4. What an inode claims. -/

/-- Fragments of the data of an inode among its first `k` logical blocks, when
its size is `len`. -/
def dataFrags (sb : Superblock) (d : Disk) (ino : Inode) (len k f : Nat) :
    Nat :=
  ∑ lb ∈ Finset.range k,
    if blockAt sb d ino lb = 0 then 0
    else covers (blockAt sb d ino lb) (fragsNeeded sb len lb) f

/-- How often an inode's pointers claim a fragment. -/
def blockClaims (sb : Superblock) (d : Disk) (ino : Inode) (f : Nat) : Nat :=
  metaFrags sb d ino f
    + dataFrags sb d ino ino.size (fileBlocks sb ino.size) f

/-- What a run of an operation returns, apart from the disk it leaves. -/
def outcome {α : Type} (x : Op α) (d : Disk) : Except Errno α :=
  match x d with
  | .ok a _ => .ok a
  | .error e _ => .error e

section Congr

variable {sb : Superblock} {d d' : Disk} {ino : Inode}

/-- Trees whose blocks have not changed make the same map. -/
theorem blockAt_congr (hgeo : DataGeometry sb)
    (h : ∀ f, 0 < metaFrags sb d ino f → SameFrag sb d d' f) :
    blockAt sb d' ino = blockAt sb d ino := by
  funext lb
  refine blockOf_congr (fun slot i hi => lookup_congr ?_ hi) lb
  refine sameTree_of_frags hgeo fun f hpos => h f ?_
  have hle := treeFrags_le_metaFrags sb d ino slot f
  omega

/-- They are the same trees. -/
theorem metaFrags_congr (hgeo : DataGeometry sb)
    (h : ∀ f, 0 < metaFrags sb d ino f → SameFrag sb d d' f) (f : Nat) :
    metaFrags sb d' ino f = metaFrags sb d ino f := by
  refine Finset.sum_congr rfl fun slot _ => footprint_congr ?_ f
  refine sameTree_of_frags hgeo fun f hpos => h f ?_
  have hle := treeFrags_le_metaFrags sb d ino slot f
  omega

/-- A byte of the file lies in one of its blocks. -/
theorem div_lt_fileBlocks {sb : Superblock} {p len : Nat}
    (hbs : 0 < sb.blockSize) (hp : p < len) :
    p / sb.blockSize < fileBlocks sb len := by
  unfold fileBlocks
  have hle : p / sb.blockSize ≤ (len - 1) / sb.blockSize :=
    Nat.div_le_div_right (by omega)
  have hsucc : (len + sb.blockSize - 1) / sb.blockSize
      = (len - 1) / sb.blockSize + 1 := by
    rw [show len + sb.blockSize - 1 = len - 1 + sb.blockSize by omega,
      Nat.add_div_right _ hbs]
  omega

/-- The bytes of a block fit in the fragments it gets. -/
theorem chunkBytes_le (hgeo : DataGeometry sb) (len lb : Nat) :
    chunkBytes sb len lb ≤ fragsNeeded sb len lb * sb.fragSize := by
  unfold fragsNeeded
  split
  · rw [← hgeo.blockSize_eq]
    exact Nat.min_le_left _ _
  · generalize chunkBytes sb len lb = n
    have hmod := Nat.mod_lt (n + sb.fragSize - 1) hgeo.fragSize_pos
    have hsplit := Nat.div_add_mod' (n + sb.fragSize - 1) sb.fragSize
    omega

/-- A byte of the file lies in the fragments of its block. -/
theorem mod_lt_fragsNeeded (hgeo : DataGeometry sb) {p len : Nat}
    (hp : p < len) :
    p % sb.blockSize
      < fragsNeeded sb len (p / sb.blockSize) * sb.fragSize := by
  refine Nat.lt_of_lt_of_le ?_ (chunkBytes_le hgeo len (p / sb.blockSize))
  have hsplit := Nat.div_add_mod' p sb.blockSize
  have hmod := Nat.mod_lt p hgeo.blockSize_pos
  unfold chunkBytes
  omega

/-- The data of one block of the file is claimed. -/
theorem covers_le_dataFrags {len k lb : Nat} (hlb : lb < k)
    (hblock : blockAt sb d ino lb ≠ 0) (f : Nat) :
    covers (blockAt sb d ino lb) (fragsNeeded sb len lb) f
      ≤ dataFrags sb d ino len k f := by
  have hle := Finset.single_le_sum
    (f := fun lb => if blockAt sb d ino lb = 0 then 0
      else covers (blockAt sb d ino lb) (fragsNeeded sb len lb) f)
    (fun _ _ => Nat.zero_le _) (Finset.mem_range.mpr hlb)
  rw [if_neg hblock] at hle
  exact hle

/-- **Only the claimed fragments matter** to what a file holds. -/
theorem fileByte_congr (hgeo : DataGeometry sb)
    (h : ∀ f, 0 < blockClaims sb d ino f → SameFrag sb d d' f) {p : Nat}
    (hp : p < ino.size) : fileByte sb d' ino p = fileByte sb d ino p := by
  have hmap : blockAt sb d' ino = blockAt sb d ino :=
    blockAt_congr hgeo fun f hpos =>
      h f (Nat.lt_of_lt_of_le hpos (Nat.le_add_right _ _))
  unfold fileByte
  rw [hmap]
  split
  · rfl
  · rename_i hblock
    refine data_congr (n := fragsNeeded sb ino.size (p / sb.blockSize))
      (fun f h1 h2 => h f ?_) (mod_lt_fragsNeeded hgeo hp)
    have hle := @covers_le_dataFrags sb d ino ino.size _ _
      (div_lt_fileBlocks hgeo.blockSize_pos hp) hblock f
    rw [covers_eq_one ⟨h1, h2⟩] at hle
    exact Nat.lt_of_lt_of_le hle (Nat.le_add_left _ _)

/-- Reading an inode whose fragments have not changed. -/
theorem inodeReadData_congr (hgeo : DataGeometry sb)
    (h : ∀ f, 0 < blockClaims sb d ino f → SameFrag sb d d' f)
    (start n : Nat) :
    outcome (inodeReadData sb ino start n) d'
      = outcome (inodeReadData sb ino start n) d := by
  have hbs := hgeo.blockSize_pos
  unfold outcome
  by_cases hread : Readable sb ino start (readLength ino start n)
  · rw [inodeReadData_ok hbs d hread, inodeReadData_ok hbs d' hread]
    refine congrArg Except.ok (List.map_congr_left fun i hi => ?_)
    refine fileByte_congr hgeo h ?_
    have hlt := List.mem_range.mp hi
    unfold readLength at hlt
    omega
  · rw [inodeReadData_error hbs d hread, inodeReadData_error hbs d' hread]

end Congr

end NextUfs
