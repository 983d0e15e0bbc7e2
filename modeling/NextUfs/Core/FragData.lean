/-
  NextUfs.Core.FragData
  ─────────────────────
  **A FRAGMENT'S FREE BIT AND ITS BYTES.**

  Two views of the disk that everything about storage is stated in: `freeAt`
  reads the free bitmaps as one function of the disk's fragment number, and
  `SameFrag` says that the bytes of a fragment have not changed.

    • `allocateFragsAnycg_free` — an allocation takes its run out of `freeAt`
      and changes nothing else,
    • `sameFrag_write`          — a write changes the fragments it covers,
    • `entry_write`             — the entries of a pointer block after a write.
-/
import NextUfs.Core.AllocSpec
import NextUfs.Core.BlockChange
import NextUfs.Core.Storage
import NextUfs.Lib.Radix

namespace NextUfs

open Bits Radix State

/-! ## §1. Geometry of the data area. -/

/-- Geometry the block trees are meant for: a block is a whole number of
fragments, a fragment number fits a pointer, and the disk starts with the
metadata of its first group. -/
structure DataGeometry (sb : Superblock) : Prop extends ValidGeometry sb where
  fragSize_pos : 0 < sb.fragSize
  blockSize_eq : sb.blockSize = sb.fragsPerBlock * sb.fragSize
  fragCount_lt : sb.fragCount < 2 ^ 32
  cgCount_pos : 0 < sb.cgCount
  dataOff_pos : 0 < sb.dataOff

theorem DataGeometry.blockSize_pos {sb : Superblock} (h : DataGeometry sb) :
    0 < sb.blockSize := by
  rw [h.blockSize_eq]
  exact Nat.mul_pos h.fpb_pos h.fragSize_pos

/-- The entries of a block fit in it. -/
theorem entry_end_le {sb : Superblock} {i : Nat}
    (hi : i < entriesPerBlock sb) : i * 4 + 4 ≤ sb.blockSize := by
  unfold entriesPerBlock at hi
  omega

/-! ## §2. Free fragments. -/

/-- 1 when fragment `f` of the disk is free in its group's bitmap. -/
def freeAt (sb : Superblock) (d : Disk) (f : Nat) : Nat :=
  if f < sb.fragCount then
    ((d.cgs (f / sb.fragsPerGroup)).free (f % sb.fragsPerGroup)).toNat
  else 0

theorem freeAt_le (sb : Superblock) (d : Disk) (f : Nat) :
    freeAt sb d f ≤ 1 := by
  unfold freeAt
  split
  · exact Bool.toNat_le _
  · omega

@[simp] theorem freeAt_write (sb : Superblock) (d : Disk) (off : Nat)
    (bytes : List UInt8) :
    freeAt sb (d.write off bytes) = freeAt sb d := rfl

/-- The fragment of group `c` at `local`. -/
theorem div_mod_fragsPerGroup {sb : Superblock} {c i : Nat}
    (hi : i < sb.fragsPerGroup) :
    (c * sb.fragsPerGroup + i) / sb.fragsPerGroup = c ∧
      (c * sb.fragsPerGroup + i) % sb.fragsPerGroup = i := by
  constructor
  · rw [Nat.mul_comm, Nat.mul_add_div (by omega), Nat.div_eq_of_lt hi,
      Nat.add_zero]
  · rw [Nat.mul_comm, Nat.mul_add_mod, Nat.mod_eq_of_lt hi]

/-- **A run cleared in one group** is a run out of `freeAt`. -/
theorem freeAt_clear {α : Type} {sb : Superblock} {d : Disk} {c s n : Nat}
    {u : GroupUpdate α} (hin : s + n ≤ sb.fragsPerGroup)
    (hdisk : c * sb.fragsPerGroup + s + n ≤ sb.fragCount)
    (hset : allSet (d.cgs c).free s n = true)
    (hfree : u.cg.free = clearRange (d.cgs c).free s n) (f : Nat) :
    freeAt sb (d.withGroup c u) f + covers (c * sb.fragsPerGroup + s) n f
      = freeAt sb d f := by
  by_cases hf : c * sb.fragsPerGroup + s ≤ f
      ∧ f < c * sb.fragsPerGroup + s + n
  · -- a fragment of the run: it was free and is no longer
    obtain ⟨i, rfl⟩ := Nat.exists_eq_add_of_le hf.1
    have hi : i < n := by omega
    obtain ⟨hdiv, hmod⟩ := @div_mod_fragsPerGroup sb c (s + i)
      (by omega)
    rw [← Nat.add_assoc] at hdiv hmod
    have hbit := (allSet_iff _ _ _).mp hset i hi
    have hclr : clearRange (d.cgs c).free s n (s + i) = false :=
      clearRange_of_mem (by omega)
    unfold freeAt
    rw [covers_eq_one hf, if_pos (by omega), if_pos (by omega), hdiv, hmod,
      withGroup_cgs_self, hfree, hbit, hclr]
    rfl
  · rw [covers_eq_zero (by omega), Nat.add_zero]
    unfold freeAt
    split
    · by_cases hc : f / sb.fragsPerGroup = c
      · have hsplit := Nat.div_add_mod' f sb.fragsPerGroup
        rw [hc] at hsplit ⊢
        rw [withGroup_cgs_self, hfree, clearRange_of_not_mem (by omega)]
      · rw [withGroup_cgs_of_ne _ _ _ hc]
    · rfl

/-- Both ways a group gives a run, as one statement about its bitmap. -/
theorem claimFrags_free {sb : Superblock} {c n : Nat} {now : UInt32} {cg : Cg}
    {u : GroupUpdate Nat} (hn : n ≤ sb.fragsPerBlock)
    (h : claimFrags sb c n now cg = .ok u) :
    u.result + n ≤ cg.ndblk ∧ allSet cg.free u.result n = true ∧
      u.cg.free = clearRange cg.free u.result n := by
  obtain ⟨-, ⟨base, start, hpart, -, rfl⟩ | ⟨localFrag, hblock, rfl⟩⟩ :=
    claimFrags_ok h
  · unfold findPartialRun at hpart
    obtain ⟨k, -, hfind⟩ := List.exists_of_findSome?_eq_some hpart
    dsimp only at hfind
    split at hfind
    · cases hfind
    obtain ⟨j, hj, heq⟩ := Option.map_eq_some_iff.mp hfind
    cases heq
    have hrun := List.find?_some hj
    have hjr := List.mem_range.mp (List.mem_of_find?_eq_some hj)
    exact ⟨show k * sb.fragsPerBlock + j + n ≤ cg.ndblk by omega, hrun, rfl⟩
  · obtain ⟨k, -, hend, hall⟩ := findFreeBlock_some hblock
    refine ⟨?_, ?_, moveCylBlocks_free ..⟩
    · show localFrag + n ≤ cg.ndblk
      omega
    · rw [allSet_iff] at hall ⊢
      exact fun i hi => hall i (by omega)

/-- **What an allocation does**: the run it returns is out of `freeAt`; the
inode table and the data area are as they were. -/
theorem allocateFragsAnycg_free {sb : Superblock} {preferredCg n frag : Nat}
    {d d' : Disk} (h : allocateFragsAnycg sb preferredCg n d = .ok frag d') :
    (∀ f, freeAt sb d' f + covers frag n f = freeAt sb d f) ∧
      frag + n ≤ sb.fragCount ∧ 0 < n ∧ d'.data = d.data ∧
      d'.inodes = d.inodes := by
  obtain ⟨c, -, hgroup⟩ := allocateFragsAnycg_ok h
  obtain ⟨hn0, hn, u, hu, rfl, rfl⟩ := allocateFragsInGroup_ok hgroup
  obtain ⟨⟨hfpg, hdisk, -⟩, -⟩ := claimFrags_ok hu
  obtain ⟨hend, hset, hfree⟩ := claimFrags_free hn hu
  refine ⟨fun f => ?_, by omega, hn0, rfl, rfl⟩
  exact freeAt_clear (by omega) (by omega) hset hfree f

/-! ## §3. Bytes. -/

@[simp] theorem write_data_of_not_mem {d : Disk} {off i : Nat}
    {bytes : List UInt8} (h : i < off ∨ off + bytes.length ≤ i) :
    (d.write off bytes).data i = d.data i := by
  show (if off ≤ i ∧ i < off + bytes.length then _ else _) = _
  rw [if_neg (by omega)]

theorem write_data_of_mem {d : Disk} {off i : Nat} {bytes : List UInt8}
    (h : off ≤ i ∧ i < off + bytes.length) :
    (d.write off bytes).data i = bytes.getD (i - off) 0 := by
  show (if off ≤ i ∧ i < off + bytes.length then _ else _) = _
  rw [if_pos h]

@[simp] theorem write_inodes (d : Disk) (off : Nat) (bytes : List UInt8) :
    (d.write off bytes).inodes = d.inodes := rfl

@[simp] theorem read_length (d : Disk) (off n : Nat) :
    (d.read off n).length = n := by
  simp [Disk.read]

theorem read_getD {d : Disk} {off n i : Nat} (hi : i < n) :
    (d.read off n).getD i 0 = d.data (off + i) := by
  simp [Disk.read, List.getD_eq_getElem?_getD, hi]

/-- The bytes just written. -/
theorem read_write_self (d : Disk) (off : Nat) (bytes : List UInt8) :
    (d.write off bytes).read off bytes.length = bytes := by
  refine List.ext_getElem (by simp) fun i h1 h2 => ?_
  have hi : i < bytes.length := h2
  simp only [Disk.read, List.getElem_map, List.getElem_range]
  rw [write_data_of_mem (by omega), Nat.add_sub_cancel_left]
  simp [List.getD_eq_getElem?_getD, hi]

/-- The bytes of fragment `f` are the same on both disks. -/
def SameFrag (sb : Superblock) (d d' : Disk) (f : Nat) : Prop :=
  ∀ i < sb.fragSize,
    d'.data (f * sb.fragSize + i) = d.data (f * sb.fragSize + i)

theorem SameFrag.refl (sb : Superblock) (d : Disk) (f : Nat) :
    SameFrag sb d d f := fun _ _ => rfl

theorem SameFrag.trans {sb : Superblock} {d₀ d₁ d₂ : Disk} {f : Nat}
    (h₁ : SameFrag sb d₀ d₁ f) (h₂ : SameFrag sb d₁ d₂ f) :
    SameFrag sb d₀ d₂ f :=
  fun i hi => (h₂ i hi).trans (h₁ i hi)

theorem SameFrag.of_data_eq {sb : Superblock} {d d' : Disk}
    (h : d'.data = d.data) (f : Nat) : SameFrag sb d d' f :=
  fun _ _ => congrFun h _

/-- Byte `p` of the run at `b`, counted from the run's start, lies in one of
its fragments. -/
theorem run_byte {sb : Superblock} {b n p : Nat} (hp : p < n * sb.fragSize) :
    ∃ f i, b ≤ f ∧ f < b + n ∧ i < sb.fragSize ∧
      b * sb.fragSize + p = f * sb.fragSize + i := by
  have hpos : 0 < sb.fragSize := by
    rcases Nat.eq_zero_or_pos sb.fragSize with h0 | h0
    · rw [h0] at hp
      omega
    · exact h0
  refine ⟨b + p / sb.fragSize, p % sb.fragSize, Nat.le_add_right _ _, ?_,
    Nat.mod_lt _ hpos, ?_⟩
  · exact Nat.add_lt_add_left ((Nat.div_lt_iff_lt_mul hpos).mpr hp) b
  · rw [Nat.add_mul, Nat.add_assoc, Nat.div_add_mod']

/-- A run of unchanged fragments reads as it did. -/
theorem data_congr {sb : Superblock} {d d' : Disk} {b n p : Nat}
    (h : ∀ f, b ≤ f → f < b + n → SameFrag sb d d' f)
    (hp : p < n * sb.fragSize) :
    d'.data (b * sb.fragSize + p) = d.data (b * sb.fragSize + p) := by
  obtain ⟨f, i, hb, hf, hi, heq⟩ := run_byte (b := b) hp
  rw [heq]
  exact h f hb hf i hi

theorem read_congr {sb : Superblock} {d d' : Disk} {b n off k : Nat}
    (h : ∀ f, b ≤ f → f < b + n → SameFrag sb d d' f)
    (hk : off + k ≤ n * sb.fragSize) :
    d'.read (b * sb.fragSize + off) k = d.read (b * sb.fragSize + off) k := by
  refine List.map_congr_left fun i hi => ?_
  have := List.mem_range.mp hi
  show d'.data _ = d.data _
  rw [Nat.add_assoc]
  exact data_congr h (by omega)

/-- **A write changes the fragments it covers** and no others. -/
theorem sameFrag_write {sb : Superblock} {d : Disk} {b n off f : Nat}
    {bytes : List UInt8} (hlen : off + bytes.length ≤ n * sb.fragSize)
    (hf : f < b ∨ b + n ≤ f) :
    SameFrag sb d (d.write (b * sb.fragSize + off) bytes) f := by
  intro i hi
  refine write_data_of_not_mem ?_
  rcases hf with hf | hf
  · left
    calc f * sb.fragSize + i < (f + 1) * sb.fragSize := by
          rw [Nat.succ_mul]
          omega
      _ ≤ b * sb.fragSize := Nat.mul_le_mul_right _ hf
      _ ≤ b * sb.fragSize + off := Nat.le_add_right _ _
  · right
    calc b * sb.fragSize + off + bytes.length
          ≤ b * sb.fragSize + n * sb.fragSize := by omega
      _ = (b + n) * sb.fragSize := (Nat.add_mul _ _ _).symm
      _ ≤ f * sb.fragSize := Nat.mul_le_mul_right _ hf
      _ ≤ f * sb.fragSize + i := Nat.le_add_right _ _

/-! ## §4. Entries of a pointer block. -/

/-- Entry `i` of the pointer block at `b`. -/
def entry (sb : Superblock) (d : Disk) (b i : Nat) : Nat :=
  readBe32 (d.read (b * sb.fragSize + i * 4) 4)

theorem readBe32_writeBe32 {v : Nat} (h : v < 2 ^ 32) :
    readBe32 (writeBe32 v) = v := by
  simp [readBe32, writeBe32, UInt8.toNat_ofNat']
  omega

theorem readIndirectEntry_eq {sb : Superblock} {b i : Nat} (d : Disk)
    (hi : i < entriesPerBlock sb) :
    readIndirectEntry sb b i d = .ok (entry sb d b i) d := by
  unfold readIndirectEntry
  rw [if_neg (by omega)]
  rfl

theorem writeIndirectEntry_eq {sb : Superblock} {b i v : Nat} (d : Disk)
    (hi : i < entriesPerBlock sb) :
    writeIndirectEntry sb b i v d
      = .ok () (d.write (b * sb.fragSize + i * 4) (writeBe32 v)) := by
  unfold writeIndirectEntry
  rw [if_neg (by omega)]
  rfl

/-- Unchanged fragments hold the same entries. -/
theorem entry_congr {sb : Superblock} {d d' : Disk} {b i : Nat}
    (hgeo : DataGeometry sb)
    (h : ∀ f, b ≤ f → f < b + sb.fragsPerBlock → SameFrag sb d d' f)
    (hi : i < entriesPerBlock sb) : entry sb d' b i = entry sb d b i := by
  have hend := entry_end_le hi
  rw [hgeo.blockSize_eq] at hend
  exact congrArg readBe32 (read_congr h hend)

/-- Pointer blocks lie in the data area. -/
theorem entry_eq {sb : Superblock} {d d' : Disk} (hdata : d'.data = d.data) :
    entry sb d' = entry sb d := by
  funext b i
  unfold entry Disk.read
  rw [hdata]

/-- **The entries of a pointer block after one is written.** -/
theorem entry_write {sb : Superblock} {d : Disk} {b i j v : Nat}
    (hv : v < 2 ^ 32) :
    entry sb (d.write (b * sb.fragSize + i * 4) (writeBe32 v)) b j
      = if j = i then v else entry sb d b j := by
  have hlen : (writeBe32 v).length = 4 := rfl
  split
  · rename_i hji
    subst hji
    show readBe32 ((d.write _ (writeBe32 v)).read _ (writeBe32 v).length) = v
    rw [read_write_self, readBe32_writeBe32 hv]
  · refine congrArg readBe32 (List.map_congr_left fun k hk => ?_)
    have := List.mem_range.mp hk
    exact write_data_of_not_mem (by omega)

/-- A block of zeros holds no pointers. -/
theorem entry_zeroed {sb : Superblock} {d : Disk} {b i : Nat}
    (hi : i < entriesPerBlock sb) :
    entry sb (d.write (b * sb.fragSize) (List.replicate sb.blockSize 0)) b i
      = 0 := by
  have hend := entry_end_le hi
  have hread : (d.write (b * sb.fragSize)
      (List.replicate sb.blockSize 0)).read (b * sb.fragSize + i * 4) 4
      = List.replicate 4 0 := by
    refine List.eq_replicate_iff.mpr ⟨by simp, fun x hx => ?_⟩
    obtain ⟨k, hk, rfl⟩ := List.mem_map.mp hx
    have := List.mem_range.mp hk
    rw [write_data_of_mem (by simp; omega)]
    simp only [List.getD_eq_getElem?_getD, List.getElem?_replicate]
    split <;> rfl
  unfold entry
  rw [hread]
  rfl

end NextUfs
