/-
  NextUfs.Mutate.DirBlocks
  ────────────────────────
  **A DIRECTORY'S BLOCKS ON THE DISK.**

  The code that changes a directory reads a block into a buffer, edits it, and
  writes it back where the block's direct pointer says.

    • `dirBlock`            — the bytes of a logical block,
    • `readDirBlock_cases`  — reading gives them, or fails,
    • `write_dirBlock`      — writing one block back changes this block,
    • `updateNodeTimes_eq`  — the node's times are set and read back,
    • `DirPartitioned`, `dirEntries` — the directory as chunks of records.
-/
import NextUfs.Core.Holes
import NextUfs.Mutate.DirRecords
import NextUfs.Mutate.RewriteSpec

namespace NextUfs

open State Radix

/-! ## §1. Blocks of a directory. -/

/-- The bytes of logical block `k` of a directory. -/
def dirBlock (sb : Superblock) (d : Disk) (dirino : Inode) (k : Nat) : Bytes :=
  fileBytes sb d dirino (k * sb.blockSize) (chunkBytes sb dirino.size k)

section Blocks

variable {sb : Superblock} {d : Disk} {dirino : Inode} {k : Nat}

@[simp] theorem dirBlock_length (sb : Superblock) (d : Disk) (dirino : Inode)
    (k : Nat) :
    (dirBlock sb d dirino k).length = chunkBytes sb dirino.size k :=
  fileBytes_length ..

/-- A block is read whole. -/
theorem readLength_chunk (sb : Superblock) (dirino : Inode) (k : Nat) :
    readLength dirino (k * sb.blockSize) (chunkBytes sb dirino.size k)
      = chunkBytes sb dirino.size k := by
  unfold readLength chunkBytes
  omega

/-- Reading a block gives its bytes, or fails. -/
theorem readDirBlock_cases (hbs : 0 < sb.blockSize) :
    readDirBlock sb dirino k d = .ok (dirBlock sb d dirino k) d ∨
      readDirBlock sb dirino k d = .error Errno.EIO d := by
  unfold readDirBlock
  by_cases hread : Readable sb dirino (k * sb.blockSize)
      (readLength dirino (k * sb.blockSize) (chunkBytes sb dirino.size k))
  · left
    have hok := inodeReadData_ok hbs d hread
    rw [readLength_chunk] at hok
    rw [bind_of_ok (attempt_of_ok hok)]
    rfl
  · right
    rw [bind_of_ok (attempt_of_error (inodeReadData_error hbs d hread))]
    rfl

/-- The bytes of a direct block. -/
theorem dirBlock_direct (hk : k < 12) :
    dirBlock sb d dirino k
      = if dirino.db ⟨k, hk⟩ = 0 then
          List.replicate (chunkBytes sb dirino.size k) 0
        else
          d.read (dirino.db ⟨k, hk⟩ * sb.fragSize)
            (chunkBytes sb dirino.size k) := by
  have hblock : blockAt sb d dirino k = dirino.db ⟨k, hk⟩ := dif_pos hk
  have hbytes := @fileBytes_block sb dirino d k 0
    (chunkBytes sb dirino.size k) (by
      unfold chunkBytes
      omega)
  rw [hblock, Nat.add_zero, Nat.add_zero] at hbytes
  exact hbytes

/-- A record is read from a direct block only where there is one. -/
theorem dirBlock_of_record (hk : k < 12) {limit off : Nat} {ent : Dirent}
    (h : readDirent (dirBlock sb d dirino k) limit off = some ent) :
    dirBlock sb d dirino k
      = d.read (dirino.db ⟨k, hk⟩ * sb.fragSize)
          (chunkBytes sb dirino.size k) := by
  have hdirect := @dirBlock_direct sb d dirino k hk
  split at hdirect
  · rw [hdirect, readDirent_zeros] at h
    cases h
  · exact hdirect

/-- Two blocks of a file claim their fragments apart. -/
theorem covers_add_le_dataFrags {len n k' : Nat} (hne : k ≠ k') (hk : k < n)
    (hk' : k' < n) (hb : blockAt sb d dirino k ≠ 0)
    (hb' : blockAt sb d dirino k' ≠ 0) (f : Nat) :
    covers (blockAt sb d dirino k) (fragsNeeded sb len k) f
        + covers (blockAt sb d dirino k') (fragsNeeded sb len k') f
      ≤ dataFrags sb d dirino len n f := by
  have hle := Finset.sum_le_sum_of_subset
    (f := fun lb => if blockAt sb d dirino lb = 0 then 0
      else covers (blockAt sb d dirino lb) (fragsNeeded sb len lb) f)
    (show {k, k'} ⊆ Finset.range n by
      intro x hx
      rw [Finset.mem_insert, Finset.mem_singleton] at hx
      apply Finset.mem_range.mpr
      rcases hx with rfl | rfl <;> assumption)
  rw [Finset.sum_pair hne, if_neg hb, if_neg hb'] at hle
  exact hle

/-- A fragment of a direct block is not one of the pointer blocks'. -/
theorem metaFrags_eq_zero (honce : ∀ f, blockClaims sb d dirino f ≤ 1)
    (hin : k < fileBlocks sb dirino.size) (hb : blockAt sb d dirino k ≠ 0)
    {f : Nat} (hf : blockAt sb d dirino k ≤ f ∧
      f < blockAt sb d dirino k + fragsNeeded sb dirino.size k) :
    metaFrags sb d dirino f = 0 := by
  have hle := @covers_le_dataFrags sb d dirino dirino.size _ _ hin hb f
  rw [covers_eq_one hf] at hle
  have := honce f
  unfold blockClaims at this
  omega

/-- Writing one block back changes no fragment but its own. -/
theorem write_sameFrag (hgeo : DataGeometry sb) (hk : k < 12) {new : Bytes}
    (hlen : new.length = chunkBytes sb dirino.size k) {f : Nat}
    (hf : ¬(blockAt sb d dirino k ≤ f ∧
      f < blockAt sb d dirino k + fragsNeeded sb dirino.size k)) :
    SameFrag sb d (d.write (dirino.db ⟨k, hk⟩ * sb.fragSize) new) f := by
  have hblock : blockAt sb d dirino k = dirino.db ⟨k, hk⟩ := dif_pos hk
  have hfits := chunkBytes_le hgeo dirino.size k
  rw [hblock] at hf
  have hsame := @sameFrag_write sb d (dirino.db ⟨k, hk⟩)
    (fragsNeeded sb dirino.size k) 0 f new (by omega) (by omega)
  exact hsame

section Write

variable (hgeo : DataGeometry sb)
  (honce : ∀ f, blockClaims sb d dirino f ≤ 1) (hk : k < 12)
  (hin : k < fileBlocks sb dirino.size) (hdb : dirino.db ⟨k, hk⟩ ≠ 0)
  {new : Bytes} (hlen : new.length = chunkBytes sb dirino.size k)

include hgeo honce hin hdb hlen

/-- No pointer block is changed by it. -/
theorem write_meta {f : Nat} (hf : 0 < metaFrags sb d dirino f) :
    SameFrag sb d (d.write (dirino.db ⟨k, hk⟩ * sb.fragSize) new) f := by
  have hblock : blockAt sb d dirino k = dirino.db ⟨k, hk⟩ := dif_pos hk
  apply write_sameFrag hgeo hk hlen
  intro hmem
  rw [metaFrags_eq_zero honce hin (by rw [hblock]; exact hdb) hmem] at hf
  exact absurd hf (lt_irrefl 0)

/-- So the claims are what they were. -/
theorem write_blockClaims (f : Nat) :
    blockClaims sb (d.write (dirino.db ⟨k, hk⟩ * sb.fragSize) new) dirino f
      = blockClaims sb d dirino f := by
  have hmeta := fun f hf =>
    @write_meta sb d dirino k hgeo honce hk hin hdb new hlen f hf
  unfold blockClaims dataFrags
  rw [metaFrags_congr hgeo hmeta, blockAt_congr hgeo hmeta]

/-- **Writing one block back changes this block** and no other one. -/
theorem write_dirBlock {k' : Nat} (hin' : k' < fileBlocks sb dirino.size) :
    dirBlock sb (d.write (dirino.db ⟨k, hk⟩ * sb.fragSize) new) dirino k'
      = if k' = k then new else dirBlock sb d dirino k' := by
  have hblock : blockAt sb d dirino k = dirino.db ⟨k, hk⟩ := dif_pos hk
  have hbk : blockAt sb d dirino k ≠ 0 := by
    rw [hblock]
    exact hdb
  have hmap : blockAt sb (d.write (dirino.db ⟨k, hk⟩ * sb.fragSize) new) dirino
      = blockAt sb d dirino :=
    blockAt_congr hgeo fun f hf =>
      @write_meta sb d dirino k hgeo honce hk hin hdb new hlen f hf
  have hchunk : ∀ j, 0 + chunkBytes sb dirino.size j ≤ sb.blockSize := by
    intro j
    unfold chunkBytes
    omega
  split
  · rename_i heq
    subst heq
    rw [dirBlock_direct hk, if_neg hdb, ← hlen]
    exact read_write_self ..
  · rename_i hne
    have hnew := @fileBytes_block sb dirino
      (d.write (dirino.db ⟨k, hk⟩ * sb.fragSize) new) k' 0 _ (hchunk k')
    have hold := @fileBytes_block sb dirino d k' 0 _ (hchunk k')
    rw [Nat.add_zero] at hnew hold
    unfold dirBlock
    rw [hnew, hold, hmap]
    split
    · rfl
    · rename_i hbk'
      apply read_congr (n := fragsNeeded sb dirino.size k')
      · intro f h1 h2
        apply write_sameFrag hgeo hk hlen
        intro hf
        have hle := @covers_add_le_dataFrags sb d dirino k dirino.size _ k'
          (fun h => hne h.symm) hin hin' hbk hbk' f
        rw [covers_eq_one hf, covers_eq_one ⟨h1, h2⟩] at hle
        have := honce f
        unfold blockClaims at this
        omega
      · rw [Nat.zero_add]
        exact chunkBytes_le hgeo dirino.size k'

end Write

/-- Only the map, the size and the data area matter to a directory's blocks. -/
theorem dirBlock_congr {d' : Disk} {dirino' : Inode} (hdata : d'.data = d.data)
    (hdb : dirino'.db = dirino.db) (hib : dirino'.ib = dirino.ib)
    (hsize : dirino'.size = dirino.size) (k : Nat) :
    dirBlock sb d' dirino' k = dirBlock sb d dirino k := by
  have hmap : blockAt sb d' dirino' = blockAt sb d dirino :=
    blockAt_eq hdata hdb hib
  unfold dirBlock fileBytes fileByte
  rw [hmap, hdata, hsize]

/-- The blocks that have direct pointers can be read. -/
theorem readDirBlock_direct (hbs : 0 < sb.blockSize) (hk : k < 12) :
    readDirBlock sb dirino k d = .ok (dirBlock sb d dirino k) d := by
  have hread : Readable sb dirino (k * sb.blockSize)
      (readLength dirino (k * sb.blockSize) (chunkBytes sb dirino.size k)) := by
    intro p hp hlt
    rw [readLength_chunk] at hlt
    have hle : chunkBytes sb dirino.size k ≤ sb.blockSize := Nat.min_le_left _ _
    obtain ⟨i, rfl⟩ := Nat.exists_eq_add_of_le hp
    rw [(block_div_mod (by omega)).1]
    exact Or.inl hk
  have hok := inodeReadData_ok hbs d hread
  rw [readLength_chunk] at hok
  unfold readDirBlock
  rw [bind_of_ok (attempt_of_ok hok)]
  rfl

end Blocks

/-! ## §2. The node's times. -/

/-- An inode whose times have been set. -/
def touched (now : UInt32) (ino : Inode) : Inode :=
  { ino with mtime := now, ctime := now, atime := now }

/-- **The node's times are set**, and the node is read back. -/
theorem updateNodeTimes_eq (sb : Superblock) (node : Node) (d : Disk) :
    updateNodeTimes sb node d
      = if hasInodes sb then
          .ok ⟨node.inodeNo, touched d.clock node.inode⟩
            { d with
              inodes := Function.update d.inodes node.inodeNo
                (touched d.clock node.inode) }
        else .error .EINVAL d := by
  unfold updateNodeTimes
  have htime : timeNow d = .ok d.clock d := rfl
  rw [bind_of_ok htime]
  by_cases hinodes : hasInodes sb
  · have hwrite : writeInodeRaw sb node.inodeNo (touched d.clock node.inode) d
        = .ok () { d with
            inodes := Function.update d.inodes node.inodeNo
              (touched d.clock node.inode) } := by
      unfold writeInodeRaw
      rw [if_pos hinodes]
      rfl
    have hread : inodeRead sb node.inodeNo { d with
          inodes := Function.update d.inodes node.inodeNo
            (touched d.clock node.inode) }
        = .ok (touched d.clock node.inode) { d with
            inodes := Function.update d.inodes node.inodeNo
              (touched d.clock node.inode) } := by
      unfold inodeRead
      rw [if_pos hinodes]
      show EStateM.Result.ok (Function.update _ _ _ _) _ = _
      rw [Function.update_self]
    rw [if_pos hinodes]
    refine (bind_of_ok hwrite).trans ?_
    unfold nodeGetByInode
    rw [bind_of_ok hread]
    rfl
  · rw [if_neg hinodes]
    refine bind_of_error ?_
    unfold writeInodeRaw
    rw [if_neg hinodes]
    rfl

/-! ## §3. Chunks of a directory. -/

/-- How many chunks logical block `k` has. -/
def dirChunks (sb : Superblock) (size k : Nat) : Nat :=
  (chunkBytes sb size k + DIRBLKSIZ - 1) / DIRBLKSIZ

/-- The chunks of a directory in order: block, and place in the block. -/
def dirPlaces (sb : Superblock) (size : Nat) : List (Nat × Nat) :=
  (List.range (fileBlocks sb size)).flatMap fun k =>
    (List.range (dirChunks sb size k)).map fun j => (k, j)

/-- The bytes of one chunk. -/
def dirChunk (sb : Superblock) (d : Disk) (dirino : Inode) (x : Nat × Nat) :
    Bytes :=
  ((dirBlock sb d dirino x.1).drop (x.2 * DIRBLKSIZ)).take DIRBLKSIZ

/-- **Every chunk of a directory is partitioned into records.** -/
def DirPartitioned (sb : Superblock) (d : Disk) (dirino : Inode) : Prop :=
  ∀ x ∈ dirPlaces sb dirino.size, ∃ es, Partitioned (dirChunk sb d dirino x) es

/-- **The entries of a directory**, in order. -/
def dirEntries (sb : Superblock) (d : Disk) (dirino : Inode) :
    List (Nat × Bytes) :=
  (dirPlaces sb dirino.size).flatMap fun x =>
    chunkEntries (dirChunk sb d dirino x)

section Overlay

variable {block data : Bytes} {i j o : Nat}

/-- Bytes overlaid inside one chunk of a block. -/
theorem overlay_chunk
    (hin : o + data.length ≤ ((block.drop (i * DIRBLKSIZ)).take
      DIRBLKSIZ).length) :
    ((overlay block (i * DIRBLKSIZ + o) data).drop (j * DIRBLKSIZ)).take
        DIRBLKSIZ
      = if j = i then
          overlay ((block.drop (i * DIRBLKSIZ)).take DIRBLKSIZ) o data
        else (block.drop (j * DIRBLKSIZ)).take DIRBLKSIZ := by
  have hchunk : ((block.drop (i * DIRBLKSIZ)).take DIRBLKSIZ).length
      = min DIRBLKSIZ (block.length - i * DIRBLKSIZ) := by
    rw [List.length_take, List.length_drop]
  have hpos : 0 < DIRBLKSIZ := by decide
  by_cases hend : data = []
  · subst hend
    have hsame : ∀ (buf : Bytes) a, overlay buf a [] = buf := by
      intro buf a
      unfold overlay
      simp
    rw [hsame, hsame]
    split
    · rename_i heq
      rw [heq]
    · rfl
  have hdata := List.length_pos_of_ne_nil hend
  have hblock : i * DIRBLKSIZ + o + data.length ≤ block.length := by omega
  apply bytes_ext
  · rw [List.length_take, List.length_drop, overlay_length hblock]
    split
    · rename_i heq
      rw [overlay_length hin, hchunk, heq]
    · rw [List.length_take, List.length_drop]
  · intro a ha
    have ha' : a < DIRBLKSIZ := by
      rw [List.length_take] at ha
      omega
    rw [getD_piece ha', overlay_getD hblock]
    split_ifs with hmem heq heq
    · subst heq
      rw [overlay_getD_of_mem hin (by omega)]
      congr 1
      omega
    · -- two chunks have no byte in common
      exfalso
      rcases Nat.lt_or_gt_of_ne heq with hlt | hlt
      · have hle := Nat.mul_le_mul_right DIRBLKSIZ hlt
        rw [Nat.succ_mul] at hle
        omega
      · have hle := Nat.mul_le_mul_right DIRBLKSIZ hlt
        rw [Nat.succ_mul] at hle
        omega
    · subst heq
      rw [overlay_getD_of_not_mem hin (by omega), getD_piece ha']
    · rw [getD_piece ha']

end Overlay

section Chunks

variable {sb : Superblock} {d : Disk} {dirino : Inode} {size : Nat}
  {x y : Nat × Nat} {k : Nat}

theorem mem_dirPlaces :
    x ∈ dirPlaces sb size ↔
      x.1 < fileBlocks sb size ∧ x.2 < dirChunks sb size x.1 := by
  unfold dirPlaces
  constructor
  · intro h
    obtain ⟨k, hk, hx⟩ := List.mem_flatMap.mp h
    obtain ⟨j, hj, rfl⟩ := List.mem_map.mp hx
    exact ⟨List.mem_range.mp hk, List.mem_range.mp hj⟩
  · rintro ⟨hk, hj⟩
    exact List.mem_flatMap.mpr ⟨x.1, List.mem_range.mpr hk,
      List.mem_map.mpr ⟨x.2, List.mem_range.mpr hj, rfl⟩⟩

/-- The chunks stand in order, so none stands twice. -/
theorem dirPlaces_pairwise (sb : Superblock) (size : Nat) :
    (dirPlaces sb size).Pairwise fun x y =>
      x.1 < y.1 ∨ (x.1 = y.1 ∧ x.2 < y.2) := by
  unfold dirPlaces
  rw [List.pairwise_flatMap]
  constructor
  · intro k _
    rw [List.pairwise_map]
    exact List.pairwise_lt_range.imp fun h => Or.inr ⟨rfl, h⟩
  · refine List.pairwise_lt_range.imp fun hlt x hx y hy => ?_
    obtain ⟨i, -, rfl⟩ := List.mem_map.mp hx
    obtain ⟨j, -, rfl⟩ := List.mem_map.mp hy
    exact Or.inl hlt

/-- The entries of a directory around one of its chunks. -/
theorem entries_split (hx : x ∈ dirPlaces sb size) :
    ∃ before after : List (Nat × Nat), (∀ y, y ∈ before ++ after ↔
        y ∈ dirPlaces sb size ∧ y ≠ x) ∧
      ∀ d' dirino', dirino'.size = size →
        dirEntries sb d' dirino'
          = before.flatMap (fun y => chunkEntries
              (dirChunk sb d' dirino' y))
            ++ (chunkEntries (dirChunk sb d' dirino' x)
              ++ after.flatMap fun y => chunkEntries
                (dirChunk sb d' dirino' y)) := by
  obtain ⟨before, after, hplaces⟩ := List.append_of_mem hx
  have hsorted := dirPlaces_pairwise sb size
  rw [hplaces] at hsorted
  obtain ⟨-, hafter, hbefore⟩ := List.pairwise_append.mp hsorted
  refine ⟨before, after, fun y => ?_, fun d' dirino' hsize => ?_⟩
  · rw [hplaces]
    constructor
    · intro hy
      rcases List.mem_append.mp hy with hy | hy
      · refine ⟨List.mem_append_left _ hy, ?_⟩
        rintro rfl
        have := hbefore y hy y List.mem_cons_self
        omega
      · refine ⟨List.mem_append_right _ (List.mem_cons_of_mem _ hy), ?_⟩
        rintro rfl
        have := List.rel_of_pairwise_cons hafter hy
        omega
    · rintro ⟨hy, hne⟩
      rcases List.mem_append.mp hy with hy | hy
      · exact List.mem_append_left _ hy
      · rcases List.mem_cons.mp hy with rfl | hy
        · exact absurd rfl hne
        · exact List.mem_append_right _ hy
  · unfold dirEntries
    rw [hsize, hplaces, List.flatMap_append, List.flatMap_cons]

/-- A chunk's bytes, and where it ends. -/
theorem dirChunk_length (sb : Superblock) (d : Disk) (dirino : Inode)
    (x : Nat × Nat) :
    (dirChunk sb d dirino x).length
      = min DIRBLKSIZ (chunkBytes sb dirino.size x.1 - x.2 * DIRBLKSIZ) := by
  unfold dirChunk
  rw [List.length_take, List.length_drop, dirBlock_length]

/-- A partitioned block is no hole. -/
theorem DirPartitioned.block_ne_zero (hpart : DirPartitioned sb d dirino)
    (hbs : 0 < sb.blockSize) (hin : k < fileBlocks sb dirino.size) :
    blockAt sb d dirino k ≠ 0 := by
  intro hzero
  have hstart := block_start_lt hbs hin
  have hbytes : 0 < chunkBytes sb dirino.size k := by
    unfold chunkBytes
    omega
  have hle : chunkBytes sb dirino.size k ≤ sb.blockSize := Nat.min_le_left _ _
  have hdiv : 0 < dirChunks sb dirino.size k := by
    unfold dirChunks DIRBLKSIZ
    omega
  have hpos : 0 < (dirChunk sb d dirino (k, 0)).length := by
    rw [dirChunk_length]
    dsimp only
    rw [Nat.zero_mul]
    exact Nat.lt_min.mpr ⟨by decide, hbytes⟩
  obtain ⟨es, rs, htiles, -, -⟩ := hpart (k, 0) (mem_dirPlaces.mpr ⟨hin, hdiv⟩)
  -- the bytes of a hole hold no record
  have hblock : dirBlock sb d dirino k
      = List.replicate (chunkBytes sb dirino.size k) 0 := by
    have hbytes := @fileBytes_block sb dirino d k 0
      (chunkBytes sb dirino.size k) (by omega)
    rw [if_pos hzero] at hbytes
    exact hbytes
  have hzeros : ∃ n, dirChunk sb d dirino (k, 0)
      = List.replicate n 0 := by
    unfold dirChunk
    rw [hblock, List.drop_replicate, List.take_replicate]
    exact ⟨_, rfl⟩
  obtain ⟨n, hzeros⟩ := hzeros
  generalize (dirChunk sb d dirino (k, 0)).length = stop at htiles hpos
  cases htiles with
  | nil => exact absurd hpos (lt_irrefl 0)
  | cons hread _ =>
    rw [hzeros, readDirent_zeros] at hread
    cases hread

/-- A partitioned block among the first twelve has a direct pointer. -/
theorem DirPartitioned.db_ne_zero (hpart : DirPartitioned sb d dirino)
    (hbs : 0 < sb.blockSize) (hk : k < 12)
    (hin : k < fileBlocks sb dirino.size) :
    dirino.db ⟨k, hk⟩ ≠ 0 := by
  have hblock : blockAt sb d dirino k = dirino.db ⟨k, hk⟩ := dif_pos hk
  rw [← hblock]
  exact hpart.block_ne_zero hbs hin

end Chunks

end NextUfs
