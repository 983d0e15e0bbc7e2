/-
  NextUfs.Fsck.ExpandDirGrown
  ───────────────────────────
  **WHAT A DIRECTORY HOLDS WHEN IT HAS GROWN.**

  When the last block of a directory is partial, its first chunk is in the new
  block afterwards and its other chunks are where they were.  When the last
  block is full, the block that is moved up is the one behind it, which there
  is not: the new block starts with whatever is in the buffer.

    • `Growth.chunk_before`, `Growth.chunk_new`, `Growth.chunk_moved`,
      `Growth.chunk_last` — the chunks, by where they are,
    • `Growth.entries`    — the entries,
    • `Growth.pointers`   — the inode and the block map,
    • `Growth.grown_ragged`, `Growth.grown_full_iff` — when it has grown.
-/
import NextUfs.Fsck.ExpandDirSpec

namespace NextUfs.Fsck

open Window Address

/-! ## §1. Sizes. -/

/-- The numbers of a file system whose fragments are made of chunks and whose
addresses fit 32 bits. -/
structure GrowGeometry (sb : Superblock) : Prop where
  fragSize_pos : 0 < sb.fragSize
  fragSize_chunks : DIRBLKSIZ ∣ sb.fragSize
  fpb_pos : 0 < sb.fragsPerBlock
  blockSize_eq : sb.blockSize = sb.fragsPerBlock * sb.fragSize
  small : sb.fragCount * sb.fragSize ≤ 2 ^ 32

/-- Chunks of the last block, if it is partial. -/
def lastChunks (sb : Superblock) (dp : Inode) : Nat :=
  dp.size % sb.blockSize / DIRBLKSIZ

section Sizes

variable {sb : Superblock} {dp : Inode} (h : GrowGeometry sb)
  (hsize : DIRBLKSIZ ∣ dp.size)
include h

theorem GrowGeometry.block_chunks :
    sb.blockSize = DIRBLKSIZ * blockChunks sb ∧ 0 < blockChunks sb := by
  have hdvd : DIRBLKSIZ ∣ sb.blockSize :=
    h.blockSize_eq ▸ h.fragSize_chunks.mul_left _
  have hpos : 0 < sb.blockSize :=
    h.blockSize_eq ▸ Nat.mul_pos h.fpb_pos h.fragSize_pos
  exact ⟨(Nat.mul_div_cancel' hdvd).symm,
    Nat.div_pos (Nat.le_of_dvd hpos hdvd) (by decide)⟩

include hsize

/-- The last block has whole chunks. -/
theorem GrowGeometry.size_mod :
    dp.size % sb.blockSize = DIRBLKSIZ * lastChunks sb dp := by
  have hdvd : DIRBLKSIZ ∣ sb.blockSize := ⟨_, h.block_chunks.1⟩
  exact (Nat.mul_div_cancel' ((Nat.dvd_mod_iff hdvd).mpr hsize)).symm

theorem GrowGeometry.lastChunks_lt : lastChunks sb dp < blockChunks sb := by
  obtain ⟨hblock, hpos⟩ := h.block_chunks
  have hmod := h.size_mod hsize
  have hlt := Nat.mod_lt dp.size (show 0 < sb.blockSize by
    rw [hblock]
    exact Nat.mul_pos (by decide) hpos)
  rw [hmod, hblock] at hlt
  exact Nat.lt_of_mul_lt_mul_left hlt

theorem GrowGeometry.lastChunks_pos (hragged : dp.size % sb.blockSize ≠ 0) :
    0 < lastChunks sb dp := by
  rw [Nat.pos_iff_ne_zero]
  intro hzero
  have hmod := h.size_mod hsize
  rw [hzero, Nat.mul_zero] at hmod
  exact hragged hmod

/-- The chunks of the directory. -/
theorem GrowGeometry.dir_chunks :
    dp.size / DIRBLKSIZ = lblkno sb dp.size * blockChunks sb + lastChunks sb dp := by
  have hmod := h.size_mod hsize
  have hdiv := Nat.div_add_mod dp.size sb.blockSize
  rw [hmod, h.block_chunks.1, Nat.mul_assoc, ← Nat.mul_add] at hdiv
  rw [← hdiv, Nat.mul_div_cancel_left _ (by decide : 0 < DIRBLKSIZ), hdiv,
    ← h.block_chunks.1]
  unfold lblkno
  rw [Nat.mul_comm]

omit hsize in
/-- The last block in bytes: none, if the last block is full. -/
theorem GrowGeometry.lastSize_eq (hroom : lblkno sb dp.size < NDADDR - 1) :
    lastSize sb dp
      = (dp.size % sb.blockSize + sb.fragSize - 1) / sb.fragSize * sb.fragSize := by
  have hblock := h.block_chunks
  have hpos : 0 < sb.blockSize := by
    rw [hblock.1]
    exact Nat.mul_pos (by decide) hblock.2
  have hdiv := Nat.div_add_mod dp.size sb.blockSize
  have hlt := Nat.mod_lt dp.size hpos
  have hnot : ¬(NDADDR ≤ lblkno sb dp.size + 1 ∨
      (lblkno sb dp.size + 1 + 1) * sb.blockSize ≤ dp.size + sb.blockSize) := by
    unfold NDADDR at *
    rintro (hle | hle)
    · omega
    · unfold lblkno at hle
      rw [Nat.mul_comm, Nat.mul_succ, Nat.mul_succ] at hle
      omega
  unfold lastSize dblksize
  rw [if_neg hnot, Nat.add_mod_right]

/-- It has room for its chunks, -/
theorem GrowGeometry.le_lastSize (hroom : lblkno sb dp.size < NDADDR - 1) :
    DIRBLKSIZ * lastChunks sb dp ≤ lastSize sb dp := by
  have hpos := h.fragSize_pos
  rw [h.lastSize_eq hroom, ← h.size_mod hsize]
  have hdiv := Nat.div_add_mod (dp.size % sb.blockSize + sb.fragSize - 1) sb.fragSize
  have hlt := Nat.mod_lt (dp.size % sb.blockSize + sb.fragSize - 1) hpos
  rw [Nat.mul_comm] at hdiv
  omega

/-- and takes the fragments the directory has for it. -/
theorem GrowGeometry.lastSize_frags (hroom : lblkno sb dp.size < NDADDR - 1)
    (hragged : 0 < lastChunks sb dp) :
    lastSize sb dp = heldFrags sb dp.size (lblkno sb dp.size) * sb.fragSize := by
  have hpos := h.fragSize_pos
  have hmod := h.size_mod hsize
  have hdiv := Nat.div_add_mod dp.size sb.blockSize
  have hnot : ¬(NDADDR ≤ lblkno sb dp.size ∨
      (lblkno sb dp.size + 1) * sb.blockSize ≤ dp.size) := by
    unfold NDADDR at *
    rintro (hle | hle)
    · omega
    · have hchunk : 0 < DIRBLKSIZ * lastChunks sb dp :=
        Nat.mul_pos (by decide) hragged
      have hlt := Nat.mod_lt dp.size (show 0 < sb.blockSize by
        rw [h.block_chunks.1]
        exact Nat.mul_pos (by decide) h.block_chunks.2)
      unfold lblkno at hle
      rw [Nat.mul_comm, Nat.mul_succ] at hle
      omega
  unfold heldFrags dblksize
  rw [if_neg hnot, Nat.mul_div_cancel _ hpos, h.lastSize_eq hroom]

omit hsize in
/-- A block before it is whole. -/
theorem GrowGeometry.heldFrags_whole {size i : Nat}
    (hi : (i + 1) * sb.blockSize ≤ size) : heldFrags sb size i = sb.fragsPerBlock := by
  unfold heldFrags dblksize
  rw [if_pos (.inr hi), h.blockSize_eq, Nat.mul_div_cancel _ h.fragSize_pos]

omit hsize in
/-- Where the checker looks for a fragment of the disk. -/
theorem GrowGeometry.byteOffset_frag {a : Nat} (ha : a < sb.fragCount) :
    byteOffset sb (BitVec.ofNat 32 a) = a * sb.fragSize := by
  have hlt : a * sb.fragSize < 2 ^ 32 :=
    (Nat.mul_lt_mul_of_pos_right ha h.fragSize_pos).trans_le h.small
  exact (byteOffset_eq_iff (BitVec.toNat_ofNat a 32)).mpr
    ⟨hlt, Dvd.dvd.mul_left h.fragSize_chunks a⟩

end Sizes

/-- Runs without a common fragment lie one behind the other. -/
theorem runs_apart {a b n l : Nat} (hn : 0 < n) (hl : 0 < l)
    (h : ∀ i < n, ∀ j < l, a + i ≠ b + j) : a + n ≤ b ∨ b + l ≤ a := by
  by_contra hno
  obtain hab | hba := Nat.le_total a b
  · exact h (b - a) (by omega) 0 hl (by omega)
  · exact h 0 hn (a - b) (by omega) (by omega)

/-- In bytes they share none. -/
theorem bytes_apart {a b n l fs i : Nat} (h : a + n ≤ b ∨ b + l ≤ a)
    (hi : i < n * fs) :
    a * fs + i < b * fs ∨ b * fs + l * fs ≤ a * fs + i := by
  rw [← Nat.add_mul]
  refine h.imp (fun hab => ?_) fun hba => ?_
  · have := Nat.mul_le_mul_right fs hab
    rw [Nat.add_mul] at this
    omega
  · have := Nat.mul_le_mul_right fs hba
    omega

/-! ## §2. The chunks. -/

section Lists

variable {α : Type} {f g : Nat → List α} {n : Nat}

theorem flatMap_range_congr (h : ∀ k < n, f k = g k) :
    (List.range n).flatMap f = (List.range n).flatMap g :=
  List.flatMap_congr fun k hk => h k (List.mem_range.mp hk)

/-- Only the first counts. -/
theorem flatMap_range_first (hn : 0 < n) (h : ∀ k, 0 < k → k < n → f k = []) :
    (List.range n).flatMap f = f 0 := by
  obtain ⟨m, rfl⟩ := Nat.exists_eq_succ_of_ne_zero hn.ne'
  rw [List.range_succ_eq_map, List.flatMap_cons, List.flatMap_map]
  have hrest : (List.range m).flatMap (fun k => f k.succ) = [] := by
    rw [List.flatMap_eq_nil_iff]
    intro k hk
    exact h _ (Nat.succ_pos k) (Nat.succ_lt_succ (List.mem_range.mp hk))
  rw [hrest, List.append_nil]

/-- The first has gone before the others. -/
theorem flatMap_range_moved (hn : 0 < n) :
    f 0 ++ (List.range n).flatMap (fun k => if k = 0 then [] else f k)
      = (List.range n).flatMap f := by
  obtain ⟨m, rfl⟩ := Nat.exists_eq_succ_of_ne_zero hn.ne'
  rw [List.range_succ_eq_map, List.flatMap_cons, List.flatMap_cons, List.flatMap_map,
    List.flatMap_map, if_pos rfl, List.nil_append]
  rfl

end Lists

/-- Chunk `k` of block `i` of a directory. -/
theorem chunk_at (sb : Superblock) (d : Device) (dp : Inode) {i k : Nat}
    (hk : k < blockChunks sb) :
    chunkBlock sb d dp (i * blockChunks sb + k)
        = d.block sb (BitVec.ofNat 32 (dp.db (Fin.ofNat 12 i))) ∧
      chunkStart sb (i * blockChunks sb + k) = DIRBLKSIZ * k := by
  have hpos : 0 < blockChunks sb := by omega
  unfold chunkBlock chunkStart
  rw [Nat.mul_comm i, Nat.mul_add_div hpos, Nat.div_eq_of_lt hk, Nat.add_zero,
    Nat.mul_add_mod, Nat.mod_eq_of_lt hk]
  exact ⟨rfl, rfl⟩

/-- **A growth**: the directory `dp` on `d`, whose blocks are in use in
`blockmap`, has grown by `newblk`, which was free, and `d'` has been written;
`firstblk` has gone to the new block. -/
structure Growth (sb : Superblock) (needswap : Bool) (imax : Nat)
    (blockmap : Nat → Bool) (dp : Inode) (newblk : Nat) (firstblk : Bytes)
    (d d' : Device) : Prop where
  geo : GrowGeometry sb
  dir : GoodDir sb needswap d dp imax blockmap
  written : Written sb needswap dp newblk firstblk d d'
  new_in : newblk + sb.fragsPerBlock ≤ sb.fragCount
  new_free : ∀ k < sb.fragsPerBlock, blockmap (newblk + k) = false
  new_ne : newblk ≠ 0
  length : firstblk.length = DIRBLKSIZ
  tiled : needswap = true → TiledBy true (area firstblk) 0 DIRBLKSIZ

section Layout

variable {sb : Superblock} {needswap : Bool} {imax : Nat} {blockmap : Nat → Bool}
  {dp : Inode} {newblk : Nat} {firstblk : Bytes} {d d' : Device}

/-- A block of the directory before the last one is whole, and lies apart from
the new block. -/
theorem GoodDir.whole (h : GoodDir sb needswap d dp imax blockmap)
    (hgeo : GrowGeometry sb) {i : Nat} (hi : i < lblkno sb dp.size) :
    (i + 1) * sb.blockSize ≤ dp.size ∧
      heldFrags sb dp.size (Fin.ofNat 12 i : Fin 12) = sb.fragsPerBlock ∧
      (Fin.ofNat 12 i : Fin 12) * sb.blockSize < dp.size := by
  have hroom := h.room
  have hval : ((Fin.ofNat 12 i : Fin 12) : Nat) = i :=
    Nat.mod_eq_of_lt (by unfold NDADDR at hroom; omega)
  have hpos : 0 < sb.blockSize := by
    rw [hgeo.block_chunks.1]
    exact Nat.mul_pos (by decide) hgeo.block_chunks.2
  have hle : (i + 1) * sb.blockSize ≤ dp.size :=
    (Nat.mul_le_mul_right _ hi).trans (Nat.div_mul_le_self _ _)
  rw [hval]
  refine ⟨hle, hgeo.heldFrags_whole hle, ?_⟩
  rw [Nat.succ_mul] at hle
  omega

/-- The index of the block that is moved up. -/
theorem GoodDir.last_val (h : GoodDir sb needswap d dp imax blockmap) :
    ((Fin.ofNat 12 (lblkno sb dp.size) : Fin 12) : Nat) = lblkno sb dp.size :=
  Nat.mod_eq_of_lt (by
    have hroom := h.room
    unfold NDADDR at hroom
    omega)

/-- **Behind a full last block** there is none, which the checker takes for block
0 with no bytes. -/
theorem GoodDir.last_none (h : GoodDir sb needswap d dp imax blockmap)
    (hgeo : GrowGeometry sb) (hfull : lastChunks sb dp = 0) :
    dp.db (Fin.ofNat 12 (lblkno sb dp.size)) = 0 ∧ lastSize sb dp = 0 ∧
      byteOffset sb (lastBlock sb dp) = 0 := by
  have hpos := hgeo.fragSize_pos
  have hmod := hgeo.size_mod h.size_chunks
  rw [hfull, Nat.mul_zero] at hmod
  have hend : dp.size ≤ (Fin.ofNat 12 (lblkno sb dp.size) : Fin 12) * sb.blockSize := by
    rw [h.last_val]
    have hdiv := Nat.div_add_mod dp.size sb.blockSize
    unfold lblkno
    rw [Nat.mul_comm]
    omega
  have hzero := h.pointers.spare _ hend
  refine ⟨hzero, ?_, ?_⟩
  · rw [hgeo.lastSize_eq h.room, hmod, Nat.zero_add,
      Nat.div_eq_of_lt (by omega), Nat.zero_mul]
  · unfold lastBlock
    rw [hzero, byteOffset_eq]
    simp

/-- A partial last block starts inside the directory. -/
theorem GoodDir.last_starts (h : GoodDir sb needswap d dp imax blockmap)
    (hgeo : GrowGeometry sb) (hragged : 0 < lastChunks sb dp) :
    lblkno sb dp.size * sb.blockSize < dp.size := by
  have hchunk : 0 < DIRBLKSIZ * lastChunks sb dp := Nat.mul_pos (by decide) hragged
  have hmod := hgeo.size_mod h.size_chunks
  have hdiv := Nat.div_add_mod dp.size sb.blockSize
  unfold lblkno
  rw [Nat.mul_comm]
  omega

/-- **A partial last block**: its fragments are in use. -/
theorem GoodDir.last_held (h : GoodDir sb needswap d dp imax blockmap)
    (hgeo : GrowGeometry sb) (hragged : 0 < lastChunks sb dp) :
    ∃ n, 0 < n ∧ heldFrags sb dp.size (lblkno sb dp.size) = n ∧
      lastSize sb dp = n * sb.fragSize ∧
      dp.db (Fin.ofNat 12 (lblkno sb dp.size)) ≠ 0 ∧
      dp.db (Fin.ofNat 12 (lblkno sb dp.size)) + n ≤ sb.fragCount ∧
      (∀ k < n, blockmap (dp.db (Fin.ofNat 12 (lblkno sb dp.size)) + k) = true) ∧
      byteOffset sb (lastBlock sb dp)
        = dp.db (Fin.ofNat 12 (lblkno sb dp.size)) * sb.fragSize := by
  have hsize := hgeo.lastSize_frags h.size_chunks h.room hragged
  have hle := hgeo.le_lastSize h.size_chunks h.room
  have hchunk : 0 < DIRBLKSIZ * lastChunks sb dp := Nat.mul_pos (by decide) hragged
  have hpos : 0 < heldFrags sb dp.size (lblkno sb dp.size) := by
    rw [Nat.pos_iff_ne_zero]
    intro hzero
    rw [hzero, Nat.zero_mul] at hsize
    omega
  have hin : (Fin.ofNat 12 (lblkno sb dp.size) : Fin 12) * sb.blockSize < dp.size := by
    rw [h.last_val]
    exact h.last_starts hgeo hragged
  obtain ⟨hne, hend, hused⟩ := h.pointers.held _ hin
  rw [h.last_val] at hend hused
  refine ⟨_, hpos, rfl, hsize, hne, hend, hused, ?_⟩
  exact hgeo.byteOffset_frag (by omega)

/-- **A block that is free shares no byte with the last one**, nor with block 0
where there is none. -/
theorem GoodDir.new_apart (h : GoodDir sb needswap d dp imax blockmap)
    (hgeo : GrowGeometry sb) (hne : newblk ≠ 0)
    (hin : newblk + sb.fragsPerBlock ≤ sb.fragCount)
    (hfree : ∀ k < sb.fragsPerBlock, blockmap (newblk + k) = false) :
    byteOffset sb (lastBlock sb dp) ≠ byteOffset sb (BitVec.ofNat 32 newblk) ∧
      (byteOffset sb (BitVec.ofNat 32 newblk) + sb.blockSize
          ≤ byteOffset sb (lastBlock sb dp) ∨
        byteOffset sb (lastBlock sb dp) + lastSize sb dp
          ≤ byteOffset sb (BitVec.ofNat 32 newblk)) := by
  have hnew := hgeo.byteOffset_frag (a := newblk) (by
    have := hgeo.fpb_pos
    omega)
  rw [hnew]
  by_cases hchunks : lastChunks sb dp = 0
  · obtain ⟨-, hsize, hoff⟩ := h.last_none hgeo hchunks
    have hpos := Nat.mul_pos (Nat.pos_of_ne_zero hne) hgeo.fragSize_pos
    rw [hsize, hoff]
    exact ⟨hpos.ne, .inr (Nat.zero_le _)⟩
  · obtain ⟨n, hn, -, hsize, -, -, hused, hoff⟩ :=
      h.last_held hgeo (Nat.pos_of_ne_zero hchunks)
    have hruns := runs_apart hn hgeo.fpb_pos fun i hi j hj heq => by
      have hused' := hused i hi
      rw [heq, hfree j hj] at hused'
      cases hused'
    rw [hsize, hoff, hgeo.blockSize_eq, ← Nat.add_mul, ← Nat.add_mul]
    refine ⟨fun heq => ?_, ?_⟩
    · have hsame := Nat.eq_of_mul_eq_mul_right hgeo.fragSize_pos heq
      have := hgeo.fpb_pos
      omega
    · exact hruns.symm.imp (Nat.mul_le_mul_right _) (Nat.mul_le_mul_right _)

/-- Fragments in use are not those of the new block. -/
theorem Growth.apart (h : Growth sb needswap imax blockmap dp newblk firstblk d d')
    {b n : Nat} (hn : 0 < n) (hused : ∀ k < n, blockmap (b + k) = true) :
    b + n ≤ newblk ∨ newblk + sb.fragsPerBlock ≤ b := by
  refine runs_apart hn h.geo.fpb_pos fun i hi j hj heq => ?_
  have hfree := h.new_free j hj
  rw [← heq, hused i hi] at hfree
  cases hfree

section Grown

variable (h : Growth sb needswap imax blockmap dp newblk firstblk d d')
include h

/-- **The chunks before the last block** are where they were, as they were. -/
theorem Growth.before {i k : Nat} (hi : i < lblkno sb dp.size)
    (hk : k < blockChunks sb) :
    Same (chunkBlock sb d dp (i * blockChunks sb + k))
      (chunkBlock sb d' (grow sb dp newblk) (i * blockChunks sb + k)) (DIRBLKSIZ * k)
      (DIRBLKSIZ * k + DIRBLKSIZ) := by
  have hroom := h.dir.room
  have hpos := h.geo.fragSize_pos
  obtain ⟨hle, hfrags, hin⟩ := h.dir.whole h.geo hi
  obtain ⟨hne, hend, hused⟩ := h.dir.pointers.held _ hin
  rw [hfrags] at hend hused
  have hother : (Fin.ofNat 12 i : Fin 12) ≠ Fin.ofNat 12 (lblkno sb dp.size) := by
    intro heq
    have hval : i % 12 = lblkno sb dp.size % 12 := congrArg Fin.val heq
    unfold NDADDR at hroom
    omega
  have hdistinct := h.dir.pointers.apart _ _ hother hin
  rw [h.dir.last_val, hfrags] at hdistinct
  -- its pointer has not changed
  have hdb : (grow sb dp newblk).db (Fin.ofNat 12 i) = dp.db (Fin.ofNat 12 i) := by
    refine (grow_db hroom newblk).2.2 _ hother ?_
    · intro heq
      have hval : i % 12 = (lblkno sb dp.size + 1) % 12 := congrArg Fin.val heq
      unfold NDADDR at hroom
      omega
  rw [(chunk_at sb d dp hk).1, (chunk_at sb d' (grow sb dp newblk) hk).1, hdb]
  generalize dp.db (Fin.ofNat 12 i) = b at hne hend hused hdistinct
  have hb := h.geo.byteOffset_frag (a := b) (by
    have := h.geo.fpb_pos
    omega)
  intro j _ hj
  have hj' : j < sb.fragsPerBlock * sb.fragSize := by
    rw [← h.geo.blockSize_eq, h.geo.block_chunks.1]
    have := Nat.mul_le_mul_left DIRBLKSIZ hk
    rw [Nat.mul_succ] at this
    omega
  refine (h.written.other _ j ?_ ?_).symm
  · rw [hb, h.geo.byteOffset_frag (a := newblk) (by
      have := h.new_in
      have := h.geo.fpb_pos
      omega), h.geo.blockSize_eq]
    exact bytes_apart (h.apart h.geo.fpb_pos hused) hj'
  · obtain hfull | hragged := Nat.eq_zero_or_pos (lastChunks sb dp)
    · obtain ⟨-, hsize, hat⟩ := h.dir.last_none h.geo hfull
      rw [hsize, hat]
      exact .inr (Nat.zero_le _)
    · obtain ⟨n, hn, hheld, hsize, -, -, -, hat⟩ := h.dir.last_held h.geo hragged
      rw [hheld] at hdistinct
      rw [hsize, hat, hb]
      exact bytes_apart (runs_apart h.geo.fpb_pos hn
        (hdistinct (h.dir.last_starts h.geo hragged))) hj'

/-- There are inodes. -/
theorem Growth.imax_pos : 0 < imax := by
  have hpos : 0 < dp.size / DIRBLKSIZ :=
    Nat.div_pos (Nat.le_of_dvd h.dir.size_pos h.dir.size_chunks) (by decide)
  have hrecords := (h.dir.chunks 0 hpos).records
  have hstart : chunkStart sb 0 < chunkStart sb 0 + DIRBLKSIZ :=
    Nat.lt_add_of_pos_right (by decide)
  generalize chunkStart sb 0 + DIRBLKSIZ = hi at hrecords hstart
  cases hrecords with
  | done => omega
  | step hok _ =>
    unfold recordOk at hok
    rw [Bool.and_eq_true, decide_eq_true_eq] at hok
    exact (Nat.zero_le _).trans_lt hok.1.1

/-- The chunks of the new block, as the buffer had them. -/
theorem Growth.newChunks_chunk (buf : Nat → UInt8) :
    Same (newChunks sb firstblk buf) (area firstblk) 0 DIRBLKSIZ ∧
      ∀ k, 0 < k → k < blockChunks sb →
        EmptyChunk imax (newChunks sb firstblk buf) (DIRBLKSIZ * k) := by
  obtain ⟨hblock, hpos⟩ := h.geo.block_chunks
  refine ⟨fun i _ hi => ?_, fun k hk hlt => ?_⟩
  · have hin : i < firstblk.length := by rw [h.length]; exact hi
    unfold newChunks
    have hbyte := @store_in UInt8 buf 0 i firstblk hin
    rw [Nat.zero_add] at hbyte
    rw [emptyChunks_first _ _ hi, hbyte]
    exact (List.getD_eq_getElem _ _ _).symm
  · refine emptyChunks_chunk h.imax_pos _ hk ?_
    rw [Nat.le_div_iff_mul_le (by decide : 0 < DIRBLKSIZ), hblock]
    have := Nat.mul_le_mul_left DIRBLKSIZ (Nat.succ_le_of_lt hlt)
    rw [Nat.mul_succ] at this
    unfold DIRBLKSIZ at *
    omega

/-- **The new block**: the first chunk shows what has gone to it, the others are
empty. -/
theorem Growth.new {k : Nat} (hk : k < blockChunks sb) :
    ∃ buf, (k = 0 → buf = area firstblk) ∧ (0 < k → EmptyChunk imax buf (DIRBLKSIZ * k)) ∧
      (needswap = true → TiledBy false (chunkBlock sb d' (grow sb dp newblk)
        (lblkno sb dp.size * blockChunks sb + k)) (DIRBLKSIZ * k)
          (DIRBLKSIZ * k + DIRBLKSIZ)) ∧
      Same (chunkView needswap (chunkBlock sb d' (grow sb dp newblk)
        (lblkno sb dp.size * blockChunks sb + k)) (DIRBLKSIZ * k)) buf (DIRBLKSIZ * k)
          (DIRBLKSIZ * k + DIRBLKSIZ) := by
  obtain ⟨hblock, hpos⟩ := h.geo.block_chunks
  obtain ⟨buf, hwritten⟩ := h.written.new
  obtain ⟨hfirst, hempty⟩ := h.newChunks_chunk buf
  have htiles : ∀ j ≤ k, needswap = true → TiledBy true (newChunks sb firstblk buf)
      (DIRBLKSIZ * j) (DIRBLKSIZ * j + DIRBLKSIZ) := by
    intro j hj hswap
    obtain rfl | hj0 := Nat.eq_zero_or_pos j
    · rw [Nat.mul_zero, Nat.zero_add]
      exact (h.tiled hswap).congr hfirst.symm
    · exact (hempty j hj0 (by omega)).records.tiled
  have hin : DIRBLKSIZ * k + DIRBLKSIZ ≤ sb.blockSize := by
    rw [← Nat.mul_succ, hblock]
    exact Nat.mul_le_mul_left _ hk
  obtain ⟨htiled, hview⟩ := written_chunk hwritten htiles hin
  rw [(chunk_at sb d' (grow sb dp newblk) hk).1, (grow_db h.dir.room newblk).1]
  obtain rfl | hk0 := Nat.eq_zero_or_pos k
  · refine ⟨area firstblk, fun _ => rfl, fun hlt => absurd hlt (Nat.lt_irrefl 0), htiled,
      hview.trans ?_⟩
    rw [Nat.mul_zero, Nat.zero_add]
    exact hfirst
  · exact ⟨_, fun hzero => absurd hzero (by omega), fun _ => hempty k hk0 hk, htiled,
      hview⟩

/-- **The last block**: its first chunk is empty, the others are as they were. -/
theorem Growth.last {k : Nat} (hk : k < lastChunks sb dp) :
    ∃ buf, (k = 0 → EmptyChunk imax buf (DIRBLKSIZ * k)) ∧
      (0 < k → buf = chunkView needswap (chunkBlock sb d dp
        (lblkno sb dp.size * blockChunks sb + k)) (DIRBLKSIZ * k)) ∧
      (needswap = true → TiledBy false (chunkBlock sb d' (grow sb dp newblk)
        ((lblkno sb dp.size + 1) * blockChunks sb + k)) (DIRBLKSIZ * k)
          (DIRBLKSIZ * k + DIRBLKSIZ)) ∧
      Same (chunkView needswap (chunkBlock sb d' (grow sb dp newblk)
        ((lblkno sb dp.size + 1) * blockChunks sb + k)) (DIRBLKSIZ * k)) buf
          (DIRBLKSIZ * k) (DIRBLKSIZ * k + DIRBLKSIZ) := by
  have hk' : k < blockChunks sb := hk.trans (h.geo.lastChunks_lt h.dir.size_chunks)
  have hin : DIRBLKSIZ * k + DIRBLKSIZ ≤ lastSize sb dp := by
    rw [← Nat.mul_succ]
    exact (Nat.mul_le_mul_left _ hk).trans
      (h.geo.le_lastSize h.dir.size_chunks h.dir.room)
  have hold : ∀ j ≤ k, GoodChunk imax needswap (d.block sb (lastBlock sb dp))
      (DIRBLKSIZ * j) := by
    intro j hj
    have hgood := h.dir.chunks (lblkno sb dp.size * blockChunks sb + j) (by
      rw [h.geo.dir_chunks h.dir.size_chunks]
      omega)
    rw [(chunk_at sb d dp (by omega)).1, (chunk_at sb d dp (by omega)).2] at hgood
    exact hgood
  obtain ⟨buf, hread, hwritten⟩ := h.written.last
  have hlen := length_emptydir
  have hchunk : ∀ j ≤ k, 0 < j → Same (store buf 0 emptydir)
      (chunkView needswap (d.block sb (lastBlock sb dp)) (DIRBLKSIZ * j))
      (DIRBLKSIZ * j) (DIRBLKSIZ * j + DIRBLKSIZ) := by
    intro j hj hj0
    have hle := Nat.mul_le_mul_left DIRBLKSIZ hj
    have hstart := Nat.mul_le_mul_left DIRBLKSIZ (Nat.succ_le_of_lt hj0)
    have hsame := (hread.mono (Nat.zero_le (DIRBLKSIZ * j))
      (show DIRBLKSIZ * j + DIRBLKSIZ ≤ lastSize sb dp by omega)).trans
        (hostBlock_chunk (fun i hi => (hold i (hi.trans hj)).tiled) (by omega))
    intro i hlo hhi
    rw [← hsame i hlo hhi]
    refine store_out (.inr ?_)
    rw [hlen]
    unfold DIRBLKSIZ at *
    omega
  have hfirst : EmptyChunk imax (store buf 0 emptydir) (DIRBLKSIZ * 0) := by
    refine emptydir_chunk h.imax_pos fun i hi => ?_
    rw [Nat.mul_zero, store_in (by rw [hlen]; exact hi)]
    exact (List.getD_eq_getElem _ _ _).symm
  have htiles : ∀ j ≤ k, needswap = true → TiledBy true (store buf 0 emptydir)
      (DIRBLKSIZ * j) (DIRBLKSIZ * j + DIRBLKSIZ) := by
    intro j hj _
    obtain rfl | hj0 := Nat.eq_zero_or_pos j
    · exact hfirst.records.tiled
    · exact ((hold j hj).records.congr (hchunk j hj hj0).symm).tiled
  obtain ⟨htiled, hview⟩ := written_chunk hwritten htiles hin
  rw [(chunk_at sb d' (grow sb dp newblk) hk').1, (grow_db h.dir.room newblk).2.1,
    (chunk_at sb d dp hk').1]
  obtain rfl | hk0 := Nat.eq_zero_or_pos k
  · exact ⟨_, fun _ => hfirst, fun hlt => absurd hlt (Nat.lt_irrefl 0), htiled, hview⟩
  · exact ⟨_, fun hzero => absurd hzero (by omega), fun _ => rfl, htiled,
      hview.trans (hchunk k le_rfl hk0)⟩

/-- The chunks of the directory that has grown. -/
theorem Growth.grown_chunks :
    (grow sb dp newblk).size / DIRBLKSIZ
      = (lblkno sb dp.size + 1) * blockChunks sb + lastChunks sb dp := by
  have hsize : (grow sb dp newblk).size = dp.size + sb.blockSize := rfl
  rw [hsize, h.geo.block_chunks.1, Nat.add_mul_div_left _ _ (by decide : 0 < DIRBLKSIZ),
    h.geo.dir_chunks h.dir.size_chunks, Nat.succ_mul]
  omega

/-- **Before the last block** every chunk is good and has its entries. -/
theorem Growth.chunk_before {c : Nat} (hc : c < lblkno sb dp.size * blockChunks sb) :
    GoodChunk imax needswap (chunkBlock sb d' (grow sb dp newblk) c)
        (chunkStart sb c) ∧
      chunkEntries sb needswap d' (grow sb dp newblk) c
        = chunkEntries sb needswap d dp c := by
  have hpos := h.geo.block_chunks.2
  have hgood := h.dir.chunks c (by
    rw [h.geo.dir_chunks h.dir.size_chunks]
    omega)
  have hi : c / blockChunks sb < lblkno sb dp.size :=
    (Nat.div_lt_iff_lt_mul hpos).mpr hc
  have hk := Nat.mod_lt c hpos
  have hsame := h.before hi hk
  have hindex : c / blockChunks sb * blockChunks sb + c % blockChunks sb = c := by
    rw [Nat.mul_comm]
    exact Nat.div_add_mod c _
  rw [hindex] at hsame
  have hstart : chunkStart sb c = DIRBLKSIZ * (c % blockChunks sb) := rfl
  rw [← hstart] at hsame
  exact ⟨hgood.congr hsame,
    (liveEntries_congr hgood.records (chunkView_congr hsame)).symm⟩

/-- **In the new block** every chunk but the first is empty. -/
theorem Growth.chunk_new {k : Nat} (hk0 : 0 < k) (hk : k < blockChunks sb) :
    GoodChunk imax needswap (chunkBlock sb d' (grow sb dp newblk)
        (lblkno sb dp.size * blockChunks sb + k))
        (chunkStart sb (lblkno sb dp.size * blockChunks sb + k)) ∧
      chunkEntries sb needswap d' (grow sb dp newblk)
        (lblkno sb dp.size * blockChunks sb + k) = [] := by
  obtain ⟨buf, -, hempty, htiled, hview⟩ := h.new hk
  obtain ⟨hgood, hlive⟩ := GoodChunk.of_view htiled hview (hempty hk0).records
  unfold chunkEntries
  rw [(chunk_at sb d' (grow sb dp newblk) hk).2]
  exact ⟨hgood, hlive.trans (hempty hk0).entries⟩

/-- **The first chunk of the new block** is as good as what has gone to it. -/
theorem Growth.chunk_moved :
    (GoodChunk imax needswap (chunkBlock sb d' (grow sb dp newblk)
        (lblkno sb dp.size * blockChunks sb))
        (chunkStart sb (lblkno sb dp.size * blockChunks sb)) ↔
      ValidRecords imax (area firstblk) 0 DIRBLKSIZ) ∧
    (ValidRecords imax (area firstblk) 0 DIRBLKSIZ →
      chunkEntries sb needswap d' (grow sb dp newblk)
        (lblkno sb dp.size * blockChunks sb) = liveEntries (area firstblk) 0) := by
  have hpos := h.geo.block_chunks.2
  obtain ⟨buf, hbuf, -, htiled, hview⟩ := h.new hpos
  have hstart := (chunk_at sb d' (grow sb dp newblk) (i := lblkno sb dp.size) hpos).2
  rw [hbuf rfl] at hview
  rw [Nat.add_zero, Nat.mul_zero] at htiled hview hstart
  have hend : 0 + DIRBLKSIZ = DIRBLKSIZ := Nat.zero_add _
  unfold chunkEntries
  rw [hstart]
  refine ⟨⟨fun hgood => ?_, fun hvalid => ?_⟩, fun hvalid => ?_⟩
  · have hrecords := hgood.records.congr hview
    rwa [hend] at hrecords
  · exact (GoodChunk.of_view htiled hview (hend.symm ▸ hvalid)).1
  · exact (GoodChunk.of_view htiled hview (hend.symm ▸ hvalid)).2

/-- **In the last block** the first chunk is empty, and the others have their
entries. -/
theorem Growth.chunk_last {k : Nat} (hk : k < lastChunks sb dp) :
    GoodChunk imax needswap (chunkBlock sb d' (grow sb dp newblk)
        ((lblkno sb dp.size + 1) * blockChunks sb + k))
        (chunkStart sb ((lblkno sb dp.size + 1) * blockChunks sb + k)) ∧
      (k = 0 → chunkEntries sb needswap d' (grow sb dp newblk)
        ((lblkno sb dp.size + 1) * blockChunks sb + k) = []) ∧
      (0 < k → chunkEntries sb needswap d' (grow sb dp newblk)
        ((lblkno sb dp.size + 1) * blockChunks sb + k)
          = chunkEntries sb needswap d dp (lblkno sb dp.size * blockChunks sb + k)) := by
  have hk' : k < blockChunks sb := hk.trans (h.geo.lastChunks_lt h.dir.size_chunks)
  have hold := h.dir.chunks (lblkno sb dp.size * blockChunks sb + k) (by
    rw [h.geo.dir_chunks h.dir.size_chunks]
    omega)
  obtain ⟨buf, hempty, hkept, htiled, hview⟩ := h.last hk
  unfold chunkEntries
  rw [(chunk_at sb d' (grow sb dp newblk) hk').2, (chunk_at sb d dp hk').2] at *
  obtain rfl | hk0 := Nat.eq_zero_or_pos k
  · obtain ⟨hgood, hlive⟩ := GoodChunk.of_view htiled hview (hempty rfl).records
    exact ⟨hgood, fun _ => hlive.trans (hempty rfl).entries,
      fun hlt => absurd hlt (Nat.lt_irrefl 0)⟩
  · rw [hkept hk0] at hview
    obtain ⟨hgood, hlive⟩ := GoodChunk.of_view htiled hview hold.records
    exact ⟨hgood, fun hzero => absurd hzero (by omega), fun _ => hlive⟩

/-- **Every chunk is good** if what has gone to the new block is. -/
theorem Growth.chunks (hvalid : ValidRecords imax (area firstblk) 0 DIRBLKSIZ) :
    ∀ c < (grow sb dp newblk).size / DIRBLKSIZ,
      GoodChunk imax needswap (chunkBlock sb d' (grow sb dp newblk) c)
        (chunkStart sb c) := by
  intro c hc
  rw [h.grown_chunks, Nat.succ_mul] at hc
  obtain hlt | hge := Nat.lt_or_ge c (lblkno sb dp.size * blockChunks sb)
  · exact (h.chunk_before hlt).1
  · obtain ⟨k, rfl⟩ := Nat.exists_eq_add_of_le hge
    obtain hk | hk := Nat.lt_or_ge k (blockChunks sb)
    · obtain rfl | hk0 := Nat.eq_zero_or_pos k
      · exact h.chunk_moved.1.mpr hvalid
      · exact (h.chunk_new hk0 hk).1
    · obtain ⟨j, rfl⟩ := Nat.exists_eq_add_of_le hk
      have hlast := (h.chunk_last (k := j) (by omega)).1
      rw [Nat.succ_mul, Nat.add_assoc] at hlast
      exact hlast

/-- **The entries**: those of the chunk that has gone to the new block stand
before those of the last block, whose first chunk does not count any more. -/
theorem Growth.entries (hvalid : ValidRecords imax (area firstblk) 0 DIRBLKSIZ) :
    dirEntries sb needswap d' (grow sb dp newblk)
      = (List.range (lblkno sb dp.size * blockChunks sb)).flatMap
          (chunkEntries sb needswap d dp)
        ++ (liveEntries (area firstblk) 0
          ++ (List.range (lastChunks sb dp)).flatMap fun k =>
            if k = 0 then []
            else chunkEntries sb needswap d dp (lblkno sb dp.size * blockChunks sb + k)) := by
  have hpos := h.geo.block_chunks.2
  unfold dirEntries
  rw [h.grown_chunks, Nat.succ_mul, Nat.add_assoc, List.range_add, List.flatMap_append,
    List.range_add, List.map_append, List.flatMap_append, List.map_map]
  congr 1
  · exact flatMap_range_congr fun c hc => (h.chunk_before hc).2
  · rw [List.flatMap_map, List.flatMap_map]
    congr 1
    · rw [flatMap_range_first hpos fun k hk0 hk => (h.chunk_new hk0 hk).2]
      exact h.chunk_moved.2 hvalid
    · refine flatMap_range_congr fun k hk => ?_
      obtain ⟨-, hfirst, hrest⟩ := h.chunk_last hk
      rw [Nat.succ_mul, Nat.add_assoc] at hfirst hrest
      split
      · exact hfirst ‹_›
      · exact hrest (Nat.pos_of_ne_zero ‹_›)

omit h in
/-- The entries before, in the same way. -/
theorem GoodDir.entries (hdir : GoodDir sb needswap d dp imax blockmap)
    (hgeo : GrowGeometry sb) :
    dirEntries sb needswap d dp
      = (List.range (lblkno sb dp.size * blockChunks sb)).flatMap
          (chunkEntries sb needswap d dp)
        ++ (List.range (lastChunks sb dp)).flatMap fun k =>
          chunkEntries sb needswap d dp (lblkno sb dp.size * blockChunks sb + k) := by
  unfold dirEntries
  rw [hgeo.dir_chunks hdir.size_chunks, List.range_add, List.flatMap_append,
    List.flatMap_map]

/-! ## §3. The inode and the block map. -/

/-- The block map with the new block. -/
def mapWith (sb : Superblock) (blockmap : Nat → Bool) (newblk : Nat) (f : Nat) : Bool :=
  blockmap f || decide (newblk ≤ f ∧ f < newblk + sb.fragsPerBlock)

/-- **A block of the directory that has grown** is the new one, or one that it had
before: the same one, or the last one moved up. -/
theorem Growth.block {i : Fin 12} (hi : i * sb.blockSize < dp.size + sb.blockSize) :
    ((i : Nat) = lblkno sb dp.size ∧ (grow sb dp newblk).db i = newblk ∧
      heldFrags sb (dp.size + sb.blockSize) i = sb.fragsPerBlock) ∨
    ∃ j : Fin 12, j * sb.blockSize < dp.size ∧
      (grow sb dp newblk).db i = dp.db j ∧
      heldFrags sb (dp.size + sb.blockSize) i = heldFrags sb dp.size j ∧
      ((i : Nat) < lblkno sb dp.size ∧ j = i ∨
        (i : Nat) = lblkno sb dp.size + 1 ∧ (j : Nat) = lblkno sb dp.size) := by
  have hroom := h.dir.room
  have hlast := h.dir.last_val
  obtain ⟨hnew, hmoved, hkept⟩ := grow_db hroom newblk
  obtain ⟨hblock, hchunks⟩ := h.geo.block_chunks
  have hpos : 0 < sb.blockSize := by
    rw [hblock]
    exact Nat.mul_pos (by decide) hchunks
  have hdown : lblkno sb dp.size * sb.blockSize ≤ dp.size := Nat.div_mul_le_self _ _
  have hup : dp.size < (lblkno sb dp.size + 1) * sb.blockSize := by
    rw [Nat.mul_comm]
    exact Nat.lt_mul_div_succ dp.size hpos
  obtain hlt | heq | hgt := Nat.lt_trichotomy (i : Nat) (lblkno sb dp.size)
  · -- a block before the last one
    have hle := Nat.mul_le_mul_right sb.blockSize (Nat.succ_le_of_lt hlt)
    have hle' : ((i : Nat) + 1) * sb.blockSize ≤ dp.size := hle.trans hdown
    refine .inr ⟨i, ?_, hkept i ?_ ?_, ?_, .inl ⟨hlt, rfl⟩⟩
    · rw [Nat.succ_mul] at hle'
      omega
    · intro hi'
      rw [hi', hlast] at hlt
      omega
    · intro hi'
      have hval : (i : Nat) = (lblkno sb dp.size + 1) % 12 := congrArg Fin.val hi'
      unfold NDADDR at hroom
      omega
    · rw [h.geo.heldFrags_whole hle', h.geo.heldFrags_whole (hle'.trans (Nat.le_add_right _ _))]
  · -- the new block
    have hi' : i = Fin.ofNat 12 (lblkno sb dp.size) := Fin.ext (heq.trans hlast.symm)
    refine .inl ⟨heq, hi' ▸ hnew, h.geo.heldFrags_whole ?_⟩
    rw [heq, Nat.succ_mul]
    omega
  · -- the last block, one further up
    have hone : (i : Nat) = lblkno sb dp.size + 1 := by
      by_contra hne
      have hle := Nat.mul_le_mul_right sb.blockSize
        (show lblkno sb dp.size + 1 + 1 ≤ (i : Nat) by omega)
      rw [Nat.succ_mul] at hle
      omega
    have hi' : i = Fin.ofNat 12 (lblkno sb dp.size + 1) := by
      refine Fin.ext (hone.trans (Nat.mod_eq_of_lt ?_).symm)
      unfold NDADDR at hroom
      omega
    have hin : lblkno sb dp.size * sb.blockSize < dp.size := by
      rw [hone, Nat.succ_mul] at hi
      omega
    have hragged : dp.size % sb.blockSize ≠ 0 := by
      have hdiv := Nat.div_add_mod dp.size sb.blockSize
      unfold lblkno at hin
      rw [Nat.mul_comm] at hin
      omega
    have hchunk := h.geo.lastChunks_pos h.dir.size_chunks hragged
    refine .inr ⟨Fin.ofNat 12 (lblkno sb dp.size), ?_, hi' ▸ hmoved, ?_,
      .inr ⟨hone, hlast⟩⟩
    · rw [hlast]
      exact hin
    · have hfrags := h.geo.lastSize_frags h.dir.size_chunks hroom hchunk
      rw [hlast, hone]
      show lastSize sb dp / sb.fragSize = _
      rw [hfrags, Nat.mul_div_cancel _ h.geo.fragSize_pos]

/-- **The size, the pointers and the block map agree again.** -/
theorem Growth.pointers :
    PointersAgree sb (grow sb dp newblk) (mapWith sb blockmap newblk) where
  held := by
    intro i hi
    obtain ⟨-, hdb, hfrags⟩ | ⟨j, hj, hdb, hfrags, -⟩ := h.block hi
    · rw [hdb]
      refine ⟨h.new_ne, ?_, fun k hk => ?_⟩
      · exact hfrags ▸ h.new_in
      · have hk' : k < sb.fragsPerBlock := hfrags ▸ hk
        unfold mapWith
        rw [Bool.or_eq_true, decide_eq_true_eq]
        exact .inr ⟨by omega, by omega⟩
    · obtain ⟨hne, hend, hused⟩ := h.dir.pointers.held j hj
      rw [hdb]
      refine ⟨hne, hfrags ▸ hend, fun k hk => ?_⟩
      unfold mapWith
      rw [hused k (hfrags ▸ hk), Bool.true_or]
  spare := by
    intro i hi
    have hle : dp.size + sb.blockSize ≤ i * sb.blockSize := hi
    have hroom := h.dir.room
    have hup : lblkno sb dp.size * sb.blockSize ≤ dp.size := Nat.div_mul_le_self _ _
    obtain ⟨hnew, hmoved, hkept⟩ := grow_db hroom newblk
    have hpos : 0 < sb.blockSize := by
      rw [h.geo.block_chunks.1]
      exact Nat.mul_pos (by decide) h.geo.block_chunks.2
    have hfar : lblkno sb dp.size < (i : Nat) := by
      by_contra hno
      have := Nat.mul_le_mul_right sb.blockSize (not_lt.mp hno)
      omega
    by_cases hone : i = Fin.ofNat 12 (lblkno sb dp.size + 1)
    · rw [hone, hmoved]
      refine h.dir.pointers.spare _ ?_
      have hval : (i : Nat) = lblkno sb dp.size + 1 := by
        rw [hone]
        refine Nat.mod_eq_of_lt ?_
        unfold NDADDR at hroom
        omega
      rw [h.dir.last_val]
      rw [hval, Nat.succ_mul] at hle
      omega
    · rw [hkept i (fun hi' => by rw [hi', h.dir.last_val] at hfar; omega) hone]
      exact h.dir.pointers.spare i (by omega)
  apart := by
    intro i i' hne hi hi' k hk l hl
    obtain ⟨hi₀, hdb, hfrags⟩ | ⟨j, hj, hdb, hfrags, hjs⟩ := h.block hi
    · obtain ⟨hi₁, -, -⟩ | ⟨j', hj', hdb', hfrags', -⟩ := h.block hi'
      · exact absurd (Fin.ext (hi₀.trans hi₁.symm)) hne
      · rw [hdb, hdb']
        intro heq
        have hfree := h.new_free k (hfrags ▸ hk)
        rw [heq, (h.dir.pointers.held j' hj').2.2 l (hfrags' ▸ hl)] at hfree
        cases hfree
    · obtain ⟨-, hdb', hfrags'⟩ | ⟨j', hj', hdb', hfrags', hjs'⟩ := h.block hi'
      · rw [hdb, hdb']
        intro heq
        have hfree := h.new_free l (hfrags' ▸ hl)
        rw [← heq, (h.dir.pointers.held j hj).2.2 k (hfrags ▸ hk)] at hfree
        cases hfree
      · have hother : j ≠ j' := by
          rintro rfl
          obtain ⟨hlt, rfl⟩ | ⟨hone, hlast⟩ := hjs
          · obtain ⟨-, rfl⟩ | ⟨-, hlast'⟩ := hjs'
            · exact hne rfl
            · omega
          · obtain ⟨hlt', rfl⟩ | ⟨hone', -⟩ := hjs'
            · omega
            · exact hne (Fin.ext (hone.trans hone'.symm))
        rw [hdb, hdb']
        exact h.dir.pointers.apart j j' hother hj hj' k (hfrags ▸ hk) l (hfrags' ▸ hl)
  blocks := by
    have hpos : 0 < sb.blockSize := by
      rw [h.geo.block_chunks.1]
      exact Nat.mul_pos (by decide) h.geo.block_chunks.2
    show dp.blocks + UInt32.ofNat (NSPB sb) = UInt32.ofNat (sb.sectorsPerFrag *
      ((dp.size + sb.blockSize) / sb.blockSize * sb.fragsPerBlock
        + ((dp.size + sb.blockSize) % sb.blockSize + sb.fragSize - 1) / sb.fragSize))
    rw [h.dir.pointers.blocks, ← UInt32.ofNat_add, Nat.add_div_right _ hpos,
      Nat.add_mod_right]
    congr 1
    unfold NSPB
    ring

/-! ## §4. Grown or not. -/

/-- **A directory with a partial last block has grown**, if its first chunk is
what has gone to the new block. -/
theorem Growth.grown_ragged (hragged : dp.size % sb.blockSize ≠ 0)
    (hvalid : ValidRecords imax (area firstblk) 0 DIRBLKSIZ)
    (hlive : liveEntries (area firstblk) 0
      = chunkEntries sb needswap d dp (lblkno sb dp.size * blockChunks sb)) :
    Grown sb needswap imax d d' blockmap (mapWith sb blockmap newblk) dp
      (grow sb dp newblk) where
  entries := by
    have hpos := h.geo.lastChunks_pos h.dir.size_chunks hragged
    rw [h.entries hvalid, h.dir.entries h.geo, hlive]
    congr 1
    exact flatMap_range_moved
      (f := fun k => chunkEntries sb needswap d dp (lblkno sb dp.size * blockChunks sb + k))
      hpos
  chunks := h.chunks hvalid
  added := by
    intro k hk
    have hpos := h.geo.lastChunks_pos h.dir.size_chunks hragged
    unfold firstAdded
    rw [if_neg hragged, Nat.add_assoc]
    obtain hlt | hge := Nat.lt_or_ge (1 + k) (blockChunks sb)
    · exact (h.chunk_new (by omega) hlt).2
    · have hhead := (h.chunk_last hpos).2.1 rfl
      rw [Nat.add_zero, Nat.succ_mul] at hhead
      rw [show 1 + k = blockChunks sb by omega]
      exact hhead
  size := rfl
  pointers := h.pointers
  map := ⟨newblk, h.new_free, fun _ => rfl⟩

/-- **A directory with a full last block has grown exactly if** what has gone to
the new block is an empty chunk. -/
theorem Growth.grown_full_iff (hfull : dp.size % sb.blockSize = 0) :
    Grown sb needswap imax d d' blockmap (mapWith sb blockmap newblk) dp
      (grow sb dp newblk) ↔ EmptyChunk imax (area firstblk) 0 := by
  have hpos := h.geo.block_chunks.2
  have hzero : lastChunks sb dp = 0 := by
    unfold lastChunks
    rw [hfull, Nat.zero_div]
  have hfirst : firstAdded sb dp = lblkno sb dp.size * blockChunks sb := by
    unfold firstAdded
    rw [if_pos hfull, Nat.add_zero]
  have hend : 0 + DIRBLKSIZ = DIRBLKSIZ := Nat.zero_add _
  constructor
  · intro hgrown
    have hvalid := h.chunk_moved.1.mp (hgrown.chunks _ (by
      rw [h.grown_chunks, Nat.succ_mul]
      omega))
    have hnone := hgrown.added 0 hpos
    rw [hfirst, Nat.add_zero, h.chunk_moved.2 hvalid] at hnone
    exact ⟨hend.symm ▸ hvalid, hnone⟩
  · intro hempty
    have hvalid := hempty.records
    rw [hend] at hvalid
    refine ⟨?_, h.chunks hvalid, ?_, rfl, h.pointers, ⟨newblk, h.new_free, fun _ => rfl⟩⟩
    · rw [h.entries hvalid, h.dir.entries h.geo, hempty.entries, hzero]
      rfl
    · intro k hk
      rw [hfirst]
      obtain rfl | hk0 := Nat.eq_zero_or_pos k
      · rw [Nat.add_zero, h.chunk_moved.2 hvalid, hempty.entries]
      · exact (h.chunk_new hk0 hk).2

end Grown

end Layout

end NextUfs.Fsck
