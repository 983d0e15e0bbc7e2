/-
  NextUfs.Fsck.ExpandDirSpec
  ──────────────────────────
  **CHUNKS THAT ARE WRITTEN AND READ AGAIN.**

  The growth of a directory reads two blocks and writes them back through one
  buffer.  A block of chunks that are tiled is turned chunk by chunk, whatever
  is behind the chunks, so each chunk can be looked at alone.  The growth itself
  is taken apart once, at the buffers it asks for one after the other.

    • `getblk_read`      — what a block that is not in the buffer is read as,
    • `flush_writes`     — what the device holds when the buffer is written,
    • `hostBlock_chunk`  — one chunk of a block that has been read,
    • `diskBlock_chunk`  — one chunk of a block that is written,
    • `emptydir_chunk`   — a chunk that `emptydir` has been put in,
    • `allocblk_cases`   — a block from the map, or none,
    • `expanddir_eq`     — the growth in terms of the buffers it asks for,
    • `expanddir_steps`  — what a growth that succeeds has come through,
    • `Steps.written`    — what it has left on the device.
-/
import NextUfs.Fsck.ExpandDir

namespace NextUfs.Fsck

open Window Address

/-! ## §1. The buffer. -/

/-- A block of the device in the order of the host. -/
def hostBlock (needswap : Bool) (size : Nat) (block : Nat → UInt8) : Nat → UInt8 :=
  if needswap then swapDirblock block size false else block

/-- A block of the host in the order of the device. -/
def diskBlock (needswap : Bool) (size : Nat) (buf : Nat → UInt8) : Nat → UInt8 :=
  if needswap then swapDirblock buf size true else buf

section Buffer

variable {sb : Superblock} {needswap : Bool} {s s' : DirIo} {blk : BitVec 32}
  {size : Nat}

/-- A block that is in the buffer already. -/
theorem getblk_hit (h : s.fileblk.bno = fsbtodb sb blk) :
    getblk sb needswap blk size s = s := by
  unfold getblk
  exact if_pos h

theorem flush_clean (h : s.fileblk.dirty = false) : flush needswap s = s := by
  unfold flush
  rw [h]
  rfl

/-- Flushing leaves nothing to be written, and what the device is. -/
theorem flush_keeps (needswap : Bool) (s : DirIo) :
    (flush needswap s).fileblk.dirty = false ∧
      (flush needswap s).dev.bad = s.dev.bad ∧
      (flush needswap s).dev.writable = s.dev.writable := by
  have hwrite : ∀ out bno size, (bwrite s.dev out bno size).bad = s.dev.bad ∧
      (bwrite s.dev out bno size).writable = s.dev.writable := by
    intro out bno size
    unfold bwrite
    split
    · exact ⟨rfl, rfl⟩
    · exact ⟨rfl, rfl⟩
  unfold flush
  split
  · dsimp only
    split
    · exact ⟨rfl, hwrite _ _ _⟩
    · exact ⟨rfl, hwrite _ _ _⟩
  next h => exact ⟨Bool.not_eq_true _ ▸ h, rfl, rfl⟩

/-- **What is written** of a buffer that is dirty. -/
theorem flush_writes (hdirty : s.fileblk.dirty = true)
    (hswapped : s.fileblk.swapped = needswap) (hwritable : s.dev.writable = true) :
    (flush needswap s).dev.data
      = store s.dev.data (dbtob s.fileblk.bno).toNat
          (load (diskBlock needswap s.fileblk.size s.fileblk.buf) 0
            s.fileblk.size) := by
  unfold flush diskBlock bwrite
  rw [hdirty]
  cases needswap with
  | true => simp only [hswapped, hwritable, Bool.and_self, if_true]
  | false => simp only [hwritable, Bool.false_and, if_true, Bool.false_eq_true, if_false]

/-- **Nothing else is written.** -/
theorem flush_outside {a : Nat} (h : a < (dbtob s.fileblk.bno).toNat ∨
      (dbtob s.fileblk.bno).toNat + s.fileblk.size ≤ a) :
    (flush needswap s).dev.data a = s.dev.data a := by
  have hwrite : ∀ out, (bwrite s.dev out s.fileblk.bno s.fileblk.size).data a
      = s.dev.data a := by
    intro out
    unfold bwrite
    split
    · exact store_out (by rwa [length_load])
    · rfl
  unfold flush
  split
  · dsimp only
    split
    · exact hwrite _
    · exact hwrite _
  · rfl

/-- A block read without errors. -/
theorem bread_same {d : Device} {buf : Nat → UInt8}
    (h : (bread d (fsbtodb sb blk) size buf).2 = 0) :
    Same (bread d (fsbtodb sb blk) size buf).1 (d.block sb blk) 0 size := by
  have hgood : ∀ i < deviceBlocks size,
      d.bad ((dbtob (fsbtodb sb blk)).toNat / DEV_BSIZE + i) = false := by
    intro i hi
    have hall := List.countP_eq_zero.mp h i (List.mem_range.mpr hi)
    exact Bool.not_eq_true _ ▸ hall
  intro i _ hi
  have hsector : i / DEV_BSIZE < deviceBlocks size := by
    unfold deviceBlocks DEV_BSIZE
    omega
  show (if i < size then _ else _) = _
  rw [if_pos hi]
  unfold Device.byteRead
  rw [hgood _ hsector]
  rfl

/-- The block `blk` has been read into the buffer, from a device with what was
in it. -/
structure ReadFrom (sb : Superblock) (needswap : Bool) (blk : BitVec 32)
    (n : Nat) (s s' : DirIo) : Prop where
  dev : s'.dev = (flush needswap s).dev
  bno : s'.fileblk.bno = fsbtodb sb blk
  size : s'.fileblk.size = n
  clean : s'.fileblk.dirty = false
  swapped : s'.fileblk.swapped = needswap
  buf : Same s'.fileblk.buf (hostBlock needswap n (s'.dev.block sb blk)) 0 n

/-- **A block that is not in the buffer** is asked for: what was in the buffer is
written, and the buffer is clean. -/
theorem getblk_miss (h : s.fileblk.bno ≠ fsbtodb sb blk) :
    (getblk sb needswap blk size s).dev = (flush needswap s).dev ∧
      (getblk sb needswap blk size s).fileblk.bno = fsbtodb sb blk ∧
      (getblk sb needswap blk size s).fileblk.size = size ∧
      (getblk sb needswap blk size s).fileblk.dirty = false := by
  unfold getblk
  rw [if_neg h]
  exact ⟨rfl, rfl, rfl, (flush_keeps needswap s).1⟩

/-- **A block that is not in the buffer** is read, if there are no errors. -/
theorem getblk_read (h : s.fileblk.bno ≠ fsbtodb sb blk)
    (herrs : (getblk sb needswap blk size s).fileblk.errs = 0) :
    ReadFrom sb needswap blk size s (getblk sb needswap blk size s) := by
  have hclean := (flush_keeps needswap s).1
  unfold getblk at herrs ⊢
  rw [if_neg h] at herrs ⊢
  dsimp only at herrs ⊢
  have hsame := bread_same herrs
  refine ⟨rfl, rfl, rfl, hclean, ?_, ?_⟩
  · rw [herrs]
    exact Bool.and_true _
  · rw [herrs]
    unfold hostBlock
    cases needswap with
    | true => exact swapDirblock_same false hsame
    | false => exact hsame

end Buffer

/-! ## §2. Chunks. -/

section Chunks

variable {imax size t k : Nat} {needswap pass : Bool} {block buf f g : Nat → UInt8}

/-- Chunks that are tiled tile what they make up. -/
theorem tiledBy_chunks (h : ∀ j < k, TiledBy pass buf (DIRBLKSIZ * j)
    (DIRBLKSIZ * j + DIRBLKSIZ)) : TiledBy pass buf 0 (DIRBLKSIZ * k) := by
  induction k with
  | zero => exact .done _
  | succ k ih =>
    have hlast := h k (Nat.lt_succ_self k)
    rw [← Nat.mul_succ] at hlast
    exact (ih fun j hj => h j (Nat.lt_succ_of_lt hj)).append hlast

/-- **One chunk of a block that has been read.** -/
theorem hostBlock_chunk (h : ∀ j ≤ k, needswap = true → TiledBy false block
      (DIRBLKSIZ * j) (DIRBLKSIZ * j + DIRBLKSIZ))
    (hsize : DIRBLKSIZ * k + DIRBLKSIZ ≤ size) :
    Same (hostBlock needswap size block) (chunkView needswap block (DIRBLKSIZ * k))
      (DIRBLKSIZ * k) (DIRBLKSIZ * k + DIRBLKSIZ) := by
  unfold hostBlock chunkView
  cases needswap with
  | false => exact Same.refl _ _ _
  | true =>
    exact (tiledBy_chunks fun j hj => h j hj.le rfl).in_step (h k le_rfl rfl) hsize

/-- **One chunk of a block that is written**, and what is read of it again. -/
theorem diskBlock_chunk (h : ∀ j ≤ k, needswap = true → TiledBy true buf
      (DIRBLKSIZ * j) (DIRBLKSIZ * j + DIRBLKSIZ))
    (hsize : DIRBLKSIZ * k + DIRBLKSIZ ≤ size) :
    (needswap = true → TiledBy false (diskBlock needswap size buf) (DIRBLKSIZ * k)
      (DIRBLKSIZ * k + DIRBLKSIZ)) ∧
    Same (chunkView needswap (diskBlock needswap size buf) (DIRBLKSIZ * k)) buf
      (DIRBLKSIZ * k) (DIRBLKSIZ * k + DIRBLKSIZ) := by
  unfold diskBlock chunkView
  cases needswap with
  | false => exact ⟨fun hno => absurd hno Bool.false_ne_true, Same.refl _ _ _⟩
  | true =>
    have htile := h k le_rfl rfl
    have hstep : Same (swapDirblock buf size true)
        (swapRange true (DIRBLKSIZ * k) (DIRBLKSIZ * k + DIRBLKSIZ) buf)
        (DIRBLKSIZ * k) (DIRBLKSIZ * k + DIRBLKSIZ) :=
      (tiledBy_chunks fun j hj => h j hj.le rfl).in_step htile hsize
    refine ⟨fun _ => htile.swapped.congr hstep.symm, ?_⟩
    have hback := (swapRange_local false (DIRBLKSIZ * k)
      (DIRBLKSIZ * k + DIRBLKSIZ)).inside _ _ hstep
    rw [show swapRange false _ _ (swapRange true _ _ buf) = buf from htile.back] at hback
    exact hback

theorem chunkView_congr (h : Same f g t (t + DIRBLKSIZ)) :
    Same (chunkView needswap f t) (chunkView needswap g t) t (t + DIRBLKSIZ) := by
  unfold chunkView
  cases needswap with
  | false => exact h
  | true => exact (swapRange_local false t _).inside f g h

/-- **One chunk of a block that has been written**, by what was in the buffer. -/
theorem written_chunk (hblock : Same block (diskBlock needswap size buf) 0 size)
    (h : ∀ j ≤ k, needswap = true → TiledBy true buf (DIRBLKSIZ * j)
      (DIRBLKSIZ * j + DIRBLKSIZ))
    (hsize : DIRBLKSIZ * k + DIRBLKSIZ ≤ size) :
    (needswap = true → TiledBy false block (DIRBLKSIZ * k)
      (DIRBLKSIZ * k + DIRBLKSIZ)) ∧
    Same (chunkView needswap block (DIRBLKSIZ * k)) buf (DIRBLKSIZ * k)
      (DIRBLKSIZ * k + DIRBLKSIZ) := by
  have hchunk := hblock.mono (Nat.zero_le (DIRBLKSIZ * k)) hsize
  obtain ⟨htiled, hview⟩ := diskBlock_chunk h hsize
  exact ⟨fun hswap => (htiled hswap).congr hchunk.symm,
    (chunkView_congr hchunk).trans hview⟩

/-- A chunk is good by its bytes. -/
theorem GoodChunk.congr (h : GoodChunk imax needswap f t)
    (hs : Same f g t (t + DIRBLKSIZ)) : GoodChunk imax needswap g t where
  tiled hswap := (h.tiled hswap).congr hs
  records := h.records.congr (chunkView_congr hs)

/-! ## §3. Entries. -/

/-- The entries of good records depend on their bytes. -/
theorem liveFrom_congr {lo hi : Nat} (h : ValidRecords imax f lo hi)
    (hs : Same f g lo hi) : ∀ fuel, liveFrom f hi fuel lo = liveFrom g hi fuel lo := by
  induction h with
  | done hi =>
    intro fuel
    cases fuel with
    | zero => rfl
    | succ fuel =>
      unfold liveFrom
      rw [if_pos le_rfl, if_pos le_rfl]
  | @step lo hi hok hrest ih =>
    intro fuel
    obtain ⟨h12, hin, -, hname⟩ := recordOk_bounds hok
    have hino : dIno g lo = dIno f lo :=
      le32_congr (hs.mono (by omega) (by omega)).symm
    have hlen : dReclen g lo = dReclen f lo :=
      le16_congr (hs.mono (by omega) (by omega)).symm
    have hnamlen : dNamlen g lo = dNamlen f lo :=
      le16_congr (hs.mono (by omega) (by omega)).symm
    have hload : load g (lo + 8) (dNamlen f lo) = load f (lo + 8) (dNamlen f lo) :=
      load_congr (hs.mono (by omega) (by omega)).symm
    cases fuel with
    | zero => rfl
    | succ fuel =>
      unfold liveFrom
      rw [hino, hlen, hnamlen, hload, ih (hs.mono (by omega) le_rfl) fuel]

theorem liveEntries_congr (h : ValidRecords imax f t (t + DIRBLKSIZ))
    (hs : Same f g t (t + DIRBLKSIZ)) : liveEntries f t = liveEntries g t :=
  liveFrom_congr h hs _

/-- **A chunk without entries**: its records are good, and none is in use. -/
structure EmptyChunk (imax : Nat) (buf : Nat → UInt8) (t : Nat) : Prop where
  records : ValidRecords imax buf t (t + DIRBLKSIZ)
  entries : liveEntries buf t = []

theorem EmptyChunk.congr (h : EmptyChunk imax f t) (hs : Same f g t (t + DIRBLKSIZ)) :
    EmptyChunk imax g t where
  records := h.records.congr hs
  entries := (liveEntries_congr h.records hs).symm.trans h.entries

/-- **A chunk of the device** that shows good records. -/
theorem GoodChunk.of_view (htiled : needswap = true → TiledBy false block t
      (t + DIRBLKSIZ))
    (hview : Same (chunkView needswap block t) buf t (t + DIRBLKSIZ))
    (h : ValidRecords imax buf t (t + DIRBLKSIZ)) :
    GoodChunk imax needswap block t ∧
      liveEntries (chunkView needswap block t) t = liveEntries buf t :=
  ⟨⟨htiled, h.congr hview.symm⟩, (liveEntries_congr h hview.symm).symm⟩

theorem length_emptydir : emptydir.length = 24 := rfl

/-- **A chunk that `emptydir` has been put in.** -/
theorem emptydir_chunk (hmax : 0 < imax)
    (h : ∀ i < 24, buf (t + i) = emptydir.getD i 0) : EmptyChunk imax buf t := by
  have hino : dIno buf t = 0 := by
    unfold dIno le32 le16
    rw [h 1 (by omega), h 3 (by omega), show buf t = emptydir.getD 0 0 from h 0 (by omega),
      show buf (t + 2) = emptydir.getD 2 0 from h 2 (by omega)]
    rfl
  have hlen : dReclen buf t = DIRBLKSIZ := by
    unfold dReclen le16
    rw [h 4 (by omega), show buf (t + 4 + 1) = emptydir.getD 5 0 from h 5 (by omega)]
    rfl
  have hnamlen : dNamlen buf t = 0 := by
    unfold dNamlen le16
    rw [h 6 (by omega), show buf (t + 6 + 1) = emptydir.getD 7 0 from h 7 (by omega)]
    rfl
  have hok : recordOk imax buf t (t + DIRBLKSIZ - t) = true := by
    unfold recordOk DIRSIZ
    rw [hino, hlen, hnamlen, Nat.add_sub_cancel_left]
    simp only [hmax, true_and, BEq.rfl, Bool.true_or, Bool.and_true]
    decide
  refine ⟨.step hok ?_, ?_⟩
  · rw [hlen]
    exact .done _
  · unfold liveEntries
    have hfuel : DIRBLKSIZ = 1022 + 1 + 1 := rfl
    have hlt : ¬t + DIRBLKSIZ ≤ t := by unfold DIRBLKSIZ; omega
    rw [show liveFrom buf (t + DIRBLKSIZ) DIRBLKSIZ t
      = liveFrom buf (t + DIRBLKSIZ) (1022 + 1 + 1) t from rfl]
    rw [liveFrom, if_neg hlt, if_pos hino, hlen, liveFrom, if_pos le_rfl]
    rfl

/-- Chunks 1 to `n` after `emptydir` has been put in them. -/
theorem emptyChunks_chunk (hmax : 0 < imax) (buf : Nat → UInt8) {n : Nat} (hk : 0 < k)
    (hn : k ≤ n) : EmptyChunk imax (emptyChunks n buf) (DIRBLKSIZ * k) := by
  induction n with
  | zero => omega
  | succ n ih =>
    obtain heq | hlt := Nat.eq_or_lt_of_le hn
    · refine emptydir_chunk hmax fun i hi => ?_
      rw [heq, emptyChunks, store_in (by rw [length_emptydir]; exact hi)]
      exact (List.getD_eq_getElem _ _ _).symm
    · refine (ih (Nat.le_of_lt_succ hlt)).congr fun i _ hi => (store_out (.inl ?_)).symm
      have := Nat.mul_le_mul_left DIRBLKSIZ hlt
      rw [Nat.mul_succ] at this
      omega

/-- The first chunk is not touched. -/
theorem emptyChunks_first (n : Nat) (buf : Nat → UInt8) {i : Nat} (hi : i < DIRBLKSIZ) :
    emptyChunks n buf i = buf i := by
  induction n with
  | zero => rfl
  | succ n ih =>
    rw [emptyChunks, store_out (.inl (by
      have := Nat.mul_le_mul_left DIRBLKSIZ (Nat.le_add_left 1 n)
      omega))]
    exact ih

end Chunks

/-! ## §4. A block from the map. -/

section Alloc

variable {sb : Superblock} {blockmap : Nat → Bool} {frags i blk : Nat}

/-- What the loop over `j` finds. -/
theorem allocIn_some : ∀ {fuel j : Nat},
    allocIn sb blockmap frags i fuel j = some blk →
      blk ≤ i + (sb.fragsPerBlock - frags) ∧
        ∀ k < frags, blockmap (blk + k) = false := by
  intro fuel
  induction fuel with
  | zero => exact fun h => nomatch h
  | succ fuel ih =>
    intro j h
    unfold allocIn at h
    split at h
    case isTrue => cases h
    case isFalse hj =>
      cases hfind : (List.range frags).find? fun k => blockmap (i + j + k) with
      | some k =>
        rw [hfind] at h
        exact ih h
      | none =>
        rw [hfind] at h
        obtain rfl : i + j = blk := Option.some.inj h
        refine ⟨by omega, fun k hk => ?_⟩
        have hfree := List.find?_eq_none.mp hfind k (List.mem_range.mpr hk)
        exact Bool.not_eq_true _ ▸ hfree

/-- The state with `n` fragments from `blk` on in use. -/
def Repair.withBlock (s : Repair) (blk n : Nat) : Repair :=
  { s with
    blockmap := fun f => s.blockmap f || decide (blk ≤ f ∧ f < blk + n)
    nBlks := s.nBlks + n }

/-- **What `allocblk` does**: nothing, or it takes fragments of the disk that were
free. -/
theorem allocblk_cases (sb : Superblock) (frags : Nat) (s : Repair) :
    allocblk sb frags s = (0, s) ∨
      ∃ blk, 0 < frags ∧ blk + frags ≤ sb.fragCount ∧
        (∀ k < frags, s.blockmap (blk + k) = false) ∧
        allocblk sb frags s = (blk, s.withBlock blk frags) := by
  unfold allocblk
  by_cases hfrags : frags = 0 ∨ sb.fragsPerBlock < frags
  · exact .inl (if_pos hfrags)
  rw [if_neg hfrags]
  cases hfind : (allocBlocks sb).findSome? fun i =>
      allocIn sb s.blockmap frags i (sb.fragsPerBlock + 1) 0 with
  | none => exact .inl rfl
  | some b =>
    obtain ⟨i, hi, hin⟩ := List.exists_of_findSome?_eq_some hfind
    obtain ⟨hle, hfree⟩ := allocIn_some hin
    refine .inr ⟨b, by omega, ?_, hfree, rfl⟩
    unfold allocBlocks at hi
    obtain ⟨n, hn, rfl⟩ := List.mem_map.mp hi
    rw [List.mem_range] at hn
    -- the block starts below `fmax - fs_frag`
    have hpos : 0 < sb.fragsPerBlock := by omega
    have hlt : n * sb.fragsPerBlock < sb.fragCount - sb.fragsPerBlock := by
      have hmul := (Nat.lt_div_iff_mul_lt hpos).mp hn
      omega
    omega

end Alloc

/-! ## §5. A growth that succeeds. -/

/-- The buffer with other bytes, to be written. -/
def putBuf (buf : Nat → UInt8) (s : DirIo) : DirIo :=
  markDirty { s with fileblk := { s.fileblk with buf := buf } }

section Run

variable {sb : Superblock} {needswap yes : Bool} {dp : Inode} {newblk : Nat}
  {s : Repair}

/-- The bytes of the new block, when `buf` is what it was read as and `firstblk`
the chunk that moves. -/
def newChunks (sb : Superblock) (firstblk : Bytes) (buf : Nat → UInt8) : Nat → UInt8 :=
  emptyChunks ((sb.blockSize - 1) / DIRBLKSIZ) (store buf 0 firstblk)

/-- **The steps of a growth that succeeds**, with the block `newblk`: `io₁`,
`io₂` and `io₄` are the buffer after the three requests. -/
structure Steps (sb : Superblock) (needswap : Bool) (dp : Inode) (newblk : Nat)
    (io io₁ io₂ io₄ : DirIo) : Prop where
  last : io₁ = getblk sb needswap
    (BitVec.ofNat 32 (dp.db (Fin.ofNat 12 (lblkno sb dp.size))))
    (dblksize sb (dp.size + sb.blockSize) (lblkno sb dp.size + 1)) io
  new : io₂ = getblk sb needswap (BitVec.ofNat 32 newblk) sb.blockSize io₁
  newErrs : io₂.fileblk.errs = 0
  again : io₄ = getblk sb needswap
    (BitVec.ofNat 32 (dp.db (Fin.ofNat 12 (lblkno sb dp.size))))
    (dblksize sb (dp.size + sb.blockSize) (lblkno sb dp.size + 1))
    (putBuf (newChunks sb (load io₁.fileblk.buf 0 DIRBLKSIZ) io₂.fileblk.buf) io₂)
  lastErrs : io₁.fileblk.errs = 0
  againErrs : io₄.fileblk.errs = 0

/-- The pointers of an inode that has grown. -/
theorem grow_db (hroom : lblkno sb dp.size < NDADDR - 1) (newblk : Nat) :
    (grow sb dp newblk).db (Fin.ofNat 12 (lblkno sb dp.size)) = newblk ∧
      (grow sb dp newblk).db (Fin.ofNat 12 (lblkno sb dp.size + 1))
        = dp.db (Fin.ofNat 12 (lblkno sb dp.size)) ∧
      ∀ i : Fin 12, i ≠ Fin.ofNat 12 (lblkno sb dp.size) →
        i ≠ Fin.ofNat 12 (lblkno sb dp.size + 1) →
        (grow sb dp newblk).db i = dp.db i := by
  have hlast : lblkno sb dp.size < 12 - 1 := hroom
  unfold grow
  dsimp only
  generalize lblkno sb dp.size = lastbn at hlast ⊢
  have hne : (Fin.ofNat 12 (lastbn + 1) : Fin 12) ≠ Fin.ofNat 12 lastbn := by
    intro heq
    have hval : (lastbn + 1) % 12 = lastbn % 12 := congrArg Fin.val heq
    omega
  refine ⟨Function.update_self _ _ _, ?_, fun i h h' => ?_⟩
  · rw [Function.update_of_ne hne]
    exact Function.update_self _ _ _
  · rw [Function.update_of_ne h, Function.update_of_ne h']

section Requests

variable (sb : Superblock) (needswap : Bool) (dp : Inode) (newblk : Nat) (io : DirIo)

/-- The last block of the directory, and what is read of it. -/
def lastBlock : BitVec 32 :=
  BitVec.ofNat 32 (dp.db (Fin.ofNat 12 (lblkno sb dp.size)))

def lastSize : Nat := dblksize sb (dp.size + sb.blockSize) (lblkno sb dp.size + 1)

/-- The buffer when the last block has been asked for, -/
def askedLast : DirIo := getblk sb needswap (lastBlock sb dp) (lastSize sb dp) io

/-- then the new one, -/
def askedNew : DirIo :=
  getblk sb needswap (BitVec.ofNat 32 newblk) sb.blockSize (askedLast sb needswap dp io)

/-- the new one with the chunk that moves, -/
def filledNew : DirIo :=
  putBuf (newChunks sb (load (askedLast sb needswap dp io).fileblk.buf 0 DIRBLKSIZ)
    (askedNew sb needswap dp newblk io).fileblk.buf) (askedNew sb needswap dp newblk io)

/-- the last one again, -/
def askedAgain : DirIo :=
  getblk sb needswap (lastBlock sb dp) (lastSize sb dp)
    (filledNew sb needswap dp newblk io)

/-- and with `emptydir` in it, which is not marked as dirty before the operator
has been asked. -/
def refused : DirIo :=
  { askedAgain sb needswap dp newblk io with
    fileblk :=
      { (askedAgain sb needswap dp newblk io).fileblk with
        buf := store (askedAgain sb needswap dp newblk io).fileblk.buf 0 emptydir } }

end Requests

/-- **A growth with the block `newblk`**: one of its three requests fails, or the
operator refuses, and the block is given back; or it succeeds. -/
theorem expanddir_eq (hroom : lblkno sb dp.size < NDADDR - 1)
    (halloc : allocblk sb sb.fragsPerBlock s
      = (newblk, s.withBlock newblk sb.fragsPerBlock)) (hne : newblk ≠ 0) :
    expanddir sb needswap yes dp s =
      let back := fun io => shrink sb (grow sb dp newblk) (lblkno sb dp.size) newblk
        { s.withBlock newblk sb.fragsPerBlock with io := io }
      if (askedLast sb needswap dp s.io).fileblk.errs ≠ 0 then
        back (askedLast sb needswap dp s.io)
      else if (askedNew sb needswap dp newblk s.io).fileblk.errs ≠ 0 then
        back (askedNew sb needswap dp newblk s.io)
      else if (askedAgain sb needswap dp newblk s.io).fileblk.errs ≠ 0 then
        back (askedAgain sb needswap dp newblk s.io)
      else if yes then
        (grow sb dp newblk,
          { s.withBlock newblk sb.fragsPerBlock with
            io := markDirty (refused sb needswap dp newblk s.io)
            inodeDirty := true }, true)
      else back (refused sb needswap dp newblk s.io) := by
  unfold expanddir
  dsimp only
  rw [if_neg (not_le.mpr hroom), halloc]
  dsimp only
  rw [if_neg hne, (grow_db hroom newblk).2.1]
  rfl

/-- **A growth that succeeds** has taken the steps. -/
theorem expanddir_steps (hok : (expanddir sb needswap yes dp s).2.2 = true) :
    lblkno sb dp.size < NDADDR - 1 ∧ ∃ newblk io₁ io₂ io₄,
      newblk ≠ 0 ∧ newblk + sb.fragsPerBlock ≤ sb.fragCount ∧
      (∀ k < sb.fragsPerBlock, s.blockmap (newblk + k) = false) ∧
      Steps sb needswap dp newblk s.io io₁ io₂ io₄ ∧
      (expanddir sb needswap yes dp s).1 = grow sb dp newblk ∧
      (expanddir sb needswap yes dp s).2.1.io
        = putBuf (store io₄.fileblk.buf 0 emptydir) io₄ ∧
      (expanddir sb needswap yes dp s).2.1.blockmap
        = (s.withBlock newblk sb.fragsPerBlock).blockmap := by
  by_cases hroom : NDADDR - 1 ≤ lblkno sb dp.size
  · unfold expanddir at hok
    rw [if_pos hroom] at hok
    cases hok
  have hlast := not_le.mp hroom
  rcases allocblk_cases sb sb.fragsPerBlock s with
    hnone | ⟨newblk, -, hin, hfree, halloc⟩
  · unfold expanddir at hok
    rw [if_neg hroom, hnone] at hok
    dsimp only at hok
    rw [if_pos rfl] at hok
    cases hok
  by_cases hne : newblk = 0
  · unfold expanddir at hok
    rw [if_neg hroom, halloc] at hok
    dsimp only at hok
    rw [if_pos hne] at hok
    cases hok
  rw [expanddir_eq hlast halloc hne] at hok ⊢
  dsimp only at hok ⊢
  by_cases herrs₁ : (askedLast sb needswap dp s.io).fileblk.errs ≠ 0
  · rw [if_pos herrs₁] at hok
    cases hok
  rw [if_neg herrs₁] at hok ⊢
  by_cases herrs₂ : (askedNew sb needswap dp newblk s.io).fileblk.errs ≠ 0
  · rw [if_pos herrs₂] at hok
    cases hok
  rw [if_neg herrs₂] at hok ⊢
  by_cases herrs₄ : (askedAgain sb needswap dp newblk s.io).fileblk.errs ≠ 0
  · rw [if_pos herrs₄] at hok
    cases hok
  rw [if_neg herrs₄] at hok ⊢
  cases yes with
  | false => cases hok
  | true =>
    exact ⟨hlast, newblk, askedLast sb needswap dp s.io,
      askedNew sb needswap dp newblk s.io, askedAgain sb needswap dp newblk s.io, hne,
      hin, hfree, ⟨rfl, rfl, not_not.mp herrs₂, rfl, not_not.mp herrs₁,
        not_not.mp herrs₄⟩, rfl, rfl, rfl⟩

end Run

/-! ## §6. The device afterwards. -/

section Written

variable {sb : Superblock} {needswap : Bool} {dp : Inode} {newblk : Nat}
  {io io₁ io₂ io₄ : DirIo} {blk : BitVec 32} {size : Nat}

/-- A request leaves the device, once the buffer is flushed, as it would be
without it, and the buffer with the block. -/
theorem flush_after_getblk (sb : Superblock) (needswap : Bool) (blk : BitVec 32)
    (size : Nat) (io : DirIo) :
    (flush needswap (getblk sb needswap blk size io)).dev = (flush needswap io).dev ∧
      (getblk sb needswap blk size io).fileblk.bno = fsbtodb sb blk := by
  by_cases hhit : io.fileblk.bno = fsbtodb sb blk
  · rw [getblk_hit hhit]
    exact ⟨rfl, hhit⟩
  · obtain ⟨hdev, hbno, -, hclean⟩ := @getblk_miss sb needswap io blk size hhit
    rw [flush_clean hclean]
    exact ⟨hdev, hbno⟩

/-- What a store leaves of the block at another place. -/
theorem block_store_out {d d' : Device} {off : Nat} {bs : Bytes}
    (h : d'.data = store d.data off bs) {i : Nat}
    (hi : byteOffset sb blk + i < off ∨ off + bs.length ≤ byteOffset sb blk + i) :
    d'.block sb blk i = d.block sb blk i := by
  unfold Device.block
  rw [h]
  exact store_out hi

/-- What it leaves of the block itself. -/
theorem block_store_in {d d' : Device} {buf : Nat → UInt8}
    (h : d'.data = store d.data (byteOffset sb blk) (load buf 0 size)) :
    Same (d'.block sb blk) buf 0 size := by
  intro i _ hi
  unfold Device.block
  rw [h, store_in (by rwa [length_load]), getElem_load, Nat.zero_add]

/-- **What the device holds when the buffer has been flushed**: the new block, the
last block with `emptydir` at its start, and everything else as it was. -/
structure Written (sb : Superblock) (needswap : Bool) (dp : Inode) (newblk : Nat)
    (firstblk : Bytes) (d d' : Device) : Prop where
  new : ∃ buf, Same (d'.block sb (BitVec.ofNat 32 newblk))
    (diskBlock needswap sb.blockSize (newChunks sb firstblk buf)) 0 sb.blockSize
  last : ∃ buf, Same buf
      (hostBlock needswap (lastSize sb dp) (d.block sb (lastBlock sb dp))) 0
      (lastSize sb dp) ∧
    Same (d'.block sb (lastBlock sb dp))
      (diskBlock needswap (lastSize sb dp) (store buf 0 emptydir)) 0 (lastSize sb dp)
  other : ∀ (blk : BitVec 32) (i : Nat),
    (byteOffset sb blk + i < byteOffset sb (BitVec.ofNat 32 newblk) ∨
      byteOffset sb (BitVec.ofNat 32 newblk) + sb.blockSize ≤ byteOffset sb blk + i) →
    (byteOffset sb blk + i < byteOffset sb (lastBlock sb dp) ∨
      byteOffset sb (lastBlock sb dp) + lastSize sb dp ≤ byteOffset sb blk + i) →
    d'.block sb blk i = d.block sb blk i

/-- **The device after a growth that succeeds**, if the new block and the last one
share no byte. -/
theorem Steps.written (h : Steps sb needswap dp newblk io io₁ io₂ io₄)
    (hwritable : io.dev.writable = true)
    (hne : fsbtodb sb (lastBlock sb dp) ≠ fsbtodb sb (BitVec.ofNat 32 newblk))
    (hapart : byteOffset sb (BitVec.ofNat 32 newblk) + sb.blockSize
        ≤ byteOffset sb (lastBlock sb dp) ∨
      byteOffset sb (lastBlock sb dp) + lastSize sb dp
        ≤ byteOffset sb (BitVec.ofNat 32 newblk)) :
    Written sb needswap dp newblk (load io₁.fileblk.buf 0 DIRBLKSIZ)
      (flush needswap io).dev
      (flush needswap (putBuf (store io₄.fileblk.buf 0 emptydir) io₄)).dev := by
  obtain ⟨hdev₁, hbno₁⟩ := flush_after_getblk sb needswap (lastBlock sb dp)
    (lastSize sb dp) io
  have hlast : io₁ = getblk sb needswap (lastBlock sb dp) (lastSize sb dp) io := h.last
  rw [← hlast] at hdev₁ hbno₁
  have hread₂ : ReadFrom sb needswap (BitVec.ofNat 32 newblk) sb.blockSize io₁ io₂ := by
    have herrs := h.newErrs
    rw [h.new] at herrs ⊢
    exact getblk_read (by rw [hbno₁]; exact hne) herrs
  have hdev₂ : io₂.dev = (flush needswap io).dev := hread₂.dev.trans hdev₁
  have hwritable₂ : io₂.dev.writable = true := by
    rw [hdev₂, (flush_keeps needswap io).2.2]
    exact hwritable
  generalize hbuf : newChunks sb (load io₁.fileblk.buf 0 DIRBLKSIZ) io₂.fileblk.buf
    = bufNew at h
  have hread₄ : ReadFrom sb needswap (lastBlock sb dp) (lastSize sb dp)
      (putBuf bufNew io₂) io₄ := by
    have hagain := h.again
    have herrs := h.againErrs
    rw [hbuf] at hagain
    rw [hagain] at herrs ⊢
    refine getblk_read ?_ herrs
    show io₂.fileblk.bno ≠ _
    rw [hread₂.bno]
    exact hne.symm
  -- the new block reaches the device when the last one is read again
  have hdata₄ : io₄.dev.data = store (flush needswap io).dev.data
      (byteOffset sb (BitVec.ofNat 32 newblk))
      (load (diskBlock needswap sb.blockSize bufNew) 0 sb.blockSize) := by
    have hwrite := @flush_writes needswap (putBuf bufNew io₂) rfl hread₂.swapped
      hwritable₂
    rw [hread₄.dev, hwrite]
    show store io₂.dev.data (dbtob io₂.fileblk.bno).toNat
      (load (diskBlock needswap io₂.fileblk.size bufNew) 0 io₂.fileblk.size) = _
    rw [hdev₂, hread₂.bno, hread₂.size]
    rfl
  have hwritable₄ : io₄.dev.writable = true := by
    rw [hread₄.dev, (flush_keeps needswap _).2.2]
    exact hwritable₂
  generalize hio' : putBuf (store io₄.fileblk.buf 0 emptydir) io₄ = io'
  have hdata' : (flush needswap io').dev.data = store io₄.dev.data
      (byteOffset sb (lastBlock sb dp))
      (load (diskBlock needswap (lastSize sb dp) (store io₄.fileblk.buf 0 emptydir)) 0
        (lastSize sb dp)) := by
    rw [← hio', @flush_writes needswap (putBuf (store io₄.fileblk.buf 0 emptydir) io₄)
      rfl hread₄.swapped hwritable₄]
    show store io₄.dev.data (dbtob io₄.fileblk.bno).toNat
      (load (diskBlock needswap io₄.fileblk.size (store io₄.fileblk.buf 0 emptydir)) 0
        io₄.fileblk.size) = _
    rw [hread₄.bno, hread₄.size]
    rfl
  refine ⟨⟨io₂.fileblk.buf, ?_⟩, ⟨io₄.fileblk.buf, ?_, block_store_in hdata'⟩, ?_⟩
  · intro i hlo hhi
    rw [hbuf]
    refine (block_store_out hdata' ?_).trans (block_store_in hdata₄ i hlo hhi)
    rw [length_load]
    omega
  · have hsame := hread₄.buf
    have hblock : Same (io₄.dev.block sb (lastBlock sb dp))
        ((flush needswap io).dev.block sb (lastBlock sb dp)) 0 (lastSize sb dp) := by
      intro i _ hhi
      refine block_store_out hdata₄ ?_
      rw [length_load]
      omega
    refine hsame.trans ?_
    unfold hostBlock
    cases needswap with
    | false => exact hblock
    | true => exact swapDirblock_same false hblock
  · intro blk i hnew hlast'
    rw [block_store_out hdata' (by rw [length_load]; exact hlast'),
      block_store_out hdata₄ (by rw [length_load]; exact hnew)]

end Written

end NextUfs.Fsck
