/-
  NextUfs.Fsck.ExpandDirKeeps
  ───────────────────────────
  **WHEN A GROWTH KEEPS THE DIRECTORY.**

  `expanddir` moves the block with index `lblkno(size)` up.  When the last block
  of the directory is full, that is the index behind it, with no block: block 0
  with no bytes is asked for, the buffer keeps what is in it, and its first
  chunk starts the new block.  The scan for room has just left the last block
  there.

    • `leftInBuffer`      — what that chunk is,
    • `ExpandStart.growth` — the steps of `expanddir` are a growth,
    • `expanddir_grows`   — a growth that succeeds keeps the directory exactly
      if its last block is partial or the chunk in the buffer is empty,
    • `fullDir_doubled`   — a full directory whose entry appears twice.
-/
import NextUfs.Core.StoreFailure
import NextUfs.Fsck.DamageConfined
import NextUfs.Fsck.ExpandDirGrown

namespace NextUfs.Fsck

open Window Address

/-! ## §1. The checker's growth. -/

/-- What is in the buffer when the block behind a full last block, which is none,
is asked for. -/
def leftInBuffer (needswap : Bool) (io : DirIo) : Nat → UInt8 :=
  if io.fileblk.bno = 0 then io.fileblk.buf else (flush needswap io).fileblk.buf

/-- **Before a growth**: the directory is well-formed on the device with the
buffer flushed; if the buffer holds its last block, it shows it, and records
tile the first chunk in the buffer, as the scan leaves them. -/
structure ExpandStart (sb : Superblock) (needswap : Bool) (imax : Nat) (dp : Inode)
    (s : Repair) : Prop where
  geo : GrowGeometry sb
  dir : GoodDir sb needswap (flush needswap s.io).dev dp imax s.blockmap
  writable : s.io.dev.writable = true
  shown : dp.size % sb.blockSize ≠ 0 →
    s.io.fileblk.bno = fsbtodb sb (lastBlock sb dp) →
    Same s.io.fileblk.buf (hostBlock needswap (lastSize sb dp)
      ((flush needswap s.io).dev.block sb (lastBlock sb dp))) 0 (lastSize sb dp)
  tiled : dp.size % sb.blockSize = 0 → needswap = true →
    TiledBy true (leftInBuffer needswap s.io) 0 DIRBLKSIZ

section Expand

variable {sb : Superblock} {needswap yes : Bool} {imax newblk : Nat} {dp : Inode}
  {s : Repair} {io io₁ io₂ io₄ : DirIo}

/-- Block 0 is asked for with no bytes: the buffer keeps what is in it. -/
theorem getblk_nothing (sb : Superblock) (needswap : Bool) (io : DirIo) :
    (getblk sb needswap (BitVec.ofNat 32 0) 0 io).fileblk.buf
      = leftInBuffer needswap io := by
  have hzero : fsbtodb sb (BitVec.ofNat 32 0) = 0 := by
    unfold fsbtodb
    simp
  unfold getblk leftInBuffer
  dsimp only
  rw [hzero]
  by_cases hhit : io.fileblk.bno = 0
  · rw [if_pos hhit, if_pos hhit]
  · rw [if_neg hhit, if_neg hhit]
    have hread : (bread (flush needswap io).dev 0 0 (flush needswap io).fileblk.buf).1
        = (flush needswap io).fileblk.buf := by
      funext i
      unfold bread
      dsimp only
      rw [if_neg (Nat.not_lt_zero i)]
    dsimp only
    rw [hread]
    split
    · rfl
    · rfl

/-- The bytes that go to the new block. -/
theorem area_load (buf : Nat → UInt8) (n : Nat) : Same (area (load buf 0 n)) buf 0 n := by
  intro i _ hi
  unfold area
  rw [getD_load 0 hi, Nat.zero_add]

/-- **The first chunk of a partial last block** goes to the new block, whether the
buffer holds the block or not. -/
theorem ExpandStart.firstblk_ragged (h : ExpandStart sb needswap imax dp s)
    (hsteps : Steps sb needswap dp newblk s.io io₁ io₂ io₄)
    (hragged : dp.size % sb.blockSize ≠ 0) :
    ValidRecords imax (area (load io₁.fileblk.buf 0 DIRBLKSIZ)) 0 DIRBLKSIZ ∧
      liveEntries (area (load io₁.fileblk.buf 0 DIRBLKSIZ)) 0
        = chunkEntries sb needswap (flush needswap s.io).dev dp
            (lblkno sb dp.size * blockChunks sb) := by
  have hpos := h.geo.lastChunks_pos h.dir.size_chunks hragged
  have hlast : io₁ = getblk sb needswap (lastBlock sb dp) (lastSize sb dp) s.io :=
    hsteps.last
  -- the buffer shows the last block
  have hshown : Same io₁.fileblk.buf (hostBlock needswap (lastSize sb dp)
      ((flush needswap s.io).dev.block sb (lastBlock sb dp))) 0 (lastSize sb dp) := by
    by_cases hhit : s.io.fileblk.bno = fsbtodb sb (lastBlock sb dp)
    · rw [hlast, getblk_hit hhit]
      exact h.shown hragged hhit
    · have herrs := hsteps.lastErrs
      rw [hlast] at herrs ⊢
      have hread := getblk_read hhit herrs
      have hbuf := hread.buf
      rw [hread.dev] at hbuf
      exact hbuf
  have hin : DIRBLKSIZ * 0 + DIRBLKSIZ ≤ lastSize sb dp := by
    rw [← Nat.mul_succ]
    exact (Nat.mul_le_mul_left _ hpos).trans
      (h.geo.le_lastSize h.dir.size_chunks h.dir.room)
  have hindex := chunk_at sb (flush needswap s.io).dev dp (i := lblkno sb dp.size)
    h.geo.block_chunks.2
  have hgood := h.dir.chunks (lblkno sb dp.size * blockChunks sb) (by
    rw [h.geo.dir_chunks h.dir.size_chunks]
    omega)
  rw [Nat.add_zero] at hindex
  unfold chunkEntries
  rw [hindex.1, hindex.2] at hgood ⊢
  have hchunk : Same (hostBlock needswap (lastSize sb dp)
        ((flush needswap s.io).dev.block sb (lastBlock sb dp)))
      (chunkView needswap ((flush needswap s.io).dev.block sb (lastBlock sb dp))
        (DIRBLKSIZ * 0)) (DIRBLKSIZ * 0) (DIRBLKSIZ * 0 + DIRBLKSIZ) := by
    refine hostBlock_chunk (fun j hj hswap => ?_) hin
    rw [Nat.le_zero.mp hj]
    exact hgood.tiled hswap
  have hview := (hshown.mono (Nat.zero_le _) hin).trans hchunk
  have hrecords := hgood.records
  rw [Nat.mul_zero, Nat.zero_add] at hview
  rw [Nat.mul_zero] at hrecords ⊢
  have hsame := (area_load io₁.fileblk.buf DIRBLKSIZ).trans hview
  have hend : 0 + DIRBLKSIZ = DIRBLKSIZ := Nat.zero_add _
  refine ⟨?_, ?_⟩
  · rw [hend] at hrecords
    exact hrecords.congr hsame.symm
  · refine (liveEntries_congr hrecords ?_).symm
    rw [hend]
    exact hsame.symm

/-- **A growth that succeeds** is one of those above; what has gone to the new
block is the first chunk of a partial last block, or what is in the buffer. -/
theorem ExpandStart.growth (h : ExpandStart sb needswap imax dp s)
    (hok : (expanddir sb needswap yes dp s).2.2 = true) :
    ∃ newblk firstblk,
      Growth sb needswap imax s.blockmap dp newblk firstblk (flush needswap s.io).dev
        (flush needswap (expanddir sb needswap yes dp s).2.1.io).dev ∧
      (expanddir sb needswap yes dp s).1 = grow sb dp newblk ∧
      (expanddir sb needswap yes dp s).2.1.blockmap = mapWith sb s.blockmap newblk ∧
      (dp.size % sb.blockSize ≠ 0 →
        ValidRecords imax (area firstblk) 0 DIRBLKSIZ ∧
        liveEntries (area firstblk) 0
          = chunkEntries sb needswap (flush needswap s.io).dev dp
              (lblkno sb dp.size * blockChunks sb)) ∧
      (dp.size % sb.blockSize = 0 →
        Same (area firstblk) (leftInBuffer needswap s.io) 0 DIRBLKSIZ) := by
  obtain ⟨hroom, newblk, io₁, io₂, io₄, hne, hin, hfree, hsteps, hdp, hio, hmap⟩ :=
    expanddir_steps hok
  have hragged := h.firstblk_ragged hsteps
  have hfull : dp.size % sb.blockSize = 0 →
      Same (area (load io₁.fileblk.buf 0 DIRBLKSIZ)) (leftInBuffer needswap s.io) 0
        DIRBLKSIZ := by
    intro hzero
    have hnone : lastChunks sb dp = 0 := by
      unfold lastChunks
      rw [hzero, Nat.zero_div]
    obtain ⟨hdb, hsize, -⟩ := h.dir.last_none h.geo hnone
    have hlast : io₁ = getblk sb needswap (lastBlock sb dp) (lastSize sb dp) s.io :=
      hsteps.last
    have hbuf : io₁.fileblk.buf = leftInBuffer needswap s.io := by
      unfold lastBlock at hlast
      rw [hlast, hdb, hsize]
      exact getblk_nothing sb needswap s.io
    rw [← hbuf]
    exact area_load _ _
  have hapart := h.dir.new_apart h.geo hne hin hfree
  have hwritten := hsteps.written h.writable (fun heq => hapart.1 (congrArg
    (fun db => (dbtob db).toNat) heq)) hapart.2
  refine ⟨newblk, load io₁.fileblk.buf 0 DIRBLKSIZ, ?_, hdp, ?_, hragged, hfull⟩
  · exact
      { geo := h.geo
        dir := h.dir
        written := by rw [hio]; exact hwritten
        new_in := hin
        new_free := hfree
        new_ne := hne
        length := length_load _ _ _
        tiled := by
          intro hswap
          by_cases hmod : dp.size % sb.blockSize = 0
          · exact (h.tiled hmod hswap).congr (hfull hmod).symm
          · exact (hragged hmod).1.tiled }
  · rw [hmap]
    rfl

/-- **A growth that succeeds keeps the directory** exactly if its last block is
partial, or the chunk left in the buffer is empty. -/
theorem expanddir_grows (h : ExpandStart sb needswap imax dp s)
    (hok : (expanddir sb needswap yes dp s).2.2 = true) :
    Grown sb needswap imax (flush needswap s.io).dev
        (flush needswap (expanddir sb needswap yes dp s).2.1.io).dev s.blockmap
        (expanddir sb needswap yes dp s).2.1.blockmap dp
        (expanddir sb needswap yes dp s).1 ↔
      (dp.size % sb.blockSize ≠ 0 ∨
        EmptyChunk imax (leftInBuffer needswap s.io) 0) := by
  obtain ⟨newblk, firstblk, hgrowth, hdp, hmap, hragged, hfull⟩ := h.growth hok
  rw [hdp, hmap]
  by_cases hmod : dp.size % sb.blockSize = 0
  · have hsame := hfull hmod
    have hend : 0 + DIRBLKSIZ = DIRBLKSIZ := Nat.zero_add _
    rw [hgrowth.grown_full_iff hmod]
    constructor
    · intro hempty
      exact .inr (hempty.congr (hend.symm ▸ hsame))
    · rintro (hne | hempty)
      · exact absurd hmod hne
      · exact hempty.congr (hend.symm ▸ hsame.symm)
  · obtain ⟨hvalid, hlive⟩ := hragged hmod
    exact ⟨fun _ => .inl hmod, fun _ => hgrowth.grown_ragged hmod hvalid hlive⟩

end Expand

/-! ## §2. Two directories on a disk of 4 MiB. -/

/-- Eight chunks on the device: the first holds inode 5 as `a`, the others are
empty. -/
def chunksWithEntry (i : Nat) : UInt8 :=
  if i % DIRBLKSIZ = 4 then 4
  else if i = 3 then 5
  else if i = 7 then 1
  else if i = 8 then 97
  else 0

/-- They are at fragment 200; the fragments before 208 are in use. -/
def growDevice : Device where
  data := fun a => if 204800 ≤ a ∧ a < 212992 then chunksWithEntry (a - 204800) else 0
  bad := fun _ => false
  writable := true

/-- A directory of `size` bytes there, of `blocks` sectors. -/
def dirAt200 (size : Nat) (blocks : UInt32) : Inode :=
  { zeroInode with
    mode := IFDIR, size := size, blocks := blocks
    db := fun i => if i = 0 then 200 else 0 }

/-- `buf` has been read from block `bno`. -/
def growState (bno : BitVec 32) (size : Nat) (buf : Nat → UInt8) : Repair where
  io := ⟨growDevice, ⟨bno, size, 0, buf, false, true⟩⟩
  blockmap := fun f => decide (f < 208)
  duplist := []
  nBlks := 208
  inodeDirty := false

theorem growGeometry_label : GrowGeometry (labelSb 4096 2) where
  fragSize_pos := by decide
  fragSize_chunks := by decide
  fpb_pos := by decide
  blockSize_eq := by decide
  small := by decide

/-- A chunk with one record, which is good. -/
theorem goodChunk_one {imax t : Nat} {block : Nat → UInt8}
    (h8 : 8 ≤ reclenAt false t block)
    (hend : t + reclenAt false t block = t + DIRBLKSIZ)
    (hok : recordOk imax (chunkView true block t) t (t + DIRBLKSIZ - t) = true)
    (hlen : t + dReclen (chunkView true block t) t = t + DIRBLKSIZ) :
    GoodChunk imax true block t where
  tiled := fun _ => tiledBy_one h8 hend
  records := .step hok (hlen ▸ .done _)

/-- The chunks at fragment 200 are good. -/
theorem growDevice_chunks (c : Nat) (hc : c < 8) :
    GoodChunk 100 true (growDevice.block (labelSb 4096 2) 200) (DIRBLKSIZ * c) := by
  have h8 : ∀ c < 8, 8 ≤ reclenAt false (DIRBLKSIZ * c)
      (growDevice.block (labelSb 4096 2) 200) := by decide +kernel
  have hend : ∀ c < 8, DIRBLKSIZ * c + reclenAt false (DIRBLKSIZ * c)
      (growDevice.block (labelSb 4096 2) 200) = DIRBLKSIZ * c + DIRBLKSIZ := by
    decide +kernel
  have hok : ∀ c < 8, recordOk 100
      (chunkView true (growDevice.block (labelSb 4096 2) 200) (DIRBLKSIZ * c))
      (DIRBLKSIZ * c) (DIRBLKSIZ * c + DIRBLKSIZ - DIRBLKSIZ * c) = true := by
    decide +kernel
  have hlen : ∀ c < 8, DIRBLKSIZ * c + dReclen
      (chunkView true (growDevice.block (labelSb 4096 2) 200) (DIRBLKSIZ * c))
      (DIRBLKSIZ * c) = DIRBLKSIZ * c + DIRBLKSIZ := by decide +kernel
  exact goodChunk_one (h8 c hc) (hend c hc) (hok c hc) (hlen c hc)

/-- A directory of up to a block at fragment 200. -/
theorem dirAt200_good {size : Nat} {blocks : UInt32} (hpos : 0 < size)
    (hle : size ≤ 8192) (hchunks : DIRBLKSIZ ∣ size)
    (hblocks : blocks = UInt32.ofNat (size / 8192 * 8 + (size % 8192 + 1023) / 1024)) :
    GoodDir (labelSb 4096 2) true growDevice (dirAt200 size blocks) 100
      fun f => decide (f < 208) := by
  have hfirst : ∀ i : Fin 12, (i : Nat) * 8192 < size → i = 0 := by
    intro i hi
    exact Fin.ext (show (i : Nat) = 0 by omega)
  have hfrags : heldFrags (labelSb 4096 2) size 0 ≤ 8 := by
    show (if NDADDR ≤ 0 ∨ (0 + 1) * 8192 ≤ size then 8192
      else (size % 8192 + 1024 - 1) / 1024 * 1024) / 1024 ≤ 8
    split
    · decide
    · omega
  refine ⟨hpos, hchunks, ?_, ⟨?_, ?_, ?_, ?_⟩, ?_⟩
  · show size / 8192 < 11
    omega
  · intro i hi
    obtain rfl := hfirst i hi
    refine ⟨show (200 : Nat) ≠ 0 by decide, ?_, fun k hk => ?_⟩
    · show 200 + heldFrags (labelSb 4096 2) size 0 ≤ 4096
      omega
    · have hk : k < heldFrags (labelSb 4096 2) size 0 := hk
      show decide (200 + k < 208) = true
      rw [decide_eq_true_eq]
      omega
  · intro i hi
    have hi : size ≤ (i : Nat) * 8192 := hi
    refine if_neg (fun hzero => ?_)
    rw [hzero] at hi
    exact absurd hi (by simpa using hpos.ne')
  · intro i j hne hi hj
    exact absurd ((hfirst i hi).trans (hfirst j hj).symm) hne
  · show blocks = UInt32.ofNat (1 * (size / 8192 * 8 + (size % 8192 + 1024 - 1) / 1024))
    rw [Nat.one_mul, hblocks]
    rfl
  · intro c hc
    have hc8 : c < 8 := by
      have hc : c < size / 1024 := hc
      omega
    have hblock : chunkBlock (labelSb 4096 2) growDevice (dirAt200 size blocks) c
        = growDevice.block (labelSb 4096 2) 200 := by
      show growDevice.block (labelSb 4096 2) (BitVec.ofNat 32
        ((dirAt200 size blocks).db (Fin.ofNat 12 (c / 8)))) = _
      rw [Nat.div_eq_of_lt hc8]
      rfl
    have hstart : chunkStart (labelSb 4096 2) c = DIRBLKSIZ * c := by
      show DIRBLKSIZ * (c % 8) = _
      rw [Nat.mod_eq_of_lt hc8]
    rw [hblock, hstart]
    exact growDevice_chunks c hc8

/-- **A directory of one chunk grows**, with nothing in the buffer. -/
theorem expanddir_grows_oneChunk :
    (expanddir (labelSb 4096 2) true true (dirAt200 1024 1)
        (growState 0xffffffff 0 fun _ => 0)).2.2 = true ∧
      Grown (labelSb 4096 2) true 100 growDevice
        (flush true (expanddir (labelSb 4096 2) true true (dirAt200 1024 1)
          (growState 0xffffffff 0 fun _ => 0)).2.1.io).dev
        (fun f => decide (f < 208))
        (expanddir (labelSb 4096 2) true true (dirAt200 1024 1)
          (growState 0xffffffff 0 fun _ => 0)).2.1.blockmap (dirAt200 1024 1)
        (expanddir (labelSb 4096 2) true true (dirAt200 1024 1)
          (growState 0xffffffff 0 fun _ => 0)).1 := by
  have hok : (expanddir (labelSb 4096 2) true true (dirAt200 1024 1)
      (growState 0xffffffff 0 fun _ => 0)).2.2 = true := by decide +kernel
  have hstart : ExpandStart (labelSb 4096 2) true 100 (dirAt200 1024 1)
      (growState 0xffffffff 0 fun _ => 0) :=
    { geo := growGeometry_label
      dir := dirAt200_good (by decide) (by decide) (by decide) (by decide)
      writable := rfl
      shown := fun _ hbno => absurd hbno (by decide +kernel)
      tiled := fun hfull => absurd hfull (by decide) }
  exact ⟨hok, (expanddir_grows hstart hok).mpr (.inl (by decide))⟩

/-- **A full directory**: the scan for room has left its block in the buffer, and
the first chunk of that block, with `a`, goes to the new block too. -/
theorem fullDir_doubled :
    let s := growState (fsbtodb (labelSb 4096 2) 200) 8192
      (hostBlock true 8192 (growDevice.block (labelSb 4096 2) 200))
    ExpandStart (labelSb 4096 2) true 100 (dirAt200 8192 8) s ∧
      (expanddir (labelSb 4096 2) true true (dirAt200 8192 8) s).2.2 = true ∧
      ¬Grown (labelSb 4096 2) true 100 growDevice
        (flush true (expanddir (labelSb 4096 2) true true (dirAt200 8192 8) s).2.1.io).dev
        (fun f => decide (f < 208))
        (expanddir (labelSb 4096 2) true true (dirAt200 8192 8) s).2.1.blockmap
        (dirAt200 8192 8)
        (expanddir (labelSb 4096 2) true true (dirAt200 8192 8) s).1 := by
  intro s
  have hok : (expanddir (labelSb 4096 2) true true (dirAt200 8192 8) s).2.2 = true := by
    decide +kernel
  have hstart : ExpandStart (labelSb 4096 2) true 100 (dirAt200 8192 8) s :=
    { geo := growGeometry_label
      dir := dirAt200_good (by decide) (by decide) (by decide) (by decide)
      writable := rfl
      shown := fun hne => absurd (by decide) hne
      tiled := fun _ _ => tiledBy_one (by decide +kernel) (by decide +kernel) }
  obtain ⟨newblk, firstblk, hgrowth, hdp, hmap, -, hfull⟩ := hstart.growth hok
  refine ⟨hstart, hok, fun hgrown => ?_⟩
  rw [hdp, hmap] at hgrown
  -- the chunk that has gone to the new block would have to be empty
  have hempty := (hgrowth.grown_full_iff (by decide)).mp hgrown
  have hnone := (hempty.congr (hfull (by decide))).entries
  exact absurd hnone (by decide +kernel)

end NextUfs.Fsck
