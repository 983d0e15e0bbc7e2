/-
  NextUfs.Format.FreshDisk
  ────────────────────────
  **A FRESH FORMAT IS IN ORDER.**

  On the disk that `nextufs_format` leaves the two first directories have the
  first blocks behind the metadata of group 0, the rest is free, and every
  counter is right.

    • `Roomy`           — a format with room for its metadata and directories,
    • `fsinit_dirs`     — what the directories take,
    • `OneRun`          — a directory of one run, and what it claims,
    • `FirstDirs.owned` — every fragment has one owner.
-/
import NextUfs.Format.FsInitSpec
import NextUfs.Core.Ownership

namespace NextUfs.Format

open Bits Loop Radix Resize

/-! ## §1. Formats with room. -/

/-- **A format with room**: its options are accepted, its groups cover the file
system and fit in the formatter's buffers, their metadata fits in them, and two
blocks are left behind that of group 0. -/
structure Roomy (opts : FormatOptions) (fs : Fs) : Prop where
  accepted : nextufsFormat opts = .ok fs
  groups : 0 < fs.ncg
  covered : fs.size ≤ fs.ncg * fs.fpg
  defined : ∀ c < fs.ncg, initcgDefined fs c = true
  fit : ∀ c < fs.ncg, MetadataFit fs c
  room : (howmany (dupperOf fs 0) fs.frag + 2) * fs.frag ≤ dmaxOf fs 0

/-- The sizes such a format has. -/
structure Sizes (fs : Fs) : Prop where
  bsize_le : fs.bsize ≤ MAXBSIZE
  bsize_eq : fs.bsize = fs.frag * fs.fsize
  dirblk : DIRBLKSIZ ∣ fs.fsize
  sectors : fs.fsize = fs.nspf * DEV_BSIZE
  inodes : LOSTFOUNDINO < fs.ipg

section Format

variable {opts : FormatOptions} {fs : Fs}

theorem Roomy.laidOut (h : Roomy opts fs) : LaidOut fs :=
  (nextufsFormat_spec h.accepted).1

theorem Roomy.sizes (h : Roomy opts fs) : Sizes fs := by
  obtain ⟨p, q, hp, hq, hqp, -, hb⟩ :=
    blockSizes_ok (nextufsFormat_blocks h.accepted)
  have hbsize : fs.bsize = 2 ^ p := congrArg Blocks.bsize hb
  have hfsize : fs.fsize = 2 ^ q := congrArg Blocks.fsize hb
  have hfrag : fs.frag = 2 ^ (p - q) := congrArg Blocks.frag hb
  have hinopb : fs.inopb = 2 ^ (p - 7) := congrArg Blocks.inopb hb
  have hdefined := h.defined 0 h.groups
  have hle : fs.bsize ≤ MAXBSIZE := (of_decide_eq_true hdefined).2.1
  constructor
  case bsize_le => exact hle
  case bsize_eq =>
    rw [hbsize, hfrag, hfsize, ← Nat.pow_add]
    congr 1
    omega
  case dirblk =>
    rw [hfsize]
    exact Nat.pow_dvd_pow 2 hq
  case sectors =>
    have hnspf : fs.nspf = 2 ^ (q - 10) := congrArg Blocks.nspf hb
    rw [hfsize, hnspf]
    show 2 ^ q = 2 ^ (q - 10) * 2 ^ 10
    rw [← Nat.pow_add]
    congr 1
    omega
  case inodes =>
    have hinodes := Nat.le_of_dvd (nextufsFormat_filled h.accepted).ipg_pos
      (h.laidOut.inopb_dvd hle)
    have hpow : 2 ^ 5 ≤ 2 ^ (p - 7) := Nat.pow_le_pow_right (by decide) (by omega)
    unfold LOSTFOUNDINO
    omega

/-! ## §2. What the directories take. -/

/-- The first block behind the metadata of group 0. -/
def firstBlock (fs : Fs) : Nat := howmany (dupperOf fs 0) fs.frag

/-- The modes of the inodes that are allocated. -/
def freshModes : Nat → UInt16 :=
  Function.update (Function.update (fun _ => 0) LOSTFOUNDINO (IFDIR ||| UMASK))
    ROOTINO (IFDIR ||| UMASK)

/-- The inode of `/lost+found`, of a block. -/
def lostFoundInode (fs : Fs) (now : UInt32) : Inode :=
  dirInode fs now 2 fs.bsize (firstBlock fs * fs.frag)

/-- The inode of `/`, of a chunk in the fragment behind it. -/
def rootInode (fs : Fs) (now : UInt32) : Inode :=
  dirInode fs now 3 DIRBLKSIZ ((firstBlock fs + 1) * fs.frag)

/-- The data area with `size` bytes of `buf` at fragment `d`. -/
def dataWith (fs : Fs) (d size : Nat) (buf : Bytes) (data : Nat → UInt8) :
    Nat → UInt8 := fun i =>
  if d * fs.fsize ≤ i ∧ i < d * fs.fsize + size then buf.getD (i - d * fs.fsize) 0
  else data i

/-- **The image with the first two directories**: `/lost+found` has the first
block, `/` the first fragment of the next. -/
structure FirstDirs (fs : Fs) (now : UInt32) (im im' : Image) : Prop where
  booked : Booked fs freshModes im'
  inodes : im'.inodes
    = Function.update (Function.update im.inodes LOSTFOUNDINO
      (lostFoundInode fs now)) ROOTINO (rootInode fs now)
  others : ∀ c, c ≠ 0 → im'.cgs c = im.cgs c
  free : (im'.cgs 0).free
    = clearRange (clearRange (im.cgs 0).free (firstBlock fs * fs.frag) fs.frag)
      ((firstBlock fs + 1) * fs.frag) 1
  iused : (im'.cgs 0).iused
    = Function.update (Function.update (im.cgs 0).iused LOSTFOUNDINO true)
      ROOTINO true
  data : im'.data
    = dataWith fs ((firstBlock fs + 1) * fs.frag) fs.fsize (makedir rootDir 3)
      (dataWith fs (firstBlock fs * fs.frag) fs.bsize (lostFoundBuf fs) im.data)

/-- The directories lie in group 0. -/
theorem Roomy.inside (h : Roomy opts fs) :
    firstBlock fs * fs.frag + fs.frag + fs.frag ≤ dmaxOf fs 0 ∧
      dmaxOf fs 0 ≤ fs.size ∧ dmaxOf fs 0 ≤ fs.fpg := by
  have hnext : (firstBlock fs + 2) * fs.frag
      = firstBlock fs * fs.frag + fs.frag + fs.frag := by
    rw [Nat.add_mul, Nat.two_mul, Nat.add_assoc]
  have hbase : fs.cgbase 0 = 0 := Nat.mul_zero _
  rw [← hnext]
  refine ⟨h.room, ?_⟩
  unfold dmaxOf
  rw [hbase]
  dsimp only
  split <;> omega

/-- The map of group 0. -/
theorem GroupBuilt.firstMap {g : Cg} (h : GroupBuilt fs 0 g) (i : Nat) :
    g.free i = decide (i < dmaxOf fs 0 ∧ dupperOf fs 0 ≤ i) := by
  have hbase : fs.cgbase 0 = 0 := Nat.mul_zero _
  rw [h.free, hbase]
  unfold groupMap
  rw [decide_eq_decide]
  omega

/-- A request for a whole block. -/
theorem request_block (h : LaidOut fs) (hs : Sizes fs) :
    Request fs fs.bsize fs.frag where
  frags := by
    rw [hs.bsize_eq]
    unfold howmany
    rw [Nat.mul_comm, Nat.mul_add_div h.sized.fsize_pos,
      Nat.div_eq_of_lt (Nat.sub_lt h.sized.fsize_pos Nat.one_pos), Nat.add_zero]
  pos := h.sized.frag_pos
  le := Nat.le_refl _
  whole := fun _ => rfl

/-- A request for one fragment. -/
theorem request_frag (h : LaidOut fs) (hs : Sizes fs) :
    Request fs fs.fsize 1 where
  frags := by
    have hpos := h.sized.fsize_pos
    have hdiv := Nat.div_eq_of_lt (Nat.sub_lt hpos Nat.one_pos)
    unfold howmany
    rw [Nat.add_div_left _ hpos, hdiv]
  pos := Nat.one_pos
  le := h.sized.frag_pos
  whole := by
    intro hsize
    have heq := hs.bsize_eq
    rw [← hsize] at heq
    exact (Nat.eq_of_mul_eq_mul_right h.sized.fsize_pos
      ((Nat.one_mul _).trans heq))

/-- **The two directories are made**, and the books are kept. -/
theorem fsinit_dirs (h : Roomy opts fs) (now : UInt32) {im : Image}
    (hbooked : Booked fs (fun _ => 0) im) (hbuilt : GroupBuilt fs 0 (im.cgs 0)) :
    ∃ im', fsinit fs now im = some im' ∧ FirstDirs fs now im im' := by
  have hl := h.laidOut
  have hs := h.sizes
  have hfrag := hl.sized.frag_pos
  have hmeta : dupperOf fs 0 ≤ firstBlock fs * fs.frag := le_roundup hfrag
  have hmap := hbuilt.firstMap
  have hblock : (firstBlock fs + 1) * fs.frag = firstBlock fs * fs.frag + fs.frag :=
    Nat.succ_mul _ _
  obtain ⟨hend, -, -⟩ := h.inside
  have hbefore : ∀ j < firstBlock fs, (im.cgs 0).free (j * fs.frag + 0) = false := by
    intro j hj
    have hlt := (lt_howmany hfrag j).mp hj
    rw [hmap]
    exact decide_eq_false (by omega)
  obtain ⟨im₁, hmade₁, h₁⟩ := @makeDir_spec fs hl hs.bsize_le _ im fs.bsize fs.frag
    (firstBlock fs) hbooked h.groups
    (by
      intro i hi
      rw [hmap]
      exact decide_eq_true (by omega))
    (fun j hj => ⟨0, hfrag, hbefore j hj⟩) (request_block hl hs) now LOSTFOUNDINO 2
    fs.bsize (lostFoundBuf fs) hs.inodes
    (by
      rw [hbuilt.iused _ hs.inodes]
      rfl)
  have hroot : ROOTINO < fs.ipg := Nat.lt_trans (by decide) hs.inodes
  obtain ⟨im₂, hmade₂, h₂⟩ := @makeDir_spec fs hl hs.bsize_le _ im₁ fs.fsize 1
    (firstBlock fs + 1) h₁.booked h.groups
    (by
      intro i hi
      rw [h₁.free, hblock, clearRange_of_not_mem (.inr (by omega)), hmap]
      exact decide_eq_true (by omega))
    (by
      intro j hj
      refine ⟨0, hfrag, ?_⟩
      rw [h₁.free]
      by_cases hlast : j = firstBlock fs
      · subst hlast
        exact clearRange_of_mem ⟨Nat.le_refl _, by omega⟩
      · have hmul := Nat.mul_le_mul_right fs.frag (show j + 1 ≤ firstBlock fs by omega)
        rw [Nat.succ_mul] at hmul
        rw [clearRange_of_not_mem (.inl (by omega))]
        exact hbefore j (by omega))
    (request_frag hl hs) now ROOTINO 3 DIRBLKSIZ (makedir rootDir 3) hroot
    (by
      rw [h₁.iused, Function.update_of_ne (by decide), hbuilt.iused _ hroot]
      rfl)
  refine ⟨im₂, ?_, ?_⟩
  · rw [fsinit_eq, hmade₁]
    exact hmade₂
  constructor
  case booked => exact h₂.booked
  case inodes => rw [h₂.inodes, h₁.inodes]; rfl
  case others => exact fun c hc => (h₂.others c hc).trans (h₁.others c hc)
  case free => rw [h₂.free, h₁.free]
  case iused => rw [h₂.iused, h₁.iused]
  case data =>
    rw [h₂.data, h₁.data]
    rfl

/-- **The formatter goes through**: the groups are built and the directories are
made. -/
theorem writeFormat_dirs (h : Roomy opts fs) (now : UInt32) (data : Nat → UInt8) :
    ∃ (f : Formatter) (im' : Image), writeFormat fs now data = some (im'.disk now) ∧
      (∀ c < fs.ncg, GroupBuilt fs c (f.cgs c)) ∧
      FirstDirs fs now (f.image data) im' := by
  have hl := h.laidOut
  have hs := h.sizes
  obtain ⟨f, hrun, -⟩ := initcgs_spec hl now fs.ncg h.defined
  have hrun : formatGroups fs now = some f := hrun
  obtain ⟨hbooked, hbuilt⟩ := formatGroups_booked hl hs.bsize_le
    (nextufsFormat_filled h.accepted)
    (Nat.le_trans (by decide) (Nat.le_of_lt hs.inodes)) h.groups h.fit hrun data
  obtain ⟨im', hdirs, hfirst⟩ := fsinit_dirs h now hbooked (hbuilt 0 h.groups)
  refine ⟨f, im', ?_, hbuilt, hfirst⟩
  unfold writeFormat
  rw [hrun]
  show (fsinit fs now (f.image data)).bind _ = _
  rw [hdirs]
  rfl

/-- The free space of the new disk is counted. -/
theorem FirstDirs.space {now : UInt32} {im im' : Image}
    (h : FirstDirs fs now im im') :
    FreeSpace fs.decoded freshModes (im'.disk now) := by
  obtain ⟨⟨hfrags, hinodes, hcsum, htotal⟩, hmagic, hndblk⟩ := h.booked.space
  exact ⟨⟨hfrags, hinodes, hcsum, htotal⟩, hmagic, hndblk⟩

/-! ## §3. Every fragment has one owner. -/

/-- The metadata of a group, as the formatter reckons it. -/
theorem groupReserved_iff (hl : LaidOut fs) (c f : Nat) :
    GroupReserved fs.decoded c f ↔
      (if c = 0 then 0 else fs.cgsblock c) ≤ f ∧ f < fs.cgbase c + dupperOf fs c := by
  have hsum : csumFrags fs.decoded = howmany fs.cssize fs.fsize := by
    show (fs.cssize + fs.fsize - 1) / fs.fsize = (fs.cssize + (fs.fsize - 1)) / fs.fsize
    rw [Nat.add_sub_assoc hl.sized.fsize_pos]
  have hbase : fs.cgbase c ≤ fs.cgdmin c := by
    unfold Fs.cgdmin Fs.cgstart
    omega
  have hsblock : NextUfs.cgsblock fs.decoded c = fs.cgsblock c := rfl
  have hdmin : NextUfs.cgdmin fs.decoded c = fs.cgdmin c := rfl
  unfold GroupReserved dupperOf
  rw [hsum, hsblock, hdmin]
  split <;> omega

/-- The metadata of a group lies in it. -/
theorem reserved_group (h : Roomy opts fs) {c f : Nat} (hc : c < fs.ncg)
    (hres : GroupReserved fs.decoded c f) :
    f / fs.fpg = c ∧ f < fs.size := by
  have hl := h.laidOut
  obtain ⟨hlow, hup⟩ := (groupReserved_iff hl c f).mp hres
  have hfit : dupperOf fs c ≤ dmaxOf fs c - fs.cgbase c :=
    Nat.le_trans (le_roundup hl.sized.frag_pos) (h.fit c hc)
  have hle := dmaxOf_le hl c
  have hmax : dmaxOf fs c ≤ fs.size := by
    unfold dmaxOf
    dsimp only
    split <;> omega
  have hbase : fs.cgbase c ≤ f := by
    by_cases h0 : c = 0
    · subst h0
      exact Nat.le_trans (Nat.le_of_eq (Nat.mul_zero _)) (Nat.zero_le f)
    · rw [if_neg h0] at hlow
      unfold Fs.cgsblock Fs.cgstart at hlow
      omega
  refine ⟨?_, by omega⟩
  unfold Fs.cgbase at *
  rw [Nat.div_eq_of_lt_le]
  · rw [Nat.mul_comm]
    exact hbase
  · rw [Nat.succ_mul, Nat.mul_comm c]
    omega

/-- A directory stores blocks. -/
theorem dirInode_stores (fs : Fs) (now : UInt32) (nlink : UInt16) (size d : Nat) :
    storesBlocks (dirInode fs now nlink size d) = true := by
  have hmode : (dirInode fs now nlink size d).mode = IFDIR ||| UMASK := rfl
  have hflags : (dirInode fs now nlink size d).flags = 0 := rfl
  unfold storesBlocks isFastLink
  rw [hmode, hflags]
  decide

/-- What is read of a directory of one run: `n` fragments at `d`. -/
structure OneRun (fs : Fs) (size d n : Nat) : Prop where
  pos : 0 < size
  le : size ≤ fs.bsize
  frags : (size + fs.fsize - 1) / fs.fsize = n
  ne_zero : d ≠ 0

theorem OneRun.fileBlocks {size d n : Nat} (h : OneRun fs size d n) :
    fileBlocks fs.decoded size = 1 := by
  have hpos := h.pos
  have hle := h.le
  show (size + fs.bsize - 1) / fs.bsize = 1
  rw [Nat.div_eq_of_lt_le] <;> omega

theorem OneRun.chunkBytes {size d n : Nat} (h : OneRun fs size d n) :
    chunkBytes fs.decoded size 0 = size := by
  show min fs.bsize (size - 0 * fs.bsize) = size
  rw [Nat.zero_mul, Nat.sub_zero, Nat.min_eq_right h.le]

theorem OneRun.fragsNeeded {size d n : Nat} (h : OneRun fs size d n) :
    fragsNeeded fs.decoded size 0 = n := by
  unfold NextUfs.fragsNeeded
  rw [if_neg (by decide), h.chunkBytes]
  exact h.frags

/-- What it claims. -/
theorem OneRun.blockClaims {size d n : Nat} (h : OneRun fs size d n) (now : UInt32)
    (nlink : UInt16) (disk : Disk) (f : Nat) :
    blockClaims fs.decoded disk (dirInode fs now nlink size d) f = covers d n f := by
  have hmeta : metaFrags fs.decoded disk (dirInode fs now nlink size d) f = 0 :=
    Finset.sum_eq_zero fun slot _ => treeFrags_zero_root _ _ _ _
  unfold NextUfs.blockClaims
  rw [hmeta, Nat.zero_add]
  show dataFrags fs.decoded disk _ size (NextUfs.fileBlocks fs.decoded size) f = _
  rw [h.fileBlocks]
  unfold dataFrags
  rw [Finset.sum_range_one, h.fragsNeeded]
  exact if_neg h.ne_zero

theorem OneRun.inodeClaims {size d n : Nat} (h : OneRun fs size d n) (now : UInt32)
    (nlink : UInt16) (disk : Disk) (f : Nat) :
    inodeClaims fs.decoded disk (dirInode fs now nlink size d) f = covers d n f :=
  (if_pos (dirInode_stores fs now nlink size d)).trans (h.blockClaims now nlink disk f)

/-- Metadata comes first. -/
theorem firstBlock_pos (hl : LaidOut fs) : 0 < firstBlock fs := by
  have hfrag := hl.sized.frag_pos
  have hdata : fs.dblkno ≤ dupperOf fs 0 := by
    unfold dupperOf
    rw [hl.dupper_eq]
    omega
  have hpos : 0 < fs.dblkno := by
    rw [hl.dblkno_eq]
    exact Nat.add_pos_left (Nat.add_pos_right _ hfrag) _
  exact Nat.div_pos (by omega) hfrag

/-- `/` is one fragment. -/
theorem rootRun (hl : LaidOut fs) (hs : Sizes fs) :
    OneRun fs DIRBLKSIZ ((firstBlock fs + 1) * fs.frag) 1 where
  pos := by decide
  le := by
    have hle := Nat.le_of_dvd hl.sized.fsize_pos hs.dirblk
    have hmul := Nat.le_mul_of_pos_left fs.fsize hl.sized.frag_pos
    have hsize := hs.bsize_eq
    omega
  frags := by
    have hpos := hl.sized.fsize_pos
    have hle := Nat.le_of_dvd hpos hs.dirblk
    unfold DIRBLKSIZ at *
    rw [Nat.div_eq_of_lt_le] <;> omega
  ne_zero := Nat.mul_ne_zero (Nat.succ_ne_zero _) (Nat.ne_of_gt hl.sized.frag_pos)

/-- `/lost+found` is one block. -/
theorem lostFoundRun (hl : LaidOut fs) (hs : Sizes fs) :
    OneRun fs fs.bsize (firstBlock fs * fs.frag) fs.frag where
  pos := by
    rw [hs.bsize_eq]
    exact Nat.mul_pos hl.sized.frag_pos hl.sized.fsize_pos
  le := Nat.le_refl _
  frags := by
    rw [Nat.add_sub_assoc hl.sized.fsize_pos]
    exact (request_block hl hs).frags.symm
  ne_zero := Nat.mul_ne_zero (Nat.ne_of_gt (firstBlock_pos hl))
    (Nat.ne_of_gt hl.sized.frag_pos)

/-- The allocated inodes of a fresh disk. -/
def freshLive : Finset Nat := {ROOTINO, LOSTFOUNDINO}

theorem FirstDirs.root {now : UInt32} {im im' : Image}
    (h : FirstDirs fs now im im') : im'.inodes ROOTINO = rootInode fs now := by
  rw [h.inodes]
  exact Function.update_self ..

theorem FirstDirs.lostFound {now : UInt32} {im im' : Image}
    (h : FirstDirs fs now im im') :
    im'.inodes LOSTFOUNDINO = lostFoundInode fs now := by
  rw [h.inodes, Function.update_of_ne (by decide)]
  exact Function.update_self ..

/-- What the two directories claim of fragment `f`. -/
theorem FirstDirs.claims (hl : LaidOut fs) (hs : Sizes fs) {now : UInt32}
    {im im' : Image} (h : FirstDirs fs now im im') (disk : Disk) (f : Nat) :
    ∑ m ∈ freshLive, inodeClaims fs.decoded disk (im'.inodes m) f
      = covers ((firstBlock fs + 1) * fs.frag) 1 f
        + covers (firstBlock fs * fs.frag) fs.frag f := by
  unfold freshLive
  rw [Finset.sum_pair (by decide), h.root, h.lostFound]
  unfold rootInode lostFoundInode
  rw [(rootRun hl hs).inodeClaims, (lostFoundRun hl hs).inodeClaims]

/-- Only its own group reserves a fragment. -/
theorem reservedAt_group (h : Roomy opts fs) {x : Nat} (hc : x / fs.fpg < fs.ncg) :
    reservedAt fs.decoded x
      = if GroupReserved fs.decoded (x / fs.fpg) x then 1 else 0 := by
  unfold reservedAt
  refine if_congr ⟨?_, ?_⟩ rfl rfl
  · rintro ⟨c, hlt, hin⟩
    rwa [(reserved_group h hlt hin).1]
  · exact fun hin => ⟨_, hc, hin⟩

section Owned

variable {now : UInt32} {f : Formatter} {data : Nat → UInt8} {im' : Image}

/-- The map of group 0: the directories have two runs of what was free. -/
theorem FirstDirs.firstMap (hbuilt : GroupBuilt fs 0 (f.cgs 0))
    (hdirs : FirstDirs fs now (f.image data) im') {x : Nat} (hx : x < dmaxOf fs 0) :
    (im'.cgs 0).free x = decide (dupperOf fs 0 ≤ x ∧
      ¬(firstBlock fs * fs.frag ≤ x ∧ x < firstBlock fs * fs.frag + fs.frag + 1)) := by
  have hblock : (firstBlock fs + 1) * fs.frag = firstBlock fs * fs.frag + fs.frag :=
    Nat.succ_mul _ _
  have hmap : (f.cgs 0).free x = decide (x < dmaxOf fs 0 ∧ dupperOf fs 0 ≤ x) :=
    hbuilt.firstMap x
  rw [hdirs.free, hblock]
  show clearRange (clearRange (f.cgs 0).free _ _) _ _ x = _
  unfold clearRange
  rw [hmap]
  split_ifs
  · exact (decide_eq_false (by omega)).symm
  · exact (decide_eq_false (by omega)).symm
  · rw [decide_eq_decide]
    omega

/-- Group 0: what is free, the metadata, and the two directories. -/
theorem FirstDirs.first_once (h : Roomy opts fs) (hbuilt : GroupBuilt fs 0 (f.cgs 0))
    (hdirs : FirstDirs fs now (f.image data) im') {x : Nat} (hx : x < fs.size)
    (hgroup : x < fs.fpg) :
    ((im'.cgs 0).free x).toNat
      + (if GroupReserved fs.decoded 0 x then 1 else 0)
      + (covers (firstBlock fs * fs.frag + fs.frag) 1 x
        + covers (firstBlock fs * fs.frag) fs.frag x) = 1 := by
  have hl := h.laidOut
  have hbase : fs.cgbase 0 = 0 := Nat.mul_zero _
  have hmeta : dupperOf fs 0 ≤ firstBlock fs * fs.frag := le_roundup hl.sized.frag_pos
  have hinside : x < dmaxOf fs 0 := by
    unfold dmaxOf
    rw [hbase]
    dsimp only
    split <;> omega
  have hreserved : GroupReserved fs.decoded 0 x ↔ x < dupperOf fs 0 := by
    rw [groupReserved_iff hl, hbase, if_pos rfl]
    omega
  rw [hdirs.firstMap hbuilt hinside, Bool.toNat, Bool.cond_decide]
  unfold covers
  simp only [hreserved]
  split_ifs <;> omega

/-- Another group: what is free, and the metadata. -/
theorem other_once (h : Roomy opts fs) {c i : Nat} {g : Cg} (hc : c ≠ 0)
    (hbuilt : GroupBuilt fs c g) (hi : i < fs.fpg) (hx : fs.cgbase c + i < fs.size) :
    (g.free i).toNat
      + (if GroupReserved fs.decoded c (fs.cgbase c + i) then 1 else 0) = 1 := by
  have hl := h.laidOut
  have hinside : i < dmaxOf fs c - fs.cgbase c := by
    unfold dmaxOf
    dsimp only
    split <;> omega
  have hstart : fs.cgbase c ≤ fs.cgsblock c := by
    unfold Fs.cgsblock Fs.cgstart
    omega
  have hle : fs.cgsblock c - fs.cgbase c ≤ dupperOf fs c :=
    Nat.le_trans (hl.dlower_le_dupper _) (Nat.le_add_right _ _)
  have hreserved := groupReserved_iff hl c (fs.cgbase c + i)
  rw [if_neg hc] at hreserved
  rw [hbuilt.free]
  unfold groupMap
  rw [Bool.toNat, Bool.cond_decide]
  simp only [hreserved]
  split_ifs <;> omega

/-- **Every fragment has one owner**: it is free, metadata, or claimed by one of
the two directories. -/
theorem FirstDirs.owned (h : Roomy opts fs)
    (hbuilt : ∀ c < fs.ncg, GroupBuilt fs c (f.cgs c))
    (hdirs : FirstDirs fs now (f.image data) im') :
    FragsOwned fs.decoded freshLive (im'.disk now) where
  once := by
    intro x
    have hl := h.laidOut
    have hfpg := hl.fpg_pos
    have hblock : (firstBlock fs + 1) * fs.frag
        = firstBlock fs * fs.frag + fs.frag := Nat.succ_mul _ _
    have hfrag := hl.sized.frag_pos
    obtain ⟨hend, hsize, hgroupEnd⟩ := h.inside
    show freeAt fs.decoded (im'.disk now) x + reservedAt fs.decoded x
      + ∑ m ∈ freshLive, inodeClaims fs.decoded (im'.disk now) (im'.inodes m) x
      = if x < fs.size then 1 else 0
    rw [hdirs.claims hl h.sizes, hblock]
    by_cases hx : x < fs.size
    · have hc : x / fs.fpg < fs.ncg := by
        have hcov := h.covered
        rw [Nat.mul_comm] at hcov
        exact Nat.div_lt_of_lt_mul (Nat.lt_of_lt_of_le hx hcov)
      have hfree : freeAt fs.decoded (im'.disk now) x
          = ((im'.cgs (x / fs.fpg)).free (x % fs.fpg)).toNat := if_pos hx
      rw [hfree, reservedAt_group h hc, if_pos hx]
      by_cases h0 : x / fs.fpg = 0
      · have hlt : x < fs.fpg := by
          rcases Nat.div_eq_zero_iff.mp h0 with hzero | hlt
          · omega
          · exact hlt
        rw [h0, Nat.mod_eq_of_lt hlt]
        exact hdirs.first_once h (hbuilt 0 h.groups) hx hlt
      · have hbase : fs.cgbase (x / fs.fpg) + x % fs.fpg = x := Nat.div_add_mod ..
        have hlow : fs.fpg ≤ x := by
          by_contra hlt
          exact h0 (Nat.div_eq_of_lt (by omega))
        have honce := other_once h h0 (hbuilt _ hc) (Nat.mod_lt x hfpg)
          (by rw [hbase]; exact hx)
        rw [hbase] at honce
        rw [hdirs.others _ h0, covers_eq_zero (by omega), covers_eq_zero (by omega)]
        exact honce
    · have hfree : freeAt fs.decoded (im'.disk now) x = 0 := if_neg hx
      have hres : reservedAt fs.decoded x = 0 := by
        refine if_neg ?_
        rintro ⟨c, hlt, hin⟩
        exact hx (reserved_group h hlt hin).2
      rw [hfree, hres, covers_eq_zero (by omega), covers_eq_zero (by omega),
        if_neg hx]

end Owned

end Format

end NextUfs.Format
