/-
  NextUfs.Format.FsInitSpec
  ─────────────────────────
  **THE FIRST TWO DIRECTORIES KEEP THE BOOKS.**

  Taking the first free block of group 0 and putting an inode there are the
  formatter's own code, and they move the counters as the allocator of the
  library would.

    • `formatGroups_booked`  — the groups before the directories,
    • `takeBlock_fragCounts` — `alloc` counts as the library's allocator,
    • `alloc_first`          — it finds the first free block,
    • `makeDir_spec`         — one directory.
-/
import NextUfs.Format.FsInit
import NextUfs.Format.GroupCounts
import NextUfs.Core.Space

namespace NextUfs.Format

open Bits Loop Resize

/-! ## §1. Where a group ends. -/

theorem le_roundup {x y : Nat} (hy : 0 < y) : x ≤ roundup x y := by
  have hnot := (lt_howmany (x := x) hy (howmany x y)).not.mp (Nat.lt_irrefl _)
  unfold roundup
  unfold howmany at hnot
  omega

/-- Where group `c` ends. -/
theorem dmaxOf_eq (fs : Fs) (c : Nat) :
    dmaxOf fs c - fs.cgbase c = cgFrags fs.decoded c := by
  show _ = min fs.fpg (fs.size - c * fs.fpg)
  unfold dmaxOf Fs.cgbase
  rw [Nat.mul_comm c]
  dsimp only
  split <;> omega

/-! ## §2. The groups before the directories. -/

/-- The formatter's image is in order, and what it reads of group 0 is the
group. -/
structure Booked (fs : Fs) (modes : Nat → UInt16) (im : Image) : Prop where
  space : FreeSpace fs.decoded modes (im.disk 0)
  buffer : readCg fs im = im.cgs 0

/-- A group in which only inodes 0 and 1 are used, and no mode is one of a
directory. -/
theorem GroupBuilt.inodeCounts {fs : Fs} {c : Nat} {g : Cg}
    (h : GroupBuilt fs c g) (hipg : 2 ≤ fs.ipg) :
    InodeCounts fs.decoded (fun _ => 0) c g where
  nifree := by
    rw [h.nifree]
    have hcount : freeInodes fs.decoded g = fs.ipg - if c = 0 then 2 else 0 := by
      have hsum := sum_indicator 0 (if c = 0 then 2 else 0)
        (fs.ipg - if c = 0 then 2 else 0) fs.ipg (Nat.zero_le _)
        (by split <;> omega)
      rw [← hsum]
      unfold freeInodes
      refine Finset.sum_congr rfl fun i hi => ?_
      have hi : i < fs.ipg := Finset.mem_range.mp hi
      rw [h.iused i hi]
      by_cases hc : c = 0
      · by_cases h2 : i < 2
        · rw [decide_eq_true ⟨hc, h2⟩, if_pos hc, if_neg (by omega)]
          rfl
        · rw [decide_eq_false (fun h => h2 h.2), if_pos hc, if_pos (by omega)]
          rfl
      · rw [decide_eq_false (fun h => hc h.1), if_neg hc, if_pos (by omega)]
        rfl
    rw [hcount]
    split
    · obtain ⟨n, hn⟩ : ∃ n, fs.ipg = n + 2 := ⟨fs.ipg - 2, by omega⟩
      rw [hn, Nat.add_sub_cancel, UInt32.ofNat_add]
      exact UInt32.add_sub_cancel _ _
    · exact UInt32.sub_zero _
  ndir := by
    rw [h.ndir]
    have hzero : dirInodes fs.decoded (fun _ => 0) c g = 0 := by
      unfold dirInodes
      refine Finset.sum_eq_zero fun i _ => ?_
      rw [show isDirMode 0 = false from by decide, Bool.and_false]
      rfl
    rw [hzero]
    rfl

/-- **The groups are in order** when they are written. -/
theorem formatGroups_booked {fs : Fs} (hl : LaidOut fs)
    (hb : fs.bsize ≤ MAXBSIZE) (hfill : Filled fs) (hipg : 2 ≤ fs.ipg)
    (hncg : 0 < fs.ncg) (hfit : ∀ c < fs.ncg, MetadataFit fs c) {now : UInt32}
    {f : Formatter} (hrun : formatGroups fs now = some f) (data : Nat → UInt8) :
    Booked fs (fun _ => 0) (f.image data) ∧
      ∀ c < fs.ncg, GroupBuilt fs c (f.cgs c) := by
  obtain ⟨hgroups, htotal, hbuffer⟩ := initcgs_built hl hb now fs.ncg hfit f hrun
  refine ⟨⟨⟨⟨?_, ?_, ?_, htotal⟩, ?_, ?_⟩, ?_⟩, fun c hc => (hgroups c hc).1⟩
  · exact fun c hc => (hgroups c hc).1.frags
  · exact fun c hc => (hgroups c hc).1.inodeCounts hipg
  · exact fun c hc => (hgroups c hc).2
  · exact fun c hc => (hgroups c hc).1.magic
  · intro c hc
    rw [← dmaxOf_eq]
    exact (hgroups c hc).1.ndblk
  · -- behind what is read back, both maps are clear
    have hmap : (readCg fs (f.image data)).free = (f.cgs 0).free := by
      funext i
      unfold readCg
      dsimp only
      by_cases hi : i < NBBY * (fs.cgsize - CG_FREE_OFF)
      · rw [if_pos hi]
        rfl
      · have hsize : SIZEOF_CG + howmany fs.fpg NBBY ≤ fs.cgsize := by
          rw [hfill.cgsize_eq]
          exact le_roundup hl.sized.fsize_pos
        have hbytes : fs.fpg ≤ howmany fs.fpg NBBY * NBBY :=
          le_roundup (by decide)
        have hpast : fs.fpg ≤ i := by
          unfold NBBY SIZEOF_CG CG_FREE_OFF at *
          omega
        have hgroup := (hgroups 0 hncg).1
        have hend := dmaxOf_le hl 0
        have hclr := hgroup.frags.pastEnd i (by rw [hgroup.ndblk]; omega)
        rw [if_neg hi]
        exact (hbuffer i hpast).trans hclr.symm
    unfold readCg at hmap ⊢
    dsimp only at hmap
    rw [hmap]
    rfl

/-! ## §3. A block is taken. -/

/-- A group with the same map and the same counters of fragments. -/
theorem FragCounts.same {sb : Superblock} {g g' : Cg} (h : FragCounts sb g)
    (hfree : g'.free = g.free) (hndblk : g'.ndblk = g.ndblk)
    (hnb : g'.cs.nbfree = g.cs.nbfree) (hnf : g'.cs.nffree = g.cs.nffree)
    (hfr : ∀ j, 1 ≤ j → j < sb.fragsPerBlock → g'.frsum j = g.frsum j)
    (hbt : ∀ cyl < MAXCPG, g'.btot cyl = g.btot cyl)
    (hb : ∀ cyl < MAXCPG, ∀ pos < NRPOS, g'.b cyl pos = g.b cyl pos) :
    FragCounts sb g' := by
  constructor
  case nbfree =>
    unfold freeBlocks
    rw [hnb, hndblk, hfree]
    exact h.nbfree
  case nffree =>
    unfold freeFrags
    rw [hnf, hndblk, hfree]
    exact h.nffree
  case frsum =>
    intro j hj1 hj
    unfold freeRuns
    rw [hfr j hj1 hj, hndblk, hfree]
    exact h.frsum j hj1 hj
  case btot =>
    intro cyl hcyl
    unfold cylBlocks
    rw [hbt cyl hcyl, hndblk, hfree]
    exact h.btot cyl hcyl
  case b =>
    intro cyl hcyl pos hpos
    unfold posBlocks
    rw [hb cyl hcyl pos hpos, hndblk, hfree]
    exact h.b cyl hcyl pos hpos
  case pastEnd =>
    intro i hi
    rw [hfree]
    exact h.pastEnd i (by omega)

/-- A request `alloc` is made for: `n` fragments, all of a block only if the
size is that of a block. -/
structure Request (fs : Fs) (size n : Nat) : Prop where
  frags : n = howmany size fs.fsize
  pos : 0 < n
  le : n ≤ fs.frag
  whole : size = fs.bsize → n = fs.frag

/-- What a taken block leaves alone, and what it adds to the summary. -/
theorem takeBlock_head (fs : Fs) (size : Nat) (mode : UInt16) (d : Nat) (g : Cg) :
    (takeBlock fs size mode d g).magic = g.magic ∧
    (takeBlock fs size mode d g).ndblk = g.ndblk ∧
    (takeBlock fs size mode d g).iused = g.iused ∧
    (takeBlock fs size mode d g).cs = g.cs + allocDelta fs size mode := by
  unfold takeBlock
  dsimp only
  split
  · exact ⟨rfl, rfl, rfl, rfl⟩
  · exact ⟨rfl, rfl, rfl, rfl⟩

section Take

variable {fs : Fs} (hl : LaidOut fs) {size n k : Nat} {g : Cg}
  {mode : UInt16}
include hl

/-- **The bits of the block**: the first `n` fragments are taken. -/
theorem takeBlock_free (hreq : Request fs size n)
    (hfree : ∀ i < fs.frag, g.free (k * fs.frag + i) = true) :
    (takeBlock fs size mode (k * fs.frag) g).free
      = clearRange g.free (k * fs.frag) n := by
  have hclr : clrblock fs.frag g.free (k * fs.frag / fs.frag)
      = clearRange g.free (k * fs.frag) fs.frag :=
    clrblock_eq hl (Nat.dvd_mul_left _ _) _
  have hle := hreq.le
  unfold takeBlock
  dsimp only
  split
  · rename_i hsize
    dsimp only
    rw [hclr, hreq.whole hsize]
  · dsimp only
    rw [hclr, ← hreq.frags]
    funext i
    by_cases htail : k * fs.frag + n ≤ i ∧ i < k * fs.frag + n + (fs.frag - n)
    · have hbit := hfree (i - k * fs.frag) (by omega)
      rw [show k * fs.frag + (i - k * fs.frag) = i by omega] at hbit
      rw [setRange_of_mem htail, clearRange_of_not_mem (.inr htail.1), hbit]
    · rw [setRange_of_not_mem (by omega)]
      by_cases hhead : k * fs.frag ≤ i ∧ i < k * fs.frag + n
      · rw [clearRange_of_mem hhead, clearRange_of_mem ⟨hhead.1, by omega⟩]
      · rw [clearRange_of_not_mem (by omega), clearRange_of_not_mem (by omega)]

/-- **The formatter takes a block as the library splits one**: every counter is
right afterwards. -/
theorem takeBlock_fragCounts (hb : fs.bsize ≤ MAXBSIZE)
    (h : FragCounts fs.decoded g) (hreq : Request fs size n)
    (hfree : ∀ i < fs.frag, g.free (k * fs.frag + i) = true)
    (hend : k * fs.frag < g.ndblk) (hfpg : g.ndblk ≤ fs.fpg) :
    FragCounts fs.decoded (takeBlock fs size mode (k * fs.frag) g) := by
  have hfrag := hl.sized.frag_pos
  have hspt : 0 < fs.decoded.sectorsPerTrack := hl.nsect_pos
  have hcount : k < blockCount fs.decoded g.ndblk := by
    have hlt := @lt_blockCount fs.decoded (k * fs.frag) _ hfrag hend
    rwa [show k * fs.frag / fs.decoded.fragsPerBlock = k from
      Nat.mul_div_cancel k hfrag] at hlt
  have hwhole : wholeFree fs.decoded g.free k = true := by
    unfold wholeFree
    rw [allSet_iff]
    exact hfree
  have hsplit := @splitFreeBlock_fragCounts _ _ _ _ h 0 hspt hcount
    hreq.pos hreq.le hwhole
  have hcyl : cbtocylno fs (k * fs.frag) = cylno fs.decoded (k * fs.frag) :=
    (cylno_eq (sameGeometry_decoded fs) hl (by omega)).symm
  have hpos : cbtorpos fs (k * fs.frag) = rotpos fs.decoded (k * fs.frag) :=
    (rotpos_eq (sameGeometry_decoded fs) hl hb (by omega)).symm
  obtain ⟨-, hndblk, -, hnb⟩ := takeBlock_head fs size mode (k * fs.frag) g
  have hnffree : (allocDelta fs size mode).nffree
      = UInt32.ofNat (fs.frag - n) := by
    unfold allocDelta
    dsimp only
    split
    · rename_i hsize
      rw [hreq.whole hsize, Nat.sub_self]
      rfl
    · rw [hreq.frags]
  refine FragCounts.same hsplit ?_ ?_ ?_ ?_ ?_ ?_ ?_
  · rw [takeBlock_free hl hreq hfree]
    simp [splitFreeBlock, clearBlockBits]
    rfl
  · rw [hndblk]
    simp [splitFreeBlock]
  · rw [hnb]
    simp [splitFreeBlock, allocDelta]
    grind
  · rw [hnb, Csum.add_nffree, hnffree]
    simp [splitFreeBlock]
    rfl
  · intro j hj1 hj
    simp only [splitFreeBlock, moveCylBlocks_frsum]
    unfold takeBlock
    dsimp only
    split
    · rename_i hsize
      have hnone : ¬0 < fs.decoded.fragsPerBlock - n := by
        rw [hreq.whole hsize]
        show ¬0 < fs.frag - fs.frag
        omega
      rw [if_neg hnone]
    · dsimp only
      rw [← hreq.frags]
      show _ = (if 0 < fs.frag - n then
        Function.update g.frsum (fs.frag - n) (g.frsum (fs.frag - n) + 1)
        else g.frsum) j
      split
      · rfl
      · exact Function.update_of_ne (by omega) _ _
  · intro cyl hlt
    unfold splitFreeBlock
    dsimp only
    rw [moveCylBlocks_btot hspt hlt]
    show _ = if cylno fs.decoded (k * fs.frag) = cyl then g.btot cyl + -1
      else g.btot cyl
    have hbtot : (takeBlock fs size mode (k * fs.frag) g).btot
        = Function.update g.btot (cbtocylno fs (k * fs.frag))
          (g.btot (cbtocylno fs (k * fs.frag)) - 1) := by
      unfold takeBlock
      dsimp only
      split <;> rfl
    rw [hbtot, hcyl]
    split
    · rename_i heq
      subst heq
      rw [Function.update_self, UInt32.sub_eq_add_neg]
    · rename_i hne
      rw [Function.update_of_ne (Ne.symm hne)]
  · intro cyl hlt pos' _
    unfold splitFreeBlock
    dsimp only
    rw [moveCylBlocks_b hspt hlt]
    show _ = if cylno fs.decoded (k * fs.frag) = cyl ∧
        rotpos fs.decoded (k * fs.frag) = pos' then g.b cyl pos' + -1
      else g.b cyl pos'
    have hbpos : (takeBlock fs size mode (k * fs.frag) g).b
        = Function.update g.b (cbtocylno fs (k * fs.frag))
          (Function.update (g.b (cbtocylno fs (k * fs.frag)))
            (cbtorpos fs (k * fs.frag)) (g.b (cbtocylno fs (k * fs.frag))
              (cbtorpos fs (k * fs.frag)) - 1)) := by
      unfold takeBlock
      dsimp only
      split <;> rfl
    rw [hbpos, hcyl, hpos]
    split
    · rename_i heq
      obtain ⟨rfl, rfl⟩ := heq
      rw [Function.update_self, Function.update_self,
        UInt16.sub_eq_add_neg]
    · rename_i hne
      by_cases hc : cylno fs.decoded (k * fs.frag) = cyl
      · subst hc
        rw [Function.update_self,
          Function.update_of_ne fun heq => hne ⟨rfl, heq.symm⟩]
      · rw [Function.update_of_ne (Ne.symm hc)]

end Take

/-! ## §4. One directory. -/

/-- **An inode of a directory is put.** -/
theorem InodeCounts.put {sb : Superblock} {modes : Nat → UInt16} {c i : Nat}
    {mode : UInt16} {g g' : Cg} (h : InodeCounts sb modes c g)
    (hi : i < sb.inodesPerGroup) (hunused : g.iused i = false)
    (hdir : isDirMode mode = true)
    (hused : g'.iused = Function.update g.iused i true)
    (hnifree : g'.cs.nifree = g.cs.nifree - 1)
    (hndir : g'.cs.ndir = g.cs.ndir + 1) :
    InodeCounts sb (Function.update modes (c * sb.inodesPerGroup + i) mode) c
      g' where
  nifree := by
    have hsum := @sum_change (fun j => (!g.iused j).toNat)
      (fun j => (!g'.iused j).toNat) sb.inodesPerGroup i hi
      (by
        intro j _ hne
        rw [hused, Function.update_of_ne hne])
    rw [hunused, hused, Function.update_self, ← hused] at hsum
    have hcount : freeInodes sb g = freeInodes sb g' + 1 := hsum.symm
    rw [hnifree, h.nifree, hcount, UInt32.ofNat_add]
    exact UInt32.add_sub_cancel _ _
  ndir := by
    have hsum := @sum_change
      (fun j => (g.iused j && isDirMode (modes (c * sb.inodesPerGroup + j))).toNat)
      (fun j => (g'.iused j && isDirMode (Function.update modes
        (c * sb.inodesPerGroup + i) mode (c * sb.inodesPerGroup + j))).toNat)
      sb.inodesPerGroup i hi
      (by
        intro j _ hne
        rw [hused, Function.update_of_ne hne, Function.update_of_ne (by omega)])
    rw [hunused, hused, Function.update_self, Function.update_self, hdir,
      ← hused] at hsum
    have hcount : dirInodes sb (Function.update modes (c * sb.inodesPerGroup + i)
        mode) c g' = dirInodes sb modes c g + 1 := hsum
    rw [hndir, h.ndir, hcount, UInt32.ofNat_add]
    rfl

/-- The group buffer is that of group 0, so reading the group again changes
nothing. -/
theorem readCg_self {fs : Fs} {im : Image} (hself : im.acg = im.cgs 0) :
    readCg fs im = im.cgs 0 := by
  unfold readCg
  rw [hself]
  simp only [ite_self]

/-- `iput` of an inode of the file system. -/
theorem iput_some {fs : Fs} {im : Image} (hself : im.acg = im.cgs 0)
    (hmagic : (im.cgs 0).magic = CG_MAGIC) {number : Nat}
    (hnumber : number < fs.ipg * fs.ncg) (node : Inode) :
    iput fs number node im = some { im with
      acg := { im.cgs 0 with
        cs := (im.cgs 0).cs + iputDelta
        iused := Function.update (im.cgs 0).iused number true }
      cgs := Function.update im.cgs 0 { im.cgs 0 with
        cs := (im.cgs 0).cs + iputDelta
        iused := Function.update (im.cgs 0).iused number true }
      cstotal := im.cstotal + iputDelta
      csums := Function.update im.csums 0 (im.csums 0 + iputDelta)
      inodes := Function.update im.inodes number node } := by
  unfold iput
  dsimp only
  rw [readCg_self hself, if_neg (not_not.mpr hmagic),
    if_neg (Nat.not_le.mpr hnumber)]

private theorem csum_add_assoc (a b c : Csum) : a + b + c = a + (b + c) := by
  ext : 1 <;> simp [UInt32.add_assoc]

/-- One of the two directories: a block, its bytes, and its inode. -/
def makeDir (fs : Fs) (now : UInt32) (number : Nat) (nlink : UInt16)
    (size isize : Nat) (buf : Bytes) (im : Image) : Option Image :=
  let (d, im) := alloc fs size (IFDIR ||| UMASK) im
  iput fs number (dirInode fs now nlink isize d) (writeDirBlock fs d size buf im)

/-- `fsinit` makes one directory after the other. -/
theorem fsinit_eq (fs : Fs) (now : UInt32) (im : Image) :
    fsinit fs now im
      = (makeDir fs now LOSTFOUNDINO 2 fs.bsize fs.bsize (lostFoundBuf fs) im).bind
        (makeDir fs now ROOTINO 3 fs.fsize DIRBLKSIZ (makedir rootDir 3)) := rfl

/-- Group 0 when a directory has the block at `d` and inode `number`. -/
def madeGroup (fs : Fs) (size number d : Nat) (g : Cg) : Cg :=
  let acg := takeBlock fs size (IFDIR ||| UMASK) d g
  { acg with
    cs := acg.cs + iputDelta
    iused := Function.update acg.iused number true }

/-- What they add to its counters. -/
def madeDelta (fs : Fs) (size : Nat) : Csum :=
  allocDelta fs size (IFDIR ||| UMASK) + iputDelta

/-- The image with the directory. -/
def madeImage (fs : Fs) (size number d : Nat) (node : Inode) (buf : Bytes)
    (im : Image) : Image :=
  writeDirBlock fs d size buf
    { im with
      acg := madeGroup fs size number d (im.cgs 0)
      cgs := Function.update im.cgs 0 (madeGroup fs size number d (im.cgs 0))
      cstotal := im.cstotal + madeDelta fs size
      csums := Function.update im.csums 0 (im.csums 0 + madeDelta fs size)
      inodes := Function.update im.inodes number node }

/-- The counters of inodes: one less is free, and there is one directory more. -/
theorem madeDelta_inodes (fs : Fs) (size : Nat) :
    (madeDelta fs size).nifree = -1 ∧ (madeDelta fs size).ndir = 1 := by
  have hndir : (allocDelta fs size (IFDIR ||| UMASK)).ndir = 1 := by
    have hbit : (IFDIR ||| UMASK) &&& IFDIR ≠ 0 := by decide
    unfold allocDelta
    dsimp only
    rw [if_pos hbit]
  unfold madeDelta
  constructor
  · rw [Csum.add_nifree]
    exact UInt32.zero_add _
  · rw [Csum.add_ndir, hndir]
    exact UInt32.add_zero _

theorem madeGroup_head (fs : Fs) (size number d : Nat) (g : Cg) :
    (madeGroup fs size number d g).magic = g.magic ∧
    (madeGroup fs size number d g).ndblk = g.ndblk ∧
    (madeGroup fs size number d g).iused = Function.update g.iused number true ∧
    (madeGroup fs size number d g).cs = g.cs + madeDelta fs size := by
  obtain ⟨hmagic, hndblk, hused, hcs⟩ :=
    takeBlock_head fs size (IFDIR ||| UMASK) d g
  refine ⟨hmagic, hndblk, ?_, ?_⟩
  · show Function.update (takeBlock fs size (IFDIR ||| UMASK) d g).iused number true
      = _
    rw [hused]
  · show (takeBlock fs size (IFDIR ||| UMASK) d g).cs + iputDelta = _
    rw [hcs, csum_add_assoc]
    rfl

/-- The inodes of the group are counted. -/
theorem madeGroup_inodeCounts {fs : Fs} {modes : Nat → UInt16} {number : Nat}
    {g : Cg} (h : InodeCounts fs.decoded modes 0 g) (hnumber : number < fs.ipg)
    (hunused : g.iused number = false) (size d : Nat) :
    InodeCounts fs.decoded (Function.update modes number (IFDIR ||| UMASK)) 0
      (madeGroup fs size number d g) := by
  obtain ⟨hnifree, hndir⟩ := madeDelta_inodes fs size
  obtain ⟨-, -, hused, hcs⟩ := madeGroup_head fs size number d g
  have hput := @InodeCounts.put _ _ _ number (IFDIR ||| UMASK) _
    (madeGroup fs size number d g) h hnumber hunused (by decide) hused
    (by rw [hcs, Csum.add_nifree, hnifree, UInt32.sub_eq_add_neg])
    (by rw [hcs, Csum.add_ndir, hndir])
  rwa [Nat.zero_mul, Nat.zero_add] at hput

/-- **What one directory changes**: it has the first `n` fragments of block `k`
of group 0, with its bytes in them. -/
structure DirMade (fs : Fs) (modes : Nat → UInt16) (number k n size : Nat)
    (node : Inode) (buf : Bytes) (im im' : Image) : Prop where
  booked : Booked fs (Function.update modes number (IFDIR ||| UMASK)) im'
  inodes : im'.inodes = Function.update im.inodes number node
  others : ∀ c, c ≠ 0 → im'.cgs c = im.cgs c
  free : (im'.cgs 0).free = clearRange (im.cgs 0).free (k * fs.frag) n
  iused : (im'.cgs 0).iused = Function.update (im.cgs 0).iused number true
  data : im'.data = fun i =>
    if k * fs.frag * fs.fsize ≤ i ∧ i < k * fs.frag * fs.fsize + size then
      buf.getD (i - k * fs.frag * fs.fsize) 0
    else im.data i

section Make

variable {fs : Fs} (hl : LaidOut fs) (hb : fs.bsize ≤ MAXBSIZE)
  {modes : Nat → UInt16} {im : Image} {size n k : Nat} {mode : UInt16}
  (h : Booked fs modes im) (hncg : 0 < fs.ncg)
  (hfree : ∀ i < fs.frag, (im.cgs 0).free (k * fs.frag + i) = true)
  (hfirst : ∀ j < k, ∃ i < fs.frag, (im.cgs 0).free (j * fs.frag + i) = false)
include hl h hncg hfree

/-- The block lies in the group. -/
private theorem block_inside : k * fs.frag + fs.frag ≤ (im.cgs 0).ndblk := by
  have hfrag := hl.sized.frag_pos
  by_contra hout
  have hbit := hfree (fs.frag - 1) (by omega)
  have hclr := (h.space.accounted.frags 0 hncg).pastEnd
    (k * fs.frag + (fs.frag - 1)) (by
      show (im.cgs 0).ndblk ≤ _
      omega)
  rw [show ((im.disk 0).cgs 0) = im.cgs 0 from rfl, hbit] at hclr
  cases hclr

omit hl hfree in
private theorem ndblk_le : (im.cgs 0).ndblk ≤ fs.fpg := by
  have hnd : (im.cgs 0).ndblk = cgFrags fs.decoded 0 := h.space.ndblk 0 hncg
  rw [hnd]
  exact Nat.min_le_left _ _

/-- A free block is counted. -/
private theorem nbfree_ne_zero : (im.cgs 0).cs.nbfree ≠ 0 := by
  have hfrag := hl.sized.frag_pos
  have hcounts : FragCounts fs.decoded (im.cgs 0) :=
    h.space.accounted.frags 0 hncg
  have hinside := block_inside hl h hncg hfree
  have hnd := ndblk_le h hncg
  have hmax : fs.fpg ≤ INT_MAX := by
    have hmul := Nat.le_mul_of_pos_right fs.fpg hl.sized.nspf_pos
    have heq := hl.fpg_eq
    have hle := hl.cpg_spc
    omega
  have hk : k < blockCount fs.decoded (im.cgs 0).ndblk := by
    have hlt := @lt_blockCount fs.decoded (k * fs.frag) _ hfrag
      (show k * fs.frag < (im.cgs 0).ndblk by omega)
    rwa [show k * fs.frag / fs.decoded.fragsPerBlock = k from
      Nat.mul_div_cancel k hfrag] at hlt
  have hone : wholeBlock fs.decoded (im.cgs 0).free k = 1 := by
    have hw : wholeFree fs.decoded (im.cgs 0).free k = true := by
      unfold wholeFree
      rw [allSet_iff]
      exact hfree
    unfold wholeBlock
    rw [hw]
    rfl
  have hpos : 1 ≤ freeBlocks fs.decoded (im.cgs 0) := by
    unfold freeBlocks blockTotal
    rw [← hone]
    exact Finset.single_le_sum (f := fun j => wholeBlock fs.decoded
      (im.cgs 0).free j) (fun _ _ => Nat.zero_le _) (Finset.mem_range.mpr hk)
  have hle : freeBlocks fs.decoded (im.cgs 0)
      ≤ blockCount fs.decoded (im.cgs 0).ndblk := by
    unfold freeBlocks blockTotal
    calc ∑ j ∈ Finset.range (blockCount fs.decoded (im.cgs 0).ndblk),
          wholeBlock fs.decoded (im.cgs 0).free j
        ≤ ∑ _j ∈ Finset.range (blockCount fs.decoded (im.cgs 0).ndblk), 1 :=
          Finset.sum_le_sum fun j _ => Bool.toNat_le _
      _ = blockCount fs.decoded (im.cgs 0).ndblk := by simp
  have hblocks : blockCount fs.decoded (im.cgs 0).ndblk
      ≤ (im.cgs 0).ndblk + fs.frag - 1 := Nat.div_le_self _ _
  have hsmall := hl.sized.frag_le
  unfold INT_MAX at hmax
  rw [hcounts.nbfree]
  intro hzero
  have hnat := congrArg UInt32.toNat hzero
  rw [UInt32.toNat_ofNat_of_lt' (by show _ < 4294967296; omega)] at hnat
  have hnat : freeBlocks fs.decoded (im.cgs 0) = 0 := hnat
  omega

include hfirst in
/-- **`alloc` finds the first free block.** -/
theorem alloc_first :
    alloc fs size mode im = (k * fs.frag,
      { im with
        acg := takeBlock fs size mode (k * fs.frag) (im.cgs 0)
        cgs := Function.update im.cgs 0
          (takeBlock fs size mode (k * fs.frag) (im.cgs 0))
        cstotal := im.cstotal + allocDelta fs size mode
        csums := Function.update im.csums 0
          (im.csums 0 + allocDelta fs size mode) }) := by
  have hfrag := hl.sized.frag_pos
  have hknown : knownFrag fs.frag = true := decide_eq_true hl.sized.frag_known
  have hmagic : (im.cgs 0).magic = CG_MAGIC := h.space.magic 0 hncg
  have hinside := block_inside hl h hncg hfree
  have hfind : findBlock fs (im.cgs 0) = some k := by
    unfold findBlock
    rw [List.find?_range_eq_some]
    refine ⟨?_, ?_, ?_⟩
    · unfold isblock
      rw [hknown, Bool.true_and, allSet_iff]
      exact hfree
    · rw [List.mem_range, lt_howmany hfrag]
      omega
    · intro j hj
      obtain ⟨i, hi, hbit⟩ := hfirst j hj
      rw [Bool.not_eq_true', Bool.eq_false_iff]
      intro hall
      unfold isblock at hall
      rw [hknown, Bool.true_and, allSet_iff] at hall
      rw [hall i hi] at hbit
      cases hbit
  unfold alloc
  dsimp only
  rw [h.buffer, if_neg (not_not.mpr hmagic),
    if_neg (nbfree_ne_zero hl h hncg hfree), hfind]

include hfirst in
/-- **One directory is made.** -/
theorem makeDir_eq {number : Nat} (hnumber : number < fs.ipg) (now : UInt32)
    (nlink : UInt16) (isize : Nat) (buf : Bytes) :
    makeDir fs now number nlink size isize buf im
      = some (madeImage fs size number (k * fs.frag)
        (dirInode fs now nlink isize (k * fs.frag)) buf im) := by
  have halloc := @alloc_first fs hl modes im size k (IFDIR ||| UMASK) h hncg hfree
    hfirst
  obtain ⟨hmagic, -⟩ := takeBlock_head fs size (IFDIR ||| UMASK) (k * fs.frag)
    (im.cgs 0)
  have hmagic := hmagic.trans (h.space.magic 0 hncg)
  have hrange : number < fs.ipg * fs.ncg :=
    Nat.lt_of_lt_of_le hnumber (Nat.le_mul_of_pos_right _ hncg)
  unfold makeDir
  rw [halloc]
  dsimp only
  rw [iput_some _ _ hrange]
  · unfold madeImage madeGroup madeDelta writeDirBlock
    dsimp only
    rw [Function.update_self, Function.update_self, Function.update_idem,
      Function.update_idem, csum_add_assoc, csum_add_assoc]
  · unfold writeDirBlock
    dsimp only
    rw [Function.update_self]
  · unfold writeDirBlock
    dsimp only
    rw [Function.update_self]
    exact hmagic

include hb in
/-- **The books are kept.** -/
theorem madeImage_booked (hreq : Request fs size n) {number : Nat}
    (hnumber : number < fs.ipg) (hunused : (im.cgs 0).iused number = false)
    (node : Inode) (buf : Bytes) :
    Booked fs (Function.update modes number (IFDIR ||| UMASK))
      (madeImage fs size number (k * fs.frag) node buf im) := by
  have hfrag := hl.sized.frag_pos
  have hinside := block_inside hl h hncg hfree
  have hcounts : FragCounts fs.decoded (im.cgs 0) :=
    h.space.accounted.frags 0 hncg
  have htaken := @takeBlock_fragCounts fs hl size n k _ (IFDIR ||| UMASK) hb
    hcounts hreq hfree (by omega) (ndblk_le h hncg)
  obtain ⟨hmagic, hndblk, hused, hcs⟩ :=
    madeGroup_head fs size number (k * fs.frag) (im.cgs 0)
  let u : GroupUpdate Unit :=
    { cg := madeGroup fs size number (k * fs.frag) (im.cgs 0)
      delta := madeDelta fs size
      result := () }
  have hfrags : FragCounts fs.decoded u.cg :=
    FragCounts.same htaken rfl rfl (UInt32.add_zero _) (UInt32.add_zero _)
      (fun _ _ _ => rfl) (fun _ _ => rfl) (fun _ _ _ _ => rfl)
  have hinodes := madeGroup_inodeCounts (h.space.accounted.inodes 0 hncg) hnumber
    hunused size (k * fs.frag)
  have hacc := @Accounted.groupStep _ _ _ _ 0 _ u h.space.accounted hncg hfrags
    hinodes hcs
    (by
      intro c' hne hc'
      have hother := @InodeCounts.of_update _ _ 0 _ _ number (IFDIR ||| UMASK) hne
        hnumber hc'
      rwa [Nat.zero_mul, Nat.zero_add] at hother)
  have hself : (madeImage fs size number (k * fs.frag) node buf im).cgs 0
      = madeGroup fs size number (k * fs.frag) (im.cgs 0) := by
    show Function.update im.cgs 0 _ 0 = _
    exact Function.update_self ..
  have hother : ∀ c, c ≠ 0 →
      (madeImage fs size number (k * fs.frag) node buf im).cgs c = im.cgs c :=
    fun c hc => Function.update_of_ne hc ..
  refine ⟨⟨⟨hacc.frags, hacc.inodes, hacc.csum, hacc.total⟩, ?_, ?_⟩,
    readCg_self hself.symm⟩
  · intro c hc
    show ((madeImage fs size number (k * fs.frag) node buf im).cgs c).magic = _
    by_cases h0 : c = 0
    · subst h0
      rw [hself, hmagic]
      exact h.space.magic 0 hncg
    · rw [hother c h0]
      exact h.space.magic c hc
  · intro c hc
    show ((madeImage fs size number (k * fs.frag) node buf im).cgs c).ndblk = _
    by_cases h0 : c = 0
    · subst h0
      rw [hself, hndblk]
      exact h.space.ndblk 0 hncg
    · rw [hother c h0]
      exact h.space.ndblk c hc

include hb hfirst in
/-- **One directory**: it is made, and the books are kept. -/
theorem makeDir_spec (hreq : Request fs size n) {now : UInt32} {number : Nat}
    {nlink : UInt16} {isize : Nat} {buf : Bytes} (hnumber : number < fs.ipg)
    (hunused : (im.cgs 0).iused number = false) :
    ∃ im', makeDir fs now number nlink size isize buf im = some im' ∧
      DirMade fs modes number k n size
        (dirInode fs now nlink isize (k * fs.frag)) buf im im' := by
  have hmade := @makeDir_eq fs hl modes im size k h hncg hfree hfirst number hnumber
    now nlink isize buf
  have hbooked := @madeImage_booked fs hl hb modes im size n k h hncg hfree hreq
    number hnumber hunused (dirInode fs now nlink isize (k * fs.frag)) buf
  obtain ⟨-, -, hused, -⟩ :=
    madeGroup_head fs size number (k * fs.frag) (im.cgs 0)
  have hself : (madeImage fs size number (k * fs.frag)
      (dirInode fs now nlink isize (k * fs.frag)) buf im).cgs 0
      = madeGroup fs size number (k * fs.frag) (im.cgs 0) := by
    show Function.update im.cgs 0 _ 0 = _
    exact Function.update_self ..
  refine ⟨_, hmade, ?_⟩
  constructor
  case booked => exact hbooked
  case inodes => rfl
  case others => exact fun c hc => Function.update_of_ne hc ..
  case free =>
    rw [hself]
    exact @takeBlock_free fs hl size n k _ (IFDIR ||| UMASK) hreq hfree
  case iused => rw [hself, hused]
  case data => rfl

end Make

end NextUfs.Format
