/-
  NextUfs.Mutate.LinkedDirs
  ─────────────────────────
  **NEW DIRECTORIES, AND LINK COUNTS.**
  A new directory has one chunk, with `.` and `..` in it, in a fragment that was
  free.  Its name and its `.` are its two links; its `..` is one more of its
  parent.

    • `dotsChunk_wellChunk` — the chunk of a new directory,
    • `NewDir`              — a new directory on the disk,
    • `NewDir.ordered`      — it is in order,
    • `mkdir_linked`        — and the link counts are right.
-/
import Mathlib.Data.List.GetD
import NextUfs.Mutate.LinkedOperations

namespace NextUfs

open State Radix Bits

/-! ## §1. The first chunk. -/

/-- The chunk of a new directory: `.`, and `..` over the rest. -/
def dotsChunk (selfIno parentIno : Nat) : Bytes :=
  rawDirent selfIno (direntSize 1) [DOT]
    ++ rawDirent parentIno (DIRBLKSIZ - direntSize 1) [DOT, DOT]

/-- The entries of a new directory. -/
def dotsEntries (selfIno parentIno : Nat) : List (Nat × Bytes) :=
  [(selfIno, [DOT]), (parentIno, [DOT, DOT])]

section Chunk

variable {n p : Nat}

theorem dotsChunk_length (n p : Nat) : (dotsChunk n p).length = DIRBLKSIZ := by
  unfold dotsChunk
  rw [List.length_append, rawDirent_length (by decide), rawDirent_length (by decide)]
  rfl

/-- **The chunk holds `.` and `..`**, and no other record. -/
theorem dotsChunk_wellChunk (hn0 : n ≠ 0) (hn : n < 2 ^ 32) (hp0 : p ≠ 0)
    (hp : p < 2 ^ 32) : WellChunk (dotsChunk n p) (dotsEntries n p) := by
  have hlen := dotsChunk_length n p
  have hfirst : (rawDirent n (direntSize 1) [DOT]).length = direntSize 1 :=
    rawDirent_length (by decide)
  have hdot : readDirent (dotsChunk n p) DIRBLKSIZ 0
      = some ⟨n, direntSize 1, 1, [DOT]⟩ := by
    have hroom : 0 + direntSize 1 ≤ (dotsChunk n p).length := by
      rw [hlen]
      decide
    refine @readDirent_raw n (direntSize 1) [DOT] _ _ 0 hn (by decide) (by decide)
      (by decide) hroom fun i hi => ?_
    rw [Nat.zero_add]
    exact List.getD_append _ _ _ _ (by rw [hfirst]; exact hi)
  have hdotdot : readDirent (dotsChunk n p) DIRBLKSIZ (direntSize 1)
      = some ⟨p, DIRBLKSIZ - direntSize 1, 2, [DOT, DOT]⟩ := by
    have hroom : direntSize 1 + (DIRBLKSIZ - direntSize 1)
        ≤ (dotsChunk n p).length := by
      rw [hlen]
      decide
    refine @readDirent_raw p (DIRBLKSIZ - direntSize 1) [DOT, DOT] _ _
      (direntSize 1) hp (by decide) (by decide) (by decide) hroom fun i _ => ?_
    unfold dotsChunk
    rw [List.getD_append_right _ _ _ _ (by rw [hfirst]; omega), hfirst,
      Nat.add_sub_cancel_left]
  have htiles : Tiles (dotsChunk n p) DIRBLKSIZ 0 DIRBLKSIZ
      [(0, Dirent.shown ⟨n, direntSize 1, 1, [DOT]⟩),
        (direntSize 1, Dirent.shown ⟨p, DIRBLKSIZ - direntSize 1, 2, [DOT, DOT]⟩)] :=
    .cons hdot (by
      dsimp only
      rw [Nat.zero_add]
      exact .cons hdotdot (.nil _))
  have hshown : Dirent.shown ⟨n, direntSize 1, 1, [DOT]⟩
      = ⟨n, direntSize 1, 1, [DOT]⟩ := shown_of_live (by exact hn0)
  have hshown' : Dirent.shown ⟨p, DIRBLKSIZ - direntSize 1, 2, [DOT, DOT]⟩
      = ⟨p, DIRBLKSIZ - direntSize 1, 2, [DOT, DOT]⟩ := shown_of_live (by exact hp0)
  rw [hshown, hshown'] at htiles
  refine ⟨_, by rw [hlen]; exact htiles, fun r hr hbad => ?_, ?_⟩
  · -- each record is as long as its name needs
    have hshort := hbad.2
    rcases List.mem_cons.mp hr with rfl | hr
    · exact Nat.lt_irrefl (direntSize 1) hshort
    · rw [List.mem_singleton.mp hr] at hshort
      exact absurd hshort (by decide : ¬DIRBLKSIZ - direntSize 1 < direntSize 2)
  · rw [entriesOf_cons_live (by exact hn0), entriesOf_cons_live (by exact hp0)]
    rfl

end Chunk

/-! ## §2. A directory of one fragment. -/

/-- **A new directory**: inode `ino`, number `n`, with `.` and `..` in fragment
`a`. -/
structure NewDir (sb : Superblock) (e : Disk) (n p a : Nat) (ino : Inode) :
    Prop where
  isDir : isDirMode ino.mode = true
  size : ino.size = DIRBLKSIZ
  first : ino.db 0 = a
  rest : ∀ i, i ≠ 0 → ino.db i = 0
  indirect : ∀ slot, ino.ib slot = 0
  blocks : ino.blocks = UInt32.ofNat sb.sectorsPerFrag
  fits : RunFits sb a 1
  ne_zero : a ≠ 0
  holds : e.read (a * sb.fragSize) DIRBLKSIZ = dotsChunk n p

namespace NewDir

variable {sb : Superblock} {e : Disk} {n p a : Nat} {ino : Inode}

theorem size_eq (sb : Superblock) : DIRBLKSIZ = 0 * sb.blockSize + DIRBLKSIZ := by
  rw [Nat.zero_mul, Nat.zero_add]

/-- A block has room for a chunk. -/
theorem chunk_le (hgeo : DirGeometry sb) : DIRBLKSIZ ≤ sb.blockSize := by
  obtain ⟨q, hq, hblock⟩ := hgeo.blockSize_chunks
  rw [hblock]
  exact Nat.le_mul_of_pos_left _ hq

theorem fileBlocks_eq (h : NewDir sb e n p a ino) (hgeo : DirGeometry sb) :
    fileBlocks sb ino.size = 1 := by
  rw [h.size, size_eq sb, fileBlocks_end (by decide) (chunk_le hgeo)]

theorem fragsNeeded_eq (h : NewDir sb e n p a ino) (hgeo : DirGeometry sb) :
    fragsNeeded sb ino.size 0 = 1 := by
  rw [h.size, size_eq sb, fragsNeeded_last (by decide) (chunk_le hgeo),
    endFrags_chunk hgeo]

theorem chunkBytes_eq (h : NewDir sb e n p a ino) (hgeo : DirGeometry sb) :
    chunkBytes sb ino.size 0 = DIRBLKSIZ := by
  have hlast := @chunkBytes_last sb 0 DIRBLKSIZ (chunk_le hgeo)
  rw [← size_eq sb, ← h.size] at hlast
  rw [hlast, h.size]

theorem blockAt_eq (h : NewDir sb e n p a ino) (d : Disk) :
    blockAt sb d ino 0 = a := by
  unfold blockAt blockOf
  rw [dif_pos (by decide)]
  exact h.first

theorem metaFrags_eq (h : NewDir sb e n p a ino) (d : Disk) (f : Nat) :
    metaFrags sb d ino f = 0 := by
  refine Finset.sum_eq_zero fun slot _ => ?_
  rw [h.indirect, treeFrags_zero_root]

/-- **It claims its fragment**, and nothing else. -/
theorem blockClaims_eq (h : NewDir sb e n p a ino) (hgeo : DirGeometry sb)
    (d : Disk) (f : Nat) : blockClaims sb d ino f = covers a 1 f := by
  unfold blockClaims
  rw [h.metaFrags_eq, h.fileBlocks_eq hgeo, dataFrags_succ, h.blockAt_eq,
    if_neg h.ne_zero, h.fragsNeeded_eq hgeo, Nat.zero_add]
  exact Nat.zero_add _

theorem inodeClaims_eq (h : NewDir sb e n p a ino) (hgeo : DirGeometry sb)
    (d : Disk) (f : Nat) : inodeClaims sb d ino f = covers a 1 f := by
  rw [inodeClaims_of_dir h.isDir, h.blockClaims_eq hgeo]

theorem dirPlaces_eq (h : NewDir sb e n p a ino) (hgeo : DirGeometry sb) :
    dirPlaces sb ino.size = [(0, 0)] := by
  obtain ⟨q, hq, hblock⟩ := hgeo.blockSize_chunks
  have hone := @NextUfs.dirPlaces_eq sb 0 q 1 hq hblock hq
  rw [Nat.one_mul, ← size_eq sb, ← h.size] at hone
  exact hone

theorem dirChunk_eq (h : NewDir sb e n p a ino) (hgeo : DirGeometry sb) :
    dirChunk sb e ino (0, 0) = dotsChunk n p := by
  unfold dirChunk
  rw [dirBlock_direct (by decide), if_neg (by
    show ¬ino.db 0 = 0
    rw [h.first]
    exact h.ne_zero), h.chunkBytes_eq hgeo]
  show ((e.read (ino.db 0 * sb.fragSize) DIRBLKSIZ).drop (0 * DIRBLKSIZ)).take _ = _
  rw [h.first, h.holds, Nat.zero_mul, List.drop_zero, ← dotsChunk_length n p,
    List.take_length]

section Order

variable (h : NewDir sb e n p a ino) (hgeo : DirGeometry sb)
  (hn0 : n ≠ 0) (hn : n < 2 ^ 32) (hp0 : p ≠ 0) (hp : p < 2 ^ 32)

include h hgeo hn0 hn hp0 hp

/-- **Its entries** are `.` and `..`. -/
theorem dirEntries_eq : dirEntries sb e ino = dotsEntries n p := by
  unfold dirEntries
  rw [h.dirPlaces_eq hgeo, List.flatMap_singleton, h.dirChunk_eq hgeo,
    (dotsChunk_wellChunk hn0 hn hp0 hp).partitioned.entries]

/-- **It is in order** on a disk in order. -/
theorem ordered {live : Finset Nat} {modes : Nat → UInt16}
    (hspace : FreeSpace sb modes e) (howned : FragsOwned sb live e)
    (hmem : n ∈ live) (hcur : e.inodes n = ino) :
    OrderedDir sb live modes e ⟨n, ino⟩ := by
  refine ⟨hspace, howned, hmem, hcur, h.isDir, fun lb hlb => ?_, ?_, fun x hx => ?_⟩
  · dsimp only at hlb ⊢
    rw [h.fileBlocks_eq hgeo, Nat.lt_one_iff] at hlb
    rw [hlb, h.blockAt_eq, h.fragsNeeded_eq hgeo]
    exact h.fits
  · dsimp only
    have hclaimed : claimedFrags sb e ino = 1 := by
      unfold claimedFrags
      rw [Finset.sum_congr rfl fun f _ => h.blockClaims_eq hgeo e f]
      exact sum_covers h.fits.disk
    rw [hclaimed, Nat.one_mul]
    exact h.blocks
  · dsimp only at hx ⊢
    rw [h.dirPlaces_eq hgeo] at hx
    rw [List.mem_singleton.mp hx, h.dirChunk_eq hgeo]
    exact ⟨_, dotsChunk_wellChunk hn0 hn hp0 hp⟩

end Order

end NewDir

/-! ## §3. The call. -/

/-- The mode a new directory is allocated for. -/
def newDirMode (mode : UInt16) : UInt16 := IFDIR ||| (mode &&& 0o777)

/-- The inode of a new directory. -/
def newDirInode (sb : Superblock) (ctx : WriteCtx) (parent : Node) (mode : UInt16)
    (a : Nat) (now : UInt32) : Inode :=
  { (newInode ctx parent (newDirMode mode) 2 DIRBLKSIZ now).setDb 0 a with
    blocks := UInt32.ofNat sb.sectorsPerFrag }

/-- It is a directory. -/
theorem newDirMode_kind (mode : UInt16) : newDirMode mode &&& IFMT = IFDIR := by
  apply UInt16.toBitVec_inj.mp
  unfold newDirMode
  simp only [UInt16.toBitVec_and, UInt16.toBitVec_or]
  rw [BitVec.and_or_distrib_right, BitVec.and_assoc,
    show (0o777 : UInt16).toBitVec &&& IFMT.toBitVec = 0#16 by decide,
    BitVec.and_zero, BitVec.or_zero]
  decide

theorem isDirMode_iff {mode : UInt16} : isDirMode mode = true ↔ mode &&& IFMT = IFDIR := by
  unfold isDirMode
  exact beq_iff_eq

theorem newDirMode_isDir (mode : UInt16) : isDirMode (newDirMode mode) = true := by
  unfold isDirMode
  rw [newDirMode_kind]
  rfl

section Mkdir

variable {sb : Superblock} {live : Finset Nat} {modes : Nat → UInt16}
  {ctx : WriteCtx} {d d₁ d₂ d' : Disk} {path name : Bytes} {mode : UInt16}
  {parent : Node} {n a : Nat}

/-- **What a call that makes a directory has done.** -/
theorem pathMkdir_run (hrun : pathMkdir sb ctx path mode d = .ok () d') :
    ∃ parent name n d₁ a d₂ node d₃ now,
      findParent sb ctx path true d = .ok (parent, name) d ∧
      requireAbsent sb path d = .ok () d ∧
      allocateInodeInGroup sb (parent.inodeNo / sb.inodesPerGroup)
        (newDirMode mode) d = .ok n d₁ ∧
      allocateFragsAnycg sb (parent.inodeNo / sb.inodesPerGroup) 1 d₁ = .ok a d₂ ∧
      insertDirent sb parent name n
        (withInode (d₂.write (a * sb.fragSize) (dotsChunk n parent.inodeNo)) n
          (newDirInode sb ctx parent mode a now)) = .ok node d₃ ∧
      d' = withInode d₃ node.inodeNo { node.inode with
        nlink := node.inode.nlink + 1, ctime := now, mtime := now } := by
  unfold pathMkdir at hrun
  obtain ⟨⟨parent, name⟩, e₁, hparent, hrun⟩ := bind_eq_ok hrun
  have he₁ : e₁ = d := (findParent_found hparent).1
  rw [he₁] at hparent hrun
  obtain ⟨_, e₂, habsent, hrun⟩ := bind_eq_ok hrun
  have he₂ : e₂ = d := (requireAbsent_ok habsent).1
  rw [he₂] at habsent hrun
  obtain ⟨n, d₁, halloc, hrun⟩ := bind_eq_ok hrun
  obtain ⟨a, d₂, hfrags, hrun⟩ := bind_eq_ok hrun
  obtain ⟨_, d₃, hblock, hrun⟩ := bind_eq_ok hrun
  -- the first chunk is written
  have hwritten : d₃ = d₂.write (a * sb.fragSize) (dotsChunk n parent.inodeNo) := by
    have hblock := orCleanup_ok hblock
    unfold writeNewDirectoryBlock at hblock
    obtain ⟨dot, e₃, hdot, hblock⟩ := bind_eq_ok hblock
    obtain ⟨hdot, he₃⟩ := liftCheck_ok hdot
    obtain ⟨dotdot, e₄, hdotdot, hblock⟩ := bind_eq_ok hblock
    obtain ⟨hdotdot, he₄⟩ := liftCheck_ok hdotdot
    rw [he₄, he₃, (writeDirentRaw_ok hdot).2, (writeDirentRaw_ok hdotdot).2] at hblock
    cases hblock
    rfl
  obtain ⟨now, d₄, hnow, hrun⟩ := bind_eq_ok hrun
  cases hnow
  obtain ⟨node, d₅, hinsert, hparentWrite⟩ := bind_eq_ok hrun
  have hinsert := orCleanup_ok hinsert
  obtain ⟨_, d₆, hwrite, hinsert⟩ := bind_eq_ok hinsert
  have hino := writeInodeRaw_ok hwrite
  refine ⟨parent, name, n, d₁, a, d₂, node, d₅, d₃.clock, hparent, habsent, halloc,
    hfrags, ?_, writeInodeRaw_ok hparentWrite⟩
  rw [hino, hwritten] at hinsert
  rw [hwritten]
  exact hinsert

/-- The inode that is written is a new directory on the disk. -/
theorem newDirInode_newDir (ctx : WriteCtx) (parent : Node) (mode : UInt16)
    (now : UInt32) (hfits : RunFits sb a 1) (hne : a ≠ 0) (d : Disk) (p : Nat) :
    NewDir sb (withInode (d.write (a * sb.fragSize) (dotsChunk n p)) n
      (newDirInode sb ctx parent mode a now)) n p a
      (newDirInode sb ctx parent mode a now) := by
  have hnew := newInode_fields ctx parent (newDirMode mode) 2 DIRBLKSIZ now
  have hdb : (newDirInode sb ctx parent mode a now).db = Function.update
      (newInode ctx parent (newDirMode mode) 2 DIRBLKSIZ now).db 0 a := rfl
  refine ⟨?_, hnew.size, ?_, fun i hi => ?_, hnew.pointers.2, rfl, hfits, hne, ?_⟩
  · show isDirMode (newInode ctx parent (newDirMode mode) 2 DIRBLKSIZ now).mode = true
    unfold isDirMode
    rw [hnew.kind, newDirMode_kind]
    rfl
  · rw [hdb, Function.update_self]
  · rw [hdb, Function.update_of_ne hi]
    exact hnew.pointers.1 i
  · rw [← dotsChunk_length n p]
    exact read_write_self d _ _

/-- **A directory is added**: an inode was taken, and a fragment for it. -/
theorem Linked.addDir (hgeo : DirGeometry sb) (h : Linked sb live modes d)
    (ctx : WriteCtx) (now : UInt32) (hn : n < inodeCount sb) (hn0 : n ≠ 0)
    (htaken : InodeTaken sb d d₁ n (newDirMode mode)) (hrun : RunTaken sb d₁ d₂ a 1)
    (hparent : parent.inodeNo ∈ live) :
    InodeAdded sb live (Function.update modes n (newDirMode mode)) n d
        (withInode (d₂.write (a * sb.fragSize) (dotsChunk n parent.inodeNo)) n
          (newDirInode sb ctx parent mode a now)) ∧
      entriesIn sb (withInode (d₂.write (a * sb.fragSize)
          (dotsChunk n parent.inodeNo)) n (newDirInode sb ctx parent mode a now)) n
        = dotsEntries n parent.inodeNo := by
  obtain ⟨hnew, hreal⟩ := h.unused hn htaken.unused
  have hgeo' := hgeo.toDataGeometry
  have hfree : ∀ f, freeAt sb d₁ f = freeAt sb d f := fun f => by
    unfold freeAt
    rw [htaken.free]
  have hne : a ≠ 0 := by
    intro ha
    have hwas := hrun.wasFree (show 0 < 1 by decide)
    rw [ha, Nat.add_zero, hfree, h.owned.zero hgeo'] at hwas
    exact absurd hwas (by decide)
  have hdir := newDirInode_newDir (n := n) ctx parent mode now hrun.fits hne d₂
    parent.inodeNo
  generalize hino : newDirInode sb ctx parent mode a now = ino at hdir ⊢
  generalize he : withInode (d₂.write (a * sb.fragSize)
    (dotsChunk n parent.inodeNo)) n ino = e at hdir ⊢
  have hself : e.inodes n = ino := by
    rw [← he]
    exact Function.update_self ..
  have hinodes : e.inodes = Function.update d.inodes n ino := by
    rw [← he]
    show Function.update d₂.inodes n ino = _
    rw [hrun.books.inodes, htaken.inodes]
  have hframe : ∀ f, freeAt sb d f = 0 → SameFrag sb d e f := by
    intro f hf
    have hout : f < a ∨ a + 1 ≤ f := by
      have htook := hrun.free f
      rw [hfree, hf] at htook
      unfold covers at htook
      split at htook
      · omega
      · omega
    have hwrite := @sameFrag_write sb d₂ a 1 0 f (dotsChunk n parent.inodeNo)
      (by
        rw [dotsChunk_length, Nat.zero_add, Nat.one_mul]
        exact Nat.le_of_dvd hgeo'.fragSize_pos hgeo.dirblk) hout
    have hold : SameFrag sb d d₂ f := SameFrag.of_data_eq (hrun.data.trans htaken.data) f
    rw [← he]
    exact hold.trans hwrite
  have hlt : ∀ m ∈ live, m < 2 ^ 32 := fun m hm =>
    Nat.lt_of_lt_of_le (h.inRange m hm) h.numbers
  have hp0 : parent.inodeNo ≠ 0 := by
    have hroot := h.real _ hparent
    unfold ROOT_INODE at hroot
    omega
  have hn' : n < 2 ^ 32 := Nat.lt_of_lt_of_le hn h.numbers
  have hentries : entriesIn sb e n = dotsEntries n parent.inodeNo := by
    rw [entriesIn_of_dir (by rw [hself]; exact hdir.isDir), hself]
    exact hdir.dirEntries_eq hgeo hn0 hn' hp0 (hlt _ hparent)
  have hspace : FreeSpace sb (Function.update modes n (newDirMode mode)) e := by
    rw [← he]
    exact (hrun.books.space _ (htaken.space modes h.space)).of_groups rfl rfl rfl
  have hkept := h.newKept hnew hinodes hframe
  have hneq : ∀ q ∈ live, q ≠ n := fun q hq heq => hnew (heq ▸ hq)
  refine ⟨⟨hnew, hreal, ?_, fun q hq => hkept.inodes q hq (hneq q hq),
    fun q hq => hkept.entriesIn hgeo' hq (hneq q hq), ?_, ?_, fun q hq hq' => ?_, ?_⟩,
    hentries⟩
  · refine h.toConsistent.addInode hgeo hn hnew hinodes (fun q => ?_) hspace hframe
      (fun f => ?_) fun howned => ⟨fun hfile => ?_, fun _ => ?_, fun x hx => ?_⟩
    · rw [← htaken.iused q, ← he]
      exact congrFun (hrun.books.iused _) _
    · rw [hdir.inodeClaims_eq hgeo, ← hfree f, ← hrun.free f, ← he]
      rfl
    · rw [hself, hdir.isDir] at hfile
      cases hfile
    · rw [hself]
      exact hdir.ordered hgeo hn0 hn' hp0 (hlt _ hparent) hspace howned
        (Finset.mem_insert_self n live) hself
    · rw [hentries] at hx
      rcases List.mem_cons.mp hx with rfl | hx
      · exact Finset.mem_insert_self n live
      · rw [List.mem_singleton.mp hx]
        exact Finset.mem_insert_of_mem hparent
  · rw [Function.update_self, hself, hdir.isDir, newDirMode_isDir]
  · rw [hself]
    exact .inr (.inl (isDirMode_iff.mp hdir.isDir))
  · rcases Finset.mem_insert.mp hq with rfl | hq
    · rw [hself]
      intro slot x hx
      rw [hdir.indirect slot] at hx
      exact absurd rfl hx.1
    · rw [hkept.inodes q hq (hneq q hq)] at hq'
      exact hkept.inside hgeo' hq (hneq q hq) hq' (h.inside q hq hq')
  · rw [hentries]
    show [[DOT], [DOT, DOT]].Nodup
    decide

/-- **A new directory leaves the link counts right**: two links are its own, and
its parent has one more. -/
theorem mkdir_linked (hgeo : DirGeometry sb) (h : Linked sb live modes d)
    (hrun : pathMkdir sb ctx path mode d = .ok () d') :
    ∃ n, Linked sb (insert n live) (Function.update modes n (newDirMode mode)) d' := by
  obtain ⟨parent, name, n, d₁, a, d₂, node, d₃, now, hparent, habsent, halloc, hfrags,
    hinsert, rfl⟩ := pathMkdir_run hrun
  have habs := h.absent hgeo hparent habsent
  obtain ⟨htaken, hn, hnew, hn0⟩ := h.allocated hgeo habs.live halloc
  have hrun := wp_ok (allocateFragsAnycg_spec hgeo.toDataGeometry _ _ _) hfrags
  obtain ⟨hadded, hentries⟩ := h.addDir hgeo ctx now hn hn0 htaken hrun habs.live
  have hord := hadded.orderedDir habs.live habs.copy habs.isDir
  obtain ⟨hnamed, hcurrent⟩ := name_added hgeo hadded.ordered hord
    (Finset.mem_insert_self n live) hn0 hinsert
  have hsame : node.inodeNo = parent.inodeNo :=
    (hadded.ordered.addName hgeo hord (Finset.mem_insert_self n live) hn0
      hinsert).2.1.same
  have hplive := Finset.mem_insert_of_mem (b := n) habs.live
  rw [hsame]
  -- the parent has a link more
  generalize hino : ({ node.inode with
    nlink := node.inode.nlink + 1, ctime := now, mtime := now } : Inode) = ino
  have hlay : SameLayout (d₃.inodes parent.inodeNo) ino := by
    rw [hcurrent, ← hino]
    exact ⟨rfl, rfl⟩
  have hself : (withInode d₃ parent.inodeNo ino).inodes parent.inodeNo = ino :=
    Function.update_self ..
  have hother : ∀ q, q ≠ parent.inodeNo →
      (withInode d₃ parent.inodeNo ino).inodes q = d₃.inodes q :=
    fun q hq => Function.update_of_ne hq ..
  refine ⟨n, h.made hadded hnamed habs.live habs.absent
    (hnamed.ordered.restamped hgeo hplive hlay) (fun q _ => hlay.entriesIn q)
    hlay.kinds (fun q => hlay.inside hgeo.toDataGeometry) fun q hq => ?_⟩
  · have hpn : parent.inodeNo ≠ n := fun heq => hnew (heq ▸ habs.live)
    have hcount : namesFor q (dotsEntries n parent.inodeNo)
        = (if parent.inodeNo = q then 1 else 0) + if n = q then 1 else 0 := by
      unfold dotsEntries
      rw [namesFor_cons, namesFor_cons, namesFor_nil, Nat.zero_add]
    rw [hentries, hcount]
    by_cases hq' : q = parent.inodeNo
    · have hlinks := h.links _ habs.live
      have hnl : node.inode.nlink = (d.inodes parent.inodeNo).nlink := by
        rw [← hcurrent, hnamed.links, hadded.inodes _ habs.live]
      rw [hq', hself, if_pos rfl, if_neg (Ne.symm hpn), ← hino, Nat.add_zero,
        Nat.add_zero, UInt16.ofNat_add, ← hlinks, ← hnl]
      rfl
    · rw [hother q hq', if_neg (fun heq => hq' heq.symm), Nat.zero_add, hnamed.links]
      rcases Finset.mem_insert.mp hq with rfl | hlive
      · rw [if_pos rfl, h.unnamed hnew]
        have hwritten : ∀ e : Disk, (withInode e q (newDirInode sb ctx parent mode a
            now)).inodes q = newDirInode sb ctx parent mode a now :=
          fun e => Function.update_self ..
        rw [hwritten]
        exact (newInode_fields ctx parent (newDirMode mode) 2 DIRBLKSIZ now).nlink
      · rw [if_neg fun heq : n = q => hnew (heq ▸ hlive), hadded.inodes q hlive]
        exact h.links q hlive

end Mkdir

end NextUfs
