/-
  NextUfs.Mutate.DirChange
  ────────────────────────
  **A DIRECTORY CHANGES, AND NOTHING ELSE DOES.**

  An insertion and a removal write blocks of one directory and its inode; an
  insertion may take fragments for it.  What other inodes claim stays as it
  is, in directories of any length.

    • `DirChange`           — a change of one directory,
    • `DirChange.owned`     — every fragment still has one owner,
    • `insertDirent_added`  — an insertion that succeeds is one, and adds the
      entry,
    • `removeDirent_change` — so is a removal, whatever the directory's bytes.
-/
import NextUfs.Mutate.DirInsertion
import NextUfs.Mutate.DirRemoval

namespace NextUfs

open State Radix Bits

/-! ## §1. A change of one directory. -/

/-- **From `d` to `d'` the directory `dirnode` has become `node`.**  What it
claims has come from free space; other fragments in use, and other inodes, are
as they were. -/
structure DirChange (sb : Superblock) (d : Disk) (dirnode : Node) (d' : Disk)
    (node : Node) : Prop where
  same : node.inodeNo = dirnode.inodeNo
  current : d'.inodes dirnode.inodeNo = node.inode
  isDir : nodeIsDir node = true
  inodes : ∀ m, m ≠ dirnode.inodeNo → d'.inodes m = d.inodes m
  claims : ∀ f, freeAt sb d' f + blockClaims sb d' node.inode f
    = freeAt sb d f + blockClaims sb d dirnode.inode f
  others : ∀ f, freeAt sb d f = 0 →
    inodeClaims sb d (d.inodes dirnode.inodeNo) f = 0 → SameFrag sb d d' f
  iused : ∀ c, (d'.cgs c).iused = (d.cgs c).iused
  space : ∀ modes, FreeSpace sb modes d → FreeSpace sb modes d'

section Change

variable {sb : Superblock} {live : Finset Nat} {d d' : Disk}
  {dirnode node : Node}

theorem inodeClaims_of_dir {ino : Inode} (h : isDirMode ino.mode = true)
    (d : Disk) (f : Nat) : inodeClaims sb d ino f = blockClaims sb d ino f :=
  if_pos (storesBlocks_of_dir h)

/-- What the directory's inode claims, before and after. -/
theorem DirChange.inodeClaims (h : DirChange sb d dirnode d' node)
    (hcur : d.inodes dirnode.inodeNo = dirnode.inode)
    (hdir : nodeIsDir dirnode = true) (f : Nat) :
    freeAt sb d' f + NextUfs.inodeClaims sb d' (d'.inodes dirnode.inodeNo) f
      = freeAt sb d f
        + NextUfs.inodeClaims sb d (d.inodes dirnode.inodeNo) f := by
  rw [h.current, hcur, inodeClaims_of_dir h.isDir, inodeClaims_of_dir hdir]
  exact h.claims f

/-- **Every fragment still has one owner.** -/
theorem DirChange.owned (h : DirChange sb d dirnode d' node)
    (hgeo : DataGeometry sb) (hown : FragsOwned sb live d)
    (hmem : dirnode.inodeNo ∈ live)
    (hcur : d.inodes dirnode.inodeNo = dirnode.inode)
    (hdir : nodeIsDir dirnode = true) : FragsOwned sb live d' :=
  hown.replace hgeo hmem (fun n _ hne => h.inodes n hne) h.others
    fun f => h.inodeClaims hcur hdir f

/-- What another inode claims is as it was. -/
theorem DirChange.sameFrag (h : DirChange sb d dirnode d' node)
    (hown : FragsOwned sb live d) (hmem : dirnode.inodeNo ∈ live) {m : Nat}
    (hm : m ∈ live) (hne : m ≠ dirnode.inodeNo) {f : Nat}
    (hf : 0 < NextUfs.inodeClaims sb d (d.inodes m) f) : SameFrag sb d d' f :=
  h.others f (hown.claimed hm hf) (hown.other hmem hm hne hf)

/-- Free space depends on the groups and the summary alone. -/
theorem FreeSpace.of_groups {modes : Nat → UInt16} (h : FreeSpace sb modes d)
    (hcgs : d'.cgs = d.cgs) (hcsum : d'.csum = d.csum)
    (htotal : d'.cstotal = d.cstotal) : FreeSpace sb modes d' := by
  obtain ⟨⟨hfrags, hinodes, hcsums, hsum⟩, hmagic, hndblk⟩ := h
  constructor
  · constructor
    · rw [hcgs]
      exact hfrags
    · rw [hcgs]
      exact hinodes
    · rw [hcgs, hcsum]
      exact hcsums
    · rw [hcsum, htotal]
      exact hsum
  · rw [hcgs]
    exact hmagic
  · rw [hcgs]
    exact hndblk

end Change

/-! ## §2. Insertion. -/

section Insertion

variable {sb : Superblock} {live : Finset Nat} {modes : Nat → UInt16}
  {d d' : Disk} {dirnode node : Node} {name : Bytes} {newInode : Nat}

/-- A directory has no more blocks than the disk has fragments. -/
theorem OrderedDir.fileBlocks_le (hgeo : DirGeometry sb)
    (h : OrderedDir sb live modes d dirnode) :
    fileBlocks sb dirnode.inode.size ≤ sb.fragCount := by
  have hne : ∀ lb < fileBlocks sb dirnode.inode.size,
      blockAt sb d dirnode.inode lb ≠ 0 := fun lb hlb =>
    h.chunks.partitioned.block_ne_zero hgeo.blockSize_pos hlb
  have hmaps : ∀ lb ∈ Finset.range (fileBlocks sb dirnode.inode.size),
      blockAt sb d dirnode.inode lb ∈ Finset.range sb.fragCount := by
    intro lb hlb
    have hfits := h.runs lb (Finset.mem_range.mp hlb)
    have hend := hfits.disk
    have hpos := hfits.pos
    exact Finset.mem_range.mpr (by omega)
  -- two blocks at one fragment would claim it twice
  have hinj : Set.InjOn (blockAt sb d dirnode.inode)
      (Finset.range (fileBlocks sb dirnode.inode.size)) := by
    intro lb hlb lb' hlb' heq
    have hlb := Finset.mem_range.mp (Finset.mem_coe.mp hlb)
    have hlb' := Finset.mem_range.mp (Finset.mem_coe.mp hlb')
    by_contra hdiff
    have hle := @covers_add_le_dataFrags sb d dirnode.inode lb
      dirnode.inode.size _ lb' hdiff hlb hlb' (hne lb hlb) (hne lb' hlb')
      (blockAt sb d dirnode.inode lb)
    have hpos := (h.runs lb hlb).pos
    have hpos' := (h.runs lb' hlb').pos
    rw [← heq, covers_eq_one ⟨le_rfl, by omega⟩,
      covers_eq_one ⟨le_rfl, by omega⟩] at hle
    have honce := h.once (blockAt sb d dirnode.inode lb)
    unfold blockClaims at honce
    omega
  have hcard := Finset.card_le_card_of_injOn _ hmaps hinj
  rwa [Finset.card_range, Finset.card_range] at hcard

/-- **A directory that can grow is short.** -/
theorem OrderedDir.short_of_grow (hgeo : DirGeometry sb)
    (h : OrderedDir sb live modes d dirnode) {off : Nat}
    (hrun : growDirectoryByDirblk sb dirnode d = .ok (node, off) d') :
    fileBlocks sb dirnode.inode.size ≤ 12 := by
  have hblocks := h.fileBlocks_le hgeo
  have hcount := hgeo.fragCount_lt
  have hbs := hgeo.blockSize_pos
  unfold growDirectoryByDirblk at hrun
  dsimp only at hrun
  split at hrun
  · cases hrun
  split at hrun
  swap
  · cases hrun
  rename_i hdirect
  have hdiv : dirnode.inode.size / sb.blockSize
      ≤ fileBlocks sb dirnode.inode.size := by
    unfold fileBlocks
    exact Nat.div_le_div_right (by omega)
  rw [Nat.mod_eq_of_lt (by omega)] at hdirect
  have hlt := Nat.lt_mul_div_succ dirnode.inode.size hbs
  have hmul : sb.blockSize * (dirnode.inode.size / sb.blockSize + 1)
      ≤ sb.blockSize * 12 := Nat.mul_le_mul_left _ hdirect
  unfold fileBlocks
  rw [Nat.div_le_iff_le_mul_add_pred hbs]
  omega

/-- The block written back is a change of the directory. -/
theorem Slotting.change {x : Nat × Nat} {pre post : List (Nat × Dirent)}
    {r : Nat × Dirent} {new : Bytes} (hgeo : DirGeometry sb)
    (hs : Slotting sb live modes d dirnode newInode name x pre r post new)
    (hk : x.1 < 12) (now : UInt32) :
    DirChange sb d dirnode (slotDisk sb d now dirnode ⟨x.1, hk⟩ new)
      (touchedNode now dirnode) where
  same := rfl
  current := Function.update_self ..
  isDir := hs.good.isDir
  inodes _ hne := Function.update_of_ne hne ..
  claims f := congrArg (freeAt sb d f + ·) (hs.claims hgeo hk now f)
  others _ _ hf := hs.others hgeo hk now hf
  iused _ := rfl
  space _ hsp := hsp.of_groups rfl rfl rfl

/-- So is the chunk behind its end. -/
theorem Growing.change {k r b : Nat} {d₁ : Disk} {raw : Bytes}
    (hgeo : DirGeometry sb) (hg : Growing sb live modes d dirnode k r b d₁)
    (now : UInt32) (hraw : raw.length = DIRBLKSIZ) :
    DirChange sb d dirnode (grownDisk sb d₁ (hg.node now) b r raw)
      (hg.node now) where
  same := rfl
  current := Function.update_self ..
  isDir := hg.good.isDir
  inodes m hne := (hg.inodes _ m).trans (if_neg hne)
  claims f := by
    have hfree := hg.run.free f
    have hclaims := @Growing.claims sb live modes d d₁ dirnode k r b now raw
      hgeo hg hraw (hg.node now) f
    show freeAt sb d₁ f + blockClaims sb _ (grownNode sb now dirnode
      ⟨k, hg.direct⟩ b r).inode f = _
    omega
  others f hfree hf := hg.others hgeo hraw _ f hfree hf
  iused := hg.run.books.iused
  space modes hsp := (hg.run.books.space modes hsp).of_groups rfl rfl rfl

/-- **An insertion that succeeds** changes the directory, keeps it in order and
adds the entry, whatever its length. -/
theorem insertDirent_added (hgeo : DirGeometry sb)
    (h : OrderedDir sb live modes d dirnode) (hlive : newInode ≠ 0)
    (hino : newInode < 2 ^ 32)
    (hrun : insertDirent sb dirnode name newInode d = .ok node d') :
    DirChange sb d dirnode d' node ∧ OrderedDir sb live modes d' node ∧
      (dirEntries sb d' node.inode).Perm
        ((newInode, name) :: dirEntries sb d dirnode.inode) := by
  unfold insertDirent at hrun
  obtain ⟨found, d₁, hsearch, hfound⟩ := bind_eq_ok hrun
  cases found with
  | some node' =>
    cases hfound
    obtain ⟨x, pre, r, post, new, now, hk, hs, rfl, rfl⟩ :=
      exists_slot hgeo h hsearch
    exact ⟨hs.change hgeo hk now, hs.ordered_after hgeo hk now hlive hino,
      hs.entries_after hgeo hk now hlive hino⟩
  | none =>
    obtain rfl := insertBlocks_writes_nothing hgeo.blockSize_pos hsearch
    dsimp only at hfound
    split at hfound
    · cases hfound
    obtain ⟨grown, d₂, hattempt, hgrown⟩ := bind_eq_ok hfound
    rcases attempt_ok hattempt with ⟨⟨node', off⟩, rfl, hgrow⟩ | ⟨e, rfl, -⟩
    swap
    · cases hgrown
    have hgood := h.good (h.short_of_grow hgeo hgrow)
    dsimp only at hgrown
    cases hraw : writeDirentRaw newInode DIRBLKSIZ name with
    | error e =>
      rw [hraw] at hgrown
      cases hgrown
    | ok bytes =>
      rw [hraw] at hgrown
      obtain ⟨hname, rfl⟩ := writeDirentRaw_ok hraw
      obtain ⟨_, d₃, hwrite, hret⟩ := bind_eq_ok hgrown
      cases hwrite
      cases hret
      have hsplit := Nat.div_add_mod' dirnode.inode.size sb.blockSize
      obtain ⟨b, now, d₄, hg, rfl, rfl, rfl⟩ := growDirectory_ok hgeo hgood
        hsplit.symm (Nat.mod_lt _ hgeo.blockSize_pos) hgrow
      obtain ⟨hraw, hes⟩ := rawDirent_wellChunk hlive hino hname
      refine ⟨hg.change hgeo now hraw, (hg.good_after hgeo now hraw hes).ordered,
        ?_⟩
      have hentries := hg.entries_after hgeo now hraw hes
      show (dirEntries sb (grownDisk sb d₄ (hg.node now) b _ _)
        (hg.node now).inode).Perm _
      rw [hentries]
      exact List.perm_append_singleton ..

end Insertion

/-! ## §3. Removal. -/

section Removal

variable {sb : Superblock} {live : Finset Nat} {modes : Nat → UInt16}
  {d d' : Disk} {dirnode node : Node} {name block new : Bytes}
  {base limit ino : Nat}

/-- The block with a record removed is as long as it was. -/
theorem removeRecord_length (hbase : base + limit ≤ block.length) :
    ∀ {rs : List (Nat × Dirent)} {prev : Option (Nat × Dirent)},
    (∀ p, prev = some p → p.1 + 8 ≤ limit) → (∀ r ∈ rs, r.1 + 8 ≤ limit) →
    removeRecord name block base prev rs = some (.ok (new, ino)) →
    new.length = block.length
  | [], _, _, _, h => by cases h
  | r :: rest, prev, hprev, hrs, h => by
    have hr := hrs r List.mem_cons_self
    unfold removeRecord at h
    split at h
    · split at h
      · cases h
      · cases prev with
        | some p =>
          cases h
          have hp := hprev p rfl
          have htwo : (writeBe16 (p.2.reclen + r.2.reclen)).length = 2 := rfl
          exact overlay_length (by omega)
        | none =>
          cases h
          have hfour : (writeBe32 0).length = 4 := rfl
          exact overlay_length (by omega)
    · refine removeRecord_length hbase (fun p hp => ?_)
        (fun r' hr' => hrs r' (List.mem_cons_of_mem r hr')) h
      split at hp
      · cases hp
        exact hr
      · exact hprev p hp

theorem removeInBlock_length
    (h : removeInBlock name block block.length = some (.ok (new, ino))) :
    new.length = block.length := by
  obtain ⟨j, hj, hremove⟩ := List.exists_of_findSome?_eq_some h
  have hlt := List.mem_range.mp hj
  have hbase : j * DIRBLKSIZ + min DIRBLKSIZ (block.length - j * DIRBLKSIZ)
      ≤ block.length := by
    unfold DIRBLKSIZ at hlt ⊢
    omega
  refine removeRecord_length hbase (fun p hp => by cases hp) (fun r hr => ?_)
    hremove
  obtain ⟨hheader, -⟩ := readDirent_eq_some.mp (mem_recordsFrom hr)
  exact hheader

/-- **What a removal that succeeds has done**: one block among the first twelve
is written back, and the times are set. -/
theorem removeBlocks_ok (hgeo : DirGeometry sb) : ∀ {ks : List Nat},
    removeBlocks sb dirnode name ks d = .ok (node, ino) d' →
    ∃ k ∈ ks, ∃ hk : k < 12, ∃ new,
      new.length = chunkBytes sb dirnode.inode.size k ∧
      dirnode.inode.db ⟨k, hk⟩ ≠ 0 ∧ node = touchedNode d.clock dirnode ∧
      d' = slotDisk sb d d.clock dirnode ⟨k, hk⟩ new
  | [], h => by cases h
  | k :: ks, h => by
    unfold removeBlocks at h
    obtain ⟨block, d₁, hread, hnext⟩ := bind_eq_ok h
    have hd : d₁ = d := (readDirBlock_readOnly sb dirnode.inode k).ok hread
    rw [hd] at hread hnext
    have hblock : block = dirBlock sb d dirnode.inode k := by
      rcases @readDirBlock_cases sb d dirnode.inode k hgeo.blockSize_pos with
        hcase | hcase
      · rw [hcase] at hread
        cases hread
        rfl
      · rw [hcase] at hread
        cases hread
    have hlen : block.length = chunkBytes sb dirnode.inode.size k := by
      rw [hblock, dirBlock_length]
    dsimp only at hnext
    by_cases hk : k < 12
    swap
    · rw [dif_neg hk] at hnext
      cases hnext
    rw [dif_pos hk] at hnext
    by_cases hdb : dirnode.inode.db ⟨k, hk⟩ = 0
    · rw [if_pos hdb] at hnext
      cases hnext
    rw [if_neg hdb, ← hlen] at hnext
    cases hremove : removeInBlock name block block.length with
    | none =>
      rw [hremove] at hnext
      obtain ⟨k', hk', hrest⟩ := removeBlocks_ok hgeo hnext
      exact ⟨k', List.mem_cons_of_mem k hk', hrest⟩
    | some res =>
      rw [hremove] at hnext
      cases res with
      | error e => cases hnext
      | ok newIno =>
        obtain ⟨new, ino'⟩ := newIno
        have hnew := removeInBlock_length hremove
        dsimp only at hnext
        rw [List.take_of_length_le hnew.le] at hnext
        obtain ⟨_, d₂, hwrite, htimes⟩ := bind_eq_ok hnext
        obtain ⟨node', d₃, hupdate, hret⟩ := bind_eq_ok htimes
        cases hwrite
        rw [updateNodeTimes_eq, if_pos hgeo.hasInodes] at hupdate
        cases hupdate
        cases hret
        exact ⟨k, List.mem_cons_self, hk, new, hnew.trans hlen, hdb, rfl, rfl⟩

/-- **A removal that succeeds changes its directory**, whatever name it was
asked for. -/
theorem removeDirent_change (hgeo : DirGeometry sb)
    (h : OrderedDir sb live modes d dirnode)
    (hrun : removeDirent sb dirnode name d = .ok (node, ino) d') :
    DirChange sb d dirnode d' node := by
  obtain ⟨k, hmem, hk, new, hlen, hdb, rfl, rfl⟩ := removeBlocks_ok hgeo hrun
  have hin := List.mem_range.mp hmem
  exact
    { same := rfl
      current := Function.update_self ..
      isDir := h.isDir
      inodes := fun _ hne => Function.update_of_ne hne ..
      claims := fun f => congrArg (freeAt sb d f + ·)
        (write_blockClaims hgeo.toDataGeometry h.once hk hin hdb hlen f)
      others := fun f _ hf => by
        rw [h.inodeClaims] at hf
        exact slotDisk_others hgeo hk hin hdb hlen _ hf
      iused := fun _ => rfl
      space := fun _ hsp => hsp.of_groups rfl rfl rfl }

/-- A removal takes and gives no fragment. -/
theorem removeDirent_free (hgeo : DirGeometry sb)
    (hrun : removeDirent sb dirnode name d = .ok (node, ino) d') (f : Nat) :
    freeAt sb d' f = freeAt sb d f := by
  obtain ⟨k, -, hk, new, -, -, -, hd⟩ := removeBlocks_ok hgeo hrun
  rw [hd]
  rfl

end Removal

end NextUfs
