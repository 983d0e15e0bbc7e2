/-
  NextUfs.Mutate.Consistent
  ─────────────────────────
  **AN IMAGE IN ORDER.**

  The allocated inodes are those the bitmaps say, every fragment has one
  owner, free space is counted, every directory is in order, and every name
  stands for an allocated inode.

    • `Consistent`          — the invariant,
    • `Consistent.lookup`   — a lookup finds allocated inodes only,
    • `Consistent.newInode` — an inode with storage that was free is added,
    • `Consistent.addName`  — a name for an allocated inode is added,
    • `parent_isDir`        — the parent of a name that is not there yet is a
      directory.
-/
import NextUfs.Core.SameSpace
import NextUfs.Mutate.Ancestors
import NextUfs.Mutate.DirChange

namespace NextUfs

open State Radix Bits

/-! ## §1. The invariant. -/

/-- **An image in order**, `live` being the allocated inodes and `modes` their
modes. -/
structure Consistent (sb : Superblock) (live : Finset Nat)
    (modes : Nat → UInt16) (d : Disk) : Prop where
  space : FreeSpace sb modes d
  owned : FragsOwned sb live d
  numbers : inodeCount sb ≤ 2 ^ 32
  inRange : ∀ m ∈ live, m < inodeCount sb
  used : ∀ m < inodeCount sb,
    inodeUsed sb d m = true ↔ m ∈ live ∨ m < ROOT_INODE
  root : ROOT_INODE ∈ live
  files : ∀ m ∈ live, isDirMode (d.inodes m).mode = false →
    storesBlocks (d.inodes m) = true → Freeable sb d (d.inodes m)
  dirs : ∀ m ∈ live, isDirMode (d.inodes m).mode = true →
    OrderedDir sb live modes d ⟨m, d.inodes m⟩
  entries : ∀ m ∈ live, isDirMode (d.inodes m).mode = true →
    ∀ e ∈ dirEntries sb d (d.inodes m), e.1 ∈ live

/-! ## §2. Storage that does not change. -/

section Moved

variable {sb : Superblock} {live live' : Finset Nat} {modes modes' : Nat → UInt16}
  {d d' : Disk} {ino : Inode} {node : Node}

/-- A directory's blocks are made of what it claims. -/
theorem dirBlock_same (hgeo : DataGeometry sb)
    (h : ∀ f, 0 < blockClaims sb d ino f → SameFrag sb d d' f) (k : Nat) :
    dirBlock sb d' ino k = dirBlock sb d ino k := by
  unfold dirBlock fileBytes
  apply List.map_congr_left
  intro i hi
  have hi := List.mem_range.mp hi
  apply fileByte_congr hgeo h
  unfold chunkBytes at hi
  omega

/-- So are its entries. -/
theorem dirEntries_same (hgeo : DataGeometry sb)
    (h : ∀ f, 0 < blockClaims sb d ino f → SameFrag sb d d' f) :
    dirEntries sb d' ino = dirEntries sb d ino := by
  unfold dirEntries dirChunk
  simp only [dirBlock_same hgeo h]

theorem metaFrags_le_claims (sb : Superblock) (d : Disk) (ino : Inode)
    (f : Nat) : metaFrags sb d ino f ≤ blockClaims sb d ino f :=
  Nat.le_add_right _ _

/-- **Claims that have not changed** are the claims of the same fragments. -/
theorem blockClaims_same (hgeo : DataGeometry sb)
    (h : ∀ f, 0 < blockClaims sb d ino f → SameFrag sb d d' f) (f : Nat) :
    blockClaims sb d' ino f = blockClaims sb d ino f := by
  have hmeta : ∀ f, 0 < metaFrags sb d ino f → SameFrag sb d d' f :=
    fun f hf => h f (hf.trans_le (metaFrags_le_claims sb d ino f))
  unfold blockClaims dataFrags
  rw [metaFrags_congr hgeo hmeta, blockAt_congr hgeo hmeta]

/-- **Storage that can be given back** still can. -/
theorem Freeable.moved (h : Freeable sb d ino) (hgeo : DataGeometry sb)
    (hsame : ∀ f, 0 < blockClaims sb d ino f → SameFrag sb d d' f)
    (howned : ∀ f, freeAt sb d' f + blockClaims sb d' ino f ≤ 1) :
    Freeable sb d' ino := by
  have hmeta : ∀ f, 0 < metaFrags sb d ino f → SameFrag sb d d' f :=
    fun f hf => hsame f (hf.trans_le (metaFrags_le_claims sb d ino f))
  refine ⟨howned, fun lb hlb => ?_, fun slot => ?_⟩
  · rw [blockAt_congr hgeo hmeta]
    exact h.runs lb hlb
  · refine TreeInside.congr (sameTree_of_frags hgeo fun f hf => hmeta f ?_)
      (h.inside slot)
    exact hf.trans_le (Finset.single_le_sum
      (f := fun slot : Fin 3 => treeFrags sb d (slot + 1) (ino.ib slot) f)
      (fun _ _ => Nat.zero_le _) (Finset.mem_univ slot))

/-- **A directory in order** stays in order while nothing it claims changes. -/
theorem OrderedDir.moved (h : OrderedDir sb live modes d node)
    (hgeo : DirGeometry sb) (hspace : FreeSpace sb modes' d')
    (howned : FragsOwned sb live' d') (hmem : node.inodeNo ∈ live')
    (hcur : d'.inodes node.inodeNo = node.inode)
    (hsame : ∀ f, 0 < blockClaims sb d node.inode f → SameFrag sb d d' f) :
    OrderedDir sb live' modes' d' node := by
  have hgeo' := hgeo.toDataGeometry
  refine ⟨hspace, howned, hmem, hcur, h.isDir, fun lb hlb => ?_, ?_,
    fun x hx => ?_⟩
  · rw [blockAt_congr hgeo' fun f hf =>
      hsame f (hf.trans_le (metaFrags_le_claims sb d node.inode f))]
    exact h.runs lb hlb
  · have hclaimed : claimedFrags sb d' node.inode = claimedFrags sb d node.inode :=
      Finset.sum_congr rfl fun f _ => blockClaims_same hgeo' hsame f
    rw [hclaimed]
    exact h.sectors
  · unfold dirChunk
    rw [dirBlock_same hgeo' hsame]
    exact h.chunks x hx

end Moved

/-! ## §3. Lookups. -/

section Lookup

variable {sb : Superblock} {live : Finset Nat} {modes : Nat → UInt16}
  {d d' : Disk}

/-- A record in use is an entry. -/
theorem mem_dirEntries {dirino : Inode} (hchunks : WellChunks sb d dirino)
    {k : Nat} (hk : k < fileBlocks sb dirino.size) {r : Nat × Dirent}
    (hr : r ∈ records (dirBlock sb d dirino k) (chunkBytes sb dirino.size k))
    (hino : r.2.ino ≠ 0) : (r.2.ino, r.2.name) ∈ dirEntries sb d dirino := by
  obtain ⟨j, hj, rs, r', htiles, hfits, hr', -, hshown⟩ := mem_chunk hchunks hk hr
  rw [shown_of_live hino] at hshown
  refine List.mem_flatMap.mpr ⟨(k, j), mem_dirPlaces.mpr ⟨hk, hj⟩, ?_⟩
  have hentries := Partitioned.entries ⟨rs, htiles, hfits.nameInside, rfl⟩
  rw [hentries, hshown]
  rw [hshown] at hino
  exact mem_entriesOf.mpr ⟨r', hr', hino, rfl⟩

/-- **A name stands for an allocated inode.** -/
theorem Consistent.named (hgeo : DirGeometry sb)
    (h : Consistent sb live modes d) {p c : Nat} {name : Bytes} (hp : p ∈ live)
    (hdir : isDirMode (d.inodes p).mode = true) (hnamed : Named sb d p name c) :
    c ∈ live := by
  obtain ⟨k, hk, buf, hread, r, hr, hino, -⟩ := hnamed.record
  have hbuf : buf = dirBlock sb d (d.inodes p) k := by
    rcases @readDirBlock_cases sb d (d.inodes p) k hgeo.blockSize_pos with
      hcase | hcase
    · rw [hcase] at hread
      cases hread
      rfl
    · rw [hcase] at hread
      cases hread
  rw [hbuf] at hr
  have hne : r.2.ino ≠ 0 := by
    rw [hino]
    exact hnamed.2
  have hmem := h.entries p hp hdir _
    (mem_dirEntries (h.dirs p hp hdir).chunks hk hr hne)
  rwa [← hino]

/-- **A lookup finds an allocated inode**, as the table has it. -/
theorem Consistent.lookup (hgeo : DirGeometry sb)
    (h : Consistent sb live modes d) {path : Bytes} {followFinal : Bool}
    {node : Node} (hlook : nodeLookup sb path followFinal d = .ok node d') :
    node.inodeNo ∈ live ∧ IsCopy d node := by
  refine nodeLookup_induct
    (P := fun node => node.inodeNo ∈ live ∧ IsCopy d node) ⟨h.root, rfl⟩
    (fun current segment next hcur hdir hfind hne => ⟨?_, rfl⟩) hlook
  obtain ⟨hmem, hcopy⟩ := hcur
  unfold nodeIsDir at hdir
  rw [show current.inode = d.inodes current.inodeNo from hcopy] at hdir hfind
  exact h.named hgeo hmem hdir ⟨hfind, hne⟩

/-- A directory that a lookup has found is in order. -/
theorem Consistent.lookup_ordered (hgeo : DirGeometry sb)
    (h : Consistent sb live modes d) {path : Bytes} {followFinal : Bool}
    {node : Node} (hlook : nodeLookup sb path followFinal d = .ok node d')
    (hdir : nodeIsDir node = true) : OrderedDir sb live modes d node := by
  obtain ⟨hmem, hcopy⟩ := h.lookup hgeo hlook
  obtain ⟨no, ino⟩ := node
  obtain rfl : ino = d.inodes no := hcopy
  exact h.dirs no hmem hdir

variable {ctx : WriteCtx} {path name : Bytes} {parent : Node} {needDir : Bool}

/-- The parent of a name, as an operation finds it. -/
theorem findParent_found
    (h : findParent sb ctx path needDir d = .ok (parent, name) d') :
    d' = d ∧ (needDir = true → nodeIsDir parent = true) ∧ ∃ parentPath,
      splitPath path = .ok (parentPath, name) ∧
      nodeLookup sb parentPath true d = .ok parent d := by
  unfold findParent at h
  obtain ⟨-, -, hsplit⟩ := afterCheck h
  obtain ⟨⟨parentPath, last⟩, hpath, hdots⟩ := afterCheck hsplit
  obtain ⟨-, -, hlook⟩ := afterCheck hdots
  obtain ⟨node, d₁, hfound, hret⟩ := bind_eq_ok hlook
  cases hret
  obtain ⟨hparent, rfl, hdir⟩ := lookupParent_found hfound
  exact ⟨rfl, hdir, parentPath, hpath, hparent⟩

theorem requireAbsent_ok (h : requireAbsent sb path d = .ok () d') :
    d' = d ∧ nodeLookup sb path false d = .error .ENOENT d := by
  unfold requireAbsent at h
  obtain ⟨res, d₁, hattempt, hcheck⟩ := bind_eq_ok h
  rcases attempt_ok hattempt with ⟨node, rfl, -⟩ | ⟨e, rfl, hlook⟩
  · cases hcheck
  · have hd := (nodeLookup_readOnly sb path false).error hlook
    cases e <;> first | (cases hcheck; done) | skip
    cases hcheck
    exact ⟨hd, by rw [hlook, hd]⟩

/-- **The parent of a name that is not there yet is a directory**, also where
the operation does not ask for one. -/
theorem parent_isDir
    (hparent : findParent sb ctx path needDir d = .ok (parent, name) d)
    (habsent : requireAbsent sb path d = .ok () d') :
    nodeIsDir parent = true := by
  obtain ⟨-, -, parentPath, hsplit, hlook⟩ := findParent_found hparent
  obtain ⟨-, hnone⟩ := requireAbsent_ok habsent
  by_contra hnot
  obtain ⟨hcomps, hends⟩ := components_split hsplit
  exact nodeLookup_below hlook (eq_false_of_ne_true hnot) hcomps hends hnone

end Lookup

/-! ## §4. An inode more, a name more. -/

section Grow

variable {sb : Superblock} {live : Finset Nat} {modes modes' : Nat → UInt16}
  {d d' : Disk} {n : Nat} {ino : Inode}

/-- What an allocated inode claims is not free. -/
theorem FragsOwned.claims_le (h : FragsOwned sb live d) {m : Nat}
    (hm : m ∈ live) (f : Nat) :
    freeAt sb d f + inodeClaims sb d (d.inodes m) f ≤ 1 := by
  have hle := h.sum_le f
  have hsingle : inodeClaims sb d (d.inodes m) f
      ≤ ∑ m ∈ live, inodeClaims sb d (d.inodes m) f :=
    Finset.single_le_sum (f := fun m => inodeClaims sb d (d.inodes m) f)
      (fun _ _ => Nat.zero_le _) hm
  omega

/-- An inode that is not in use is not allocated. -/
theorem Consistent.unused (h : Consistent sb live modes d)
    (hn : n < inodeCount sb) (hunused : inodeUsed sb d n = false) :
    n ∉ live ∧ ROOT_INODE ≤ n := by
  have hnot : ¬(n ∈ live ∨ n < ROOT_INODE) := by
    rw [← h.used n hn, hunused]
    exact Bool.false_ne_true
  exact ⟨fun hmem => hnot (Or.inl hmem),
    Nat.le_of_not_lt fun hlt => hnot (Or.inr hlt)⟩

/-- **An inode more**: it was not in use, its storage was free, and it is no
directory. -/
theorem Consistent.newInode (hgeo : DirGeometry sb)
    (h : Consistent sb live modes d) (hn : n < inodeCount sb)
    (hunused : inodeUsed sb d n = false)
    (hinodes : d'.inodes = Function.update d.inodes n ino)
    (hused : ∀ m, inodeUsed sb d' m = if m = n then true else inodeUsed sb d m)
    (hspace : FreeSpace sb modes' d')
    (hframe : ∀ f, freeAt sb d f = 0 → SameFrag sb d d' f)
    (hclaims : ∀ f, freeAt sb d' f + inodeClaims sb d' ino f = freeAt sb d f)
    (hnotDir : isDirMode ino.mode = false)
    (hfile : storesBlocks ino = true → Freeable sb d' ino) :
    Consistent sb (insert n live) modes' d' := by
  have hgeo' := hgeo.toDataGeometry
  have hnew : n ∉ live := (h.unused hn hunused).1
  have hself : d'.inodes n = ino := by
    rw [hinodes]
    exact Function.update_self ..
  have hother : ∀ m ∈ live, d'.inodes m = d.inodes m := fun m hm => by
    rw [hinodes]
    exact Function.update_of_ne (fun heq : m = n => hnew (heq ▸ hm)) ..
  have hsame : ∀ m ∈ live, ∀ f, 0 < inodeClaims sb d (d.inodes m) f →
      SameFrag sb d d' f := fun m hm f hf => hframe f (h.owned.claimed hm hf)
  have howned : FragsOwned sb (insert n live) d' := by
    refine ⟨fun f => ?_⟩
    have hsum : ∑ m ∈ live, inodeClaims sb d' (d'.inodes m) f
        = ∑ m ∈ live, inodeClaims sb d (d.inodes m) f := by
      refine Finset.sum_congr rfl fun m hm => ?_
      rw [hother m hm]
      exact inodeClaims_congr hgeo' (hsame m hm) f
    have honce := h.owned.once f
    have htaken := hclaims f
    rw [Finset.sum_insert hnew, hsum, hself]
    omega
  -- an inode of the image that is a file, or a directory, is an old one
  have hold : ∀ m ∈ insert n live, m ≠ n → m ∈ live := fun m hm hne =>
    (Finset.mem_insert.mp hm).resolve_left hne
  constructor
  · exact hspace
  · exact howned
  · exact h.numbers
  · intro m hm
    rcases Finset.mem_insert.mp hm with rfl | hm
    · exact hn
    · exact h.inRange m hm
  · intro m hm
    rw [hused]
    by_cases hmn : m = n
    · rw [if_pos hmn, hmn]
      exact ⟨fun _ => Or.inl (Finset.mem_insert_self n live), fun _ => rfl⟩
    · rw [if_neg hmn, h.used m hm, Finset.mem_insert]
      exact or_congr_left (or_iff_right hmn).symm
  · exact Finset.mem_insert_of_mem h.root
  · intro m hm hdir hblocks
    by_cases hmn : m = n
    · rw [hmn, hself] at hblocks ⊢
      exact hfile hblocks
    · have hm := hold m hm hmn
      have hle := howned.claims_le (Finset.mem_insert_of_mem hm)
      rw [hother m hm] at hdir hblocks hle ⊢
      have hsame' := hsame m hm
      unfold inodeClaims at hsame' hle
      simp only [if_pos hblocks] at hsame' hle
      exact (h.files m hm hdir hblocks).moved hgeo' hsame' hle
  · intro m hm hdir
    have hmn : m ≠ n := by
      rintro rfl
      rw [hself, hnotDir] at hdir
      cases hdir
    have hm := hold m hm hmn
    rw [hother m hm] at hdir ⊢
    have hord := h.dirs m hm hdir
    refine hord.moved hgeo hspace howned (Finset.mem_insert_of_mem hm)
      (hother m hm) fun f hf => hsame m hm f ?_
    rw [inodeClaims_of_dir hdir]
    exact hf
  · intro m hm hdir
    have hmn : m ≠ n := by
      rintro rfl
      rw [hself, hnotDir] at hdir
      cases hdir
    have hm := hold m hm hmn
    rw [hother m hm] at hdir ⊢
    rw [dirEntries_same hgeo' fun f hf => hsame m hm f (by
      rw [inodeClaims_of_dir hdir]
      exact hf)]
    exact fun e he => Finset.mem_insert_of_mem (h.entries m hm hdir e he)

/-- **A name more**, for an allocated inode. -/
theorem Consistent.addName (hgeo : DirGeometry sb)
    (h : Consistent sb live modes d) {dirnode node : Node} {name : Bytes}
    (hord : OrderedDir sb live modes d dirnode) (hn : n ∈ live) (hne : n ≠ 0)
    (hrun : insertDirent sb dirnode name n d = .ok node d') :
    Consistent sb live modes d' ∧ DirChange sb d dirnode d' node ∧
      (n, name) ∈ dirEntries sb d' node.inode := by
  have hgeo' := hgeo.toDataGeometry
  have hlt : n < 2 ^ 32 := Nat.lt_of_lt_of_le (h.inRange n hn) h.numbers
  obtain ⟨hchange, hordered, hperm⟩ := insertDirent_added hgeo hord hne hlt hrun
  have hmem := hord.mem
  have hcur : d'.inodes dirnode.inodeNo = node.inode := hchange.current
  have hself : (⟨dirnode.inodeNo, d'.inodes dirnode.inodeNo⟩ : Node) = node := by
    rw [hcur, ← hchange.same]
  have hisDir : isDirMode (d'.inodes dirnode.inodeNo).mode = true := by
    rw [hcur]
    exact hchange.isDir
  have hsame : ∀ m ∈ live, m ≠ dirnode.inodeNo → ∀ f,
      0 < inodeClaims sb d (d.inodes m) f → SameFrag sb d d' f :=
    fun m hm hne f hf => hchange.sameFrag h.owned hmem hm hne hf
  refine ⟨?_, hchange, hperm.mem_iff.mpr List.mem_cons_self⟩
  constructor
  · exact hordered.space
  · exact hordered.owned
  · exact h.numbers
  · exact h.inRange
  · intro m hm
    unfold inodeUsed
    rw [hchange.iused]
    exact h.used m hm
  · exact h.root
  · intro m hm hdir hblocks
    have hother : m ≠ dirnode.inodeNo := by
      rintro rfl
      rw [hisDir] at hdir
      cases hdir
    have hle := hordered.owned.claims_le hm
    rw [hchange.inodes m hother] at hdir hblocks hle ⊢
    have hsame' := hsame m hm hother
    unfold inodeClaims at hsame' hle
    simp only [if_pos hblocks] at hsame' hle
    exact (h.files m hm hdir hblocks).moved hgeo' hsame' hle
  · intro m hm hdir
    by_cases hother : m = dirnode.inodeNo
    · rw [hother, hself]
      exact hordered
    · rw [hchange.inodes m hother] at hdir ⊢
      refine (h.dirs m hm hdir).moved hgeo hordered.space hordered.owned hm
        (hchange.inodes m hother) fun f hf => hsame m hm hother f ?_
      rw [inodeClaims_of_dir hdir]
      exact hf
  · intro m hm hdir e he
    by_cases hother : m = dirnode.inodeNo
    · rw [hother, hcur] at he
      rcases List.mem_cons.mp (hperm.mem_iff.mp he) with rfl | hold
      · exact hn
      · have hdir := hord.isDir
        unfold nodeIsDir at hdir
        rw [← hord.current] at hdir hold
        exact h.entries _ hmem hdir e hold
    · rw [hchange.inodes m hother] at hdir he
      rw [dirEntries_same hgeo' fun f hf => hsame m hm hother f (by
        rw [inodeClaims_of_dir hdir]
        exact hf)] at he
      exact h.entries m hm hdir e he

end Grow

end NextUfs
