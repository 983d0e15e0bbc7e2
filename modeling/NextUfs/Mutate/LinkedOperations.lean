/-
  NextUfs.Mutate.LinkedOperations
  ───────────────────────────────
  **NEW NAMES, AND LINK COUNTS.**
  The operations that make names: each takes an inode, or one more link of an
  inode that is there, before it puts the name into the directory.  On an image
  whose link counts are right they are right again when the operation has
  succeeded.

    • `InodeAdded`       — an inode that is there, and has no name yet,
    • `Linked.made`      — its name is added, and the link counts set,
    • `link_linked`      — a second name for a file,
    • `create_linked`, `symlink_linked`, `mknod_linked` — files, symbolic links and
      device nodes.
-/
import NextUfs.Mutate.LinkedSteps

namespace NextUfs

open State Radix Bits

/-! ## §1. An inode, then its name. -/

/-- **From `d` to `e` inode `n` has been allocated and written**: it may be a
directory with entries of its own, and no directory that was there has changed. -/
structure InodeAdded (sb : Superblock) (live : Finset Nat) (modes : Nat → UInt16)
    (n : Nat) (d e : Disk) : Prop where
  new : n ∉ live
  real : ROOT_INODE ≤ n
  ordered : Consistent sb (insert n live) modes e
  inodes : ∀ q ∈ live, e.inodes q = d.inodes q
  entries : ∀ q ∈ live, entriesIn sb e q = entriesIn sb d q
  kind : isDirMode (modes n) = isDirMode (e.inodes n).mode
  known : KnownKind (e.inodes n).mode
  inside : ∀ q ∈ insert n live, isDirMode (e.inodes q).mode = true →
    InodeInside sb e (e.inodes q)
  unique : ((entriesIn sb e n).map Prod.snd).Nodup

section Made

variable {sb : Superblock} {live : Finset Nat} {modes modes' : Nat → UInt16}
  {d e d' d'' : Disk} {n p : Nat} {name : Bytes} {mode : UInt16}

/-- An inode that is not allocated gets a mode. -/
theorem update_new {α : Type} {f : Nat → α} {a : α} {q : Nat} (hn : n ∉ live)
    (hq : q ∈ live) : Function.update f n a q = f q :=
  Function.update_of_ne (fun h : q = n => hn (h ▸ hq)) ..

/-- **The names of the inodes, when the new one has got its own.** -/
theorem InodeAdded.count (hadded : InodeAdded sb live modes n d e)
    (hnamed : NameAdded sb (insert n live) modes p name n e d')
    (hp : p ∈ live) (m : Nat) :
    nameCount sb (insert n live) d' m
      = nameCount sb live d m + namesFor m (entriesIn sb e n)
        + if n = m then 1 else 0 := by
  rw [hnamed.count (Finset.mem_insert_of_mem hp),
    nameCount_insert hadded.new hadded.entries]

/-- **A new inode has got its name**, and the inodes the link counts that are
due. -/
theorem Linked.made (h : Linked sb live modes d)
    (hadded : InodeAdded sb live (Function.update modes n mode) n d e)
    (hnamed : NameAdded sb (insert n live) (Function.update modes n mode) p name n
      e d') (hp : p ∈ live)
    (habsent : name ∉ (entriesIn sb d p).map Prod.snd)
    (hcons : Consistent sb (insert n live) (Function.update modes n mode) d'')
    (hentries : ∀ q ∈ insert n live, entriesIn sb d'' q = entriesIn sb d' q)
    (hkinds : ∀ q, (d''.inodes q).mode &&& IFMT = (d'.inodes q).mode &&& IFMT)
    (hinside : ∀ q, InodeInside sb d' (d'.inodes q) → InodeInside sb d'' (d''.inodes q))
    (hlinks : ∀ q ∈ insert n live, (d''.inodes q).nlink
      = UInt16.ofNat (nameCount sb live d q + namesFor q (entriesIn sb e n)
        + if n = q then 1 else 0)) :
    Linked sb (insert n live) (Function.update modes n mode) d'' := by
  have hkind : ∀ q, (d''.inodes q).mode &&& IFMT = (e.inodes q).mode &&& IFMT :=
    fun q => (hkinds q).trans (hnamed.kinds q)
  have hroot : ROOT_INODE ∈ insert n live := Finset.mem_insert_of_mem h.root
  refine ⟨hcons, fun q hq => ?_, ?_, ?_, fun q hq => ?_, fun q hq => ?_,
    fun q hq hdir => ?_, fun q hq => ?_, fun q hq => ?_⟩
  · rcases Finset.mem_insert.mp hq with rfl | hq
    · exact hadded.real
    · exact h.real q hq
  · rw [isDirMode_congr (hkind _), hadded.inodes _ h.root]
    exact h.rootDir
  · -- a name more does not take `..` away
    rw [hentries _ hroot]
    have hold : (ROOT_INODE, [DOT, DOT]) ∈ entriesIn sb e ROOT_INODE := by
      rw [hadded.entries _ h.root]
      exact h.rootParent
    by_cases hrp : ROOT_INODE = p
    · rw [hrp] at hold ⊢
      exact hnamed.added.mem_iff.mpr (List.mem_cons_of_mem _ hold)
    · rw [hnamed.others _ hroot hrp]
      exact hold
  · rcases Finset.mem_insert.mp hq with rfl | hq
    · exact hadded.known.congr (hkind q)
    · refine (h.known q hq).congr ((hkind q).trans ?_)
      rw [hadded.inodes q hq]
  · rw [isDirMode_congr (hkind q)]
    rcases Finset.mem_insert.mp hq with rfl | hq
    · exact hadded.kind
    · rw [update_new hadded.new hq, hadded.inodes q hq]
      exact h.kinds q hq
  · rw [isDirMode_congr (hkind q)] at hdir
    exact hinside q (hnamed.inside q hq hdir (hadded.inside q hq hdir))
  · rw [hentries q hq]
    refine hnamed.unique (fun r hr => ?_) ?_ q hq
    · rcases Finset.mem_insert.mp hr with rfl | hr
      · exact hadded.unique
      · rw [hadded.entries r hr]
        exact h.unique r hr
    · rw [hadded.entries p hp]
      exact habsent
  · rw [hlinks q hq, nameCount_congr hentries, hadded.count hnamed hp]

/-- A directory that was there is in order beside the new inode. -/
theorem InodeAdded.orderedDir (hadded : InodeAdded sb live modes n d e)
    {node : Node} (hlive : node.inodeNo ∈ live) (hcopy : IsCopy d node)
    (hdir : nodeIsDir node = true) :
    OrderedDir sb (insert n live) modes e node := by
  have hsame : e.inodes node.inodeNo = node.inode :=
    (hadded.inodes _ hlive).trans hcopy.symm
  have hord := hadded.ordered.dirs _ (Finset.mem_insert_of_mem hlive)
    (by rw [hsame]; exact hdir)
  rw [hsame] at hord
  exact hord

end Made

/-! ## §2. Files. -/

/-- From `d` to `d'` storage has been taken for `ino`, which is no directory. -/
structure StorageTaken (sb : Superblock) (d d' : Disk) (ino : Inode) : Prop where
  file : isDirMode ino.mode = false
  known : KnownKind ino.mode
  books : BooksKept sb d d'
  frame : ∀ f, freeAt sb d f = 0 → SameFrag sb d d' f
  claims : ∀ f, freeAt sb d' f + inodeClaims sb d' ino f = freeAt sb d f
  freeable : storesBlocks ino = true → Freeable sb d' ino

section Files

variable {sb : Superblock} {live : Finset Nat} {modes : Nat → UInt16}
  {ctx : WriteCtx} {d d₁ d₂ d' : Disk} {n : Nat} {mode : UInt16}
  {parent node : Node} {name path : Bytes} {ino : Inode} {needDir : Bool}

/-- **A file is added**: an inode was taken, and storage for it. -/
theorem Linked.addFile (hgeo : DirGeometry sb) (h : Linked sb live modes d)
    (hmode : isDirMode mode = false) (hn : n < inodeCount sb)
    (htaken : InodeTaken sb d d₁ n mode) (hstore : StorageTaken sb d₁ d₂ ino) :
    InodeAdded sb live (Function.update modes n mode) n d (withInode d₂ n ino) := by
  obtain ⟨hnew, hreal⟩ := h.unused hn htaken.unused
  have hfree : ∀ f, freeAt sb d₁ f = freeAt sb d f := fun f => by
    unfold freeAt
    rw [htaken.free]
  have hinodes : (withInode d₂ n ino).inodes = Function.update d.inodes n ino := by
    show Function.update d₂.inodes n ino = _
    rw [hstore.books.inodes, htaken.inodes]
  have hself : (withInode d₂ n ino).inodes n = ino := Function.update_self ..
  have hframe : ∀ f, freeAt sb d f = 0 → SameFrag sb d (withInode d₂ n ino) f := by
    intro f hf
    exact (SameFrag.of_data_eq htaken.data f).trans
      (hstore.frame f (by rw [hfree, hf]))
  have hkept := h.newKept hnew hinodes hframe
  have hentries : entriesIn sb (withInode d₂ n ino) n = [] :=
    entriesIn_of_file (by rw [hself]; exact hstore.file)
  have hne : ∀ q ∈ live, q ≠ n := fun q hq heq => hnew (heq ▸ hq)
  refine ⟨hnew, hreal, ?_, fun q hq => hkept.inodes q hq (hne q hq),
    fun q hq => hkept.entriesIn hgeo.toDataGeometry hq (hne q hq), ?_, ?_,
    fun q hq hdir => ?_, ?_⟩
  · refine h.toConsistent.newInode hgeo hn htaken.unused hinodes (fun m => ?_) ?_
      hframe (fun f => ?_) hstore.file fun hblocks => ?_
    · rw [← htaken.iused m]
      exact congrFun (hstore.books.iused _) _
    · exact (hstore.books.space _ (htaken.space modes h.space)).of_groups
        rfl rfl rfl
    · rw [← hfree f]
      exact hstore.claims f
    · exact ⟨(hstore.freeable hblocks).owned, (hstore.freeable hblocks).runs,
        (hstore.freeable hblocks).inside⟩
  · rw [Function.update_self, hself, hmode, hstore.file]
  · rw [hself]
    exact hstore.known
  · rcases Finset.mem_insert.mp hq with rfl | hq
    · rw [hself, hstore.file] at hdir
      cases hdir
    · rw [hkept.inodes q hq (hne q hq)] at hdir
      exact hkept.inside hgeo.toDataGeometry hq (hne q hq) hdir (h.inside q hq hdir)
  · rw [hentries]
    exact List.nodup_nil

/-- What an operation that makes a name has found out before. -/
structure Absent (sb : Superblock) (live : Finset Nat) (d : Disk) (parent : Node)
    (name : Bytes) : Prop where
  live : parent.inodeNo ∈ live
  copy : IsCopy d parent
  isDir : nodeIsDir parent = true
  absent : name ∉ (entriesIn sb d parent.inodeNo).map Prod.snd

theorem Linked.absent (hgeo : DirGeometry sb) (h : Linked sb live modes d)
    (hparent : findParent sb ctx path needDir d = .ok (parent, name) d)
    (habsent : requireAbsent sb path d = .ok () d') :
    Absent sb live d parent name := by
  obtain ⟨-, -, parentPath, -, hlook⟩ := findParent_found hparent
  obtain ⟨hlive, hcopy⟩ := h.lookup hgeo hlook
  have hdir := parent_isDir hparent habsent
  have hsame : d.inodes parent.inodeNo = parent.inode := hcopy.symm
  refine ⟨hlive, hcopy, hdir, ?_⟩
  rw [entriesIn_of_dir (by rw [hsame]; exact hdir), hsame]
  exact absent_of_lookup hgeo h.toConsistent hparent habsent

/-- **A file is made**: an inode is taken, storage for it, and a name. -/
theorem Linked.makeFile (hgeo : DirGeometry sb) (h : Linked sb live modes d)
    (habsent : Absent sb live d parent name) (hmode : isDirMode mode = false)
    (halloc : allocateInodeInGroup sb (parent.inodeNo / sb.inodesPerGroup) mode d
      = .ok n d₁)
    (hstore : InodeTaken sb d d₁ n mode → StorageTaken sb d₁ d₂ ino)
    (hnlink : ino.nlink = 1)
    (hinsert : insertDirent sb parent name n (withInode d₂ n ino) = .ok node d') :
    Linked sb (insert n live) (Function.update modes n mode) d' := by
  obtain ⟨htaken, hn, hnew, hn0⟩ := h.allocated hgeo habsent.live halloc
  have hadded := h.addFile hgeo hmode hn htaken (hstore htaken)
  obtain ⟨hnamed, -⟩ := name_added hgeo hadded.ordered
    (hadded.orderedDir habsent.live habsent.copy habsent.isDir)
    (Finset.mem_insert_self n live) hn0 hinsert
  have hself : (withInode d₂ n ino).inodes n = ino := Function.update_self ..
  have hfile : entriesIn sb (withInode d₂ n ino) n = [] :=
    entriesIn_of_file (by rw [hself]; exact (hstore htaken).file)
  refine h.made hadded hnamed habsent.live habsent.absent hnamed.ordered
    (fun _ _ => rfl) (fun _ => rfl) (fun _ h => h) fun q hq => ?_
  rw [hnamed.links q, hfile, namesFor_nil, Nat.add_zero]
  rcases Finset.mem_insert.mp hq with rfl | hq
  · -- the new inode has the one name
    rw [hself, hnlink, h.unnamed hnew, if_pos rfl]
    rfl
  · rw [if_neg fun heq : n = q => hnew (heq ▸ hq), Nat.add_zero,
      hadded.inodes q hq]
    exact h.links q hq

/-! ### The inode of a new name -/

/-- **A new inode keeps the kind** it is made for, whatever the context. -/
theorem sanitizeNewInodeMode_fields (ctx : WriteCtx) (ino : Inode) :
    (sanitizeNewInodeMode ctx ino).mode &&& IFMT = ino.mode &&& IFMT ∧
      sanitizeNewInodeMode ctx ino
        = { ino with mode := (sanitizeNewInodeMode ctx ino).mode } := by
  have hsticky : ~~~(0o1000 : UInt16) &&& IFMT = IFMT := by decide
  have hgroup : ~~~(0o2000 : UInt16) &&& IFMT = IFMT := by decide
  unfold sanitizeNewInodeMode
  by_cases hroot : ctx.policy ≠ .USER ∨ ctxIsRoot ctx = true
  · rw [if_pos hroot]
    exact ⟨rfl, rfl⟩
  rw [if_neg hroot]
  dsimp only
  have hkept : (if ino.mode &&& IFMT ≠ IFDIR then ino.mode &&& ~~~0o1000
      else ino.mode) &&& IFMT = ino.mode &&& IFMT := by
    split
    · exact kind_andNot hsticky
    · rfl
  generalize (if ino.mode &&& IFMT ≠ IFDIR then ino.mode &&& ~~~0o1000
    else ino.mode) = kept at hkept ⊢
  split
  · exact ⟨(kind_andNot hgroup).trans hkept, rfl⟩
  · exact ⟨hkept, rfl⟩

/-- The fields of a new inode. -/
structure NewFields (ino : Inode) (mode nlink : UInt16) (size : Nat) : Prop where
  kind : ino.mode &&& IFMT = mode &&& IFMT
  nlink : ino.nlink = nlink
  flags : ino.flags = 0
  size : ino.size = size
  pointers : NoPointers ino

theorem newInode_fields (ctx : WriteCtx) (parent : Node) (mode nlink : UInt16)
    (size : Nat) (now : UInt32) :
    NewFields (newInode ctx parent mode nlink size now) mode nlink size := by
  have howner : ∀ ino : Inode, ∃ uid gid, setNewInodeOwner ctx parent ino
      = { ino with uid := uid, gid := gid } := by
    intro ino
    unfold setNewInodeOwner
    split
    · exact ⟨_, _, rfl⟩
    · exact ⟨_, _, rfl⟩
  obtain ⟨uid, gid, hown⟩ := howner { clearedInode with mode := mode, nlink := nlink }
  obtain ⟨hkind, hfields⟩ := sanitizeNewInodeMode_fields ctx
    (setNewInodeOwner ctx parent { clearedInode with mode := mode, nlink := nlink })
  unfold newInode
  rw [hown] at hkind hfields ⊢
  rw [hfields]
  exact ⟨hkind, rfl, rfl, rfl, fun _ => rfl, fun _ => rfl⟩

/-- An inode without storage is no directory, and stores no blocks. -/
theorem isSpecialMode_fields (h : isSpecialMode ino.mode = true) :
    isDirMode ino.mode = false ∧ storesBlocks ino = false := by
  have hkinds : ∀ kind : UInt16, ino.mode &&& IFMT = kind → kind ≠ IFREG →
      kind ≠ IFDIR → kind ≠ IFLNK →
      isDirMode ino.mode = false ∧ storesBlocks ino = false := by
    intro kind hkind hreg hdir hlink
    unfold isDirMode storesBlocks
    rw [hkind, beq_eq_false_iff_ne.mpr hreg, beq_eq_false_iff_ne.mpr hdir,
      beq_eq_false_iff_ne.mpr hlink]
    exact ⟨rfl, Bool.and_false _⟩
  unfold isSpecialMode at h
  simp only [Bool.or_eq_true, beq_iff_eq] at h
  rcases h with ((h | h) | h) | h
  · exact hkinds _ h (by decide) (by decide) (by decide)
  · exact hkinds _ h (by decide) (by decide) (by decide)
  · exact hkinds _ h (by decide) (by decide) (by decide)
  · exact hkinds _ h (by decide) (by decide) (by decide)

/-- What is stored in blocks has been taken from free space. -/
theorem stored_taken (hgeo : DataGeometry sb) (hzero : freeAt sb d 0 = 0)
    {data : Bytes} {cg size : Nat} {nlink : UInt16} {s : Storing}
    (hnew : NewFields ino mode nlink size) (hreg : mode &&& IFMT = IFREG)
    (hrun : storeData sb cg data ino d = .ok () s) :
    StorageTaken sb d s.disk s.ino ∧ s.ino.nlink = nlink := by
  obtain ⟨hstored, hsize⟩ := storeData_stored hgeo hzero hnew.pointers hrun
  have hkind : s.ino.mode &&& IFMT = IFREG := by
    rw [hstored.fields]
    exact hnew.kind.trans hreg
  refine ⟨⟨regular_kind hkind, .inl hkind, hstored.books, hstored.frame, fun f => ?_,
    fun _ => hstored.freeable_done hsize⟩, ?_⟩
  · rw [inodeClaims_of_blocks (regular_storesBlocks hkind)]
    exact hstored.claims hsize f
  · rw [hstored.fields]
    exact hnew.nlink

/-- **What a call that makes a file has done.** -/
theorem pathCreateFile_run {data : Bytes}
    (hrun : pathCreateFile sb ctx path data d = .ok () d') :
    ∃ parent name n d₁ s node,
      findParent sb ctx path true d = .ok (parent, name) d ∧
      requireAbsent sb path d = .ok () d ∧
      allocateInodeInGroup sb (parent.inodeNo / sb.inodesPerGroup)
        (IFREG ||| 0o644) d = .ok n d₁ ∧
      storeData sb (parent.inodeNo / sb.inodesPerGroup) data
        (newInode ctx parent (IFREG ||| 0o644) 1 data.length d₁.clock) d₁
        = .ok () s ∧
      insertDirent sb parent name n (withInode s.disk n s.ino) = .ok node d' := by
  unfold pathCreateFile at hrun
  obtain ⟨⟨parent, name⟩, e₁, hparent, hrun⟩ := bind_eq_ok hrun
  have he₁ : e₁ = d := (findParent_found hparent).1
  rw [he₁] at hparent hrun
  obtain ⟨_, e₂, habsent, hrun⟩ := bind_eq_ok hrun
  have he₂ : e₂ = d := (requireAbsent_ok habsent).1
  rw [he₂] at habsent hrun
  obtain ⟨n, d₁, halloc, hrun⟩ := bind_eq_ok hrun
  obtain ⟨now, e₃, hnow, hrun⟩ := bind_eq_ok hrun
  cases hnow
  obtain ⟨⟨rc, ino⟩, d₂, hstore, hend⟩ := bind_eq_ok hrun
  obtain ⟨hrc, node, hinsert⟩ := finish_ok hend
  rcases runStorer_ok hstore with ⟨s, hs, heq, hd⟩ | ⟨e, s, hs, heq, hd⟩
  · rw [Prod.mk.injEq] at heq
    rw [heq.2, hd] at hinsert
    exact ⟨parent, name, n, d₁, s, node, hparent, habsent, halloc, hs, hinsert⟩
  · rw [Prod.mk.injEq] at heq
    rw [heq.1] at hrc
    cases hrc

/-- **A new file leaves the link counts right.** -/
theorem create_linked (hgeo : DirGeometry sb) (h : Linked sb live modes d)
    {data : Bytes} (hrun : pathCreateFile sb ctx path data d = .ok () d') :
    ∃ n, Linked sb (insert n live) (Function.update modes n (IFREG ||| 0o644)) d' := by
  obtain ⟨parent, name, n, d₁, s, node, hparent, habsent, halloc, hs, hinsert⟩ :=
    pathCreateFile_run hrun
  have hgeo' := hgeo.toDataGeometry
  have habs := h.absent hgeo hparent habsent
  have hstore : InodeTaken sb d d₁ n (IFREG ||| 0o644) →
      StorageTaken sb d₁ s.disk s.ino ∧ s.ino.nlink = 1 := by
    intro htaken
    refine stored_taken hgeo' ?_ (newInode_fields ctx parent _ 1 data.length d₁.clock)
      (by decide) hs
    unfold freeAt
    rw [htaken.free]
    exact h.owned.zero hgeo'
  have htaken := (h.allocated hgeo habs.live halloc).1
  exact ⟨n, h.makeFile hgeo habs (by decide) halloc (fun ht => (hstore ht).1)
    (hstore htaken).2 hinsert⟩

/-- **A new symbolic link leaves the link counts right.** -/
theorem symlink_linked (hgeo : DirGeometry sb) (h : Linked sb live modes d)
    {target linkPath : Bytes}
    (hrun : pathSymlink sb ctx target linkPath d = .ok () d') :
    ∃ n, Linked sb (insert n live) (Function.update modes n (IFLNK ||| 0o777)) d' := by
  obtain ⟨parent, name, n, ino, d₁, d₂, node, hparent, -, halloc, hstored, hinsert⟩ :=
    pathSymlink_run hrun
  have hgeo' := hgeo.toDataGeometry
  -- nothing is there yet
  have habsent : requireAbsent sb linkPath d = .ok () d := by
    unfold pathSymlink at hrun
    obtain ⟨⟨parent', name'⟩, e₁, hparent', hrest⟩ := bind_eq_ok hrun
    rw [(findParent_found hparent').1] at hrest
    obtain ⟨_, e₂, habsent, -⟩ := bind_eq_ok hrest
    have he₂ : e₂ = d := (requireAbsent_ok habsent).1
    rw [he₂] at habsent
    exact habsent
  have habs := h.absent hgeo hparent habsent
  have hlink : InodeTaken sb d d₁ n (IFLNK ||| 0o777) →
      HoldsTarget sb target d₁ d₂ ino := by
    intro htaken
    refine hstored.holdsTarget hgeo' ?_
    unfold freeAt
    rw [htaken.free]
    exact h.owned.zero hgeo'
  have htaken := (h.allocated hgeo habs.live halloc).1
  refine ⟨n, h.makeFile hgeo habs (by decide) halloc (fun ht => ?_)
    (hlink htaken).nlink hinsert⟩
  obtain ⟨hkind, hfile, -⟩ := mode_link (hlink ht).mode
  exact ⟨hfile, .inr (.inr (.inl hkind)), (hlink ht).books, (hlink ht).frame,
    (hlink ht).claims, (hlink ht).freeable⟩

/-- An inode that points nowhere, of no size, has taken nothing. -/
theorem newNode_taken (hbs : 0 < sb.blockSize) (d : Disk) (rdev : Nat) {size : Nat}
    {nlink : UInt16} (hmknod : isMknodMode mode = true) (hnew : NewFields ino mode nlink size)
    (hsize : size = 0) :
    StorageTaken sb d d (setDevice ino mode rdev) ∧
      (setDevice ino mode rdev).nlink = nlink := by
  have hkind : (setDevice ino mode rdev).mode &&& IFMT = mode &&& IFMT := by
    unfold setDevice
    split
    · exact hnew.kind
    · exact hnew.kind
  have hnlink : (setDevice ino mode rdev).nlink = nlink := by
    unfold setDevice
    split
    · exact hnew.nlink
    · exact hnew.nlink
  refine ⟨?_, hnlink⟩
  unfold isMknodMode at hmknod
  rw [Bool.or_eq_true, beq_iff_eq] at hmknod
  rcases hmknod with hreg | hspecial
  · -- an empty file
    have hino : setDevice ino mode rdev = ino := by
      unfold setDevice
      rw [hreg, if_neg (by decide)]
    rw [hino] at hkind ⊢
    rw [hreg] at hkind
    have hblocks : fileBlocks sb ino.size = 0 := by
      rw [hnew.size, hsize]
      unfold fileBlocks
      exact Nat.div_eq_of_lt (by omega)
    have hnone : ∀ f, blockClaims sb d ino f = 0 := by
      intro f
      unfold blockClaims
      rw [hblocks, hnew.pointers.metaFrags_eq]
      rfl
    refine ⟨regular_kind hkind, .inl hkind, BooksKept.refl sb d,
      fun f _ => SameFrag.refl sb d f, fun f => ?_, fun _ => ⟨fun f => ?_,
        fun lb hlb => ?_, hnew.pointers.inside d⟩⟩
    · rw [inodeClaims_of_blocks (regular_storesBlocks hkind), hnone f]
      rfl
    · rw [hnone f]
      exact freeAt_le sb d f
    · rw [hblocks] at hlb
      exact absurd hlb (Nat.not_lt_zero lb)
  · -- an inode without storage
    have hspecial' : isSpecialMode (setDevice ino mode rdev).mode = true := by
      unfold isSpecialMode at hspecial ⊢
      rw [hkind]
      exact hspecial
    have hfields := isSpecialMode_fields hspecial'
    refine ⟨hfields.1, .inr (.inr (.inr hspecial')), BooksKept.refl sb d,
      fun f _ => SameFrag.refl sb d f, fun f => ?_, fun hstores => ?_⟩
    · unfold inodeClaims
      rw [hfields.2]
      rfl
    · rw [hfields.2] at hstores
      cases hstores

/-- **A new node leaves the link counts right**: a device, a pipe, a socket or an
empty file. -/
theorem mknod_linked (hgeo : DirGeometry sb) (h : Linked sb live modes d)
    {rdev : Nat} (hrun : pathMknod sb ctx path mode rdev d = .ok () d') :
    ∃ n, Linked sb (insert n live) (Function.update modes n mode) d' := by
  unfold pathMknod at hrun
  by_cases hmknod : isMknodMode mode = true
  swap
  · rw [if_pos (Bool.eq_false_iff.mpr hmknod)] at hrun
    cases hrun
  rw [if_neg (by rw [hmknod]; decide)] at hrun
  obtain ⟨⟨parent, name⟩, e₁, hparent, hrun₁⟩ := bind_eq_ok hrun
  have he₁ : e₁ = d := (findParent_found hparent).1
  rw [he₁] at hparent hrun₁
  obtain ⟨_, e₂, habsent, hrun₂⟩ := bind_eq_ok hrun₁
  have he₂ : e₂ = d := (requireAbsent_ok habsent).1
  rw [he₂] at habsent hrun₂
  obtain ⟨n, d₁, halloc, hrun₃⟩ := bind_eq_ok hrun₂
  obtain ⟨now, e₃, hnow, hend⟩ := bind_eq_ok hrun₃
  cases hnow
  have hfinish := orCleanup_ok hend
  obtain ⟨_, d₂, hwrite, hfinish⟩ := bind_eq_ok hfinish
  obtain ⟨node, d₃, hinsert, hret⟩ := bind_eq_ok hfinish
  cases hret
  rw [show d₂ = _ from writeInodeRaw_ok hwrite] at hinsert
  have hfields := newInode_fields ctx parent mode 1 0 d₁.clock
  have hfile : isDirMode mode = false := by
    unfold isMknodMode at hmknod
    rw [Bool.or_eq_true, beq_iff_eq] at hmknod
    rcases hmknod with hreg | hspecial
    · exact regular_kind hreg
    · exact (@isSpecialMode_fields { clearedInode with mode := mode } hspecial).1
  obtain ⟨hstore, hnlink⟩ := newNode_taken hgeo.blockSize_pos d₁ rdev hmknod hfields rfl
  exact ⟨n, h.makeFile hgeo (h.absent hgeo hparent habsent) hfile halloc
    (fun _ => hstore) hnlink hinsert⟩

end Files

/-! ## §3. One more name for a file. -/

section Link

variable {sb : Superblock} {live : Finset Nat} {modes : Nat → UInt16}
  {ctx : WriteCtx} {d d' : Disk} {sourcePath targetPath : Bytes}

/-- **A second name for a file leaves the link counts right.** -/
theorem link_linked (hgeo : DirGeometry sb) (h : Linked sb live modes d)
    (hrun : pathLink sb ctx sourcePath targetPath d = .ok () d') :
    Linked sb live modes d' := by
  unfold pathLink at hrun
  obtain ⟨⟨parent, name⟩, e₁, hparent, hrun₁⟩ := bind_eq_ok hrun
  have he₁ : e₁ = d := (findParent_found hparent).1
  rw [he₁] at hparent hrun₁
  obtain ⟨source, e₂, hlook, hrun₂⟩ := bind_eq_ok hrun₁
  have he₂ : e₂ = d := (nodeLookup_readOnly sb sourcePath false).ok hlook
  rw [he₂] at hlook hrun₂
  by_cases hdir : nodeIsDir source = true
  · rw [if_pos hdir] at hrun₂
    cases hrun₂
  rw [if_neg hdir] at hrun₂
  obtain ⟨_, e₃, habsent, hrun₃⟩ := bind_eq_ok hrun₂
  have he₃ : e₃ = d := (requireAbsent_ok habsent).1
  rw [he₃] at habsent hrun₃
  obtain ⟨now, e₄, hnow, hrun₄⟩ := bind_eq_ok hrun₃
  cases hnow
  obtain ⟨_, e₅, hwrite, hrun₅⟩ := bind_eq_ok hrun₄
  have hwritten := writeInodeRaw_ok hwrite
  obtain ⟨node, e₆, hinsert, hret⟩ := bind_eq_ok hrun₅
  cases hret
  obtain ⟨hlive, hcopy⟩ := h.lookup hgeo hlook
  have hsource : d.inodes source.inodeNo = source.inode := hcopy.symm
  have habs := h.absent hgeo hparent habsent
  -- the file has a link more, before it has the name
  generalize hino : ({ source.inode with
    nlink := source.inode.nlink + 1, ctime := d.clock } : Inode) = ino at hwritten
  have hlay : SameLayout (d.inodes source.inodeNo) ino := by
    rw [hsource, ← hino]
    exact ⟨rfl, rfl⟩
  have hcons := h.toConsistent.restamped hgeo hlive hlay
  have he₅ : e₅ = withInode d source.inodeNo ino := hwritten
  rw [he₅] at hinsert
  have hself : (withInode d source.inodeNo ino).inodes source.inodeNo = ino :=
    Function.update_self ..
  have hother : ∀ q, q ≠ source.inodeNo →
      (withInode d source.inodeNo ino).inodes q = d.inodes q :=
    fun q hq => Function.update_of_ne hq ..
  -- the parent is another inode
  have hne : parent.inodeNo ≠ source.inodeNo := by
    intro heq
    have hisDir := habs.isDir
    have hpcopy : parent.inode = d.inodes parent.inodeNo := habs.copy
    unfold nodeIsDir at hisDir hdir
    rw [hpcopy, heq, hsource] at hisDir
    exact hdir hisDir
  have hpsame : (withInode d source.inodeNo ino).inodes parent.inodeNo
      = parent.inode := (hother _ hne).trans habs.copy.symm
  have hord : OrderedDir sb live modes (withInode d source.inodeNo ino) parent := by
    have hord := hcons.dirs _ habs.live (by rw [hpsame]; exact habs.isDir)
    rw [hpsame] at hord
    exact hord
  have hroot : source.inodeNo ≠ 0 := by
    have hreal := h.real _ hlive
    unfold ROOT_INODE at hreal
    omega
  obtain ⟨hnamed, -⟩ := name_added hgeo hcons hord hlive hroot hinsert
  have hentries : ∀ p, entriesIn sb (withInode d source.inodeNo ino) p
      = entriesIn sb d p := hlay.entriesIn
  have hkind : ∀ q, (d'.inodes q).mode &&& IFMT = (d.inodes q).mode &&& IFMT :=
    fun q => (hnamed.kinds q).trans (hlay.kinds q)
  refine ⟨hnamed.ordered, h.real, ?_, ?_, fun q hq => (h.known q hq).congr (hkind q),
    fun q hq => ?_, fun q hq hdir => ?_, ?_, fun q hq => ?_⟩
  · rw [isDirMode_congr (hkind _)]
    exact h.rootDir
  · by_cases hrp : ROOT_INODE = parent.inodeNo
    · have hold := h.rootParent
      rw [hrp, ← hentries] at hold
      rw [hrp]
      exact hnamed.added.mem_iff.mpr (List.mem_cons_of_mem _ hold)
    · rw [hnamed.others _ h.root hrp, hentries]
      exact h.rootParent
  · rw [isDirMode_congr (hkind q)]
    exact h.kinds q hq
  · rw [isDirMode_congr (hkind q)] at hdir
    refine hnamed.inside q hq ?_ (hlay.inside hgeo.toDataGeometry (h.inside q hq hdir))
    rw [isDirMode_congr (hlay.kinds q)]
    exact hdir
  · refine hnamed.unique (fun q hq => ?_) ?_
    · rw [hentries]
      exact h.unique q hq
    · rw [hentries]
      exact habs.absent
  · rw [hnamed.links, hnamed.count habs.live, nameCount_congr fun p _ => hentries p]
    by_cases hq' : q = source.inodeNo
    · rw [hq', hself, if_pos rfl, ← hino]
      dsimp only
      rw [← hsource, h.links _ hlive, UInt16.ofNat_add]
      rfl
    · rw [hother q hq', if_neg fun heq => hq' heq.symm, Nat.add_zero]
      exact h.links q hq

end Link

end NextUfs
