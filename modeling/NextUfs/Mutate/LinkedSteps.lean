/-
  NextUfs.Mutate.LinkedSteps
  ──────────────────────────
  **THE STEPS THE OPERATIONS ARE MADE OF.**
  What the operations do to an image whose link counts are right: they give an
  inode other attributes, put a name into a directory, give a file other storage.
  Each step keeps the image in order, and says how the names of an inode are
  counted afterwards.

    • `Linked.sameNames`        — a step that adds and removes no name,
    • `NameAdded`, `name_added` — a name put into a directory,
    • `rewrite_linked`          — the four operations that rewrite a file,
    • `chmod_linked`, `chown_linked`, `utimes_linked` — those that change its
      attributes.
-/
import NextUfs.Mutate.InodeChanges

namespace NextUfs

open State Radix Bits

/-! ## §1. No name changes. -/

section Same

variable {sb : Superblock} {live : Finset Nat} {modes : Nat → UInt16}
  {d d' : Disk} {m : Nat} {ino' : Inode}

/-- **A step that adds and removes no name**, and leaves every inode its kind, its
link count, and its pointer blocks if it is a directory. -/
theorem Linked.sameNames (h : Linked sb live modes d)
    (hcons : Consistent sb live modes d')
    (hentries : ∀ p ∈ live, entriesIn sb d' p = entriesIn sb d p)
    (hkinds : ∀ q ∈ live, (d'.inodes q).mode &&& IFMT = (d.inodes q).mode &&& IFMT)
    (hinside : ∀ p ∈ live, isDirMode (d.inodes p).mode = true →
      InodeInside sb d' (d'.inodes p))
    (hlinks : ∀ q ∈ live, (d'.inodes q).nlink = (d.inodes q).nlink) :
    Linked sb live modes d' where
  toConsistent := hcons
  real := h.real
  rootDir := by
    rw [isDirMode_congr (hkinds _ h.root)]
    exact h.rootDir
  rootParent := by
    rw [hentries _ h.root]
    exact h.rootParent
  known q hq := (h.known q hq).congr (hkinds q hq)
  kinds q hq := by
    rw [isDirMode_congr (hkinds q hq)]
    exact h.kinds q hq
  inside p hp hdir := by
    rw [isDirMode_congr (hkinds p hp)] at hdir
    exact hinside p hp hdir
  unique p hp := by
    rw [hentries p hp]
    exact h.unique p hp
  links q hq := by
    rw [hlinks q hq, nameCount_congr hentries]
    exact h.links q hq

/-- A directory whose inode is restamped has its pointer blocks. -/
theorem SameLayout.inside (hlay : SameLayout (d.inodes m) ino')
    (hgeo : DataGeometry sb) {q : Nat} (h : InodeInside sb d (d.inodes q)) :
    InodeInside sb (withInode d m ino') ((withInode d m ino').inodes q) := by
  have hdata : ∀ f, 0 < metaFrags sb d (d.inodes q) f →
      SameFrag sb d (withInode d m ino') f := fun f _ => SameFrag.of_data_eq rfl f
  have hib : ino'.ib = (d.inodes m).ib := by
    rw [hlay.layout]
  by_cases hq : q = m
  · rw [hq] at h hdata ⊢
    rw [show (withInode d m ino').inodes m = ino' from Function.update_self ..]
    exact h.moved hgeo hib hdata
  · rw [show (withInode d m ino').inodes q = d.inodes q from Function.update_of_ne hq ..]
    exact h.moved hgeo rfl hdata

/-- The kinds of the inodes when one is restamped. -/
theorem SameLayout.kinds (hlay : SameLayout (d.inodes m) ino') (q : Nat) :
    ((withInode d m ino').inodes q).mode &&& IFMT = (d.inodes q).mode &&& IFMT := by
  by_cases hq : q = m
  · rw [hq, show (withInode d m ino').inodes m = ino' from Function.update_self ..]
    exact hlay.kind
  · rw [show (withInode d m ino').inodes q = d.inodes q from Function.update_of_ne hq ..]

/-- **An inode gets other attributes**, and keeps its link count. -/
theorem Linked.restamped (hgeo : DirGeometry sb) (h : Linked sb live modes d)
    (hm : m ∈ live) (hlay : SameLayout (d.inodes m) ino')
    (hnlink : ino'.nlink = (d.inodes m).nlink) :
    Linked sb live modes (withInode d m ino') := by
  refine h.sameNames (h.toConsistent.restamped hgeo hm hlay)
    (fun p _ => hlay.entriesIn p) (fun q _ => hlay.kinds q)
    (fun p hp hdir => hlay.inside hgeo.toDataGeometry (h.inside p hp hdir))
    fun q hq => ?_
  by_cases hqm : q = m
  · rw [hqm, show (withInode d m ino').inodes m = ino' from Function.update_self ..,
      hnlink]
  · rw [show (withInode d m ino').inodes q = d.inodes q from
      Function.update_of_ne hqm ..]

end Same

/-! ## §2. A name put into a directory. -/

section Name

variable {sb : Superblock} {live : Finset Nat} {modes : Nat → UInt16}
  {d d' : Disk} {dirnode node : Node} {name : Bytes} {n : Nat}

/-- What a change of directory `dirnode` to `node` leaves of it: its mode, its link
count and its pointer blocks. -/
structure DirKept (sb : Superblock) (d : Disk) (dirnode : Node) (d' : Disk)
    (node : Node) : Prop where
  mode : node.inode.mode = dirnode.inode.mode
  nlink : node.inode.nlink = dirnode.inode.nlink
  indirect : node.inode.ib = dirnode.inode.ib
  pointers : ∀ f, 0 < metaFrags sb d dirnode.inode f → SameFrag sb d d' f

/-- A chunk behind a directory is no pointer block of it. -/
theorem Growing.pointers {k r b : Nat} {d₁ : Disk} {raw : Bytes} (hgeo : DirGeometry sb)
    (hg : Growing sb live modes d dirnode k r b d₁) (hraw : raw.length = DIRBLKSIZ)
    (node : Node) {f : Nat} (hf : 0 < metaFrags sb d dirnode.inode f) :
    SameFrag sb d (grownDisk sb d₁ node b r raw) f := by
  have hle := hg.good.claimed_le f
  have hcovers := hg.covers_le hgeo f
  unfold blockClaims at hle
  exact hg.same hgeo hraw node (by omega) (by omega)

/-- **An insertion leaves the directory** its mode, its link count and its pointer
blocks. -/
theorem insertDirent_kept (hgeo : DirGeometry sb)
    (h : OrderedDir sb live modes d dirnode)
    (hrun : insertDirent sb dirnode name n d = .ok node d') :
    DirKept sb d dirnode d' node := by
  unfold insertDirent at hrun
  obtain ⟨found, d₁, hsearch, hfound⟩ := bind_eq_ok hrun
  cases found with
  | some node' =>
    cases hfound
    obtain ⟨x, pre, r, post, new, now, hk, hs, rfl, rfl⟩ :=
      exists_slot hgeo h hsearch
    exact ⟨rfl, rfl, rfl, fun f hf => hs.pointers hgeo hk hf⟩
  | none =>
    obtain rfl := insertBlocks_writes_nothing hgeo.blockSize_pos hsearch
    dsimp only at hfound
    split at hfound
    · cases hfound
    obtain ⟨grown, d₂, hattempt, hgrown⟩ := bind_eq_ok hfound
    rcases attempt_ok hattempt with ⟨⟨node', off⟩, rfl, hgrow⟩ | ⟨e, rfl, -⟩
    swap
    · cases hgrown
    have hgood := h.good (h.short_of_grow hgeo hgrow)
    dsimp only at hgrown
    cases hraw : writeDirentRaw n DIRBLKSIZ name with
    | error e =>
      rw [hraw] at hgrown
      cases hgrown
    | ok bytes =>
      rw [hraw] at hgrown
      obtain ⟨_, d₃, hwrite, hret⟩ := bind_eq_ok hgrown
      cases hret
      cases hwrite
      have hsplit := Nat.div_add_mod' dirnode.inode.size sb.blockSize
      obtain ⟨b, now, d₄, hg, rfl, rfl, rfl⟩ := growDirectory_ok hgeo hgood
        hsplit.symm (Nat.mod_lt _ hgeo.blockSize_pos) hgrow
      obtain ⟨hname, rfl⟩ := writeDirentRaw_ok hraw
      have hlen : (rawDirent n DIRBLKSIZ name).length = DIRBLKSIZ :=
        rawDirent_length (by unfold DIRBLKSIZ; omega)
      exact ⟨rfl, rfl, rfl, fun f hf => hg.pointers hgeo hlen _ hf⟩

/-- **From `d` to `d'` the name `name` for inode `n` has been put into directory
`p`**: the image is in order, every inode has the kind and the link count it
had, and the other directories have the entries they had. -/
structure NameAdded (sb : Superblock) (live : Finset Nat) (modes : Nat → UInt16)
    (p : Nat) (name : Bytes) (n : Nat) (d d' : Disk) : Prop where
  ordered : Consistent sb live modes d'
  kinds : ∀ q, (d'.inodes q).mode &&& IFMT = (d.inodes q).mode &&& IFMT
  links : ∀ q, (d'.inodes q).nlink = (d.inodes q).nlink
  inside : ∀ q ∈ live, isDirMode (d.inodes q).mode = true →
    InodeInside sb d (d.inodes q) → InodeInside sb d' (d'.inodes q)
  others : ∀ q ∈ live, q ≠ p → entriesIn sb d' q = entriesIn sb d q
  added : (entriesIn sb d' p).Perm ((n, name) :: entriesIn sb d p)

/-- A change of a directory keeps the other inodes. -/
theorem DirChange.othersKept (hchange : DirChange sb d dirnode d' node)
    (h : Consistent sb live modes d) (hmem : dirnode.inodeNo ∈ live) :
    OthersKept sb live dirnode.inodeNo d d' :=
  ⟨fun q _ hq => hchange.inodes q hq, fun _ hq hne _ hf =>
    hchange.sameFrag h.owned hmem hq hne hf⟩

section Kept

variable (hchange : DirChange sb d dirnode d' node)
  (hkept : DirKept sb d dirnode d' node) (hcur : d.inodes dirnode.inodeNo = dirnode.inode)

include hchange hkept hcur

theorem DirKept.kinds (q : Nat) :
    (d'.inodes q).mode &&& IFMT = (d.inodes q).mode &&& IFMT := by
  by_cases hq : q = dirnode.inodeNo
  · rw [hq, hchange.current, hcur, hkept.mode]
  · rw [hchange.inodes q hq]

theorem DirKept.links (q : Nat) : (d'.inodes q).nlink = (d.inodes q).nlink := by
  by_cases hq : q = dirnode.inodeNo
  · rw [hq, hchange.current, hcur, hkept.nlink]
  · rw [hchange.inodes q hq]

/-- Every directory has its pointer blocks when one has changed. -/
theorem DirKept.inside (hgeo : DataGeometry sb) (h : Consistent sb live modes d)
    (hmem : dirnode.inodeNo ∈ live) {q : Nat} (hq : q ∈ live)
    (hdir : isDirMode (d.inodes q).mode = true) (hin : InodeInside sb d (d.inodes q)) :
    InodeInside sb d' (d'.inodes q) := by
  by_cases hqp : q = dirnode.inodeNo
  · rw [hqp, hcur] at hin
    rw [hqp, hchange.current]
    exact hin.moved hgeo hkept.indirect hkept.pointers
  · exact (hchange.othersKept h hmem).inside hgeo hq hqp hdir hin

end Kept

/-- **An insertion that succeeds puts its name into the directory.** -/
theorem name_added (hgeo : DirGeometry sb) (h : Consistent sb live modes d)
    (hord : OrderedDir sb live modes d dirnode) (hn : n ∈ live) (hne : n ≠ 0)
    (hrun : insertDirent sb dirnode name n d = .ok node d') :
    NameAdded sb live modes dirnode.inodeNo name n d d' ∧
      d'.inodes dirnode.inodeNo = node.inode := by
  have hlt : n < 2 ^ 32 := Nat.lt_of_lt_of_le (h.inRange n hn) h.numbers
  obtain ⟨hcons, hchange, -⟩ := h.addName hgeo hord hn hne hrun
  obtain ⟨-, -, hperm⟩ := insertDirent_added hgeo hord hne hlt hrun
  have hkept := insertDirent_kept hgeo hord hrun
  have hcur := hord.current
  have hisDir : isDirMode (d.inodes dirnode.inodeNo).mode = true := by
    rw [hcur]
    exact hord.isDir
  refine ⟨⟨hcons, hkept.kinds hchange hcur, hkept.links hchange hcur,
    fun q hq hdir hin => hkept.inside hchange hcur hgeo.toDataGeometry h hord.mem hq
      hdir hin,
    fun q hq hne => (hchange.othersKept h hord.mem).entriesIn hgeo.toDataGeometry hq
      hne, ?_⟩, hchange.current⟩
  rw [entriesIn_of_dir hisDir, entriesIn_of_dir (by
    rw [hchange.current]
    exact hchange.isDir), hchange.current, hcur]
  exact hperm

/-- The names of the directory are different ones, if the new one was not there. -/
theorem NameAdded.unique {p : Nat}
    (h : NameAdded sb live modes p name n d d')
    (hold : ∀ q ∈ live, ((entriesIn sb d q).map Prod.snd).Nodup)
    (habsent : name ∉ (entriesIn sb d p).map Prod.snd) :
    ∀ q ∈ live, ((entriesIn sb d' q).map Prod.snd).Nodup := by
  intro q hq
  by_cases hqp : q = p
  · rw [hqp] at hq ⊢
    refine (h.added.map Prod.snd).nodup_iff.mpr ?_
    rw [List.map_cons, List.nodup_cons]
    exact ⟨habsent, hold p hq⟩
  · rw [h.others q hq hqp]
    exact hold q hq

/-- The inode has a name more. -/
theorem NameAdded.count {p : Nat} (h : NameAdded sb live modes p name n d d')
    (hp : p ∈ live) (m : Nat) :
    nameCount sb live d' m = nameCount sb live d m + if n = m then 1 else 0 :=
  nameCount_added hp h.others h.added m

end Name

/-! ## §3. Other storage for a file. -/

section Rewrites

variable {sb : Superblock} {live : Finset Nat} {modes : Nat → UInt16}
  {ctx : WriteCtx} {path : Bytes} {d d' : Disk} {m : Nat} {ino : Inode}

/-- A regular file is no directory, and stores blocks. -/
theorem regular_kind {mode : UInt16} (h : mode &&& IFMT = IFREG) :
    isDirMode mode = false := by
  unfold isDirMode
  rw [h]
  rfl

theorem regular_storesBlocks (h : ino.mode &&& IFMT = IFREG) :
    storesBlocks ino = true := by
  unfold storesBlocks
  rw [isFastLink_of_reg h, h]
  rfl

theorem inodeClaims_of_blocks (h : storesBlocks ino = true) (d : Disk) (f : Nat) :
    inodeClaims sb d ino f = blockClaims sb d ino f := if_pos h

/-- What a store has put on the disk is claimed by the inode it is for. -/
theorem Stored.claims {data : Bytes} {s : Storing}
    (h : Stored sb d ino data (fileBlocks sb data.length) s)
    (hsize : s.ino.size = data.length) (f : Nat) :
    freeAt sb s.disk f + blockClaims sb s.disk s.ino f = freeAt sb d f := by
  have hconserved := h.conserved f
  unfold blockClaims
  rw [hsize]
  omega

/-- **A file has other storage**: its inode is `ino` now, of the same kind and
with the same links; what it claims has come from free space, and what it
claimed has gone there. -/
structure Replaced (sb : Superblock) (modes : Nat → UInt16) (m : Nat) (ino : Inode)
    (d d' : Disk) : Prop where
  inodes : d'.inodes = Function.update d.inodes m ino
  mode : ino.mode = (d.inodes m).mode
  nlink : ino.nlink = (d.inodes m).nlink
  used : ∀ q, inodeUsed sb d' q = inodeUsed sb d q
  space : FreeSpace sb modes d'
  frame : ∀ f, freeAt sb d f = 0 → SameFrag sb d d' f
  claims : ∀ f, freeAt sb d' f + inodeClaims sb d' ino f
    = freeAt sb d f + inodeClaims sb d (d.inodes m) f
  file : Freeable sb d' ino

/-- **Other storage for a file** that is no directory keeps the image in order. -/
theorem Linked.replaced (hgeo : DirGeometry sb) (h : Linked sb live modes d)
    (hm : m ∈ live) (hkind : isDirMode (d.inodes m).mode = false)
    (hr : Replaced sb modes m ino d d') : Linked sb live modes d' := by
  have hself : d'.inodes m = ino := by
    rw [hr.inodes]
    exact Function.update_self ..
  have hnodir : isDirMode ino.mode = false := by
    rw [hr.mode]
    exact hkind
  have hcons : Consistent sb live modes d' :=
    h.toConsistent.changeFile hgeo hm hr.inodes hr.used hr.space
      (fun f hf _ => hr.frame f hf) hr.claims hnodir fun _ => hr.file
  have hkept : OthersKept sb live m d d' := h.toConsistent.othersKept hm (fun q _ hq => by
    rw [hr.inodes]
    exact Function.update_of_ne hq ..) fun f hf _ => hr.frame f hf
  refine h.sameNames hcons (fun p hp => ?_) (fun q hq => ?_) (fun p hp hdir => ?_)
    fun q hq => ?_
  · by_cases hpm : p = m
    · rw [hpm, entriesIn_of_file hkind, entriesIn_of_file (by
        rw [hself]
        exact hnodir)]
    · exact hkept.entriesIn hgeo.toDataGeometry hp hpm
  · by_cases hqm : q = m
    · rw [hqm, hself, hr.mode]
    · rw [hkept.inodes q hq hqm]
  · by_cases hpm : p = m
    · -- the file is no directory
      rw [hpm, hkind] at hdir
      cases hdir
    · exact hkept.inside hgeo.toDataGeometry hp hpm hdir (h.inside p hp hdir)
  · by_cases hqm : q = m
    · rw [hqm, hself, hr.nlink]
    · rw [hkept.inodes q hq hqm]

/-- **The old storage of a file** can still be given back when the new content is
stored, and claims what it did. -/
theorem Stored.old_freeable {data : Bytes} {s : Storing} {ino₀ new : Inode}
    (hgeo : DataGeometry sb) (h : Consistent sb live modes d) (hm : m ∈ live)
    (hkind : isDirMode (d.inodes m).mode = false)
    (hblocks : storesBlocks (d.inodes m) = true)
    (hstored : Stored sb d ino₀ data (fileBlocks sb data.length) s)
    (hsize : s.ino.size = data.length) :
    Freeable sb (withInode s.disk m new) (d.inodes m) ∧
      ∀ f, blockClaims sb (withInode s.disk m new) (d.inodes m) f
        = blockClaims sb d (d.inodes m) f := by
  have hfreeOld := h.files m hm hkind hblocks
  have hsame : ∀ f, 0 < blockClaims sb d (d.inodes m) f →
      SameFrag sb d (withInode s.disk m new) f := fun f hf =>
    hstored.frame f (h.owned.claimed hm (by
      rw [inodeClaims_of_blocks hblocks]
      exact hf))
  have hclaims := blockClaims_same hgeo hsame
  refine ⟨hfreeOld.moved hgeo hsame fun f => ?_, hclaims⟩
  have hle := hfreeOld.owned f
  have hcon := hstored.claims hsize f
  rw [hclaims f]
  show freeAt sb s.disk f + _ ≤ 1
  omega

/-- **New storage for a regular file, and the old given back.** -/
theorem rewriteInodeContents_replaced (hgeo : DirGeometry sb)
    (h : Consistent sb live modes d) (hm : m ∈ live)
    (hreg : (d.inodes m).mode &&& IFMT = IFREG) {preferredCg : Nat} {data : Bytes}
    (hrun : rewriteInodeContents sb m (d.inodes m) preferredCg data d
      = .ok () d') : ∃ ino, Replaced sb modes m ino d d' := by
  have hgeo' := hgeo.toDataGeometry
  have hblocks := regular_storesBlocks hreg
  obtain ⟨s, t, hs, ht, rfl⟩ := rewriteInodeContents_steps hrun
  obtain ⟨hstored, hsize⟩ := storeData_stored hgeo' (h.owned.zero hgeo')
    (clearInodeLayout_noPointers (d.inodes m)) hs
  have hmode : (stamped s).mode = (d.inodes m).mode := by
    show s.ino.mode = _
    rw [hstored.fields]
    rfl
  have hnewBlocks : storesBlocks (stamped s) = true := regular_storesBlocks (by
    rw [hmode]
    exact hreg)
  -- the old storage is given back
  obtain ⟨hfreeOld, hclaimsOld⟩ : Freeable sb (withInode s.disk m (stamped s)) (d.inodes m) ∧
      ∀ f, blockClaims sb (withInode s.disk m (stamped s)) (d.inodes m) f
        = blockClaims sb d (d.inodes m) f :=
    hstored.old_freeable hgeo' h hm (regular_kind hreg) hblocks hsize
  have hspec := @freeFileStorage_spec sb (withInode s.disk m (stamped s))
    hgeo.toSpaceGeometry
    (fun c hc => (hstored.books.space modes h.space).magic c hc)
    (d.inodes m) 0 (isFastLink_of_reg hreg) hfreeOld
  obtain ⟨-, -, hgiven⟩ := wp_ok hspec ht
  have hdata : t.disk.data = s.disk.data := hgiven.data
  -- what the new inode claims has come from free space
  have hnewClaims : ∀ f, blockClaims sb t.disk (stamped s) f
      = blockClaims sb s.disk s.ino f :=
    blockClaims_same hgeo' fun f _ => SameFrag.of_data_eq hdata f
  have hbalance : ∀ f, freeAt sb t.disk f + inodeClaims sb t.disk (stamped s) f
      = freeAt sb d f + inodeClaims sb d (d.inodes m) f := by
    intro f
    have hcon := hstored.claims hsize f
    have hback := hgiven.free f
    rw [hclaimsOld f] at hback
    rw [inodeClaims_of_blocks hnewBlocks, inodeClaims_of_blocks hblocks,
      hnewClaims f, hback]
    show freeAt sb s.disk f + _ + _ = _
    omega
  refine ⟨stamped s, ?_, hmode, ?_, fun q => ?_, hgiven.books.space modes ?_,
    fun f hf => (hstored.frame f hf).trans (SameFrag.of_data_eq hdata f), hbalance, ?_⟩
  · rw [hgiven.books.inodes]
    show Function.update s.disk.inodes m _ = _
    rw [hstored.books.inodes]
  · show s.ino.nlink = _
    rw [hstored.fields]
    rfl
  · unfold inodeUsed
    rw [hgiven.books.iused]
    show (s.disk.cgs _).iused _ = _
    rw [hstored.books.iused]
  · exact (hstored.books.space modes h.space).of_groups rfl rfl rfl
  · have hdone := hstored.freeable_done hsize
    have hnewFree : Freeable sb s.disk (stamped s) :=
      ⟨hdone.owned, hdone.runs, hdone.inside⟩
    refine hnewFree.moved hgeo' (fun f _ => SameFrag.of_data_eq hdata f) fun f => ?_
    have hle := (h.files m hm (regular_kind hreg) hblocks).owned f
    have hcon := hbalance f
    rw [inodeClaims_of_blocks hnewBlocks, inodeClaims_of_blocks hblocks] at hcon
    omega

/-- **A rewrite of a regular file keeps the image in order.** -/
theorem rewriteInodeContents_linked (hgeo : DirGeometry sb)
    (h : Linked sb live modes d) (hm : m ∈ live)
    (hreg : (d.inodes m).mode &&& IFMT = IFREG) {preferredCg : Nat} {data : Bytes}
    (hrun : rewriteInodeContents sb m (d.inodes m) preferredCg data d
      = .ok () d') : Linked sb live modes d' := by
  obtain ⟨ino, hr⟩ := rewriteInodeContents_replaced hgeo h.toConsistent hm hreg hrun
  exact h.replaced hgeo hm (regular_kind hreg) hr

/-- The shape of the operations that rewrite a file. -/
theorem rewrites_of_steps {notReg : Errno} {k : Node → Op Unit}
    (hk : ∀ target, k target d = .ok () d' → ∃ data,
      rewriteInodeContents sb target.inodeNo target.inode
        (target.inodeNo / sb.inodesPerGroup) data d = .ok () d')
    (h : (do
      liftCheck (requireCtxIdsFit ctx)
      let target ← lookupForWrite sb ctx path notReg
      k target) d = .ok () d') :
    ∃ target data, nodeLookup sb path false d = .ok target d ∧
      target.inode.mode &&& IFMT = IFREG ∧
      rewriteInodeContents sb target.inodeNo target.inode
        (target.inodeNo / sb.inodesPerGroup) data d = .ok () d' := by
  obtain ⟨_, d₁, hids, hrest⟩ := bind_eq_ok h
  obtain ⟨-, rfl⟩ := liftCheck_ok hids
  obtain ⟨target, d₂, hfound, hlast⟩ := bind_eq_ok hrest
  obtain ⟨hlook, rfl⟩ := lookupForWrite_ok hfound
  obtain ⟨data, hrun⟩ := hk target hlast
  exact ⟨target, data, hlook, lookupForWrite_reg hfound, hrun⟩

/-- **Each of the operations rewrites a regular file**, with some content. -/
theorem Rewrite.run_rewrites (op : Rewrite)
    (h : op.run sb ctx path d = .ok () d') :
    ∃ target data, nodeLookup sb path false d = .ok target d ∧
      target.inode.mode &&& IFMT = IFREG ∧
      rewriteInodeContents sb target.inodeNo target.inode
        (target.inodeNo / sb.inodesPerGroup) data d = .ok () d' := by
  -- what is kept of the file is read first
  have hread : ∀ {target : Node} {n : Nat} {f : Bytes → Bytes},
      (do
        let old ← inodeReadData sb target.inode 0 n
        rewriteInodeContents sb target.inodeNo target.inode
          (target.inodeNo / sb.inodesPerGroup) (f old)) d = .ok () d' →
      ∃ data, rewriteInodeContents sb target.inodeNo target.inode
        (target.inodeNo / sb.inodesPerGroup) data d = .ok () d' := by
    intro target n f hrun
    obtain ⟨old, d₁, hold, hrest⟩ := bind_eq_ok hrun
    obtain rfl : d₁ = d := (inodeReadData_readOnly sb _ _ _).ok hold
    exact ⟨f old, hrest⟩
  cases op with
  | overwrite data => exact rewrites_of_steps (fun _ hrun => ⟨data, hrun⟩) h
  | append data =>
    refine rewrites_of_steps (fun target hrun => ?_) h
    dsimp only at hrun
    split at hrun
    · exact @hread target _ (· ++ data) hrun
    · exact ⟨data, hrun⟩
  | truncate size =>
    have hcall : pathTruncate sb ctx path size d = .ok () d' := h
    unfold pathTruncate at hcall
    split at hcall
    · cases hcall
    refine rewrites_of_steps (fun target hrun => ?_) hcall
    dsimp only at hrun
    split at hrun
    · exact @hread target _ (zeroPadded size) hrun
    · exact ⟨_, hrun⟩
  | pwrite data offset =>
    have hcall : pathPwrite sb ctx path data offset d = .ok () d' := h
    unfold pathPwrite at hcall
    split at hcall
    · cases hcall
    refine rewrites_of_steps (fun target hrun => ?_) hcall
    dsimp only at hrun
    split at hrun
    · exact @hread target _ (fun old => overlay (zeroPadded
        (max target.inode.size (offset + data.length)) old) offset data) hrun
    · exact ⟨_, hrun⟩

/-- **A rewrite keeps the image in order**, and its link counts right. -/
theorem rewrite_linked (op : Rewrite) (hgeo : DirGeometry sb)
    (h : Linked sb live modes d) (hrun : op.run sb ctx path d = .ok () d') :
    Linked sb live modes d' := by
  obtain ⟨target, data, hlook, hreg, hrun⟩ := op.run_rewrites hrun
  obtain ⟨hlive, hcopy⟩ := h.lookup hgeo hlook
  rw [show target.inode = d.inodes target.inodeNo from hcopy] at hreg hrun
  exact rewriteInodeContents_linked hgeo h hlive hreg hrun

end Rewrites

/-! ## §4. Mode, owner and times. -/

section Attributes

variable {sb : Superblock} {live : Finset Nat} {modes : Nat → UInt16}
  {ctx : WriteCtx} {path : Bytes} {d d' : Disk}

/-- Bits that are taken away outside of the kind leave the kind. -/
theorem kind_andNot {mode bits : UInt16} (h : ~~~bits &&& IFMT = IFMT) :
    mode &&& ~~~bits &&& IFMT = mode &&& IFMT := by
  rw [UInt16.and_assoc, h]

/-- Permission bits that are put in leave the kind. -/
theorem kind_withPermissions (kind mode : UInt16) :
    (kind &&& IFMT ||| mode &&& 0o7777) &&& IFMT = kind &&& IFMT := by
  apply UInt16.toBitVec_inj.mp
  simp only [UInt16.toBitVec_and, UInt16.toBitVec_or]
  rw [BitVec.and_or_distrib_right, BitVec.and_assoc, BitVec.and_self,
    BitVec.and_assoc,
    show (0o7777 : UInt16).toBitVec &&& IFMT.toBitVec = 0#16 by decide,
    BitVec.and_zero, BitVec.or_zero]

/-- **A new mode keeps the kind of the inode.** -/
theorem sanitizeChmodMode_kind (ctx : WriteCtx) (node : Node) (mode : UInt16) :
    sanitizeChmodMode ctx node mode &&& IFMT = node.inode.mode &&& IFMT := by
  have hnew := kind_withPermissions node.inode.mode mode
  have hsticky : ~~~(0o1000 : UInt16) &&& IFMT = IFMT := by decide
  have hgroup : ~~~(0o2000 : UInt16) &&& IFMT = IFMT := by decide
  unfold sanitizeChmodMode
  dsimp only
  generalize node.inode.mode &&& IFMT ||| mode &&& 0o7777 = new at hnew ⊢
  by_cases hroot : ctx.policy ≠ .USER ∨ ctxIsRoot ctx = true
  · rw [if_pos hroot]
    exact hnew
  rw [if_neg hroot]
  have hnoSticky : (if new &&& IFMT ≠ IFDIR then new &&& ~~~0o1000 else new)
      &&& IFMT = node.inode.mode &&& IFMT := by
    split
    · rw [kind_andNot hsticky, hnew]
    · exact hnew
  generalize (if new &&& IFMT ≠ IFDIR then new &&& ~~~0o1000 else new) = kept
    at hnoSticky ⊢
  split
  · rw [kind_andNot hgroup, hnoSticky]
  · exact hnoSticky

/-- The inode an operation has looked up gets other attributes. -/
theorem writeAttributes_linked (hgeo : DirGeometry sb) (h : Linked sb live modes d)
    {node : Node} {ino : Inode} {followFinal : Bool}
    (hlook : nodeLookup sb path followFinal d = .ok node d)
    (hrun : writeInodeRaw sb node.inodeNo ino d = .ok () d')
    (hlay : SameLayout node.inode ino) (hnlink : ino.nlink = node.inode.nlink) :
    Linked sb live modes d' := by
  obtain ⟨hlive, hcopy⟩ := h.lookup hgeo hlook
  rw [show node.inode = d.inodes node.inodeNo from hcopy] at hlay hnlink
  rw [writeInodeRaw_ok hrun]
  exact h.restamped hgeo hlive hlay hnlink

theorem chmod_linked (hgeo : DirGeometry sb) (h : Linked sb live modes d)
    {mode : UInt16} (hrun : pathChmod sb ctx path mode d = .ok () d') :
    Linked sb live modes d' := by
  unfold pathChmod at hrun
  obtain ⟨_, d₁, hids, hrun₁⟩ := bind_eq_ok hrun
  obtain ⟨-, rfl⟩ := liftCheck_ok hids
  obtain ⟨node, d₂, hlook, hrun₂⟩ := bind_eq_ok hrun₁
  obtain rfl : d₂ = d₁ := (nodeLookup_readOnly sb path false).ok hlook
  obtain ⟨_, d₃, hallowed, hrun₃⟩ := bind_eq_ok hrun₂
  obtain ⟨-, rfl⟩ := liftCheck_ok hallowed
  obtain ⟨now, d₄, htime, hwrite⟩ := bind_eq_ok hrun₃
  cases htime
  exact writeAttributes_linked hgeo h hlook hwrite
    ⟨sanitizeChmodMode_kind ctx node mode, rfl⟩ rfl

theorem chown_linked (hgeo : DirGeometry sb) (h : Linked sb live modes d)
    {uid gid : Nat} (hrun : pathChown sb ctx path uid gid d = .ok () d') :
    Linked sb live modes d' := by
  unfold pathChown at hrun
  obtain ⟨_, d₁, hids, hrun₁⟩ := bind_eq_ok hrun
  obtain ⟨-, rfl⟩ := liftCheck_ok hids
  obtain ⟨_, d₂, hfit, hrun₂⟩ := bind_eq_ok hrun₁
  obtain ⟨-, rfl⟩ := liftCheck_ok hfit
  obtain ⟨node, d₃, hlook, hrun₃⟩ := bind_eq_ok hrun₂
  obtain rfl : d₃ = d₂ := (nodeLookup_readOnly sb path false).ok hlook
  dsimp only at hrun₃
  obtain ⟨_, d₄, hallowed, hrun₄⟩ := bind_eq_ok hrun₃
  obtain ⟨-, rfl⟩ := liftCheck_ok hallowed
  obtain ⟨now, d₅, htime, hwrite⟩ := bind_eq_ok hrun₄
  cases htime
  refine writeAttributes_linked hgeo h hlook hwrite ⟨?_, rfl⟩ rfl
  dsimp only
  split
  · rw [kind_andNot (by decide)]
  · rfl

theorem utimes_linked (hgeo : DirGeometry sb) (h : Linked sb live modes d)
    {atime mtime : UInt32}
    (hrun : pathUtimes sb ctx path atime mtime d = .ok () d') :
    Linked sb live modes d' := by
  unfold pathUtimes at hrun
  obtain ⟨_, d₁, hids, hrun₁⟩ := bind_eq_ok hrun
  obtain ⟨-, rfl⟩ := liftCheck_ok hids
  obtain ⟨node, d₂, hlook, hrun₂⟩ := bind_eq_ok hrun₁
  obtain rfl : d₂ = d₁ := (nodeLookup_readOnly sb path false).ok hlook
  split at hrun₂
  · cases hrun₂
  obtain ⟨now, d₃, htime, hwrite⟩ := bind_eq_ok hrun₂
  cases htime
  exact writeAttributes_linked hgeo h hlook hwrite ⟨rfl, rfl⟩ rfl

end Attributes

end NextUfs
