/-
  NextUfs.Mutate.LinkedRemovals
  ─────────────────────────────
  **NAMES THAT GO, AND LINK COUNTS.**
  A removal joins the record of a name to the last record in use before it.  Where
  nothing stands between the two the directory is in order afterwards, without the
  name.  The inode then has a link less; one without links is given back, with
  what it claims.

    • `FollowsLive`       — the record follows the one it is joined to,
    • `name_removed`      — a name taken out of a directory,
    • `inode_dropped`     — an inode given back,
    • `Linked.unmade`     — what is left to show of an operation that does these.
-/
import NextUfs.Mutate.LinkedDirs

namespace NextUfs

open State Radix Bits

/-! ## §1. The record is joined. -/

/-- **Nothing stands between** the first record of the name and the last record in
use before it in its chunk. -/
def FollowsLive (sb : Superblock) (d : Disk) (dirino : Inode) (name : Bytes) : Prop :=
  ∃ x pre v post, Found sb d dirino name x pre v post ∧
    ∀ p, lastLive pre = some p → p.1 + p.2.reclen = v.1

section Join

variable {c name : Bytes} {pre post : List (Nat × Dirent)} {v : Nat × Dirent} {n : Nat}

/-- A record that follows the one in use before it: the chunk is well formed when
the two are joined. -/
theorem joined_wellChunk (hsmall : c.length < 2 ^ 16)
    (h : Tiles c c.length 0 c.length (pre ++ v :: post))
    (hfits : Fitting (pre ++ v :: post)) (hlive : v.2.ino ≠ 0)
    (hnext : ∀ p, lastLive pre = some p → p.1 + p.2.reclen = v.1) :
    WellChunk (joined c 0 (lastLive pre) v) (entriesOf pre ++ entriesOf post) := by
  obtain ⟨hlen, -, hsame, front, hfront, hfrontFits, hentries⟩ :=
    joined_front_of (P := fun ent => ¬TooShort ent)
      (fun ent hbad => by
        rw [tooShort_shown] at hbad
        exact hbad.1 rfl)
      (fun ent n hlive hok hle hbad => by
        rw [tooShort_shown] at hbad
        have hshort := hbad.2
        exact hok ⟨hlive, Nat.lt_of_le_of_lt hle hshort⟩)
      (fun r hr => hfits r (List.mem_append_left _ hr)) hsmall h hfits.nameInside hlive
  -- behind the joined records the chunk is what it was
  have hpost : Tiles c c.length (joinedEnd (lastLive pre) v) c.length post := by
    obtain ⟨-, -, htail⟩ := h.around
    unfold joinedEnd
    cases hlast : lastLive pre with
    | none => exact htail
    | some p =>
      show Tiles _ _ (p.1 + (p.2.reclen + v.2.reclen)) _ _
      rw [← Nat.add_assoc, hnext p hlast]
      exact htail
  have hmem : ∀ r ∈ post, r ∈ pre ++ v :: post := fun r hr =>
    List.mem_append_right _ (List.mem_cons_of_mem _ hr)
  refine ⟨front ++ post, ?_, fun r hr => ?_, ?_⟩
  · rw [hlen]
    exact hfront.append (hpost.congr le_rfl hlen.ge
      (fun r hr => hfits.nameInside r (hmem r hr)) hsame)
  · rcases List.mem_append.mp hr with hr | hr
    · exact hfrontFits r hr
    · exact hfits r (hmem r hr)
  · rw [entriesOf_append, hentries]

/-- **A list of entries with different names, without one of them.** -/
theorem perm_without {es : List (Nat × Bytes)} (hmem : (n, name) ∈ es)
    (hnodup : (es.map Prod.snd).Nodup) :
    ((n, name) :: es.filter fun e => e.2 ≠ name).Perm es := by
  obtain ⟨before, after, rfl⟩ := List.append_of_mem hmem
  have hperm : (before ++ (n, name) :: after).Perm ((n, name) :: (before ++ after)) :=
    List.perm_middle
  have hnames := (hperm.map Prod.snd).nodup_iff.mp hnodup
  rw [List.map_cons, List.nodup_cons] at hnames
  have hwithout : Without name (before ++ after) := fun e he heq =>
    hnames.1 (List.mem_map.mpr ⟨e, he, heq⟩)
  obtain ⟨hbefore, hafter⟩ := without_append.mp hwithout
  rw [List.filter_append, List.filter_cons_of_neg (by simp), filter_of_without hbefore,
    filter_of_without hafter]
  exact hperm.symm

end Join

/-! ## §2. The directory without the name. -/

section Removed

variable {sb : Superblock} {live : Finset Nat} {modes : Nat → UInt16}
  {d d' : Disk} {dirnode node : Node} {name : Bytes} {n : Nat}

/-- `.` and `..` are not removed. -/
theorem removeRecord_notDots {block new : Bytes} {base ino : Nat} :
    ∀ {rs : List (Nat × Dirent)} {prev : Option (Nat × Dirent)},
    removeRecord name block base prev rs = some (.ok (new, ino)) →
    nameIsDotOrDotdot name = false
  | [], _, h => by cases h
  | r :: rest, prev, h => by
    rw [removeRecord_cons] at h
    split at h
    · split at h
      · cases h
      · next hdots => exact Bool.eq_false_iff.mpr hdots
    · exact removeRecord_notDots h

theorem removeDirent_notDots (hrun : removeDirent sb dirnode name d = .ok (node, n) d') :
    nameIsDotOrDotdot name = false := by
  unfold removeDirent at hrun
  generalize List.range (fileBlocks sb dirnode.inode.size) = ks at hrun
  induction ks generalizing d with
  | nil => cases hrun
  | cons k ks ih =>
    unfold removeBlocks at hrun
    obtain ⟨block, d₁, hread, hnext⟩ := bind_eq_ok hrun
    dsimp only at hnext
    split at hnext
    · split at hnext
      · cases hnext
      · cases hfound : removeInBlock name block (chunkBytes sb dirnode.inode.size k) with
        | none =>
          rw [hfound] at hnext
          exact ih hnext
        | some result =>
          rw [hfound] at hnext
          rcases result with e | ⟨new, ino⟩
          · cases hnext
          · unfold removeInBlock at hfound
            obtain ⟨j, -, hrecord⟩ := List.exists_of_findSome?_eq_some hfound
            exact removeRecord_notDots hrecord
    · cases hnext

/-- **A removal that succeeds**, of a name whose record follows the one it is
joined to: the directory is in order, and has lost the name. -/
theorem removeDirent_removed (hgeo : DirGeometry sb)
    (h : OrderedDir sb live modes d dirnode)
    (hunique : ((dirEntries sb d dirnode.inode).map Prod.snd).Nodup)
    (hfollows : FollowsLive sb d dirnode.inode name)
    (hrun : removeDirent sb dirnode name d = .ok (node, n) d') :
    OrderedDir sb live modes d' node ∧ DirKept sb d dirnode d' node ∧
      ((n, name) :: dirEntries sb d' node.inode).Perm
        (dirEntries sb d dirnode.inode) := by
  have hgeo' := hgeo.toDataGeometry
  have hbs := hgeo.blockSize_pos
  have hpart := h.chunks.partitioned
  have hdots := removeDirent_notDots hrun
  have hchange := removeDirent_change hgeo h hrun
  obtain ⟨x, pre, v, post, hfound, hnext⟩ := hfollows
  -- the record is in a block with a direct pointer, or the call would have failed
  have hk : x.1 < 12 := by
    by_contra hbeyond
    obtain ⟨e, herror⟩ := removeDirent_beyond hbs hpart hfound (by omega)
    rw [herror] at hrun
    cases hrun
  rw [removeDirent_run hbs hgeo.hasInodes hpart hdots hfound hk] at hrun
  cases hrun
  have hsmall : (dirChunk sb d dirnode.inode x).length < 2 ^ 16 := by
    rw [dirChunk_length]
    exact Nat.lt_of_le_of_lt (Nat.min_le_left _ _) (by decide)
  obtain ⟨es, rs, htiles, hfits, -⟩ := h.chunks x hfound.place
  have hrs := hfound.tiles.unique htiles
  rw [hrs] at hfits
  have hwell := joined_wellChunk hsmall hfound.tiles hfits hfound.live hnext
  have hafter := fun y => @Found.dirChunk_after sb d dirnode name x pre post v
    hgeo' h.once hpart hfound hk y
  -- the block written back holds no pointers
  have hin := (mem_dirPlaces.mp hfound.place).1
  have hdb := hpart.db_ne_zero hbs hk hin
  have hpointers : ∀ f, 0 < metaFrags sb d dirnode.inode f →
      SameFrag sb d (removedDisk sb d dirnode (dirnode.inode.db ⟨x.1, hk⟩) x
        (lastLive pre) v) f := fun f hf =>
    write_meta hgeo' h.once hk hin hdb hfound.joined_length hf
  have hmem : (v.2.ino, name) ∈ dirEntries sb d dirnode.inode := by
    refine List.mem_flatMap.mpr ⟨x, hfound.place, ?_⟩
    rw [hfound.entries, ← hfound.named]
    exact List.mem_append_right _ List.mem_cons_self
  -- the name is there once
  have hothers : (∀ y ∈ dirPlaces sb dirnode.inode.size, y ≠ x →
        Without name (chunkEntries (dirChunk sb d dirnode.inode y))) ∧
      Without name (entriesOf post) := by
    obtain ⟨before, after, hplaces, hsplit⟩ := entries_split hfound.place
    have hnames := hunique
    rw [hsplit d dirnode.inode rfl, hfound.entries] at hnames
    generalize hB : (before.flatMap fun y => chunkEntries
      (dirChunk sb d dirnode.inode y)) = B at hnames
    generalize hA : (after.flatMap fun y => chunkEntries
      (dirChunk sb d dirnode.inode y)) = A at hnames
    have hperm : (B ++ ((entriesOf pre ++ (v.2.ino, v.2.name) :: entriesOf post) ++ A)).Perm
        ((v.2.ino, v.2.name) :: (B ++ (entriesOf pre ++ (entriesOf post ++ A)))) := by
      rw [List.append_assoc, List.cons_append, ← List.append_assoc B,
        ← List.append_assoc B]
      exact List.perm_middle
    have hnodup := (hperm.map Prod.snd).nodup_iff.mp hnames
    rw [List.map_cons, List.nodup_cons] at hnodup
    have hwithout : Without name (B ++ (entriesOf pre ++ (entriesOf post ++ A))) :=
      fun e he heq => hnodup.1 (List.mem_map.mpr ⟨e, he, heq.trans hfound.named.symm⟩)
    rw [without_append, without_append, without_append, ← hB, ← hA, without_flatMap,
      without_flatMap] at hwithout
    obtain ⟨hbefore, -, hpost, hbehind⟩ := hwithout
    refine ⟨fun y hy hne => ?_, hpost⟩
    rcases List.mem_append.mp ((hplaces y).mpr ⟨hy, hne⟩) with hy | hy
    · exact hbefore y hy
    · exact hbehind y hy
  refine ⟨⟨hchange.space modes h.space,
    hchange.owned hgeo' h.owned h.mem h.current h.isDir, h.mem, Function.update_self ..,
    h.isDir, fun lb hlb => ?_, ?_, fun y hy => ?_⟩, ⟨rfl, rfl, rfl, hpointers⟩, ?_⟩
  · have hmap : blockAt sb (removedDisk sb d dirnode (dirnode.inode.db ⟨x.1, hk⟩) x
        (lastLive pre) v) (touched d.clock dirnode.inode)
        = blockAt sb d dirnode.inode :=
      (blockAt_eq rfl rfl rfl).trans (blockAt_congr hgeo' hpointers)
    show RunFits sb (blockAt sb _ (touched d.clock dirnode.inode) lb) _
    rw [hmap]
    exact h.runs lb hlb
  · have hclaimed : claimedFrags sb (removedDisk sb d dirnode
        (dirnode.inode.db ⟨x.1, hk⟩) x (lastLive pre) v)
        (touched d.clock dirnode.inode) = claimedFrags sb d dirnode.inode :=
      Finset.sum_congr rfl fun f _ =>
        write_blockClaims hgeo' h.once hk hin hdb hfound.joined_length f
    show dirnode.inode.blocks = UInt32.ofNat (claimedFrags sb _
      (touched d.clock dirnode.inode) * _)
    rw [hclaimed, h.sectors]
  · show ∃ es, WellChunk (dirChunk sb _ (touched d.clock dirnode.inode) y) es
    rw [hafter y hy]
    split
    · exact ⟨_, hwell⟩
    · exact h.chunks y hy
  · have hentries := (hfound.entries_after hgeo' h.once hpart hk
      hwell.partitioned).mpr ⟨hothers.1, (filter_of_without hothers.2).symm⟩
    show ((v.2.ino, name) :: dirEntries sb _ (touched d.clock dirnode.inode)).Perm _
    rw [hentries]
    exact perm_without hmem hunique

/-- **From `d` to `d'` the name `name` of inode `n` has been taken out of directory
`p`**: the image is in order, every inode has the kind and the link count it had,
and the other directories have the entries they had. -/
structure NameRemoved (sb : Superblock) (live : Finset Nat) (modes : Nat → UInt16)
    (p : Nat) (name : Bytes) (n : Nat) (d d' : Disk) : Prop where
  ordered : Consistent sb live modes d'
  kinds : ∀ q, (d'.inodes q).mode &&& IFMT = (d.inodes q).mode &&& IFMT
  links : ∀ q, (d'.inodes q).nlink = (d.inodes q).nlink
  inside : ∀ q ∈ live, isDirMode (d.inodes q).mode = true →
    InodeInside sb d (d.inodes q) → InodeInside sb d' (d'.inodes q)
  inodes : ∀ q, q ≠ p → d'.inodes q = d.inodes q
  others : ∀ q ∈ live, q ≠ p → entriesIn sb d' q = entriesIn sb d q
  removed : ((n, name) :: entriesIn sb d' p).Perm (entriesIn sb d p)
  notDots : nameIsDotOrDotdot name = false

/-- **A removal that succeeds takes its name out of the directory.** -/
theorem name_removed (hgeo : DirGeometry sb) (h : Consistent sb live modes d)
    (hord : OrderedDir sb live modes d dirnode)
    (hunique : ((dirEntries sb d dirnode.inode).map Prod.snd).Nodup)
    (hfollows : FollowsLive sb d dirnode.inode name)
    (hrun : removeDirent sb dirnode name d = .ok (node, n) d') :
    NameRemoved sb live modes dirnode.inodeNo name n d d' ∧
      d'.inodes dirnode.inodeNo = node.inode ∧ node.inodeNo = dirnode.inodeNo := by
  have hgeo' := hgeo.toDataGeometry
  have hchange := removeDirent_change hgeo hord hrun
  obtain ⟨hordered, hkept, hperm⟩ := removeDirent_removed hgeo hord hunique hfollows hrun
  have hcur := hord.current
  have hothers := hchange.othersKept h hord.mem
  have hold : entriesIn sb d dirnode.inodeNo = dirEntries sb d dirnode.inode := by
    rw [entriesIn_of_dir (by rw [hcur]; exact hord.isDir), hcur]
  have hnew : entriesIn sb d' dirnode.inodeNo = dirEntries sb d' node.inode := by
    rw [entriesIn_of_dir (by rw [hchange.current]; exact hchange.isDir), hchange.current]
  have howned := hchange.owned hgeo' h.owned hord.mem hcur hord.isDir
  have hrange := h.inRange _ hord.mem
  have hcons : Consistent sb live modes d' := by
    refine h.ofOthers hgeo hothers (hchange.space modes h.space) howned
      (fun q hq _ => hq) h.root hrange (fun q hq => ?_)
      (fun q hq _ e he => h.entryLive hq e he) fun _ => ⟨fun hfile => ?_, fun _ => ?_,
        fun e he => ?_⟩
    · rw [← h.used q hq]
      unfold inodeUsed
      rw [hchange.iused]
    · rw [hchange.current, show isDirMode node.inode.mode = true from hchange.isDir]
        at hfile
      cases hfile
    · rw [hchange.current, ← hchange.same]
      exact hordered
    · rw [hnew] at he
      have hmem := hperm.mem_iff.mp (List.mem_cons_of_mem _ he)
      rw [← hold] at hmem
      exact h.entryLive hord.mem e hmem
  refine ⟨⟨hcons, hkept.kinds hchange hcur, hkept.links hchange hcur,
    fun q hq hdir hin => hkept.inside hchange hcur hgeo' h hord.mem hq hdir hin,
    hchange.inodes, fun q hq hne => hothers.entriesIn hgeo' hq hne, ?_,
    removeDirent_notDots hrun⟩, hchange.current, hchange.same⟩
  rw [hold, hnew]
  exact hperm

/-- The inode has a name less. -/
theorem NameRemoved.count {p : Nat} (h : NameRemoved sb live modes p name n d d')
    (hp : p ∈ live) (m : Nat) :
    nameCount sb live d' m + (if n = m then 1 else 0) = nameCount sb live d m := by
  have hchange := nameCount_change hp h.others m
  rw [← namesFor_perm h.removed, namesFor_cons] at hchange
  dsimp only at hchange
  omega

/-- The names are different ones as before. -/
theorem NameRemoved.unique {p : Nat} (h : NameRemoved sb live modes p name n d d')
    (hold : ∀ q ∈ live, ((entriesIn sb d q).map Prod.snd).Nodup) :
    ∀ q ∈ live, ((entriesIn sb d' q).map Prod.snd).Nodup := by
  intro q hq
  by_cases hqp : q = p
  · rw [hqp] at hq ⊢
    have hnames := (h.removed.map Prod.snd).nodup_iff.mpr (hold p hq)
    rw [List.map_cons, List.nodup_cons] at hnames
    exact hnames.2
  · rw [h.others q hq hqp]
    exact hold q hq

/-- An entry with another name stays. -/
theorem NameRemoved.kept {p q : Nat} (h : NameRemoved sb live modes p name n d d')
    (hq : q ∈ live) {e : Nat × Bytes} (he : e ∈ entriesIn sb d q) (hne : e.2 ≠ name) :
    e ∈ entriesIn sb d' q := by
  by_cases hqp : q = p
  · rw [hqp] at he ⊢
    rcases List.mem_cons.mp (h.removed.mem_iff.mpr he) with rfl | hmem
    · exact absurd rfl hne
    · exact hmem
  · rw [h.others q hq hqp]
    exact he

end Removed

/-! ## §3. An inode is given back. -/

section Drop

variable {sb : Superblock} {live live' : Finset Nat} {modes : Nat → UInt16}
  {d d₁ d₂ d' e e' : Disk} {m n p : Nat} {name : Bytes} {ino : Inode} {mode : UInt16}

/-- An inode is stored in blocks, in its pointers, or nowhere. -/
theorem KnownKind.stores (h : KnownKind ino.mode) :
    storesBlocks ino = true ∨ isFastLink ino = true ∨ isSpecialMode ino.mode = true := by
  by_cases hfast : isFastLink ino = true
  · exact .inr (.inl hfast)
  · unfold storesBlocks
    rw [Bool.not_eq_true] at hfast
    rw [hfast]
    rcases h with h | h | h | h
    · exact .inl (by rw [h]; rfl)
    · exact .inl (by rw [h]; rfl)
    · exact .inl (by rw [h]; rfl)
    · exact .inr (.inr h)

/-- Inodes without storage claim nothing. -/
theorem isSpecialMode_claims (h : isSpecialMode ino.mode = true) (d : Disk) (f : Nat) :
    inodeClaims sb d ino f = 0 := by
  unfold inodeClaims
  rw [(isSpecialMode_fields h).2]
  rfl

/-- **What an inode claims is given back.** -/
theorem freeFileStorage_given (hgeo : SpaceGeometry sb) (hread : GroupsReadable sb e)
    (hknown : KnownKind ino.mode) (hstored : isSpecialMode ino.mode = false)
    (hfree : storesBlocks ino = true → Freeable sb e ino) {s : Storing}
    (hrun : freeFileStorage sb ⟨e, ino, 0⟩ = .ok () s) :
    Given sb e s.disk (inodeClaims sb e ino) := by
  rcases hknown.stores with hblocks | hfast | hspecial
  · have hfast : isFastLink ino = false := by
      unfold storesBlocks at hblocks
      cases hx : isFastLink ino with
      | false => rfl
      | true =>
        rw [hx] at hblocks
        cases hblocks
    have hall : inodeClaims sb e ino = blockClaims sb e ino := by
      funext f
      exact inodeClaims_of_blocks hblocks e f
    rw [hall]
    exact (wp_ok (freeFileStorage_spec hgeo hread hfast (hfree hblocks)) hrun).2.2
  · have hnone : inodeClaims sb e ino = fun _ => 0 := by
      funext f
      unfold inodeClaims storesBlocks
      rw [hfast]
      rfl
    unfold freeFileStorage at hrun
    rw [bind_get, if_pos hfast] at hrun
    cases hrun
    rw [hnone]
    exact Given.refl sb e
  · rw [hstored] at hspecial
    cases hspecial

/-- **From `d` to `d'` inode `m` has been given back**: the image is in order
without it. -/
structure InodeDropped (sb : Superblock) (live : Finset Nat) (modes : Nat → UInt16)
    (m : Nat) (d d' : Disk) : Prop where
  ordered : Consistent sb (live.erase m) modes d'
  inodes : ∀ q, q ≠ m → d'.inodes q = d.inodes q
  entries : ∀ q ∈ live, q ≠ m → entriesIn sb d' q = entriesIn sb d q
  inside : ∀ q ∈ live, q ≠ m → isDirMode (d.inodes q).mode = true →
    InodeInside sb d (d.inodes q) → InodeInside sb d' (d'.inodes q)

/-- **An inode without names is given back**, when what it claims has been. -/
theorem inode_dropped (hgeo : DirGeometry sb) (h : Consistent sb live modes d)
    (hm : m ∈ live) (hroot : ROOT_INODE < m)
    (hunnamed : ∀ q ∈ live, q ≠ m → ∀ x ∈ entriesIn sb d q, x.1 ≠ m)
    (hmode : isDirMode mode = isDirMode (modes m))
    (hgiven : Given sb d d₁ (inodeClaims sb d (d.inodes m)))
    (hrun : (do
      writeInodeRaw sb m clearedInode
      freeInodeInGroup sb m mode) d₁ = .ok () d') :
    InodeDropped sb live modes m d d' := by
  have hrange := h.inRange m hm
  obtain ⟨_, d₂, hwrite, hfree⟩ := bind_eq_ok hrun
  have hwritten : d₂ = withInode d₁ m clearedInode := writeInodeRaw_ok hwrite
  have hused : ∀ q, inodeUsed sb d₂ q = inodeUsed sb d q := fun q => by
    rw [hwritten]
    unfold inodeUsed
    show ((d₁.cgs _).iused _) = _
    rw [hgiven.books.iused]
  have hspace : FreeSpace sb modes d₂ := by
    rw [hwritten]
    exact (hgiven.books.space modes h.space).of_groups rfl rfl rfl
  obtain ⟨d₃, hrun₃, hgone⟩ := freeInodeInGroup_spec hgeo.toValidGeometry hspace
    ((inode_group_iff hgeo).mp hrange)
    (by rw [hused, h.used m hrange]; exact .inl hm) mode
  have hd' : d' = d₃ := by
    have heq := hfree.symm.trans hrun₃
    injection heq
  subst hd'
  have hinodes : ∀ q, q ≠ m → d'.inodes q = d.inodes q := by
    intro q hq
    rw [hgone.inodes, hwritten]
    show Function.update d₁.inodes m clearedInode q = _
    rw [Function.update_of_ne hq, hgiven.books.inodes]
  have hdata : d'.data = d.data := by
    rw [hgone.data, hwritten]
    exact hgiven.data
  have hframe : ∀ f, SameFrag sb d d' f := fun f => SameFrag.of_data_eq hdata f
  have hkept : OthersKept sb live m d d' :=
    ⟨fun q _ hq => hinodes q hq, fun _ _ _ f _ => hframe f⟩
  refine ⟨?_, hinodes, fun q hq hne => hkept.entriesIn hgeo.toDataGeometry hq hne,
    fun q hq hne hdir hin => hkept.inside hgeo.toDataGeometry hq hne hdir hin⟩
  refine h.dropInode hgeo hm hroot (fun q _ hq => hinodes q hq) (fun q => ?_)
    (hgone.space modes hmode hspace) (fun f _ _ => hframe f) (fun f => ?_) hunnamed
  · rw [hgone.iused, hused]
  · rw [← hgiven.free f]
    unfold freeAt
    rw [hgone.free, hwritten]
    rfl

/-- The names of the inodes when one is given back. -/
theorem nameCount_erase (sb : Superblock) (d : Disk) (hm : m ∈ live) (q : Nat) :
    nameCount sb (live.erase m) d q + namesFor q (entriesIn sb d m)
      = nameCount sb live d q := by
  unfold nameCount
  rw [Nat.add_comm]
  exact Finset.add_sum_erase live (fun p => namesFor q (entriesIn sb d p)) hm

/-- An inode that is named nowhere. -/
theorem unnamed_of_count (h : nameCount sb live d m = 0) :
    ∀ q ∈ live, ∀ x ∈ entriesIn sb d q, x.1 ≠ m := by
  intro q hq x hx heq
  unfold nameCount at h
  have hnone := Finset.sum_eq_zero_iff.mp h q hq
  unfold namesFor at hnone
  rw [List.countP_eq_zero] at hnone
  exact hnone x hx (decide_eq_true heq)

/-- **A name is gone, and with it an inode or a link.** -/
theorem Linked.unmade (h : Linked sb live modes d)
    (hremoved : NameRemoved sb live modes p name n d d₁) (hsub : live' ⊆ live)
    (hcons : Consistent sb live' modes d₂)
    (hentries : ∀ q ∈ live', entriesIn sb d₂ q = entriesIn sb d₁ q)
    (hkinds : ∀ q ∈ live', (d₂.inodes q).mode &&& IFMT = (d₁.inodes q).mode &&& IFMT)
    (hinside : ∀ q ∈ live', isDirMode (d₁.inodes q).mode = true →
      InodeInside sb d₁ (d₁.inodes q) → InodeInside sb d₂ (d₂.inodes q))
    (hlinks : ∀ q ∈ live', (d₂.inodes q).nlink
      = UInt16.ofNat (nameCount sb live' d₂ q)) : Linked sb live' modes d₂ := by
  have hkind : ∀ q ∈ live', (d₂.inodes q).mode &&& IFMT = (d.inodes q).mode &&& IFMT :=
    fun q hq => (hkinds q hq).trans (hremoved.kinds q)
  refine ⟨hcons, fun q hq => h.real q (hsub hq), ?_, ?_,
    fun q hq => (h.known q (hsub hq)).congr (hkind q hq), fun q hq => ?_,
    fun q hq hdir => ?_, fun q hq => ?_, hlinks⟩
  · rw [isDirMode_congr (hkind _ hcons.root)]
    exact h.rootDir
  · -- `..` is not a name that is removed
    rw [hentries _ hcons.root]
    refine hremoved.kept h.root h.rootParent fun heq => ?_
    have hdots := hremoved.notDots
    rw [← heq] at hdots
    cases hdots
  · rw [isDirMode_congr (hkind q hq)]
    exact h.kinds q (hsub hq)
  · rw [isDirMode_congr (hkind q hq)] at hdir
    have hdir₁ : isDirMode (d₁.inodes q).mode = true := by
      rw [isDirMode_congr (hremoved.kinds q)]
      exact hdir
    exact hinside q hq hdir₁ (hremoved.inside q (hsub hq) hdir (h.inside q (hsub hq) hdir))
  · rw [hentries q hq]
    exact hremoved.unique h.unique q (hsub hq)

end Drop

end NextUfs
