/-
  NextUfs.Mutate.LinkedRmdir
  ──────────────────────────
  **RMDIR, AND LINK COUNTS.**
  A directory is removed when its link count is two and a walk over its records
  has met `.` and `..` and no other name.  It then has no other names, so its inode
  is given back, and its parent has a link less: the one of `..`.

    • `directoryIsEmpty_dots` — what the walk has found out,
    • `parent_isDir_of_found` — the parent of what is found is a directory,
    • `NameRemoved.count_without`, `Linked.parentUnlinked` — the names that go with
      an empty directory, and the link its parent loses,
    • `rmdir_linked`          — the link counts are right after a rmdir.
-/
import NextUfs.Mutate.LinkedUnlink

namespace NextUfs

open State Radix Bits

/-! ## §1. An empty directory. -/

section Empty

variable {sb : Superblock} {d d' : Disk} {dirnode : Node} {selfIno parentIno : Nat}
  {buf : Bytes} {size : Nat}

/-- One of the entries has been met by a walk over records. -/
def Met (e : Nat × Bytes) (rs : List (Nat × Dirent)) : Prop :=
  ∃ r ∈ rs, r.2.ino ≠ 0 ∧ (r.2.ino, r.2.name) = e

/-- **What the walk over the records of a block has found out**: the records in use
are `.` and `..`, and which of them have been met. -/
structure DotsSeen (selfIno parentIno : Nat) (rs : List (Nat × Dirent))
    (seen seen' : Bool × Bool) : Prop where
  only : ∀ r ∈ rs, r.2.ino ≠ 0 → (r.2.ino, r.2.name) ∈ dotsEntries selfIno parentIno
  dot : seen'.1 = true → seen.1 = true ∨ Met (selfIno, [DOT]) rs
  dotdot : seen'.2 = true → seen.2 = true ∨ Met (parentIno, [DOT, DOT]) rs

/-- A walk over nothing. -/
theorem DotsSeen.nil (seen : Bool × Bool) : DotsSeen selfIno parentIno [] seen seen :=
  ⟨fun _ h => absurd h List.not_mem_nil, .inl, .inl⟩

theorem Met.later {e : Nat × Bytes} {r : Nat × Dirent} {rs : List (Nat × Dirent)}
    (h : Met e rs) : Met e (r :: rs) := by
  obtain ⟨r', hr', hlive⟩ := h
  exact ⟨r', List.mem_cons_of_mem _ hr', hlive⟩

theorem dotsOnly_seen : ∀ (fuel : Nat) {off : Nat} {seen seen' : Bool × Bool},
    dotsOnly selfIno parentIno buf size fuel off seen = some seen' →
    DotsSeen selfIno parentIno (recordsFrom buf size fuel off) seen seen' := by
  intro fuel
  induction fuel with
  | zero =>
    intro off seen seen' h
    cases h
    exact DotsSeen.nil seen
  | succ fuel ih =>
    intro off seen seen' h
    unfold dotsOnly at h
    unfold recordsFrom
    by_cases hoff : off < size
    swap
    · rw [if_neg hoff] at h ⊢
      cases h
      exact DotsSeen.nil seen
    rw [if_pos hoff] at h ⊢
    cases hread : readDirent buf size off with
    | none =>
      rw [hread] at h
      cases h
    | some ent =>
      rw [hread] at h
      dsimp only at h ⊢
      by_cases hfree : ent.ino = 0
      · -- a record that is not in use is passed
        rw [if_pos hfree] at h
        have hrest := ih h
        refine ⟨fun r hr hlive => ?_, fun hseen => ?_, fun hseen => ?_⟩
        · rcases List.mem_cons.mp hr with rfl | hr
          · exact absurd hfree hlive
          · exact hrest.only r hr hlive
        · exact (hrest.dot hseen).imp_right Met.later
        · exact (hrest.dotdot hseen).imp_right Met.later
      rw [if_neg hfree] at h
      by_cases hdot : ent.name = [DOT]
      · rw [if_pos hdot] at h
        split at h
        swap
        · cases h
        next hself =>
        have hrest := ih h
        have hentry : (ent.ino, ent.name) = (selfIno, [DOT]) := by rw [hself, hdot]
        refine ⟨fun r hr hlive => ?_, fun _ => ?_, fun hseen => ?_⟩
        · rcases List.mem_cons.mp hr with rfl | hr
          · rw [hentry]
            exact List.mem_cons_self
          · exact hrest.only r hr hlive
        · exact .inr ⟨_, List.mem_cons_self, hfree, hentry⟩
        · exact (hrest.dotdot hseen).imp_right Met.later
      rw [if_neg hdot] at h
      split at h
      swap
      · cases h
      next hdotdot =>
      split at h
      swap
      · cases h
      next hparent =>
      have hrest := ih h
      have hentry : (ent.ino, ent.name) = (parentIno, [DOT, DOT]) := by
        rw [hparent, hdotdot]
      refine ⟨fun r hr hlive => ?_, fun hseen => ?_, fun _ => ?_⟩
      · rcases List.mem_cons.mp hr with rfl | hr
        · rw [hentry]
          exact List.mem_cons_of_mem _ List.mem_cons_self
        · exact hrest.only r hr hlive
      · exact (hrest.dot hseen).imp_right Met.later
      · exact .inr ⟨_, List.mem_cons_self, hfree, hentry⟩

/-- The records of the blocks `ks` of a directory. -/
def blockRecords (sb : Superblock) (d : Disk) (dirino : Inode) (ks : List Nat) :
    List (Nat × Dirent) :=
  ks.flatMap fun k => records (dirBlock sb d dirino k) (chunkBytes sb dirino.size k)

/-- **The walk over the blocks.** -/
theorem emptyBlocks_seen (hbs : 0 < sb.blockSize) :
    ∀ {ks : List Nat} {seen : Bool × Bool},
    emptyBlocks sb dirnode parentIno ks seen d = .ok true d' →
    d' = d ∧ DotsSeen dirnode.inodeNo parentIno (blockRecords sb d dirnode.inode ks)
      seen (true, true) := by
  intro ks
  induction ks with
  | nil =>
    intro seen h
    have hseen : (seen.1 && seen.2) = true ∧ d = d' := by
      injection h with hval hdisk
      exact ⟨hval, hdisk⟩
    rw [Bool.and_eq_true] at hseen
    exact ⟨hseen.2.symm, fun _ h => absurd h List.not_mem_nil,
      fun _ => .inl hseen.1.1, fun _ => .inl hseen.1.2⟩
  | cons k ks ih =>
    intro seen h
    unfold emptyBlocks at h
    obtain ⟨block, d₁, hattempt, hnext⟩ := bind_eq_ok h
    rcases attempt_ok hattempt with ⟨buf, rfl, hread⟩ | ⟨e, rfl, -⟩
    swap
    · cases hnext
    rcases @readDirBlock_cases sb d dirnode.inode k hbs with hblock | hblock
    swap
    · rw [hblock] at hread
      cases hread
    rw [hblock] at hread
    cases hread
    dsimp only at hnext
    cases hdots : dotsOnly dirnode.inodeNo parentIno (dirBlock sb d dirnode.inode k)
        (chunkBytes sb dirnode.inode.size k) (chunkBytes sb dirnode.inode.size k) 0
        seen with
    | none =>
      rw [hdots] at hnext
      cases hnext
    | some seen₁ =>
      rw [hdots] at hnext
      obtain ⟨hd, hrest⟩ := ih hnext
      have hfirst := dotsOnly_seen _ hdots
      have hmem : ∀ r, r ∈ blockRecords sb d dirnode.inode (k :: ks) ↔
          r ∈ records (dirBlock sb d dirnode.inode k)
              (chunkBytes sb dirnode.inode.size k) ∨
            r ∈ blockRecords sb d dirnode.inode ks := by
        intro r
        unfold blockRecords
        rw [List.flatMap_cons, List.mem_append]
      have hmet : ∀ {e}, Met e (records (dirBlock sb d dirnode.inode k)
            (chunkBytes sb dirnode.inode.size k)) ∨
          Met e (blockRecords sb d dirnode.inode ks) →
          Met e (blockRecords sb d dirnode.inode (k :: ks)) := by
        rintro e (⟨r, hr, hlive⟩ | ⟨r, hr, hlive⟩)
        · exact ⟨r, (hmem r).mpr (.inl hr), hlive⟩
        · exact ⟨r, (hmem r).mpr (.inr hr), hlive⟩
      refine ⟨hd, fun r hr hlive => ?_, fun _ => ?_, fun _ => ?_⟩
      · rcases (hmem r).mp hr with hr | hr
        · exact hfirst.only r hr hlive
        · exact hrest.only r hr hlive
      · rcases hrest.dot rfl with hseen | hlater
        · exact (hfirst.dot hseen).imp_right fun hm => hmet (.inl hm)
        · exact .inr (hmet (.inr hlater))
      · rcases hrest.dotdot rfl with hseen | hlater
        · exact (hfirst.dotdot hseen).imp_right fun hm => hmet (.inl hm)
        · exact .inr (hmet (.inr hlater))

/-- The records in use of the blocks of a directory are its entries. -/
theorem mem_entries_iff (hchunks : WellChunks sb d dirnode.inode) {e : Nat × Bytes} :
    e ∈ dirEntries sb d dirnode.inode ↔ Met e (blockRecords sb d dirnode.inode
      (List.range (fileBlocks sb dirnode.inode.size))) := by
  constructor
  · intro he
    obtain ⟨x, hx, hentry⟩ := List.mem_flatMap.mp he
    obtain ⟨hk, hj⟩ := mem_dirPlaces.mp hx
    obtain ⟨es, rs, htiles, hfits, hes⟩ := hchunks x hx
    have hchunk := Partitioned.entries ⟨rs, htiles, hfits.nameInside, rfl⟩
    rw [hchunk] at hentry
    obtain ⟨r, hr, hino, heq⟩ := mem_entriesOf.mp hentry
    obtain ⟨r', hr', hshown⟩ := mem_block hchunks hk hj htiles hr
    have hino' : r'.2.ino ≠ 0 := by
      rw [← shown_ino, hshown]
      exact hino
    have hsame : r'.2 = r.2 := by rw [← hshown, shown_of_live hino']
    refine ⟨r', List.mem_flatMap.mpr ⟨x.1, List.mem_range.mpr hk, hr'⟩, hino', ?_⟩
    rw [hsame]
    exact heq
  · rintro ⟨r, hr, hlive, rfl⟩
    obtain ⟨k, hk, hr⟩ := List.mem_flatMap.mp hr
    exact mem_dirEntries hchunks (List.mem_range.mp hk) hr hlive

/-- **A directory that is found empty** has the entries of a new one. -/
theorem directoryIsEmpty_dots (hbs : 0 < sb.blockSize)
    (hchunks : WellChunks sb d dirnode.inode)
    (hunique : ((dirEntries sb d dirnode.inode).map Prod.snd).Nodup)
    (hrun : directoryIsEmpty sb dirnode parentIno d = .ok true d') :
    d' = d ∧ (dirEntries sb d dirnode.inode).Perm
      (dotsEntries dirnode.inodeNo parentIno) := by
  unfold directoryIsEmpty at hrun
  split at hrun
  · cases hrun
  obtain ⟨hd, hseen⟩ := emptyBlocks_seen hbs hrun
  refine ⟨hd, (List.perm_ext_iff_of_nodup (List.Nodup.of_map _ hunique) ?_).mpr fun e => ?_⟩
  · refine List.Nodup.of_map Prod.snd ?_
    show [[DOT], [DOT, DOT]].Nodup
    decide
  · rw [mem_entries_iff hchunks]
    constructor
    · rintro ⟨r, hr, hlive, rfl⟩
      exact hseen.only r hr hlive
    · intro he
      rcases List.mem_cons.mp he with rfl | he
      · exact (hseen.dot rfl).resolve_left Bool.false_ne_true
      · rw [List.mem_singleton.mp he]
        exact (hseen.dotdot rfl).resolve_left Bool.false_ne_true

end Empty

/-! ## §2. The call. -/

section Rmdir

variable {sb : Superblock} {live : Finset Nat} {modes : Nat → UInt16}
  {ctx : WriteCtx} {d d₁ d₂ d' : Disk} {path parentPath name : Bytes}
  {parent target node : Node} {m p : Nat} {ino : Inode}

/-- **The parent of what is found is a directory**, also where the operation does
not ask for one. -/
theorem parent_isDir_of_found
    (hparent : nodeLookup sb parentPath true d = .ok parent d)
    (hsplit : splitPath path = .ok (parentPath, name))
    (hfound : nodeLookup sb path false d = .ok target d) :
    nodeIsDir parent = true := by
  by_contra hnot
  rw [Bool.not_eq_true] at hnot
  obtain ⟨hcomps, hends⟩ := components_split hsplit
  cases hroot : orIoError (nodeGetByInode sb ROOT_INODE) d with
  | error e d' =>
    unfold nodeLookup lookupPathRecursive at hparent
    rw [bind_of_error hroot] at hparent
    cases hparent
  | ok root d' =>
    have hd := (orIoError_keeps (nodeGetByInode_readOnly sb ROOT_INODE)).ok hroot
    rw [show d' = d from hd] at hroot
    have hreach : resolve sb true MAX_LOOKUP_DEPTH root (components parentPath) d
        = .ok parent d := by
      have hagree := @lookupPathRecursive_agrees sb d root true hroot
        MAX_LOOKUP_DEPTH parentPath true ⟨fun _ => Or.inl rfl, fun _ => rfl⟩
      rcases hagree with heq | hlong
      · rw [← heq]
        exact hparent
      · unfold nodeLookup at hparent
        rw [hlong] at hparent
        cases hparent
    -- a walk through what is no directory fails
    have hagree := @lookupPathRecursive_agrees sb d root false hroot
      MAX_LOOKUP_DEPTH path false ⟨fun h => absurd h Bool.false_ne_true, fun h =>
        h.elim id fun htwice => absurd htwice hends⟩
    unfold nodeLookup at hfound
    rcases hagree with heq | hlong
    · rw [heq, hcomps, resolve_below _ hreach hnot] at hfound
      cases hfound
    · rw [hlong] at hfound
      cases hfound

/-- **What a rmdir that succeeds has done.** -/
theorem pathRmdir_steps (hbs : 0 < sb.blockSize)
    (hrun : pathRmdir sb ctx path d = .ok () d') :
    ∃ parentPath name parent target node d₁,
      splitPath path = .ok (parentPath, name) ∧
      nodeLookup sb parentPath true d = .ok parent d ∧
      nodeLookup sb path false d = .ok target d ∧ nodeIsDir target = true ∧
      target.inode.nlink = 2 ∧
      directoryIsEmpty sb target parent.inodeNo d = .ok true d ∧
      removeDirent sb parent name d = .ok (node, target.inodeNo) d₁ ∧
      ∃ node', removeDirInode sb node target d₁ = .ok node' d' := by
  unfold pathRmdir at hrun
  obtain ⟨_, e₁, hids, hrun₁⟩ := bind_eq_ok hrun
  rw [(liftCheck_ok hids).2] at hrun₁
  obtain ⟨⟨parentPath, name⟩, e₂, hsplit, hrun₂⟩ := bind_eq_ok hrun₁
  obtain ⟨hsplit, he₂⟩ := liftCheck_ok hsplit
  rw [he₂] at hrun₂
  obtain ⟨parent, e₃, hparent, hrun₃⟩ := bind_eq_ok hrun₂
  obtain ⟨hplook, he₃, -⟩ := lookupParent_found hparent
  rw [he₃] at hrun₃
  obtain ⟨target, e₄, hlook, hrun₄⟩ := bind_eq_ok hrun₃
  have he₄ : e₄ = d := (nodeLookup_readOnly sb path false).ok hlook
  rw [he₄] at hlook hrun₄
  by_cases hdir : nodeIsDir target = true
  swap
  · rw [if_pos (Bool.eq_false_iff.mpr hdir)] at hrun₄
    cases hrun₄
  rw [hdir, if_neg (by decide)] at hrun₄
  obtain ⟨_, e₅, hcheck, hrun₅⟩ := bind_eq_ok hrun₄
  rw [(liftCheck_ok hcheck).2] at hrun₅
  dsimp only at hrun₅
  by_cases hnlink : target.inode.nlink = 2
  swap
  · rw [if_pos hnlink] at hrun₅
    cases hrun₅
  rw [if_neg (not_not.mpr hnlink)] at hrun₅
  obtain ⟨empty, e₆, hempty, hrun₆⟩ := bind_eq_ok hrun₅
  cases empty with
  | false =>
    rw [if_pos rfl] at hrun₆
    cases hrun₆
  | true =>
    rw [if_neg (by decide)] at hrun₆
    have he₆ : e₆ = d := by
      have hwalk := hempty
      unfold directoryIsEmpty at hwalk
      rw [hdir, if_neg (by decide)] at hwalk
      exact (emptyBlocks_seen hbs hwalk).1
    rw [he₆] at hempty hrun₆
    obtain ⟨node, d₁, hremove, hrest⟩ := bind_eq_ok hrun₆
    obtain ⟨node', e₇, hdone, hret⟩ := bind_eq_ok hrest
    cases hret
    exact ⟨parentPath, name, parent, target, node, d₁, hsplit, hplook, hlook, hdir,
      hnlink, hempty, removeName_ok hremove, node', hdone⟩

/-- **What is done with a directory that has lost its name**: its storage and its
inode are given back, and its parent has a link less. -/
theorem removeDirInode_ok {e e' : Disk} {node' : Node}
    (hrun : removeDirInode sb parent target e = .ok node' e') :
    ∃ s e₂, freeFileStorage sb ⟨e, target.inode, 0⟩ = .ok () s ∧
      (do
        writeInodeRaw sb target.inodeNo clearedInode
        freeInodeInGroup sb target.inodeNo target.inode.mode) s.disk = .ok () e₂ ∧
      e' = withInode e₂ parent.inodeNo { parent.inode with
        nlink := parent.inode.nlink - 1, ctime := e₂.clock, mtime := e₂.clock } := by
  unfold removeDirInode at hrun
  obtain ⟨⟨rc, ino⟩, e₁, hstore, hrun₁⟩ := bind_eq_ok hrun
  obtain ⟨_, e₂, hcheck, hrun₂⟩ := bind_eq_ok hrun₁
  obtain ⟨hrc, he₂⟩ := liftCheck_ok hcheck
  rw [he₂] at hrun₂
  obtain ⟨_, e₃, hclear, hrun₃⟩ := bind_eq_ok hrun₂
  obtain ⟨_, e₄, hgive, hrun₄⟩ := bind_eq_ok hrun₃
  obtain ⟨now, e₅, hnow, hrun₅⟩ := bind_eq_ok hrun₄
  cases hnow
  obtain ⟨_, e₆, hwrite, hret⟩ := bind_eq_ok hrun₅
  cases hret
  rcases runStorer_ok hstore with ⟨s, hs, heq, he₁⟩ | ⟨x, s, hs, heq, he₁⟩
  · refine ⟨s, e₄, hs, ?_, writeInodeRaw_ok hwrite⟩
    rw [he₁] at hclear
    rw [bind_of_ok hclear]
    exact hgive
  · rw [Prod.mk.injEq] at heq
    rw [heq.1] at hrc
    cases hrc

/-- What a directory stores can be given back, if its pointer blocks are blocks of
the disk. -/
theorem OrderedDir.freeable (h : OrderedDir sb live modes d node)
    (hinside : InodeInside sb d node.inode) : Freeable sb d node.inode := by
  refine ⟨fun f => ?_, fun lb hlb _ => h.runs lb hlb, hinside⟩
  have hle := h.claimed_le f
  omega

/-- The names in a directory that holds `.` and `..` only. -/
theorem namesFor_dots {es : List (Nat × Bytes)} (h : es.Perm (dotsEntries m p))
    (q : Nat) :
    namesFor q es = (if p = q then 1 else 0) + if m = q then 1 else 0 := by
  rw [namesFor_perm h]
  unfold dotsEntries
  rw [namesFor_cons, namesFor_cons, namesFor_nil, Nat.zero_add]

/-- **An empty directory is not the one its name is removed from**: that one holds
another name than `.` and `..`. -/
theorem NameRemoved.ne_parent (h : NameRemoved sb live modes p name m d d₁)
    (hdots : (entriesIn sb d m).Perm (dotsEntries m p)) : m ≠ p := by
  intro heq
  have hnamed : (m, name) ∈ entriesIn sb d p := h.removed.mem_iff.mp List.mem_cons_self
  rw [← heq] at hnamed hdots
  rw [hdots.mem_iff] at hnamed
  have hnot := h.notDots
  rcases List.mem_cons.mp hnamed with heq' | hmem
  · rw [(Prod.mk.inj heq').2] at hnot
    cases hnot
  · rw [(Prod.mk.inj (List.mem_singleton.mp hmem)).2] at hnot
    cases hnot

/-- **An empty directory is not the root**, whose `..` is the root itself. -/
theorem NameRemoved.root_lt (h : NameRemoved sb live modes p name m d d₁)
    (hl : Linked sb live modes d) (hm : m ∈ live)
    (hdots : (entriesIn sb d m).Perm (dotsEntries m p)) : ROOT_INODE < m := by
  refine Nat.lt_of_le_of_ne (hl.real _ hm) fun heq => ?_
  have hup := hl.rootParent
  rw [heq, hdots.mem_iff] at hup
  rcases List.mem_cons.mp hup with heq' | hmem
  · exact absurd (Prod.mk.inj heq').2 (by decide)
  · exact h.ne_parent hdots (Prod.mk.inj (List.mem_singleton.mp hmem)).1

/-- **The names that go with an empty directory**: the one in its parent, its `.`,
and its `..`, which was a name of the parent. -/
theorem NameRemoved.count_without (h : NameRemoved sb live modes p name m d d₁)
    (hm : m ∈ live) (hp : p ∈ live)
    (hdots : (entriesIn sb d m).Perm (dotsEntries m p)) (q : Nat) :
    nameCount sb (live.erase m) d₁ q + (if p = q then 1 else 0)
      + 2 * (if m = q then 1 else 0) = nameCount sb live d q := by
  have hname := h.count hp q
  have hown := nameCount_erase sb d₁ hm q
  rw [h.others _ hm (h.ne_parent hdots), namesFor_dots hdots] at hown
  omega

/-- **The inode of an empty directory is given back**, once no name is left for
it. -/
theorem NameRemoved.dropped (hgeo : DirGeometry sb)
    (h : NameRemoved sb live modes p name target.inodeNo d d₁)
    (hl : Linked sb live modes d) (hm : target.inodeNo ∈ live)
    (hsame : d.inodes target.inodeNo = target.inode) (hdir : nodeIsDir target = true)
    (hdots : (entriesIn sb d target.inodeNo).Perm (dotsEntries target.inodeNo p))
    (hunnamed : nameCount sb (live.erase target.inodeNo) d₁ target.inodeNo = 0)
    {s : Storing} (hs : freeFileStorage sb ⟨d₁, target.inode, 0⟩ = .ok () s)
    (hgive : (do
      writeInodeRaw sb target.inodeNo clearedInode
      freeInodeInGroup sb target.inodeNo target.inode.mode) s.disk = .ok () d₂) :
    InodeDropped sb live modes target.inodeNo d₁ d₂ := by
  have hone : d₁.inodes target.inodeNo = target.inode :=
    (h.inodes _ (h.ne_parent hdots)).trans hsame
  have hfreeable : Freeable sb d₁ target.inode := by
    have hord := h.ordered.dirs _ hm (by rw [hone]; exact hdir)
    have hin := h.inside _ hm (by rw [hsame]; exact hdir)
      (hl.inside _ hm (by rw [hsame]; exact hdir))
    rw [hone] at hord hin
    exact hord.freeable hin
  have hkind : target.inode.mode &&& IFMT = IFDIR := isDirMode_iff.mp hdir
  have hgiven : Given sb d₁ s.disk (inodeClaims sb d₁ (d₁.inodes target.inodeNo)) := by
    rw [hone]
    refine freeFileStorage_given hgeo.toSpaceGeometry h.ordered.space.magic
      (.inr (.inl hkind)) ?_ (fun _ => hfreeable) hs
    unfold isSpecialMode
    rw [hkind]
    rfl
  have hmode : isDirMode target.inode.mode = isDirMode (modes target.inodeNo) := by
    rw [hl.kinds _ hm, hsame]
  exact inode_dropped hgeo h.ordered hm (h.root_lt hl hm hdots)
    (fun q hq hqt => unnamed_of_count hunnamed q (Finset.mem_erase.mpr ⟨hqt, hq⟩))
    hmode hgiven hgive

/-- **The parent of a directory that is gone has a link less**, and the link counts
are right again. -/
theorem Linked.parentUnlinked (hgeo : DirGeometry sb) (h : Linked sb live modes d)
    (hremoved : NameRemoved sb live modes p name m d d₁) (hm : m ∈ live) (hp : p ∈ live)
    (hdots : (entriesIn sb d m).Perm (dotsEntries m p))
    (hdropped : InodeDropped sb live modes m d₁ d₂)
    (hlay : SameLayout (d₂.inodes p) ino)
    (hnlink : ino.nlink = (d₂.inodes p).nlink - 1) :
    Linked sb (live.erase m) modes (withInode d₂ p ino) := by
  have hne := hremoved.ne_parent hdots
  have hold : ∀ q ∈ live.erase m, q ∈ live ∧ q ≠ m := fun q hq =>
    ⟨Finset.mem_of_mem_erase hq, Finset.ne_of_mem_erase hq⟩
  have hleft : p ∈ live.erase m := Finset.mem_erase.mpr ⟨hne.symm, hp⟩
  have hafter : ∀ q ∈ live.erase m,
      entriesIn sb (withInode d₂ p ino) q = entriesIn sb d₁ q := fun q hq =>
    (hlay.entriesIn q).trans (hdropped.entries q (hold q hq).1 (hold q hq).2)
  refine h.unmade hremoved (Finset.erase_subset _ _)
    (hdropped.ordered.restamped hgeo hleft hlay) hafter (fun q hq => ?_)
    (fun q hq hqdir hin => ?_) fun q hq => ?_
  · rw [hlay.kinds, hdropped.inodes q (hold q hq).2]
  · exact hlay.inside hgeo.toDataGeometry
      (hdropped.inside q (hold q hq).1 (hold q hq).2 hqdir hin)
  obtain ⟨hq, hqm⟩ := hold q hq
  have hcount := hremoved.count_without hm hp hdots q
  rw [if_neg fun heq : m = q => hqm heq.symm, Nat.mul_zero, Nat.add_zero] at hcount
  rw [nameCount_congr hafter]
  by_cases hqp : q = p
  · -- the parent has lost the name `..`
    rw [hqp, if_pos rfl] at hcount
    rw [hqp, show (withInode d₂ p ino).inodes p = ino from Function.update_self ..,
      hnlink, hdropped.inodes p hne.symm, hremoved.links, h.links p hp, ← hcount,
      UInt16.ofNat_add]
    exact UInt16.add_sub_cancel _ _
  · rw [if_neg fun heq => hqp heq.symm, Nat.add_zero] at hcount
    rw [show (withInode d₂ p ino).inodes q = d₂.inodes q from
      Function.update_of_ne hqp .., hdropped.inodes q hqm, hremoved.links, hcount]
    exact h.links q hq

/-- **A rmdir leaves the link counts right.** -/
theorem rmdir_linked (hgeo : DirGeometry sb) (h : Linked sb live modes d)
    (hremovable : Removable sb d path)
    (hrun : pathRmdir sb ctx path d = .ok () d') :
    ∃ live' ⊆ live, Linked sb live' modes d' := by
  obtain ⟨parentPath, name, parent, target, node, d₁, hsplit, hplook, hlook, hdir,
    hnlink, hempty, hremove, node', hdone⟩ := pathRmdir_steps hgeo.blockSize_pos hrun
  obtain ⟨hplive, -⟩ := h.lookup hgeo hplook
  obtain ⟨hlive, hcopy⟩ := h.lookup hgeo hlook
  have hpdir := parent_isDir_of_found hplook hsplit hlook
  have htsame : d.inodes target.inodeNo = target.inode := hcopy.symm
  -- the directory has `.` and `..`
  obtain ⟨htentries, htunique⟩ := h.lookup_entries hgeo hlook hdir
  have hdots := (directoryIsEmpty_dots hgeo.blockSize_pos
    (h.lookup_ordered hgeo hlook hdir).chunks htunique hempty).2
  rw [← htentries] at hdots
  obtain ⟨hremoved, hcurrent, hsame⟩ := name_removed hgeo h.toConsistent
    (h.lookup_ordered hgeo hplook hpdir) (h.lookup_entries hgeo hplook hpdir).2
    (hremovable.follows parentPath name parent hsplit hplook) hremove
  have hne := hremoved.ne_parent hdots
  -- its names are its `.` and the one that is gone
  have hcounted := hremovable.counted target hlook
  rw [← h.live_eq] at hcounted
  have htwo : nameCount sb live d target.inodeNo = 2 := by
    rw [← h.nlink_toNat hlive hcounted, htsame, hnlink]
    rfl
  have hunnamed : nameCount sb (live.erase target.inodeNo) d₁ target.inodeNo = 0 := by
    have hcount := hremoved.count_without hlive hplive hdots target.inodeNo
    rw [if_pos rfl, htwo] at hcount
    omega
  -- the directory is given back, and the parent has a link less
  obtain ⟨s, d₂, hs, hgive, rfl⟩ := removeDirInode_ok hdone
  have hdropped := hremoved.dropped hgeo h hlive htsame hdir hdots hunnamed hs hgive
  have hpar : d₂.inodes parent.inodeNo = node.inode :=
    (hdropped.inodes _ hne.symm).trans hcurrent
  rw [hsame, ← hpar]
  exact ⟨live.erase target.inodeNo, Finset.erase_subset _ _,
    h.parentUnlinked hgeo hremoved hlive hplive hdots hdropped ⟨rfl, rfl⟩ rfl⟩

end Rmdir

end NextUfs
