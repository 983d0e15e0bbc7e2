/-
  NextUfs.Mutate.NameCounts
  ─────────────────────────
  **THE NAMES OF AN INODE, COUNTED.**
  The link count of an inode is to be the number of directory entries that name
  it, `.` and `..` among them, as far as sixteen bits hold it.  The names of a
  directory are different ones: an operation that adds a name has looked it up
  before, and found nothing.

    • `nameCount`          — how many names an inode has,
    • `Linked`             — an image in order whose link counts are right,
    • `nameCount_added`    — a name more,
    • `entry_found`        — an entry of a directory is found by its name,
    • `absent_of_lookup`   — so a name that is not found is not there.
-/
import NextUfs.Mutate.Consistent

namespace NextUfs

open State Radix Bits

/-! ## §1. Names counted. -/

section Count

variable {sb : Superblock} {live : Finset Nat} {d d' : Disk} {m n p : Nat}

/-- The entries of directory `p`; what is no directory has none. -/
def entriesIn (sb : Superblock) (d : Disk) (p : Nat) : List (Nat × Bytes) :=
  if isDirMode (d.inodes p).mode then dirEntries sb d (d.inodes p) else []

theorem entriesIn_of_dir (h : isDirMode (d.inodes p).mode = true) :
    entriesIn sb d p = dirEntries sb d (d.inodes p) := if_pos h

theorem entriesIn_of_file (h : isDirMode (d.inodes p).mode = false) :
    entriesIn sb d p = [] := if_neg (by rw [h]; exact Bool.false_ne_true)

/-- How many of the entries name inode `m`. -/
def namesFor (m : Nat) (es : List (Nat × Bytes)) : Nat :=
  es.countP fun e => decide (e.1 = m)

theorem namesFor_nil (m : Nat) : namesFor m [] = 0 := rfl

theorem namesFor_cons (m : Nat) (e : Nat × Bytes) (es : List (Nat × Bytes)) :
    namesFor m (e :: es) = namesFor m es + if e.1 = m then 1 else 0 := by
  unfold namesFor
  rw [List.countP_cons]
  simp only [decide_eq_true_eq]

theorem namesFor_perm {es es' : List (Nat × Bytes)} (h : es.Perm es') (m : Nat) :
    namesFor m es = namesFor m es' := h.countP_eq _

/-- Entries that do not name the inode. -/
theorem namesFor_eq_zero {es : List (Nat × Bytes)} (h : ∀ e ∈ es, e.1 ≠ m) :
    namesFor m es = 0 := by
  unfold namesFor
  rw [List.countP_eq_zero]
  intro e he
  rw [decide_eq_true_eq]
  exact h e he

/-- **How many names inode `m` has** in the directories of the image. -/
def nameCount (sb : Superblock) (live : Finset Nat) (d : Disk) (m : Nat) : Nat :=
  ∑ p ∈ live, namesFor m (entriesIn sb d p)

theorem nameCount_congr
    (h : ∀ p ∈ live, entriesIn sb d' p = entriesIn sb d p) (m : Nat) :
    nameCount sb live d' m = nameCount sb live d m := by
  refine Finset.sum_congr rfl fun p hp => ?_
  rw [h p hp]

/-- One directory changes. -/
theorem nameCount_change (hp : p ∈ live)
    (h : ∀ q ∈ live, q ≠ p → entriesIn sb d' q = entriesIn sb d q) (m : Nat) :
    nameCount sb live d' m + namesFor m (entriesIn sb d p)
      = nameCount sb live d m + namesFor m (entriesIn sb d' p) := by
  have hrest : ∑ q ∈ live.erase p, namesFor m (entriesIn sb d' q)
      = ∑ q ∈ live.erase p, namesFor m (entriesIn sb d q) := by
    refine Finset.sum_congr rfl fun q hq => ?_
    obtain ⟨hne, hmem⟩ := Finset.mem_erase.mp hq
    rw [h q hmem hne]
  have hold := Finset.add_sum_erase live
    (fun q => namesFor m (entriesIn sb d q)) hp
  have hnew := Finset.add_sum_erase live
    (fun q => namesFor m (entriesIn sb d' q)) hp
  unfold nameCount
  omega

/-- **A name more.** -/
theorem nameCount_added {name : Bytes} (hp : p ∈ live)
    (h : ∀ q ∈ live, q ≠ p → entriesIn sb d' q = entriesIn sb d q)
    (hperm : (entriesIn sb d' p).Perm ((n, name) :: entriesIn sb d p))
    (m : Nat) :
    nameCount sb live d' m = nameCount sb live d m + if n = m then 1 else 0 := by
  have hchange := nameCount_change hp h m
  rw [namesFor_perm hperm, namesFor_cons] at hchange
  dsimp only at hchange
  omega

/-- **An inode more**, with the entries it has. -/
theorem nameCount_insert (hn : n ∉ live)
    (h : ∀ q ∈ live, entriesIn sb d' q = entriesIn sb d q) (m : Nat) :
    nameCount sb (insert n live) d' m
      = nameCount sb live d m + namesFor m (entriesIn sb d' n) := by
  unfold nameCount
  rw [Finset.sum_insert hn, Nat.add_comm]
  congr 1
  exact Finset.sum_congr rfl fun q hq => by rw [h q hq]

/-- An inode that no entry names. -/
theorem nameCount_eq_zero (h : ∀ p ∈ live, ∀ e ∈ entriesIn sb d p, e.1 ≠ m) :
    nameCount sb live d m = 0 :=
  Finset.sum_eq_zero fun p hp => namesFor_eq_zero (h p hp)

end Count

/-! ## §2. The invariant. -/

/-- A kind of inode the library knows: a file, a directory, a symbolic link or one
without storage. -/
def KnownKind (mode : UInt16) : Prop :=
  mode &&& IFMT = IFREG ∨ mode &&& IFMT = IFDIR ∨ mode &&& IFMT = IFLNK
    ∨ isSpecialMode mode = true

/-- **An image in order whose link counts are right**: the reserved inodes are not
allocated, and the root is a directory that is its own parent; every allocated
inode is of a kind the library knows, and has the mode it was allocated for, as
far as directories go; the pointer blocks of a directory are blocks of the disk;
the names of a directory are different ones; and the link count of every inode is
the number of its names. -/
structure Linked (sb : Superblock) (live : Finset Nat) (modes : Nat → UInt16)
    (d : Disk) : Prop extends Consistent sb live modes d where
  real : ∀ m ∈ live, ROOT_INODE ≤ m
  rootDir : isDirMode (d.inodes ROOT_INODE).mode = true
  rootParent : (ROOT_INODE, [DOT, DOT]) ∈ entriesIn sb d ROOT_INODE
  known : ∀ m ∈ live, KnownKind (d.inodes m).mode
  kinds : ∀ m ∈ live, isDirMode (modes m) = isDirMode (d.inodes m).mode
  inside : ∀ p ∈ live, isDirMode (d.inodes p).mode = true →
    InodeInside sb d (d.inodes p)
  unique : ∀ p ∈ live, ((entriesIn sb d p).map Prod.snd).Nodup
  links : ∀ m ∈ live,
    (d.inodes m).nlink = UInt16.ofNat (nameCount sb live d m)

/-- Modes of one kind. -/
theorem isDirMode_congr {mode mode' : UInt16} (h : mode' &&& IFMT = mode &&& IFMT) :
    isDirMode mode' = isDirMode mode := by
  unfold isDirMode
  rw [h]

theorem KnownKind.congr {mode mode' : UInt16} (h : mode' &&& IFMT = mode &&& IFMT)
    (hknown : KnownKind mode) : KnownKind mode' := by
  unfold KnownKind isSpecialMode at hknown ⊢
  rw [h]
  exact hknown

section Entries

variable {sb : Superblock} {live : Finset Nat} {modes : Nat → UInt16} {d : Disk}
  {p : Nat}

/-- Every entry names an allocated inode. -/
theorem Consistent.entryLive (h : Consistent sb live modes d) (hp : p ∈ live) :
    ∀ e ∈ entriesIn sb d p, e.1 ∈ live := by
  unfold entriesIn
  split
  · next hdir => exact h.entries p hp hdir
  · intro e he
    cases he

/-- An inode that is not allocated has no names. -/
theorem Consistent.unnamed (h : Consistent sb live modes d) {n : Nat}
    (hn : n ∉ live) : nameCount sb live d n = 0 :=
  nameCount_eq_zero fun _ hp e he heq => hn (heq ▸ h.entryLive hp e he)

end Entries

/-! ## §3. A name is found. -/

section Found

variable {sb : Superblock} {d : Disk} {dirino : Inode} {name : Bytes} {c k j : Nat}

/-- A record of a chunk is a record of its block. -/
theorem mem_block (hchunks : WellChunks sb d dirino)
    (hk : k < fileBlocks sb dirino.size) (hj : j < dirChunks sb dirino.size k)
    {rs : List (Nat × Dirent)} {r : Nat × Dirent}
    (htiles : Tiles (dirChunk sb d dirino (k, j))
      (dirChunk sb d dirino (k, j)).length 0
      (dirChunk sb d dirino (k, j)).length rs) (hr : r ∈ rs) :
    ∃ r' ∈ records (dirBlock sb d dirino k) (chunkBytes sb dirino.size k),
      r'.2.shown = r.2 := by
  obtain ⟨all, hall, -⟩ := block_tiles_upto hchunks hk _ le_rfl
  have hend : min (dirChunks sb dirino.size k * DIRBLKSIZ)
      (chunkBytes sb dirino.size k) = chunkBytes sb dirino.size k := by
    unfold dirChunks DIRBLKSIZ
    omega
  rw [hend] at hall
  have hstart : j * DIRBLKSIZ ≤ chunkBytes sb dirino.size k := by
    unfold dirChunks DIRBLKSIZ at hj
    unfold DIRBLKSIZ
    omega
  -- the chunks before it, the chunk itself, and the rest
  obtain ⟨front, hfront, -⟩ := block_tiles_upto hchunks hk j hj.le
  rw [Nat.min_eq_left hstart] at hfront
  obtain ⟨rest, hsplit, -⟩ :=
    (hfront.append (block_tiles hstart htiles)).cut hall (Nat.min_le_right _ _)
  have hmem : (j * DIRBLKSIZ + r.1, r.2) ∈ all := by
    rw [hsplit]
    exact List.mem_append_left _ (List.mem_append_right _
      (List.mem_map.mpr ⟨r, hr, rfl⟩))
  rw [← hall.records] at hmem
  obtain ⟨r', hr', heq⟩ := List.mem_map.mp hmem
  exact ⟨r', hr', (Prod.mk.inj heq).2⟩

/-- The name of a record is as long as it says. -/
theorem readDirent_name_length {buf : Bytes} {limit off : Nat} {ent : Dirent}
    (hlen : limit ≤ buf.length) (h : readDirent buf limit off = some ent) :
    ent.name.length = ent.namlen := by
  obtain ⟨-, -, -, hfits, -, -, -, hname⟩ := readDirent_eq_some.mp h
  rw [hname, List.length_take, List.length_drop]
  omega

/-- **A walk over blocks that returns nothing** has read every one of them and met
no record of the name. -/
theorem iterateBlocks_none (hbs : 0 < sb.blockSize) :
    ∀ {ks : List Nat}, iterateBlocks sb dirino (findNameCb name) ks d = .ok none d →
      ∀ k ∈ ks, ∀ r ∈ records (dirBlock sb d dirino k)
          (chunkBytes sb dirino.size k),
        r.2.ino ≠ 0 → r.2.namlen ≠ 0 → r.2.name ≠ name := by
  intro ks
  induction ks with
  | nil => intro _ k hk; cases hk
  | cons k ks ih =>
    intro h k' hk' r hr hino hlen heq
    unfold iterateBlocks at h
    rcases @readDirBlock_cases sb d dirino k hbs with hread | hread
    · rw [bind_of_ok hread] at h
      cases hfind : (records (dirBlock sb d dirino k)
          (chunkBytes sb dirino.size k)).findSome? fun r =>
            if r.2.ino ≠ 0 ∧ r.2.namlen ≠ 0 then findNameCb name r.2.ino r.2.name
            else none with
      | some b =>
        rw [hfind] at h
        cases h
      | none =>
        rw [hfind] at h
        rcases List.mem_cons.mp hk' with rfl | hk'
        · have hno := List.findSome?_eq_none_iff.mp hfind r hr
          rw [if_pos ⟨hino, hlen⟩] at hno
          unfold findNameCb at hno
          rw [if_pos heq] at hno
          cases hno
        · exact ih h k' hk' r hr hino hlen heq
    · rw [bind_of_error hread] at h
      cases h

/-- A walk that returns something returns the number of a record in use. -/
theorem iterateBlocks_some_ne_zero : ∀ {ks : List Nat} {b : Nat} {d' : Disk},
    iterateBlocks sb dirino (findNameCb name) ks d = .ok (some b) d' → b ≠ 0 := by
  intro ks
  induction ks generalizing d with
  | nil => intro b d' h; cases h
  | cons k ks ih =>
    intro b d' h
    unfold iterateBlocks at h
    obtain ⟨buf, d₁, -, h⟩ := bind_eq_ok h
    cases hfind : (records buf (chunkBytes sb dirino.size k)).findSome? fun r =>
        if r.2.ino ≠ 0 ∧ r.2.namlen ≠ 0 then findNameCb name r.2.ino r.2.name
        else none with
    | some b' =>
      rw [hfind] at h
      cases h
      obtain ⟨r, -, hr⟩ := List.exists_of_findSome?_eq_some hfind
      by_cases hlive : r.2.ino ≠ 0 ∧ r.2.namlen ≠ 0
      · rw [if_pos hlive] at hr
        unfold findNameCb at hr
        split at hr
        · cases hr
          exact hlive.1
        · cases hr
      · rw [if_neg hlive] at hr
        cases hr
    | none =>
      rw [hfind] at h
      exact ih h

/-- **An entry of a directory is found by its name**, or by another one of the
name: a search does not come back empty. -/
theorem entry_found (hbs : 0 < sb.blockSize) (hchunks : WellChunks sb d dirino)
    (hname : name ≠ []) (hmem : (c, name) ∈ dirEntries sb d dirino) :
    findNameInDirectory sb dirino name d ≠ .ok 0 d := by
  intro hnone
  obtain ⟨x, hx, hentry⟩ := List.mem_flatMap.mp hmem
  obtain ⟨hk, hj⟩ := mem_dirPlaces.mp hx
  obtain ⟨es, rs, htiles, hfits, hes⟩ := hchunks x hx
  have hchunk := Partitioned.entries ⟨rs, htiles, hfits.nameInside, rfl⟩
  rw [hchunk] at hentry
  obtain ⟨r, hr, hino, heq⟩ := mem_entriesOf.mp hentry
  obtain ⟨r', hr', hshown⟩ := mem_block hchunks hk hj htiles hr
  have hino' : r'.2.ino ≠ 0 := by
    rw [← shown_ino, hshown]
    exact hino
  have hsame : r'.2 = r.2 := by rw [← hshown, shown_of_live hino']
  have hrname : r'.2.name = name := by
    rw [hsame]
    exact (Prod.mk.inj heq).2
  have hlen : r'.2.namlen ≠ 0 := by
    have hread := mem_recordsFrom hr'
    rw [← readDirent_name_length (dirBlock_length ..).ge hread, hrname]
    exact fun hzero => hname (List.length_eq_zero_iff.mp hzero)
  unfold findNameInDirectory directoryIterate at hnone
  obtain ⟨found, d₁, hiter, hret⟩ := bind_eq_ok hnone
  cases found with
  | none =>
    cases hret
    exact iterateBlocks_none hbs hiter x.1 (List.mem_range.mpr hk) r' hr' hino' hlen
      hrname
  | some b =>
    cases hret
    exact iterateBlocks_some_ne_zero hiter rfl

end Found

/-! ## §4. A name that is not found. -/

section Absent

variable {sb : Superblock} {d : Disk} {name : Bytes}

/-- A step that reports its errors as I/O errors has returned, or says so. -/
theorem orIoError_cases {α : Type} {x : Op α} (hx : ReadOnly x) (d : Disk) :
    (∃ a, x d = .ok a d ∧ orIoError x d = .ok a d) ∨
      orIoError x d = .error Errno.EIO d := by
  cases hrun : x d with
  | ok a d' =>
    have hd : d' = d := hx.ok hrun
    rw [hd] at hrun
    have hattempt : attempt x d = .ok (.ok a) d := by
      unfold attempt
      rw [hrun]
    refine Or.inl ⟨a, by rw [hd], ?_⟩
    unfold orIoError
    rw [bind_of_ok hattempt]
    rfl
  | error e d' =>
    have hd : d' = d := hx.error hrun
    rw [hd] at hrun
    have hattempt : attempt x d = .ok (.error e) d := by
      unfold attempt
      rw [hrun]
    refine Or.inr ?_
    unfold orIoError
    rw [bind_of_ok hattempt]
    rfl

/-- The last component of a walk that finds nothing there. -/
theorem walkComponents_last {expand : Node → List Bytes → Op Node} {node : Node}
    (h : walkComponents sb false expand node [name] d = .error .ENOENT d) :
    findNameInDirectory sb node.inode name d = .ok 0 d := by
  rw [walkComponents] at h
  by_cases hdir : nodeIsDir node = false
  · rw [if_pos hdir] at h
    cases h
  rw [if_neg hdir] at h
  rcases orIoError_cases (findNameInDirectory_readOnly sb node.inode name) d with
    ⟨next, hfind, hok⟩ | hio
  swap
  · rw [bind_of_error hio] at h
    cases h
  rw [bind_of_ok hok] at h
  by_cases hnext : next = 0
  · rw [← hnext]
    exact hfind
  -- something was found: the walk ends there, be it a link or not
  rw [if_neg hnext] at h
  rcases orIoError_cases (nodeGetByInode_readOnly sb next) d with
    ⟨child, -, hget⟩ | hio
  swap
  · rw [bind_of_error hio] at h
    cases h
  rw [bind_of_ok hget, if_neg fun hlink => Bool.false_ne_true (hlink.2 rfl),
    walkComponents] at h
  cases h

/-- **A walk that comes to a directory and finds nothing there** has searched the
directory for the name. -/
theorem walkComponents_absent {expand expand' : Node → List Bytes → Op Node}
    (hexpand : ∀ current comps node, expand current comps d = .ok node d →
      expand' current (comps ++ [name]) d = .error .ENOENT d →
      findNameInDirectory sb node.inode name d = .ok 0 d) (comps : List Bytes) :
    ∀ {current node : Node},
    walkComponents sb true expand current comps d = .ok node d →
    walkComponents sb false expand' current (comps ++ [name]) d
      = .error .ENOENT d →
    findNameInDirectory sb node.inode name d = .ok 0 d := by
  induction comps with
  | nil =>
    intro current node hrun hnone
    rw [walkComponents] at hrun
    cases hrun
    exact walkComponents_last hnone
  | cons comp rest ih =>
    intro current node hrun hnone
    rw [walkComponents] at hrun
    rw [List.cons_append, walkComponents] at hnone
    by_cases hdir : nodeIsDir current = false
    · rw [if_pos hdir] at hrun
      cases hrun
    rw [if_neg hdir] at hrun hnone
    obtain ⟨next, d₁, hfind, hfound⟩ := bind_eq_ok hrun
    have hd := (orIoError_keeps (findNameInDirectory_readOnly sb _ _)).ok hfind
    rw [show d₁ = d from hd] at hfind hfound
    rw [bind_of_ok hfind] at hnone
    by_cases hnext : next = 0
    · rw [if_pos hnext] at hfound
      cases hfound
    rw [if_neg hnext] at hfound hnone
    obtain ⟨child, d₂, hget, hstep⟩ := bind_eq_ok hfound
    have hd := (orIoError_keeps (nodeGetByInode_readOnly sb next)).ok hget
    rw [show d₂ = d from hd] at hget hstep
    rw [bind_of_ok hget] at hnone
    by_cases hlink : nodeIsLnk child = true
    · rw [if_pos ⟨hlink, fun _ => rfl⟩] at hstep
      rw [if_pos ⟨hlink, fun hnil => absurd hnil (by simp)⟩] at hnone
      obtain ⟨linkTarget, d₃, hread, hgo⟩ := bind_eq_ok hstep
      have hd := (orIoError_keeps (inodeReadlink_readOnly sb _ _)).ok hread
      rw [show d₃ = d from hd] at hread hgo
      rw [bind_of_ok hread] at hnone
      by_cases habs : linkTarget.head? = some SLASH
      · rw [if_pos habs] at hgo hnone
        obtain ⟨root, d₄, hroot, hexp⟩ := bind_eq_ok hgo
        have hd := (orIoError_keeps (nodeGetByInode_readOnly sb _)).ok hroot
        rw [show d₄ = d from hd] at hroot hexp
        rw [bind_of_ok hroot, ← List.append_assoc] at hnone
        exact hexpand root _ node hexp hnone
      · rw [if_neg habs] at hgo hnone
        rw [← List.append_assoc] at hnone
        exact hexpand current _ node hgo hnone
    · rw [if_neg fun h => hlink h.1] at hstep hnone
      exact ih hstep hnone

theorem resolve_absent (n : Nat) : ∀ {current node : Node} {comps : List Bytes},
    resolve sb true n current comps d = .ok node d →
    resolve sb false n current (comps ++ [name]) d = .error .ENOENT d →
    findNameInDirectory sb node.inode name d = .ok 0 d := by
  induction n with
  | zero =>
    intro current node comps hrun hnone
    exact walkComponents_absent (fun _ _ _ h => by cases h) comps hrun hnone
  | succ n ih =>
    intro current node comps hrun hnone
    exact @walkComponents_absent sb d name (resolve sb true n) (resolve sb false n)
      (fun _ _ _ h h' => ih h h') comps _ _ hrun hnone

/-- **A path that leads nowhere, below a directory that is found**: the directory
has been searched for its last name. -/
theorem nodeLookup_absent {parentPath path : Bytes} {parent : Node}
    (hparent : nodeLookup sb parentPath true d = .ok parent d)
    (hcomps : components path = components parentPath ++ [name])
    (hends : ¬EndsInSlashes path)
    (hnone : nodeLookup sb path false d = .error .ENOENT d) :
    findNameInDirectory sb parent.inode name d = .ok 0 d := by
  cases hroot : orIoError (nodeGetByInode sb ROOT_INODE) d with
  | error e d' =>
    unfold nodeLookup lookupPathRecursive at hparent
    rw [bind_of_error hroot] at hparent
    cases hparent
  | ok root d' =>
    have hd := (orIoError_keeps (nodeGetByInode_readOnly sb ROOT_INODE)).ok hroot
    rw [show d' = d from hd] at hroot
    have hreach : resolve sb true MAX_LOOKUP_DEPTH root (components parentPath) d
        = .ok parent d := by
      have hagree := @lookupPathRecursive_agrees sb d root true hroot
        MAX_LOOKUP_DEPTH parentPath true ⟨fun _ => Or.inl rfl, fun _ => rfl⟩
      rcases hagree with heq | hlong
      · rw [← heq]
        exact hparent
      · unfold nodeLookup at hparent
        rw [hlong] at hparent
        cases hparent
    have hagree := @lookupPathRecursive_agrees sb d root false hroot
      MAX_LOOKUP_DEPTH path false ⟨fun h => absurd h Bool.false_ne_true, fun h =>
        h.elim id fun htwice => absurd htwice hends⟩
    unfold nodeLookup at hnone
    rcases hagree with heq | hlong
    · rw [heq, hcomps] at hnone
      exact resolve_absent _ hreach hnone
    · rw [hlong] at hnone
      cases hnone

variable {live : Finset Nat} {modes : Nat → UInt16} {d' : Disk} {ctx : WriteCtx}
  {path : Bytes} {parent : Node} {needDir : Bool}

/-- The last name of a path is not empty. -/
theorem pathSplit_name_ne {parentPath : Bytes} {m n : Nat}
    (h : pathSplit path m n = .ok (parentPath, name)) : name ≠ [] := by
  unfold pathSplit at h
  dsimp only at h
  split at h
  · cases h
  rename_i hname
  split at h
  · cases h
  have hne := fun hnil => hname (Or.inr hnil)
  split at h
  · split at h
    · cases h
    · cases h
      exact hne
  · split at h
    · cases h
    · cases h
      exact hne

/-- **What an operation has found absent is not in the directory.** -/
theorem absent_of_lookup (hgeo : DirGeometry sb) (h : Consistent sb live modes d)
    (hparent : findParent sb ctx path needDir d = .ok (parent, name) d)
    (habsent : requireAbsent sb path d = .ok () d') :
    name ∉ (dirEntries sb d parent.inode).map Prod.snd := by
  have hdir := parent_isDir hparent habsent
  obtain ⟨-, -, parentPath, hsplit, hlook⟩ := findParent_found hparent
  obtain ⟨-, hnone⟩ := requireAbsent_ok habsent
  obtain ⟨hcomps, hends⟩ := components_split hsplit
  have hempty := nodeLookup_absent hlook hcomps hends hnone
  have hord := h.lookup_ordered hgeo hlook hdir
  intro hmem
  obtain ⟨⟨c, name'⟩, he, heq⟩ := List.mem_map.mp hmem
  obtain rfl : name' = name := heq
  exact entry_found hgeo.blockSize_pos hord.chunks (pathSplit_name_ne hsplit) he
    hempty

end Absent

end NextUfs
