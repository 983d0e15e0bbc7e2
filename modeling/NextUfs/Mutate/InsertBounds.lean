/-
  NextUfs.Mutate.InsertBounds
  ───────────────────────────
  **WHERE AN INSERTION WRITES, ON ANY BYTES.**

  Nothing is assumed of a directory's blocks here.  The search takes the first
  record it sees with room for the new one; on a record in use that is shorter
  than its name needs the room it computes wraps, and the record is taken.

    • `searched`            — the records the search sees, in its order,
    • `insertBlocks_none`, `insertBlocks_first` — what the search comes to,
    • `InsertInBounds`      — the slot is in bounds, no other byte of the
      directory changes, and without a slot nothing is written,
    • `insertInBounds_iff`  — exactly when no record that is too short comes
      before the first one with room.
-/
import NextUfs.Mutate.DirBlocks
import NextUfs.Mutate.PlaceSpec

namespace NextUfs

open State

/-! ## §1. The search. -/

/-- The records a search of the blocks `ks` sees: it ends at a block that
cannot be read. -/
def searched (sb : Superblock) (d : Disk) (dirino : Inode) :
    List Nat → List (Nat × Nat × Dirent)
  | [] => []
  | k :: rest =>
    match readDirBlock sb dirino k d with
    | .error _ _ => []
    | .ok block _ =>
      (records block (chunkBytes sb dirino.size k)).map (k, ·)
        ++ searched sb d dirino rest

/-- The record the code takes for one with room. -/
def firstRoom (sb : Superblock) (d : Disk) (dirino : Inode) (name : Bytes)
    (ks : List Nat) : Option (Nat × Nat × Dirent) :=
  (searched sb d dirino ks).find? fun x =>
    direntSize name.length ≤ room x.2.2

/-- What is done with a placed record. -/
def storePlaced (sb : Superblock) (dirnode : Node) (k : Nat)
    (placed : Except Errno Bytes) : Op (Option Node) :=
  match placed with
  | .error _ => throw .EINVAL
  | .ok new =>
    if h : k < 12 then do
      writeExact (dirnode.inode.db ⟨k, h⟩ * sb.fragSize)
        (new.take (chunkBytes sb dirnode.inode.size k))
      let node ← updateNodeTimes sb dirnode
      return some node
    else throw .ENOSPC

theorem findSome?_eq_find? {α β : Type} (f : α → Option β) : ∀ l : List α,
    l.findSome? f = (l.find? fun a => (f a).isSome).bind f
  | [] => rfl
  | a :: l => by
    rw [List.findSome?_cons, List.find?_cons]
    cases h : f a with
    | none => exact findSome?_eq_find? f l
    | some b => exact h.symm

section Search

variable {sb : Superblock} {d : Disk} {dirnode : Node} {name : Bytes}
  {newInode : Nat}

/-- The search in one block. -/
theorem findSome?_placeDirent (name : Bytes) (newInode : Nat) (block : Bytes)
    (rs : List (Nat × Dirent)) :
    rs.findSome? (placeDirent name newInode block)
      = (rs.find? fun r => direntSize name.length ≤ room r.2).bind
          (placeDirent name newInode block) := by
  rw [findSome?_eq_find?]
  congr 2
  funext r
  rw [Bool.eq_iff_iff, placeDirent_isSome, decide_eq_true_iff]

/-- One block of the search. -/
theorem insertBlocks_cons {k : Nat} {rest : List Nat} {block : Bytes}
    (hread : readDirBlock sb dirnode.inode k d = .ok block d) :
    insertBlocks sb dirnode name newInode (k :: rest) d
      = match (records block (chunkBytes sb dirnode.inode.size k)).findSome?
          (placeDirent name newInode block) with
        | none => insertBlocks sb dirnode name newInode rest d
        | some placed => storePlaced sb dirnode k placed d := by
  conv => lhs; unfold insertBlocks
  rw [bind_of_ok hread]
  cases (records block (chunkBytes sb dirnode.inode.size k)).findSome?
      (placeDirent name newInode block) with
  | none => rfl
  | some placed =>
    cases placed with
    | error e => rfl
    | ok new => rfl

theorem insertBlocks_unreadable {k : Nat} {rest : List Nat}
    (hread : readDirBlock sb dirnode.inode k d = .error Errno.EIO d) :
    insertBlocks sb dirnode name newInode (k :: rest) d = .error Errno.EIO d := by
  unfold insertBlocks
  rw [bind_of_error hread]

/-- The first record with room, block by block. -/
theorem firstRoom_cons {k : Nat} {rest : List Nat} {block : Bytes}
    (hread : readDirBlock sb dirnode.inode k d = .ok block d) :
    firstRoom sb d dirnode.inode name (k :: rest)
      = match (records block (chunkBytes sb dirnode.inode.size k)).find? fun r =>
          direntSize name.length ≤ room r.2 with
        | some r => some (k, r)
        | none => firstRoom sb d dirnode.inode name rest := by
  have hhere : ((records block (chunkBytes sb dirnode.inode.size k)).map
      (k, ·)).find? (fun x : Nat × Nat × Dirent =>
        direntSize name.length ≤ room x.2.2)
      = ((records block (chunkBytes sb dirnode.inode.size k)).find? fun r =>
          direntSize name.length ≤ room r.2).map (k, ·) := List.find?_map ..
  have hstep : searched sb d dirnode.inode (k :: rest)
      = (records block (chunkBytes sb dirnode.inode.size k)).map (k, ·)
        ++ searched sb d dirnode.inode rest := by
    conv => lhs; unfold searched
    rw [hread]
  unfold firstRoom
  rw [hstep, List.find?_append, hhere]
  cases (records block (chunkBytes sb dirnode.inode.size k)).find? fun r =>
      direntSize name.length ≤ room r.2 with
  | none => rfl
  | some r => rfl

/-- **Without room nothing is written**: the search ends, or fails at a block
it cannot read. -/
theorem insertBlocks_none (hbs : 0 < sb.blockSize) : ∀ ks : List Nat,
    firstRoom sb d dirnode.inode name ks = none →
      insertBlocks sb dirnode name newInode ks d = .ok none d ∨
        insertBlocks sb dirnode name newInode ks d = .error Errno.EIO d
  | [], _ => Or.inl rfl
  | k :: rest, h => by
    rcases @readDirBlock_cases sb d dirnode.inode k hbs with hread | hread
    · rw [firstRoom_cons hread] at h
      rw [insertBlocks_cons hread, findSome?_placeDirent]
      cases hhere : (records (dirBlock sb d dirnode.inode k)
          (chunkBytes sb dirnode.inode.size k)).find? fun r =>
            direntSize name.length ≤ room r.2 with
      | some r =>
        rw [hhere] at h
        cases h
      | none =>
        rw [hhere] at h
        exact insertBlocks_none hbs rest h
    · exact Or.inr (insertBlocks_unreadable hread)

/-- **The first record with room is taken.** -/
theorem insertBlocks_first (hbs : 0 < sb.blockSize) {k : Nat}
    {r : Nat × Dirent} : ∀ ks : List Nat,
    firstRoom sb d dirnode.inode name ks = some (k, r) →
      k ∈ ks ∧
      readDirent (dirBlock sb d dirnode.inode k)
        (chunkBytes sb dirnode.inode.size k) r.1 = some r.2 ∧
      ∃ placed, placeDirent name newInode (dirBlock sb d dirnode.inode k) r
          = some placed ∧
        insertBlocks sb dirnode name newInode ks d
          = storePlaced sb dirnode k placed d
  | [], h => by cases h
  | k' :: rest, h => by
    rcases @readDirBlock_cases sb d dirnode.inode k' hbs with hread | hread
    · rw [firstRoom_cons hread] at h
      cases hhere : (records (dirBlock sb d dirnode.inode k')
          (chunkBytes sb dirnode.inode.size k')).find? fun r =>
            direntSize name.length ≤ room r.2 with
      | some r' =>
        rw [hhere] at h
        cases h
        have htaken := List.find?_some hhere
        have hroom : direntSize name.length ≤ room r.2 :=
          of_decide_eq_true htaken
        obtain ⟨placed, hplaced⟩ := Option.isSome_iff_exists.mp
          ((placeDirent_isSome name newInode
            (dirBlock sb d dirnode.inode k) r).mpr hroom)
        refine ⟨List.mem_cons_self,
          mem_recordsFrom (List.mem_of_find?_eq_some hhere), placed, hplaced, ?_⟩
        rw [insertBlocks_cons hread, findSome?_placeDirent, hhere,
          Option.bind_some, hplaced]
      | none =>
        rw [hhere] at h
        obtain ⟨hmem, hat, placed, hplaced, hrun⟩ :=
          insertBlocks_first hbs rest h
        refine ⟨List.mem_cons_of_mem _ hmem, hat, placed, hplaced, ?_⟩
        rw [insertBlocks_cons hread, findSome?_placeDirent, hhere]
        exact hrun
    · unfold firstRoom searched at h
      rw [hread] at h
      cases h

end Search

/-! ## §2. Where it writes. -/

section Bounds

variable {sb : Superblock} {d d' : Disk} {dirnode : Node} {name : Bytes}
  {newInode k : Nat} {r : Nat × Dirent}

/-- The outcome of a run: the disk it leaves, whether it returns or fails. -/
def leaves {α : Type} (x : Op α) (d d' : Disk) : Prop :=
  (∃ a, x d = .ok a d') ∨ ∃ e, x d = .error e d'

/-- **A slot in bounds**: the slack does not wrap, the new record ends where
the one it was carved from did, inside the buffer, and only bytes that one may
lose change. -/
structure SlotInBounds (sb : Superblock) (d : Disk) (dirnode : Node)
    (name : Bytes) (newInode k : Nat) (r : Nat × Dirent) : Prop where
  noWrap : ¬TooShort r.2
  ends : newOffset r + room r.2 = r.1 + r.2.reclen
  inside : r.1 + r.2.reclen ≤ chunkBytes sb dirnode.inode.size k
  buffer : chunkBytes sb dirnode.inode.size k ≤ sb.blockSize
  bytes : ∀ d', leaves (insertDirent sb dirnode name newInode) d d' →
    ∀ p, d'.data p ≠ d.data p →
      ∃ hk : k < 12, ∃ i, SlotByte r i ∧
        p = dirnode.inode.db ⟨k, hk⟩ * sb.fragSize + i

/-- Blocks of a directory. -/
def dirBlocks (sb : Superblock) (dirino : Inode) : List Nat :=
  List.range (fileBlocks sb dirino.size)

/-- **An insertion in bounds**: the slot it takes is, and if it takes none the
search has written nothing. -/
def InsertInBounds (sb : Superblock) (d : Disk) (dirnode : Node)
    (name : Bytes) (newInode : Nat) : Prop :=
  (∀ k r, firstRoom sb d dirnode.inode name (dirBlocks sb dirnode.inode)
      = some (k, r) → SlotInBounds sb d dirnode name newInode k r) ∧
  (firstRoom sb d dirnode.inode name (dirBlocks sb dirnode.inode) = none →
    insertBlocks sb dirnode name newInode (dirBlocks sb dirnode.inode) d
        = .ok none d ∨
      insertBlocks sb dirnode name newInode (dirBlocks sb dirnode.inode) d
        = .error Errno.EIO d)

/-- No record in use that is shorter than its name needs comes before the
first record with room. -/
def NoShortFirst (sb : Superblock) (d : Disk) (dirino : Inode)
    (name : Bytes) : Prop :=
  ∀ before k r after, searched sb d dirino (dirBlocks sb dirino)
      = before ++ (k, r) :: after → TooShort r.2 →
    ∃ x ∈ before, HasRoom (direntSize name.length) x.2.2

/-- What is left of the data area when a placed record is stored. -/
theorem storePlaced_bytes
    (hread : readDirent (dirBlock sb d dirnode.inode k)
      (chunkBytes sb dirnode.inode.size k) r.1 = some r.2)
    (hshort : ¬TooShort r.2) {placed : Except Errno Bytes}
    (hplaced : placeDirent name newInode (dirBlock sb d dirnode.inode k) r
      = some placed)
    (h : leaves (storePlaced sb dirnode k placed) d d') (p : Nat)
    (hp : d'.data p ≠ d.data p) :
    ∃ hk : k < 12, ∃ i, SlotByte r i ∧
      p = dirnode.inode.db ⟨k, hk⟩ * sb.fragSize + i := by
  -- a run that has failed has written nothing
  have hsame : d' ≠ d := by
    rintro rfl
    exact hp rfl
  unfold storePlaced at h
  cases placed with
  | error e =>
    rcases h with ⟨_, hrun⟩ | ⟨_, hrun⟩
    · cases hrun
    · cases hrun
      exact absurd rfl hsame
  | ok new =>
    by_cases hk : k < 12
    · obtain ⟨-, hlen, hbytes⟩ := placeDirent_carved hread
        (by rw [dirBlock_length]) hshort hplaced
      have hdata : d'.data = (d.write (dirnode.inode.db ⟨k, hk⟩ * sb.fragSize)
          (new.take (chunkBytes sb dirnode.inode.size k))).data := by
        simp only [dif_pos hk] at h
        have hwrite : writeExact (dirnode.inode.db ⟨k, hk⟩ * sb.fragSize)
            (new.take (chunkBytes sb dirnode.inode.size k)) d
            = .ok () (d.write (dirnode.inode.db ⟨k, hk⟩ * sb.fragSize)
                (new.take (chunkBytes sb dirnode.inode.size k))) := rfl
        rcases h with ⟨_, hrun⟩ | ⟨_, hrun⟩
        · rw [bind_of_ok hwrite] at hrun
          obtain ⟨node, d₁, htimes, hret⟩ := bind_eq_ok hrun
          rw [updateNodeTimes_eq] at htimes
          split at htimes
          · cases htimes
            cases hret
            rfl
          · cases htimes
        · rw [bind_of_ok hwrite] at hrun
          rcases bind_eq_error hrun with htimes | ⟨node, d₁, htimes, hret⟩
          · rw [updateNodeTimes_eq] at htimes
            split at htimes
            · cases htimes
            · cases htimes
              rfl
          · cases hret
      rw [hdata] at hp
      have hin : dirnode.inode.db ⟨k, hk⟩ * sb.fragSize ≤ p ∧
          p < dirnode.inode.db ⟨k, hk⟩ * sb.fragSize
            + (new.take (chunkBytes sb dirnode.inode.size k)).length := by
        by_contra hout
        exact hp (if_neg hout)
      obtain ⟨i, rfl⟩ := Nat.exists_eq_add_of_le hin.1
      refine ⟨hk, i, ?_, rfl⟩
      by_contra hslot
      refine hp ?_
      -- a byte the slot may not lose is written back as it was read
      rw [List.length_take, hlen, dirBlock_length, Nat.min_self] at hin
      have hi : i < chunkBytes sb dirnode.inode.size k := by omega
      have hold : (dirBlock sb d dirnode.inode k).getD i 0
          = d.data (dirnode.inode.db ⟨k, hk⟩ * sb.fragSize + i) := by
        rw [dirBlock_of_record hk hread]
        simp [Disk.read, List.getD_eq_getElem?_getD, hi]
      rw [← hold, ← hbytes i hslot]
      show (if _ then _ else _) = _
      rw [if_pos ⟨Nat.le_add_right _ _, by
        rw [List.length_take, hlen, dirBlock_length, Nat.min_self]
        omega⟩, Nat.add_sub_cancel_left]
      simp only [List.getD_eq_getElem?_getD, List.getElem?_take_of_lt hi]
    · simp only [dif_neg hk] at h
      rcases h with ⟨_, hrun⟩ | ⟨_, hrun⟩
      · cases hrun
      · cases hrun
        exact absurd rfl hsame

/-- An insertion that found a slot ends where storing the record does. -/
theorem insertDirent_leaves {placed : Except Errno Bytes}
    (hrun : insertBlocks sb dirnode name newInode (dirBlocks sb dirnode.inode)
      d = storePlaced sb dirnode k placed d)
    (h : leaves (insertDirent sb dirnode name newInode) d d') :
    leaves (storePlaced sb dirnode k placed) d d' := by
  unfold dirBlocks at hrun
  unfold insertDirent at h
  cases hstore : storePlaced sb dirnode k placed d with
  | error e d₁ =>
    rw [hstore] at hrun
    rcases h with ⟨_, hend⟩ | ⟨_, hend⟩
    · rw [bind_of_error hrun] at hend
      cases hend
    · rw [bind_of_error hrun] at hend
      cases hend
      exact Or.inr ⟨_, hstore⟩
  | ok res d₁ =>
    rw [hstore] at hrun
    have hsome : ∃ node, res = some node := by
      unfold storePlaced at hstore
      cases placed with
      | error e => cases hstore
      | ok new =>
        dsimp only at hstore
        split at hstore
        · obtain ⟨_, d₂, -, hnext⟩ := bind_eq_ok hstore
          obtain ⟨node, d₃, -, hret⟩ := bind_eq_ok hnext
          cases hret
          exact ⟨node, rfl⟩
        · cases hstore
    obtain ⟨node, rfl⟩ := hsome
    rcases h with ⟨_, hend⟩ | ⟨_, hend⟩
    · rw [bind_of_ok hrun] at hend
      cases hend
      exact Or.inl ⟨_, hstore⟩
    · rw [bind_of_ok hrun] at hend
      cases hend

/-- **A slot that is not too short is in bounds.** -/
theorem slotInBounds (hbs : 0 < sb.blockSize)
    (hfirst : firstRoom sb d dirnode.inode name (dirBlocks sb dirnode.inode)
      = some (k, r)) (hshort : ¬TooShort r.2) :
    SlotInBounds sb d dirnode name newInode k r := by
  obtain ⟨-, hread, placed, hplaced, hrun⟩ :=
    @insertBlocks_first sb d dirnode name newInode hbs k r _ hfirst
  obtain ⟨-, -, hrec, -, -, hreclen, -⟩ := readDirent_eq_some.mp hread
  have hroom := room_of_fits (by rw [hreclen]; exact readBe16_lt _) hshort
  refine ⟨hshort, ?_, hrec, Nat.min_le_left _ _, fun d' hend => ?_⟩
  · unfold newOffset
    omega
  · exact storePlaced_bytes hread hshort hplaced
      (insertDirent_leaves hrun hend)

/-- What the search sees was read. -/
theorem mem_searched {x : Nat × Nat × Dirent} : ∀ {ks : List Nat},
    x ∈ searched sb d dirnode.inode ks →
      x.2.2.reclen < 2 ^ 16 ∧ x.2.2.namlen < 2 ^ 16
  | [], h => absurd h List.not_mem_nil
  | k :: rest, h => by
    unfold searched at h
    cases hread : readDirBlock sb dirnode.inode k d with
    | error e d₁ =>
      rw [hread] at h
      exact absurd h List.not_mem_nil
    | ok block d₁ =>
      rw [hread] at h
      rcases List.mem_append.mp h with h | h
      · obtain ⟨r, hr, rfl⟩ := List.mem_map.mp h
        obtain ⟨-, -, -, -, -, hreclen, hnamlen, -⟩ :=
          readDirent_eq_some.mp (mem_recordsFrom hr)
        constructor
        · show r.2.reclen < _
          rw [hreclen]
          exact readBe16_lt _
        · show r.2.namlen < _
          rw [hnamlen]
          exact readBe16_lt _
      · exact mem_searched h

/-- A directory that has a block has blocks of some size. -/
theorem blockSize_pos_of_first
    (h : firstRoom sb d dirnode.inode name (dirBlocks sb dirnode.inode)
      ≠ none) : 0 < sb.blockSize := by
  by_contra hzero
  have hbs : sb.blockSize = 0 := by omega
  refine h ?_
  unfold dirBlocks fileBlocks
  rw [hbs, Nat.div_zero]
  rfl

/-- **An insertion stays in bounds exactly when no record that is too short
comes before the first one with room**, whatever the bytes of the directory
and for every name.  A C string is shorter than half the address space. -/
theorem insertInBounds_iff (hname : name.length < 2 ^ 63) :
    InsertInBounds sb d dirnode name newInode ↔
      NoShortFirst sb d dirnode.inode name := by
  have hneed : direntSize name.length ≤ 2 ^ 64 - 2 ^ 17 := by
    have := direntSize_le name.length
    omega
  have htaken : ∀ x ∈ searched sb d dirnode.inode (dirBlocks sb dirnode.inode),
      direntSize name.length ≤ room x.2.2 ↔
        HasRoom (direntSize name.length) x.2.2 ∨ TooShort x.2.2 := by
    intro x hx
    obtain ⟨hrec, hnam⟩ := mem_searched hx
    exact need_le_room_iff hrec hnam hneed
  constructor
  · intro h before k r after heq hshort
    by_contra hnone
    have hin : ∀ x ∈ before ++ [(k, r)],
        x ∈ searched sb d dirnode.inode (dirBlocks sb dirnode.inode) := by
      intro x hx
      rw [heq, ← List.singleton_append, ← List.append_assoc]
      exact List.mem_append_left _ hx
    -- the first record taken is this one, or one before it without room
    obtain ⟨x, hfirst⟩ : ∃ x, (before ++ [(k, r)]).find? (fun x =>
        direntSize name.length ≤ room x.2.2) = some x := by
      refine Option.isSome_iff_exists.mp (List.find?_isSome.mpr
        ⟨(k, r), List.mem_append_right _ List.mem_cons_self, ?_⟩)
      exact decide_eq_true ((htaken (k, r) (hin _
        (List.mem_append_right _ List.mem_cons_self))).mpr (Or.inr hshort))
    have hmem := List.mem_of_find?_eq_some hfirst
    have hroom := List.find?_some hfirst
    have hbad : TooShort x.2.2 := by
      rcases (htaken x (hin x hmem)).mp (of_decide_eq_true hroom)
        with hhas | hbad
      · rcases List.mem_append.mp hmem with hbefore | hlast
        · exact absurd ⟨x, hbefore, hhas⟩ hnone
        · rw [List.mem_singleton.mp hlast]
          exact hshort
      · exact hbad
    refine (h.1 x.1 x.2 ?_).noWrap hbad
    unfold firstRoom
    rw [heq, ← List.singleton_append, ← List.append_assoc, List.find?_append,
      hfirst]
    rfl
  · intro h
    constructor
    · intro k r hfirst
      refine slotInBounds (blockSize_pos_of_first (by rw [hfirst]; simp))
        hfirst fun hshort => ?_
      obtain ⟨-, before, after, heq, hbefore⟩ :=
        List.find?_eq_some_iff_append.mp hfirst
      obtain ⟨x, hx, hhas⟩ := h before k r after heq hshort
      have hnot := hbefore x hx
      rw [Bool.not_eq_true', decide_eq_false_iff_not] at hnot
      refine hnot ((htaken x ?_).mpr (Or.inl hhas))
      rw [heq]
      exact List.mem_append_left _ hx
    · intro hnone
      by_cases hbs : 0 < sb.blockSize
      · exact insertBlocks_none hbs _ hnone
      · left
        have hzero : sb.blockSize = 0 := by omega
        unfold dirBlocks fileBlocks
        rw [hzero, Nat.div_zero]
        rfl

end Bounds

/-! ## §3. A record of eight bytes. -/

/-- The disk with a root whose first record has no room for its name. -/
def shortDisk : Disk :=
  { filesDisk with
    data := fun i =>
      if 64 ≤ i ∧ i < 72 then [0, 0, 0, 3, 0, 8, 0, 1].getD (i - 64) 0
      else filesDisk.data i }

/-- A name goes into the root of the two files' disk in bounds. -/
theorem insertInBounds_iff_files :
    InsertInBounds filesSb filesDisk filesRootNode [104] 5 := by
  have hlong : ∀ x ∈ searched filesSb filesDisk filesRootNode.inode
      (dirBlocks filesSb filesRootNode.inode), ¬TooShort x.2.2 := by
    decide +kernel
  refine (insertInBounds_iff (by decide)).mpr fun before k r after heq hshort => ?_
  refine absurd hshort (hlong (k, r) ?_)
  rw [heq]
  exact List.mem_append_right _ List.mem_cons_self

/-- **A record of eight bytes with a name of one is taken for room**: its slack
wraps. -/
theorem not_insertInBounds_short :
    ¬InsertInBounds filesSb shortDisk filesRootNode [104] 5 := by
  intro h
  have hfirst : firstRoom filesSb shortDisk filesRootNode.inode [104]
      (dirBlocks filesSb filesRootNode.inode)
        = some (0, 0, ⟨3, 8, 1, [46]⟩) := by
    decide +kernel
  exact (h.1 _ _ hfirst).noWrap (by decide)

end NextUfs
