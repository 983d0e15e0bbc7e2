/-
  NextUfs.Mutate.LookupRemove
  ───────────────────────────
  **LOOKUP AND REMOVAL OF A NAME.**

  A lookup follows the records of each block of a directory from the block's
  start, and a removal those of each 1024-byte chunk from the chunk's start.
  A record that is malformed, or crosses the end of its chunk, ends the
  removal's walk of the chunk; the first ends the lookup's walk of the whole
  block, and behind the second the lookup goes on out of step.

    • `lookupWalk`, `removalWalk` — the records the two walks meet,
    • `findNameInDirectory_eq`, `removeDirent_iff` — the first of the name is
      what is found, and removed,
    • `lookup_remove_agree` — when the two agree,
    • `names_agree_before_bad` — they do when the first record of the name
      stands before every malformed or crossing one,
    • `firstShared_of_covered` — and when there is none, that is, every chunk,
      but for the last of each block, is covered by its records,
    • `lookup_stops_early` — a chunk that is not.
-/
import NextUfs.Lib.Scan
import NextUfs.Mutate.DirInsertion
import NextUfs.Mutate.DirRemoval

namespace NextUfs

open State Scan

/-! ## §1. The two walks. -/

/-- The record is in use and has the name. -/
def carries (name : Bytes) (r : Nat × Dirent) : Bool :=
  decide (r.2.ino ≠ 0 ∧ r.2.name = name)

/-- A record met at `r.1` of a buffer that starts at `base`. -/
def shifted (base : Nat) (r : Nat × Dirent) : Nat × Dirent := (base + r.1, r.2)

/-- The records a lookup looks at in block `k`, with their places in the
directory. -/
def lookupBlock (sb : Superblock) (d : Disk) (dirino : Inode) (k : Nat) :
    List (Nat × Dirent) :=
  ((records (dirBlock sb d dirino k) (chunkBytes sb dirino.size k)).filter
    fun r => r.2.namlen ≠ 0).map (shifted (k * sb.blockSize))

/-- The records a removal looks at in one block. -/
def chunkWalk (block : Bytes) (chunk : Nat) : List (Nat × Dirent) :=
  (List.range ((chunk + DIRBLKSIZ - 1) / DIRBLKSIZ)).flatMap fun j =>
    (records (block.drop (j * DIRBLKSIZ))
      (min DIRBLKSIZ (chunk - j * DIRBLKSIZ))).map (shifted (j * DIRBLKSIZ))

/-- The records a removal looks at in block `k`, with their places in the
directory. -/
def removalBlock (sb : Superblock) (d : Disk) (dirino : Inode) (k : Nat) :
    List (Nat × Dirent) :=
  (chunkWalk (dirBlock sb d dirino k) (chunkBytes sb dirino.size k)).map
    (shifted (k * sb.blockSize))

/-- **The records a lookup looks at.** -/
def lookupWalk (sb : Superblock) (d : Disk) (dirino : Inode) :
    List (Nat × Dirent) :=
  (List.range (fileBlocks sb dirino.size)).flatMap (lookupBlock sb d dirino)

/-- **The records a removal looks at.** -/
def removalWalk (sb : Superblock) (d : Disk) (dirino : Inode) :
    List (Nat × Dirent) :=
  (List.range (fileBlocks sb dirino.size)).flatMap (removalBlock sb d dirino)

section Places

variable {buf : Bytes} {limit base : Nat} {r : Nat × Dirent}

theorem carries_shifted (name : Bytes) (base : Nat) :
    carries name ∘ shifted base = carries name := rfl

/-- A search goes through a shift. -/
theorem find?_shifted (name : Bytes) (base : Nat) (rs : List (Nat × Dirent)) :
    (rs.map (shifted base)).find? (carries name)
      = (rs.find? (carries name)).map (shifted base) := by
  rw [List.find?_map, carries_shifted]

/-- A walk meets its records in order, at or behind its start. -/
theorem recordsFrom_ascending (buf : Bytes) (limit : Nat) : ∀ fuel off,
    Ascending Prod.fst (recordsFrom buf limit fuel off) ∧
      ∀ r ∈ recordsFrom buf limit fuel off, off ≤ r.1 := by
  intro fuel
  induction fuel with
  | zero =>
    exact fun off => ⟨List.Pairwise.nil, fun r hr => absurd hr List.not_mem_nil⟩
  | succ fuel ih =>
    intro off
    unfold recordsFrom
    split
    · cases hread : readDirent buf limit off with
      | none =>
        exact ⟨List.Pairwise.nil, fun r hr => absurd hr List.not_mem_nil⟩
      | some ent =>
        obtain ⟨hrest, hlo⟩ := ih (off + ent.reclen)
        have hmin : 8 ≤ ent.reclen := (readDirent_eq_some.mp hread).2.1
        refine ⟨List.pairwise_cons.mpr ⟨fun r hr => ?_, hrest⟩, fun r hr => ?_⟩
        · have := hlo r hr
          show off < r.1
          omega
        · rcases List.mem_cons.mp hr with rfl | hr
          · exact le_rfl
          · have := hlo r hr
            omega
    · exact ⟨List.Pairwise.nil, fun r hr => absurd hr List.not_mem_nil⟩

/-- A record that is met lies before the end of the buffer. -/
theorem lt_of_mem_records (hr : r ∈ records buf limit) : r.1 < limit := by
  have hheader := (readDirent_eq_some.mp (mem_recordsFrom hr)).1
  omega

theorem shifted_ascending (base : Nat) {rs : List (Nat × Dirent)}
    (h : Ascending Prod.fst rs) :
    Ascending Prod.fst (rs.map (shifted base)) := by
  refine List.pairwise_map.mpr (List.Pairwise.imp (fun {a b} hlt => ?_) h)
  exact Nat.add_lt_add_left hlt base

/-- What a removal looks at in a block is in order, and in the block. -/
theorem chunkWalk_ascending (block : Bytes) (chunk : Nat) :
    Ascending Prod.fst (chunkWalk block chunk) ∧
      ∀ r ∈ chunkWalk block chunk, r.1 < chunk := by
  constructor
  · refine Ascending.flatMap (· * DIRBLKSIZ) (fun j _ => ?_)
      (fun i j hij => ?_) (fun j _ r hr => ?_) fun j _ r hr => ?_
    · exact shifted_ascending _ (recordsFrom_ascending _ _ _ 0).1
    · exact Nat.mul_le_mul_right DIRBLKSIZ hij
    · obtain ⟨r, -, rfl⟩ := List.mem_map.mp hr
      exact Nat.le_add_right _ _
    · obtain ⟨r', hr', rfl⟩ := List.mem_map.mp hr
      have hlt := lt_of_mem_records hr'
      show j * DIRBLKSIZ + r'.1 < (j + 1) * DIRBLKSIZ
      rw [Nat.add_mul]
      omega
  · intro r hr
    obtain ⟨j, -, hr⟩ := List.mem_flatMap.mp hr
    obtain ⟨r', hr', rfl⟩ := List.mem_map.mp hr
    have hlt := lt_of_mem_records hr'
    show j * DIRBLKSIZ + r'.1 < chunk
    omega

end Places

/-! ## §2. The walks are in order. -/

section Order

variable {sb : Superblock}

theorem chunkBytes_le_block (sb : Superblock) (size k : Nat) :
    chunkBytes sb size k ≤ sb.blockSize :=
  Nat.min_le_left _ _

theorem lookupWalk_ascending (sb : Superblock) (d : Disk) (dirino : Inode) :
    Ascending Prod.fst (lookupWalk sb d dirino) := by
  refine Ascending.flatMap (· * sb.blockSize) (fun k _ => ?_)
    (fun i j hij => ?_) (fun k _ r hr => ?_) fun k _ r hr => ?_
  · exact shifted_ascending _ ((recordsFrom_ascending _ _ _ 0).1.filter _)
  · exact Nat.mul_le_mul_right sb.blockSize hij
  · obtain ⟨r', -, rfl⟩ := List.mem_map.mp hr
    exact Nat.le_add_right _ _
  · obtain ⟨r', hr', rfl⟩ := List.mem_map.mp hr
    have hlt := lt_of_mem_records (List.mem_of_mem_filter hr')
    have hle := chunkBytes_le_block sb dirino.size k
    show k * sb.blockSize + r'.1 < (k + 1) * sb.blockSize
    rw [Nat.add_mul]
    omega

theorem removalWalk_ascending (sb : Superblock) (d : Disk) (dirino : Inode) :
    Ascending Prod.fst (removalWalk sb d dirino) := by
  refine Ascending.flatMap (· * sb.blockSize) (fun k _ => ?_)
    (fun i j hij => ?_) (fun k _ r hr => ?_) fun k _ r hr => ?_
  · exact shifted_ascending _ (chunkWalk_ascending _ _).1
  · exact Nat.mul_le_mul_right sb.blockSize hij
  · obtain ⟨r', -, rfl⟩ := List.mem_map.mp hr
    exact Nat.le_add_right _ _
  · obtain ⟨r', hr', rfl⟩ := List.mem_map.mp hr
    have hlt := (chunkWalk_ascending _ _).2 r' hr'
    have hle := chunkBytes_le_block sb dirino.size k
    show k * sb.blockSize + r'.1 < (k + 1) * sb.blockSize
    rw [Nat.add_mul]
    omega

end Order

/-! ## §3. What is found. -/

section Lookup

variable {sb : Superblock} {d : Disk} {dirino : Inode} {name : Bytes}

/-- The source's test of the records of a block is a search for the name. -/
theorem blockSearch_eq (name : Bytes) (rs : List (Nat × Dirent)) :
    (rs.findSome? fun r =>
        if r.2.ino ≠ 0 ∧ r.2.namlen ≠ 0 then findNameCb name r.2.ino r.2.name
        else none)
      = ((rs.filter fun r => r.2.namlen ≠ 0).find? (carries name)).map
          (·.2.ino) := by
  induction rs with
  | nil => rfl
  | cons r rs ih =>
    rw [List.findSome?_cons]
    unfold findNameCb at ih ⊢
    by_cases hlen : r.2.namlen = 0
    · rw [if_neg (fun h => h.2 hlen), List.filter_cons_of_neg (by simp [hlen])]
      exact ih
    · rw [List.filter_cons_of_pos (by simpa using hlen)]
      by_cases hhit : r.2.ino ≠ 0 ∧ r.2.name = name
      · have hcarries : carries name r = true := decide_eq_true hhit
        rw [if_pos ⟨hhit.1, hlen⟩, if_pos hhit.2,
          List.find?_cons_of_pos hcarries]
        rfl
      · rw [List.find?_cons_of_neg (by simpa [carries] using hhit)]
        have hnone : (if r.2.ino ≠ 0 ∧ r.2.namlen ≠ 0 then
            if r.2.name = name then some r.2.ino else none else none)
            = none := by
          split
          · next hlive => rw [if_neg fun hname => hhit ⟨hlive.1, hname⟩]
          · rfl
        rw [hnone]
        exact ih

/-- **The blocks of a lookup**: the first record of the name. -/
theorem iterateBlocks_eq (hbs : 0 < sb.blockSize) : ∀ {ks : List Nat},
    (∀ k ∈ ks, k < 12) →
    iterateBlocks sb dirino (findNameCb name) ks d
      = .ok (((ks.flatMap (lookupBlock sb d dirino)).find?
          (carries name)).map (·.2.ino)) d
  | [], _ => rfl
  | k :: ks, h => by
    have hk := h k List.mem_cons_self
    unfold iterateBlocks
    rw [bind_of_ok (readDirBlock_direct hbs hk), blockSearch_eq,
      List.flatMap_cons, List.find?_append]
    unfold lookupBlock
    rw [find?_shifted]
    cases hfound : ((records (dirBlock sb d dirino k)
        (chunkBytes sb dirino.size k)).filter
          fun r => r.2.namlen ≠ 0).find? (carries name) with
    | some r => rfl
    | none =>
      exact iterateBlocks_eq hbs fun k' hk' => h k' (List.mem_cons_of_mem k hk')

/-- **What a lookup finds** is the first record of the name among those it
looks at. -/
theorem findNameInDirectory_eq (hbs : 0 < sb.blockSize)
    (hblocks : fileBlocks sb dirino.size ≤ 12) (name : Bytes) :
    findNameInDirectory sb dirino name d
      = .ok ((((lookupWalk sb d dirino).find? (carries name)).map
          (·.2.ino)).getD 0) d := by
  have hrun := @iterateBlocks_eq sb d dirino name hbs
    (List.range (fileBlocks sb dirino.size)) fun k hk => by
      have := List.mem_range.mp hk
      omega
  unfold findNameInDirectory directoryIterate
  rw [bind_of_ok hrun]
  unfold lookupWalk
  cases ((List.range (fileBlocks sb dirino.size)).flatMap
      (lookupBlock sb d dirino)).find? (carries name) <;> rfl

end Lookup

/-! ## §4. What is removed. -/

section Removal

variable {sb : Superblock} {d : Disk} {dirnode : Node} {name block : Bytes}
  {base chunk : Nat}

/-- What is removed from a list of records is the first one of the name. -/
theorem removeRecord_first (hdots : nameIsDotOrDotdot name = false) :
    ∀ {rs : List (Nat × Dirent)} {prev},
      match rs.find? (carries name) with
      | none => removeRecord name block base prev rs = none
      | some r => ∃ new,
        removeRecord name block base prev rs = some (.ok (new, r.2.ino))
  | [], _ => rfl
  | r :: rs, prev => by
    rw [removeRecord_cons]
    by_cases hhit : r.2.ino ≠ 0 ∧ r.2.name = name
    · have hcarries : carries name r = true := decide_eq_true hhit
      rw [List.find?_cons_of_pos hcarries, if_pos hhit, hdots]
      exact ⟨_, rfl⟩
    · rw [List.find?_cons_of_neg (by simpa [carries] using hhit),
        if_neg hhit]
      exact removeRecord_first hdots

/-- And from a block the first one in its chunks. -/
theorem removeInBlock_first (hdots : nameIsDotOrDotdot name = false) :
    match (chunkWalk block chunk).find? (carries name) with
    | none => removeInBlock name block chunk = none
    | some r => ∃ new,
      removeInBlock name block chunk = some (.ok (new, r.2.ino)) := by
  unfold chunkWalk removeInBlock
  induction List.range ((chunk + DIRBLKSIZ - 1) / DIRBLKSIZ) with
  | nil => rfl
  | cons j js ih =>
    rw [List.flatMap_cons, List.find?_append, find?_shifted,
      List.findSome?_cons]
    have hfirst := @removeRecord_first name block (j * DIRBLKSIZ) hdots
      (records (block.drop (j * DIRBLKSIZ))
        (min DIRBLKSIZ (chunk - j * DIRBLKSIZ))) none
    dsimp only
    cases hfound : (records (block.drop (j * DIRBLKSIZ))
        (min DIRBLKSIZ (chunk - j * DIRBLKSIZ))).find? (carries name) with
    | none =>
      rw [hfound] at hfirst
      dsimp only at hfirst
      rw [hfirst]
      exact ih
    | some r =>
      rw [hfound] at hfirst
      obtain ⟨new, hnew⟩ := hfirst
      rw [hnew]
      exact ⟨new, rfl⟩

/-- Every block has a direct pointer that is set. -/
def Allocated (sb : Superblock) (dirino : Inode) : Prop :=
  ∀ k < fileBlocks sb dirino.size, ∃ hk : k < 12, dirino.db ⟨k, hk⟩ ≠ 0

theorem Allocated.blocks_le {dirino : Inode} (h : Allocated sb dirino) :
    fileBlocks sb dirino.size ≤ 12 := by
  by_contra hmore
  obtain ⟨hk, -⟩ := h 12 (by omega)
  omega

/-- **The blocks of a removal**: the first record of the name. -/
theorem removeBlocks_first (hbs : 0 < sb.blockSize) (hinodes : hasInodes sb)
    (hdots : nameIsDotOrDotdot name = false) : ∀ {ks : List Nat},
    (∀ k ∈ ks, ∃ hk : k < 12, dirnode.inode.db ⟨k, hk⟩ ≠ 0) →
    match (ks.flatMap (removalBlock sb d dirnode.inode)).find?
        (carries name) with
    | none => removeBlocks sb dirnode name ks d = .error .ENOENT d
    | some r => ∃ node d',
      removeBlocks sb dirnode name ks d = .ok (node, r.2.ino) d'
  | [], _ => rfl
  | k :: ks, h => by
    obtain ⟨hk, hdb⟩ := h k List.mem_cons_self
    have hrest := @removeBlocks_first hbs hinodes hdots ks
      fun k' hk' => h k' (List.mem_cons_of_mem k hk')
    have hblock := @removeInBlock_first name (dirBlock sb d dirnode.inode k)
      (chunkBytes sb dirnode.inode.size k) hdots
    rw [List.flatMap_cons, List.find?_append]
    unfold removeBlocks removalBlock
    rw [find?_shifted, bind_of_ok (readDirBlock_direct hbs hk), dif_pos hk,
      if_neg hdb]
    cases hfound : (chunkWalk (dirBlock sb d dirnode.inode k)
        (chunkBytes sb dirnode.inode.size k)).find? (carries name) with
    | none =>
      rw [hfound] at hblock
      dsimp only at hblock
      rw [hblock]
      exact hrest
    | some r =>
      rw [hfound] at hblock
      obtain ⟨new, hnew⟩ := hblock
      rw [hnew]
      have hwrite : writeExact (dirnode.inode.db ⟨k, hk⟩ * sb.fragSize)
          (new.take (chunkBytes sb dirnode.inode.size k)) d = .ok () _ := rfl
      exact ⟨_, _, (bind_of_ok hwrite).trans (bind_of_ok (by
        rw [updateNodeTimes_eq, if_pos hinodes]))⟩

/-- **What is removed** is the first record of the name among those a removal
looks at. -/
theorem removeDirent_iff (hbs : 0 < sb.blockSize) (hinodes : hasInodes sb)
    (hdir : Allocated sb dirnode.inode)
    (hdots : nameIsDotOrDotdot name = false) (n : Nat) :
    (∃ node d', removeDirent sb dirnode name d = .ok (node, n) d') ↔
      ((removalWalk sb d dirnode.inode).find? (carries name)).map (·.2.ino)
        = some n := by
  have hrun := @removeBlocks_first sb d dirnode name hbs hinodes hdots
    (List.range (fileBlocks sb dirnode.inode.size)) fun k hk =>
      hdir k (List.mem_range.mp hk)
  unfold removeDirent removalWalk
  cases hfound : ((List.range (fileBlocks sb dirnode.inode.size)).flatMap
      (removalBlock sb d dirnode.inode)).find? (carries name) with
  | none =>
    rw [hfound] at hrun
    dsimp only at hrun
    rw [hrun]
    constructor
    · rintro ⟨node, d', h⟩
      cases h
    · intro h
      cases h
  | some r =>
    rw [hfound] at hrun
    obtain ⟨node, d', hrun⟩ := hrun
    rw [hrun, Option.map_some, Option.some.injEq]
    constructor
    · rintro ⟨node', d'', h⟩
      cases h
      rfl
    · rintro rfl
      exact ⟨node, d', rfl⟩

end Removal

/-! ## §5. When the two agree. -/

/-- **Lookup and removal agree on a name**: the one finds an inode number
exactly when the other removes a record with it. -/
def NamesAgree (sb : Superblock) (d : Disk) (dirnode : Node) (name : Bytes) : Prop :=
  ∀ n, n ≠ 0 → (findNameInDirectory sb dirnode.inode name d = .ok n d ↔
    ∃ node d', removeDirent sb dirnode name d = .ok (node, n) d')

/-- **The first record of the name is met by both walks**: of the records in
use with the name that either walk meets, the one with the least place is met
by the other walk too. -/
def FirstMetByBoth (sb : Superblock) (d : Disk) (dirino : Inode)
    (name : Bytes) : Prop :=
  FirstShared Prod.fst (carries name) (lookupWalk sb d dirino)
    (removalWalk sb d dirino)

/-- The record is the first of the name in a walk. -/
def FirstIn (name : Bytes) (walk : List (Nat × Dirent)) (r : Nat × Dirent) :
    Prop :=
  r ∈ walk ∧ carries name r = true ∧
    ∀ r' ∈ walk, carries name r' = true → r.1 ≤ r'.1

/-- **The walks come to twins**: to different records of the name first, that
have the same inode number. -/
def TwinsFirst (sb : Superblock) (d : Disk) (dirino : Inode) (name : Bytes) :
    Prop :=
  ∃ r r', FirstIn name (lookupWalk sb d dirino) r ∧
    FirstIn name (removalWalk sb d dirino) r' ∧ r ≠ r' ∧ r.2.ino = r'.2.ino

section Agree

variable {sb : Superblock} {d : Disk} {dirnode : Node} {name : Bytes}

/-- The two agree when they come to the same inode number. -/
theorem agree_iff (hbs : 0 < sb.blockSize) (hinodes : hasInodes sb)
    (hdir : Allocated sb dirnode.inode)
    (hdots : nameIsDotOrDotdot name = false) :
    NamesAgree sb d dirnode name ↔
      ((lookupWalk sb d dirnode.inode).find? (carries name)).map (·.2.ino)
        = ((removalWalk sb d dirnode.inode).find? (carries name)).map
          (·.2.ino) := by
  -- a lookup answers 0 for no record, and no record in use has the number 0
  have hlive : ∀ {l : List (Nat × Dirent)} {n : Nat},
      (l.find? (carries name)).map (·.2.ino) = some n → n ≠ 0 := by
    intro l n h
    obtain ⟨r, hr, rfl⟩ := Option.map_eq_some_iff.mp h
    have hcarries : carries name r = true := List.find?_some hr
    exact (of_decide_eq_true hcarries).1
  have hlookup : ∀ n, n ≠ 0 →
      (findNameInDirectory sb dirnode.inode name d = .ok n d ↔
        ((lookupWalk sb d dirnode.inode).find? (carries name)).map (·.2.ino)
          = some n) := by
    intro n hn
    rw [findNameInDirectory_eq hbs hdir.blocks_le]
    cases ((lookupWalk sb d dirnode.inode).find? (carries name)).map
        (·.2.ino) with
    | none =>
      constructor
      · intro h
        cases h
        exact absurd rfl hn
      · intro h
        cases h
    | some m =>
      constructor
      · intro h
        cases h
        rfl
      · intro h
        cases h
        rfl
  unfold NamesAgree
  constructor
  · intro h
    have heach : ∀ n, n ≠ 0 →
        (((lookupWalk sb d dirnode.inode).find? (carries name)).map (·.2.ino)
            = some n ↔
          ((removalWalk sb d dirnode.inode).find? (carries name)).map
            (·.2.ino) = some n) := fun n hn =>
      (hlookup n hn).symm.trans ((h n hn).trans
        (removeDirent_iff hbs hinodes hdir hdots n))
    refine Option.ext fun n => ⟨fun hn => ?_, fun hn => ?_⟩
    · exact (heach n (hlive hn)).mp hn
    · exact (heach n (hlive hn)).mpr hn
  · intro h n hn
    rw [hlookup n hn, h]
    exact (removeDirent_iff hbs hinodes hdir hdots n).symm

/-- They do when the first record of the name is met by both walks. -/
theorem agree_of_firstMet (hbs : 0 < sb.blockSize) (hinodes : hasInodes sb)
    (hdir : Allocated sb dirnode.inode)
    (hdots : nameIsDotOrDotdot name = false)
    (h : FirstMetByBoth sb d dirnode.inode name) :
    NamesAgree sb d dirnode name := by
  rw [agree_iff hbs hinodes hdir hdots]
  exact congrArg (Option.map (·.2.ino)) ((find?_eq_iff
    (lookupWalk_ascending sb d dirnode.inode)
    (removalWalk_ascending sb d dirnode.inode)).mpr h)

/-- **Lookup and removal agree on a name** exactly when the first record of it
is met by both walks, or they come to twins. -/
theorem lookup_remove_agree (hbs : 0 < sb.blockSize) (hinodes : hasInodes sb)
    (hdir : Allocated sb dirnode.inode)
    (hdots : nameIsDotOrDotdot name = false) :
    NamesAgree sb d dirnode name ↔
      FirstMetByBoth sb d dirnode.inode name ∨
        TwinsFirst sb d dirnode.inode name := by
  have hup := lookupWalk_ascending sb d dirnode.inode
  have hup' := removalWalk_ascending sb d dirnode.inode
  have hsame := find?_eq_iff (p := carries name) hup hup'
  constructor
  · intro h
    rw [agree_iff hbs hinodes hdir hdots] at h
    cases hfound : (lookupWalk sb d dirnode.inode).find? (carries name) with
    | none =>
      rw [hfound, Option.map_none, eq_comm, Option.map_eq_none_iff] at h
      exact .inl (hsame.mp (hfound.trans h.symm))
    | some r =>
      rw [hfound, Option.map_some, eq_comm, Option.map_eq_some_iff] at h
      obtain ⟨r', hfound', hino⟩ := h
      by_cases heq : r = r'
      · rw [← heq] at hfound'
        exact .inl (hsame.mp (hfound.trans hfound'.symm))
      · exact .inr ⟨r, r', (find?_eq_some_iff hup).mp hfound,
          (find?_eq_some_iff hup').mp hfound', heq, hino.symm⟩
  · rintro (h | ⟨r, r', hr, hr', -, hino⟩)
    · exact agree_of_firstMet hbs hinodes hdir hdots h
    · rw [agree_iff hbs hinodes hdir hdots, (find?_eq_some_iff hup).mpr hr,
        (find?_eq_some_iff hup').mpr hr', Option.map_some, Option.map_some, hino]

end Agree

/-! ## §6. The first malformed or crossing record. -/

/-- Where the records of a chunk of a block end, from the chunk's start: at its
end, or at a record that is malformed or crosses the end. -/
def chunkEnd (block : Bytes) (j : Nat) : Nat :=
  walkEnd (block.drop (j * DIRBLKSIZ)) DIRBLKSIZ DIRBLKSIZ 0

/-- **Every chunk, but for the last of each block, is covered by its
records.** -/
def ChunksCovered (sb : Superblock) (d : Disk) (dirino : Inode) : Prop :=
  ∀ x ∈ dirPlaces sb dirino.size, x.2 + 1 < dirChunks sb dirino.size x.1 →
    chunkEnd (dirBlock sb d dirino x.1) x.2 = DIRBLKSIZ

/-- **A record that is malformed, or crosses the end of its chunk**, stands at
`place`, in a chunk that is not the last of its block. -/
def BadRecordAt (sb : Superblock) (d : Disk) (dirino : Inode) (place : Nat) :
    Prop :=
  ∃ x ∈ dirPlaces sb dirino.size, x.2 + 1 < dirChunks sb dirino.size x.1 ∧
    chunkEnd (dirBlock sb d dirino x.1) x.2 ≠ DIRBLKSIZ ∧
    place = x.1 * sb.blockSize
      + (x.2 * DIRBLKSIZ + chunkEnd (dirBlock sb d dirino x.1) x.2)

/-- **The first record of the name stands before** every such record. -/
def NameBeforeBad (sb : Superblock) (d : Disk) (dirino : Inode) (name : Bytes) :
    Prop :=
  ∀ r, Passed (lookupWalk sb d dirino) (removalWalk sb d dirino) r →
    carries name r = true →
    (∀ r', Passed (lookupWalk sb d dirino) (removalWalk sb d dirino) r' →
      carries name r' = true → r.1 ≤ r'.1) →
    ∀ place, BadRecordAt sb d dirino place → r.1 < place

section Covered

variable {sb : Superblock} {d : Disk} {dirino : Inode} {name : Bytes}
  {buf : Bytes} {limit base inner : Nat}

/-- More fuel than bytes changes nothing. -/
theorem recordsFrom_fuel : ∀ {fuel fuel' off : Nat}, limit ≤ off + fuel →
    limit ≤ off + fuel' →
    recordsFrom buf limit fuel off = recordsFrom buf limit fuel' off
  | 0, 0, _, _, _ => rfl
  | 0, fuel' + 1, off, h, _ => by
    unfold recordsFrom
    rw [if_neg (by omega)]
  | fuel + 1, 0, off, _, h => by
    unfold recordsFrom
    rw [if_neg (by omega)]
  | fuel + 1, fuel' + 1, off, h, h' => by
    unfold recordsFrom
    split
    · cases hread : readDirent buf limit off with
      | none => rfl
      | some ent =>
        have hmin : 8 ≤ ent.reclen := (readDirent_eq_some.mp hread).2.1
        exact congrArg _ (recordsFrom_fuel (by omega) (by omega))
    · rfl

theorem walkEnd_le : ∀ {fuel off : Nat}, off ≤ inner →
    walkEnd buf inner fuel off ≤ inner
  | 0, _, h => h
  | fuel + 1, off, h => by
    unfold walkEnd
    split
    · cases hread : readDirent buf inner off with
      | none => exact h
      | some ent =>
        have hend : off + ent.reclen ≤ inner := (readDirent_eq_some.mp hread).2.2.1
        exact walkEnd_le hend
    · exact h

/-- **A part of a buffer is walked alike** from its own start, up to where that
walk ends. -/
theorem recordsFrom_part (hfit : base + inner ≤ limit) :
    ∀ {fuel off : Nat}, inner ≤ off + fuel →
      recordsFrom buf limit limit (base + off)
        = (recordsFrom (buf.drop base) inner fuel off).map (shifted base)
          ++ recordsFrom buf limit limit
            (base + walkEnd (buf.drop base) inner fuel off) := by
  intro fuel
  induction fuel with
  | zero => exact fun _ => rfl
  | succ fuel ih =>
    intro off hfuel
    unfold walkEnd
    by_cases hlt : off < inner
    · rw [if_pos hlt]
      cases hread : readDirent (buf.drop base) inner off with
      | none =>
        -- the walk of the part ends here, and that of the buffer goes on from here
        have hnil : recordsFrom (buf.drop base) inner (fuel + 1) off = [] := by
          unfold recordsFrom
          rw [if_pos hlt, hread]
        rw [hnil]
        rfl
      | some ent =>
        have hmin : 8 ≤ ent.reclen := (readDirent_eq_some.mp hread).2.1
        -- a record that fits in the part fits in the buffer
        have hread' : readDirent buf limit (base + off) = some ent :=
          readDirent_mono hfit (readDirent_drop.mp hread)
        have hrest := @ih (off + ent.reclen) (by omega)
        have hcons : recordsFrom (buf.drop base) inner (fuel + 1) off
            = (off, ent) :: recordsFrom (buf.drop base) inner fuel
              (off + ent.reclen) := by
          conv_lhs => unfold recordsFrom
          rw [if_pos hlt, hread]
        have hcons' : recordsFrom buf limit (limit + 1) (base + off)
            = (base + off, ent) :: recordsFrom buf limit limit
              (base + off + ent.reclen) := by
          conv_lhs => unfold recordsFrom
          rw [if_pos (by omega), hread']
        rw [@recordsFrom_fuel buf limit limit (limit + 1) (base + off) (by omega)
          (by omega), hcons', hcons, Nat.add_assoc, hrest]
        rfl
    · have hnil : recordsFrom (buf.drop base) inner (fuel + 1) off = [] := by
        unfold recordsFrom
        rw [if_neg hlt]
      rw [if_neg hlt, hnil]
      rfl

/-- The last part of a buffer is walked alike from its own start. -/
theorem recordsFrom_last (hfit : base + inner = limit) :
    ∀ {fuel off : Nat}, inner ≤ off + fuel →
      recordsFrom buf limit limit (base + off)
        = (recordsFrom (buf.drop base) inner fuel off).map (shifted base) := by
  intro fuel off hfuel
  rw [@recordsFrom_fuel buf limit limit fuel (base + off) (by omega) (by omega)]
  clear hfuel
  induction fuel generalizing off with
  | zero => rfl
  | succ fuel ih =>
    unfold recordsFrom
    by_cases hlt : off < inner
    · rw [if_pos hlt, if_pos (by omega)]
      cases hread : readDirent (buf.drop base) inner off with
      | some ent =>
        have hread' := readDirent_drop.mp hread
        rw [hfit] at hread'
        rw [hread']
        dsimp only
        rw [Nat.add_assoc, ih]
        rfl
      | none =>
        cases hread' : readDirent buf limit (base + off) with
        | none => rfl
        | some ent =>
          rw [← hfit] at hread'
          rw [readDirent_drop.mpr hread'] at hread
          cases hread
    · rw [if_neg hlt, if_neg (by omega)]
      rfl

/-- What a removal looks at in the chunk `j` of a block. -/
def chunkRecords (block : Bytes) (chunk j : Nat) : List (Nat × Dirent) :=
  (records (block.drop (j * DIRBLKSIZ))
    (min DIRBLKSIZ (chunk - j * DIRBLKSIZ))).map (shifted (j * DIRBLKSIZ))

theorem le_of_mem_chunkRecords {block : Bytes} {chunk j : Nat}
    {r : Nat × Dirent} (h : r ∈ chunkRecords block chunk j) :
    j * DIRBLKSIZ ≤ r.1 := by
  obtain ⟨r', -, rfl⟩ := List.mem_map.mp h
  exact Nat.le_add_right _ _

/-- **Before the first bad record of the rest of a block** the walk of the block
and those of the chunks meet the same records. -/
theorem mem_recordsFrom_iff {block : Bytes} {chunk : Nat} {r : Nat × Dirent} :
    ∀ {n m : Nat}, m + n = (chunk + DIRBLKSIZ - 1) / DIRBLKSIZ →
      (∀ j, m ≤ j → (j + 1) * DIRBLKSIZ < chunk →
        chunkEnd block j ≠ DIRBLKSIZ → r.1 < j * DIRBLKSIZ + chunkEnd block j) →
      (r ∈ recordsFrom block chunk chunk (m * DIRBLKSIZ) ↔
        r ∈ (List.range' m n).flatMap (chunkRecords block chunk)) := by
  have hsize : DIRBLKSIZ = 1024 := rfl
  intro n
  induction n with
  | zero =>
    intro m hm _
    have hnil : recordsFrom block chunk chunk (m * DIRBLKSIZ) = [] := by
      rw [@recordsFrom_fuel block chunk chunk 0 _ (by omega) (by
        rw [hsize] at hm ⊢
        omega)]
      rfl
    rw [hnil]
    rfl
  | succ n ih =>
    intro m hm hbad
    rw [List.range'_succ, List.flatMap_cons, List.mem_append]
    by_cases hlast : n = 0
    · -- the last chunk of the block: both walks have the same end
      subst hlast
      have hwalk := @recordsFrom_last block chunk (m * DIRBLKSIZ)
        (chunk - m * DIRBLKSIZ) (by rw [hsize] at hm ⊢; omega)
        (chunk - m * DIRBLKSIZ) 0 (by omega)
      rw [Nat.add_zero] at hwalk
      have hmin : min DIRBLKSIZ (chunk - m * DIRBLKSIZ) = chunk - m * DIRBLKSIZ := by
        rw [hsize] at hm ⊢
        omega
      have hrecords : chunkRecords block chunk m
          = recordsFrom block chunk chunk (m * DIRBLKSIZ) := by
        unfold chunkRecords records
        rw [hmin, hwalk]
      rw [hrecords]
      exact (or_iff_left List.not_mem_nil).symm
    · have hend : (m + 1) * DIRBLKSIZ < chunk := by
        rw [hsize] at hm ⊢
        omega
      have hfits : m * DIRBLKSIZ + DIRBLKSIZ ≤ chunk := by
        rw [hsize] at hend ⊢
        omega
      have hpart := @recordsFrom_part block chunk (m * DIRBLKSIZ) DIRBLKSIZ hfits
        DIRBLKSIZ 0 (Nat.le_add_left _ _)
      rw [Nat.add_zero] at hpart
      have hrecords : chunkRecords block chunk m
          = (recordsFrom (block.drop (m * DIRBLKSIZ)) DIRBLKSIZ DIRBLKSIZ 0).map
              (shifted (m * DIRBLKSIZ)) := by
        unfold chunkRecords
        rw [Nat.min_eq_left (Nat.le_sub_of_add_le' hfits)]
        rfl
      rw [hpart, List.mem_append, hrecords]
      refine or_congr_right ?_
      by_cases hcovered : chunkEnd block m = DIRBLKSIZ
      · -- the walk of the block goes on at the next chunk
        have hnext := @ih (m + 1) (by omega) fun j hj => hbad j (by omega)
        unfold chunkEnd at hcovered
        rw [hcovered, ← Nat.succ_mul]
        exact hnext
      · -- what either walk meets from here on stands behind the bad record
        have hlt := hbad m le_rfl hend hcovered
        have hle : chunkEnd block m ≤ DIRBLKSIZ := walkEnd_le (Nat.zero_le _)
        refine iff_of_false (fun hmem => ?_) fun hmem => ?_
        · have hfrom := (recordsFrom_ascending _ _ _ _).2 r hmem
          unfold chunkEnd at hlt
          omega
        · obtain ⟨j, hj, hmem⟩ := List.mem_flatMap.mp hmem
          have hfrom := le_of_mem_chunkRecords hmem
          have hj := (List.mem_range'_1.mp hj).1
          have hmul := Nat.mul_le_mul_right DIRBLKSIZ hj
          rw [Nat.succ_mul] at hmul
          omega

/-- **Before the first bad record of a block** the two walks of it meet the same
records. -/
theorem mem_records_iff {block : Bytes} {chunk : Nat} {r : Nat × Dirent}
    (h : ∀ j, (j + 1) * DIRBLKSIZ < chunk → chunkEnd block j ≠ DIRBLKSIZ →
      r.1 < j * DIRBLKSIZ + chunkEnd block j) :
    r ∈ records block chunk ↔ r ∈ chunkWalk block chunk := by
  have hiff := @mem_recordsFrom_iff block chunk r _ 0 (Nat.zero_add _)
    fun j _ => h j
  rw [Nat.zero_mul, ← List.range_eq_range'] at hiff
  exact hiff

/-- A record of a name that is not empty has a length. -/
theorem namlen_ne_zero (hname : name ≠ []) {r : Nat × Dirent}
    (hr : readDirent buf limit r.1 = some r.2) (hcarries : carries name r = true) :
    r.2.namlen ≠ 0 := by
  intro hzero
  have htake := (readDirent_eq_some.mp hr).2.2.2.2.2.2.2
  rw [hzero, List.take_zero] at htake
  exact hname ((of_decide_eq_true hcarries).2.symm.trans htake)

/-- **Before the first bad record of the directory** the two walks meet the same
records of a name. -/
theorem mem_lookupWalk_iff (hname : name ≠ []) {r : Nat × Dirent}
    (hcarries : carries name r = true)
    (h : ∀ place, BadRecordAt sb d dirino place → r.1 < place) :
    r ∈ lookupWalk sb d dirino ↔ r ∈ removalWalk sb d dirino := by
  unfold lookupWalk removalWalk
  rw [List.mem_flatMap, List.mem_flatMap]
  refine exists_congr fun k => and_congr_right fun hk => ?_
  unfold lookupBlock removalBlock
  rw [List.mem_map, List.mem_map]
  refine exists_congr fun r' => and_congr_left fun hr => ?_
  have hblock : r' ∈ records (dirBlock sb d dirino k) (chunkBytes sb dirino.size k)
      ↔ r' ∈ chunkWalk (dirBlock sb d dirino k) (chunkBytes sb dirino.size k) := by
    refine mem_records_iff fun j hj hend => ?_
    have hplace : j + 1 < dirChunks sb dirino.size k := by
      unfold dirChunks
      have hsize : DIRBLKSIZ = 1024 := rfl
      rw [hsize] at hj ⊢
      omega
    have hlt := h _ ⟨(k, j), mem_dirPlaces.mpr ⟨List.mem_range.mp hk,
      Nat.lt_of_succ_lt hplace⟩, hplace, hend, rfl⟩
    rw [← hr] at hlt
    exact Nat.lt_of_add_lt_add_left hlt
  rw [List.mem_filter, ← hblock]
  refine and_iff_left_of_imp fun hmem => decide_eq_true ?_
  rw [← hr] at hcarries
  exact namlen_ne_zero hname (mem_recordsFrom hmem) hcarries

/-- **The first record of the name is met by both walks** when it stands before
every record that is malformed or crosses the end of its chunk. -/
theorem firstShared_before_bad (hname : name ≠ [])
    (h : NameBeforeBad sb d dirino name) : FirstMetByBoth sb d dirino name := by
  intro r hr hcarries hleast
  have hiff := mem_lookupWalk_iff hname hcarries (h r hr hcarries hleast)
  rcases hr with hr | hr
  · exact ⟨hr, hiff.mp hr⟩
  · exact ⟨hiff.mpr hr, hr⟩

/-- **Covered chunks suffice**: the first record of the name is met by both
walks. -/
theorem firstShared_of_covered (hname : name ≠ [])
    (h : ChunksCovered sb d dirino) : FirstMetByBoth sb d dirino name := by
  refine firstShared_before_bad hname fun r _ _ _ place hbad => ?_
  obtain ⟨x, hx, hlast, hend, -⟩ := hbad
  exact absurd (h x hx hlast) hend

end Covered

/-- **Lookup and removal agree on a name** whose first record stands before
every record that is malformed or crosses the end of its chunk. -/
theorem names_agree_before_bad {sb : Superblock} {d : Disk} {dirnode : Node}
    {name : Bytes} (hbs : 0 < sb.blockSize) (hinodes : hasInodes sb)
    (hdir : Allocated sb dirnode.inode)
    (hdots : nameIsDotOrDotdot name = false) (hname : name ≠ [])
    (h : NameBeforeBad sb d dirnode.inode name) : NamesAgree sb d dirnode name :=
  agree_of_firstMet hbs hinodes hdir hdots (firstShared_before_bad hname h)

/-! ## §7. Two chunks in a block. -/

/-- The geometry of the disk with two files, in fragments of 2048 bytes. -/
def pairSb : Superblock := { filesSb with blockSize := 2048, fragSize := 2048 }

/-- Its disk, with a root of one block: `.` and `..` in the first chunk, the
second of them of length `last`, and `f` in the second chunk. -/
def pairDisk (last : Nat) : Disk :=
  { filesDisk with
    inodes := fun m =>
      if m = 2 then { filesDisk.inodes 2 with size := 2048 }
      else filesDisk.inodes m
    data := fun i =>
      if i < 3072 then
        ([0, 0, 0, 2, 0, 12, 0, 1, 46, 0, 0, 0, 0, 0, 0, 2] ++ writeBe16 last
          ++ [0, 2, 46, 46, 0, 0]).getD (i - 2048) 0
      else [0, 0, 0, 3, 4, 0, 0, 1, 102, 0, 0, 0].getD (i - 3072) 0 }

/-- Its root. -/
def pairRoot (last : Nat) : Node := ⟨2, (pairDisk last).inodes 2⟩

theorem pair_allocated (last : Nat) : Allocated pairSb (pairRoot last).inode := by
  intro k hk
  have hone : fileBlocks pairSb (pairRoot last).inode.size = 1 :=
    (by decide : fileBlocks pairSb 2048 = 1)
  obtain rfl : k = 0 := by omega
  exact ⟨by decide, show (1 : Nat) ≠ 0 by decide⟩

/-- The first chunk covered: `f` is found, and removed. -/
theorem lookup_remove_agree_pair :
    NamesAgree pairSb (pairDisk 1012) (pairRoot 1012) [102] := by
  have hcovered : ChunksCovered pairSb (pairDisk 1012) (pairRoot 1012).inode := by
    unfold ChunksCovered
    decide +kernel
  exact (lookup_remove_agree (by decide) (by decide) (pair_allocated 1012)
    (by decide)).mpr (.inl (firstShared_of_covered (by decide) hcovered))

/-- **The first chunk ends in zeros**: a lookup does not find `f`, and a
removal finds and removes it. -/
theorem lookup_stops_early :
    Allocated pairSb (pairRoot 12).inode ∧
      findNameInDirectory pairSb (pairRoot 12).inode [102] (pairDisk 12)
        = .ok 0 (pairDisk 12) ∧
      (∃ node d', removeDirent pairSb (pairRoot 12) [102] (pairDisk 12)
        = .ok (node, 3) d') ∧
      ¬NamesAgree pairSb (pairDisk 12) (pairRoot 12) [102] := by
  have hnone : (lookupWalk pairSb (pairDisk 12) (pairRoot 12).inode).find?
      (carries [102]) = none := by
    decide +kernel
  have hsome : ((removalWalk pairSb (pairDisk 12) (pairRoot 12).inode).find?
      (carries [102])).map (·.2.ino) = some 3 := by
    decide +kernel
  have hremove := (removeDirent_iff (d := pairDisk 12) (by decide) (by decide)
    (pair_allocated 12) (by decide) 3).mpr hsome
  refine ⟨pair_allocated 12, ?_, hremove, fun h => ?_⟩
  · rw [findNameInDirectory_eq (by decide) (by decide), hnone]
    rfl
  · rw [agree_iff (by decide) (by decide) (pair_allocated 12) (by decide),
      hnone, hsome] at h
    cases h

end NextUfs
