/-
  NextUfs.Mutate.DirRemoval
  ─────────────────────────
  **A NAME TAKEN OUT OF A DIRECTORY.**

  `removeDirent` looks for the first record of the name, chunk by chunk, and
  joins it to the last record in use before it in its chunk.  It adds the two
  lengths, whatever stands between the records: when records that are not in
  use do, the longer record ends too early, and what follows is read from the
  middle of the old records.

    • `Found`            — the record that is met first,
    • `removeDirent_run` — what the code does with it,
    • `removed_iff`      — the directory loses the name and nothing else
      exactly when the bytes from the end of the longer record on are what the
      records behind the removed one are.
-/
import NextUfs.Core.Holes
import NextUfs.Mutate.JoinSpec
import NextUfs.Mutate.DirBlocks

namespace NextUfs

open State

/-! ## §1. Chunks of a block. -/

section Chunk

variable {block : Bytes} {i j : Nat} {prev : Option (Nat × Dirent)}
  {v : Nat × Dirent}

/-- Joining two records changes the chunk they are in. -/
theorem joined_chunk
    (hv : v.1 + 4 ≤ ((block.drop (i * DIRBLKSIZ)).take DIRBLKSIZ).length)
    (hprev : ∀ p, prev = some p → p.1 + 6 ≤
      ((block.drop (i * DIRBLKSIZ)).take DIRBLKSIZ).length) :
    ((joined block (i * DIRBLKSIZ) prev v).drop (j * DIRBLKSIZ)).take DIRBLKSIZ
      = if j = i then
          joined ((block.drop (i * DIRBLKSIZ)).take DIRBLKSIZ) 0 prev v
        else (block.drop (j * DIRBLKSIZ)).take DIRBLKSIZ := by
  unfold joined
  cases prev with
  | none =>
    dsimp only
    rw [Nat.zero_add]
    exact overlay_chunk hv
  | some p =>
    dsimp only
    rw [Nat.zero_add, Nat.add_assoc]
    exact overlay_chunk (hprev p rfl)

end Chunk

/-! ## §2. The record that is met first. -/

/-- The name is not among the entries. -/
def Without (name : Bytes) (es : List (Nat × Bytes)) : Prop :=
  ∀ e ∈ es, e.2 ≠ name

/-- **The first record of the name** is `v`, between `pre` and `post` in the
chunk `x`. -/
structure Found (sb : Superblock) (d : Disk) (dirino : Inode) (name : Bytes)
    (x : Nat × Nat) (pre : List (Nat × Dirent)) (v : Nat × Dirent)
    (post : List (Nat × Dirent)) : Prop where
  place : x ∈ dirPlaces sb dirino.size
  tiles : Tiles (dirChunk sb d dirino x) (dirChunk sb d dirino x).length 0
    (dirChunk sb d dirino x).length (pre ++ v :: post)
  inside : ∀ r ∈ pre ++ v :: post, NameInside r.2
  live : v.2.ino ≠ 0
  named : v.2.name = name
  first : Without name (entriesOf pre)
  before : ∀ y ∈ dirPlaces sb dirino.size,
    (y.1 < x.1 ∨ (y.1 = x.1 ∧ y.2 < x.2)) →
      Without name (chunkEntries (dirChunk sb d dirino y))

section Finding

variable {sb : Superblock} {d : Disk} {dirino : Inode} {name : Bytes}
  {es : List (Nat × Bytes)} {rs : List (Nat × Dirent)}

theorem without_append {es' : List (Nat × Bytes)} :
    Without name (es ++ es') ↔ Without name es ∧ Without name es' := by
  unfold Without
  exact List.forall_mem_append

theorem without_flatMap {α : Type} {l : List α}
    {e : α → List (Nat × Bytes)} :
    Without name (l.flatMap e) ↔ ∀ a ∈ l, Without name (e a) := by
  unfold Without
  constructor
  · intro h a ha x hx
    exact h x (List.mem_flatMap.mpr ⟨a, ha, hx⟩)
  · intro h x hx
    obtain ⟨a, ha, hx⟩ := List.mem_flatMap.mp hx
    exact h a ha x hx

/-- A list without the name loses nothing. -/
theorem filter_of_without (h : Without name es) :
    es.filter (fun e => e.2 ≠ name) = es :=
  List.filter_eq_self.mpr fun e he => decide_eq_true (h e he)

theorem without_filter (es : List (Nat × Bytes)) :
    Without name (es.filter fun e => e.2 ≠ name) :=
  fun _ he => of_decide_eq_true (List.mem_filter.mp he).2

/-- No record has the name. -/
theorem without_entriesOf :
    Without name (entriesOf rs) ↔
      ∀ r ∈ rs, ¬(r.2.ino ≠ 0 ∧ r.2.name = name) := by
  unfold Without
  constructor
  · rintro h r hr ⟨hlive, hname⟩
    exact h _ (mem_entriesOf.mpr ⟨r, hr, hlive, rfl⟩) hname
  · rintro h e he hname
    obtain ⟨r, hr, hlive, rfl⟩ := mem_entriesOf.mp he
    exact h r hr ⟨hlive, hname⟩

/-- The first member of a list with a property. -/
theorem exists_first {α : Type} {p : α → Prop} {l : List α}
    (h : ∃ a ∈ l, p a) :
    ∃ before a after, l = before ++ a :: after ∧ p a ∧ ∀ x ∈ before, ¬p x := by
  induction l with
  | nil =>
    obtain ⟨a, ha, -⟩ := h
    exact absurd ha List.not_mem_nil
  | cons b l ih =>
    by_cases hb : p b
    · exact ⟨[], b, l, rfl, hb, fun x hx => absurd hx List.not_mem_nil⟩
    · obtain ⟨a, ha, hpa⟩ := h
      have hal : a ∈ l := by
        rcases List.mem_cons.mp ha with rfl | ha
        · exact absurd hpa hb
        · exact ha
      obtain ⟨before, a, after, rfl, hpa, hbefore⟩ := ih ⟨a, hal, hpa⟩
      refine ⟨b :: before, a, after, rfl, hpa, fun x hx => ?_⟩
      rcases List.mem_cons.mp hx with rfl | hx
      · exact hb
      · exact hbefore x hx

/-- A name that is in the directory is met. -/
theorem exists_found (hpart : DirPartitioned sb d dirino)
    (hname : ∃ e ∈ dirEntries sb d dirino, e.2 = name) :
    ∃ x pre v post, Found sb d dirino name x pre v post := by
  obtain ⟨e, he, hen⟩ := hname
  obtain ⟨y, hy, hey⟩ := List.mem_flatMap.mp he
  -- the first chunk with the name
  obtain ⟨before, x, after, hplaces, ⟨e', he', hen'⟩, hbefore⟩ := exists_first
    (p := fun y => ∃ e ∈ chunkEntries (dirChunk sb d dirino y), e.2 = name)
    ⟨y, hy, e, hey, hen⟩
  have hplace : x ∈ dirPlaces sb dirino.size := by
    rw [hplaces]
    exact List.mem_append_right _ List.mem_cons_self
  obtain ⟨es, hes⟩ := hpart x hplace
  have hentries := hes.entries
  obtain ⟨rs, htiles, hinside, rfl⟩ := hes
  -- and its first record of the name
  rw [hentries] at he'
  obtain ⟨r, hr, hlive, rfl⟩ := mem_entriesOf.mp he'
  obtain ⟨pre, v, post, rfl, ⟨hvlive, hvname⟩, hpre⟩ := exists_first
    (p := fun r : Nat × Dirent => r.2.ino ≠ 0 ∧ r.2.name = name)
    ⟨r, hr, hlive, hen'⟩
  refine ⟨x, pre, v, post, hplace, htiles, hinside, hvlive, hvname,
    without_entriesOf.mpr hpre, ?_⟩
  · intro y hy hlt
    have hsorted := dirPlaces_pairwise sb dirino.size
    rw [hplaces] at hsorted hy
    have hymem : y ∈ before := by
      rcases List.mem_append.mp hy with hy | hy
      · exact hy
      · rcases List.mem_cons.mp hy with rfl | hy
        · omega
        · have hgt := List.rel_of_pairwise_cons
            (List.pairwise_append.mp hsorted).2.1 hy
          omega
    exact fun e he hen => hbefore y hymem ⟨e, he, hen⟩

end Finding

/-! ## §3. The run. -/

section Run

variable {sb : Superblock} {d : Disk} {dirnode : Node} {name : Bytes}
  {x : Nat × Nat} {pre post : List (Nat × Dirent)} {v : Nat × Dirent} {k : Nat}

theorem range_split {n : Nat} (h : k < n) :
    ∃ rest, List.range n = List.range k ++ k :: rest := by
  obtain ⟨m, rfl⟩ := Nat.exists_eq_add_of_lt h
  rw [Nat.add_assoc, List.range_add, List.range_succ_eq_map, List.map_cons,
    Nat.add_zero]
  exact ⟨_, rfl⟩

/-- The source walks the records of a chunk. -/
theorem records_chunk (sb : Superblock) (d : Disk) (dirino : Inode)
    (k j : Nat) :
    records ((dirBlock sb d dirino k).drop (j * DIRBLKSIZ))
        (min DIRBLKSIZ (chunkBytes sb dirino.size k - j * DIRBLKSIZ))
      = records (dirChunk sb d dirino (k, j))
          (dirChunk sb d dirino (k, j)).length := by
  rw [dirChunk_length, ← records_take]
  congr 1
  unfold dirChunk
  rw [List.take_eq_take_iff, List.length_drop, dirBlock_length]
  omega

/-- In a block without the name nothing is removed. -/
theorem removeInBlock_none
    (h : ∀ j < dirChunks sb dirnode.inode.size k,
      Without name (chunkEntries (dirChunk sb d dirnode.inode (k, j)))) :
    removeInBlock name (dirBlock sb d dirnode.inode k)
      (chunkBytes sb dirnode.inode.size k) = none := by
  unfold removeInBlock
  apply List.findSome?_eq_none_iff.mpr
  intro j hj
  dsimp only
  rw [records_chunk]
  exact removeRecord_none (without_entriesOf.mp (h j (List.mem_range.mp hj)))

/-- In the block of the first record of the name it is joined to the last one
in use before it. -/
theorem Found.removeInBlock (h : Found sb d dirnode.inode name x pre v post)
    (hdots : nameIsDotOrDotdot name = false) :
    removeInBlock name (dirBlock sb d dirnode.inode x.1)
        (chunkBytes sb dirnode.inode.size x.1)
      = some (.ok (joined (dirBlock sb d dirnode.inode x.1) (x.2 * DIRBLKSIZ)
          (lastLive pre) v, v.2.ino)) := by
  obtain ⟨hk, hj⟩ := mem_dirPlaces.mp h.place
  obtain ⟨rest, hrange⟩ := range_split hj
  unfold NextUfs.removeInBlock
  apply List.findSome?_eq_some_iff.mpr
  refine ⟨List.range x.2, x.2, rest, hrange, ?_, ?_⟩
  · dsimp only
    rw [records_chunk, ← removeRecord_shown, h.tiles.records]
    exact removeRecord_hit hdots (without_entriesOf.mp h.first) h.live h.named
  · intro j hjlt
    have hlt := List.mem_range.mp hjlt
    dsimp only
    rw [records_chunk]
    apply removeRecord_none
    apply without_entriesOf.mp
    exact h.before (x.1, j) (mem_dirPlaces.mpr ⟨hk, by dsimp only; omega⟩)
      (Or.inr ⟨rfl, hlt⟩)

/-- Blocks without the name are passed. -/
theorem removeBlocks_skip (hbs : 0 < sb.blockSize)
    (hpart : DirPartitioned sb d dirnode.inode) (rest : List Nat) :
    ∀ {ks : List Nat}, (∀ k ∈ ks, k < 12 ∧
        k < fileBlocks sb dirnode.inode.size ∧
        ∀ j < dirChunks sb dirnode.inode.size k,
          Without name (chunkEntries (dirChunk sb d dirnode.inode (k, j)))) →
      removeBlocks sb dirnode name (ks ++ rest) d
        = removeBlocks sb dirnode name rest d
  | [], _ => rfl
  | k :: ks, h => by
    obtain ⟨hk, hin, hwithout⟩ := h k List.mem_cons_self
    rw [List.cons_append, removeBlocks, bind_of_ok (readDirBlock_direct hbs hk)]
    dsimp only
    rw [dif_pos hk, if_neg (hpart.db_ne_zero hbs hk hin),
      removeInBlock_none hwithout]
    exact removeBlocks_skip hbs hpart rest fun k' hk' =>
      h k' (List.mem_cons_of_mem _ hk')

/-- What the disk is when the record has been joined. -/
def removedDisk (sb : Superblock) (d : Disk) (dirnode : Node) (dataFrag : Nat)
    (x : Nat × Nat) (prev : Option (Nat × Dirent)) (v : Nat × Dirent) : Disk :=
  { d.write (dataFrag * sb.fragSize)
      (joined (dirBlock sb d dirnode.inode x.1) (x.2 * DIRBLKSIZ) prev v) with
    inodes := Function.update d.inodes dirnode.inodeNo
      (touched d.clock dirnode.inode) }

/-- Where the two records are in the chunk. -/
theorem Found.inChunk (h : Found sb d dirnode.inode name x pre v post) :
    v.1 + 4 ≤ (dirChunk sb d dirnode.inode x).length ∧
      ∀ p, lastLive pre = some p →
        p.1 + 6 ≤ (dirChunk sb d dirnode.inode x).length := by
  constructor
  · have := (h.tiles.mem (r := v) (by simp)).2.2.1
    omega
  · intro p hp
    have hmem : p ∈ pre :=
      List.mem_reverse.mp (List.mem_of_find?_eq_some hp)
    have := (h.tiles.mem (List.mem_append_left _ hmem)).2.2.1
    omega

/-- The block with the records joined has the length it had. -/
theorem Found.joined_length
    (h : Found sb d dirnode.inode name x pre v post) :
    (joined (dirBlock sb d dirnode.inode x.1) (x.2 * DIRBLKSIZ)
      (lastLive pre) v).length = chunkBytes sb dirnode.inode.size x.1 := by
  obtain ⟨hv, hprev⟩ := h.inChunk
  rw [dirChunk_length] at hv hprev
  rw [← dirBlock_length sb d dirnode.inode x.1]
  unfold joined
  cases hlast : lastLive pre with
  | none =>
    have hfour : (writeBe32 0).length = 4 := rfl
    apply overlay_length
    rw [dirBlock_length]
    omega
  | some p =>
    have htwo : (writeBe16 (p.2.reclen + v.2.reclen)).length = 2 := rfl
    have := hprev p hlast
    apply overlay_length
    rw [dirBlock_length]
    omega

/-- **What the code does** with the record it meets first, when its block has a
direct pointer. -/
theorem removeDirent_run (hbs : 0 < sb.blockSize) (hinodes : hasInodes sb)
    (hpart : DirPartitioned sb d dirnode.inode)
    (hdots : nameIsDotOrDotdot name = false)
    (h : Found sb d dirnode.inode name x pre v post) (hk : x.1 < 12) :
    removeDirent sb dirnode name d
      = .ok (⟨dirnode.inodeNo, touched d.clock dirnode.inode⟩, v.2.ino)
          (removedDisk sb d dirnode (dirnode.inode.db ⟨x.1, hk⟩) x
            (lastLive pre) v) := by
  obtain ⟨hin, -⟩ := mem_dirPlaces.mp h.place
  obtain ⟨rest, hrange⟩ := range_split hin
  unfold removeDirent
  rw [hrange, removeBlocks_skip hbs hpart, removeBlocks,
    bind_of_ok (readDirBlock_direct hbs hk)]
  · dsimp only
    rw [dif_pos hk, if_neg (hpart.db_ne_zero hbs hk hin), h.removeInBlock hdots]
    dsimp only
    rw [List.take_of_length_le h.joined_length.le]
    have hwrite : writeExact (dirnode.inode.db ⟨x.1, hk⟩ * sb.fragSize)
        (joined (dirBlock sb d dirnode.inode x.1) (x.2 * DIRBLKSIZ)
          (lastLive pre) v) d
      = .ok () (d.write (dirnode.inode.db ⟨x.1, hk⟩ * sb.fragSize)
          (joined (dirBlock sb d dirnode.inode x.1) (x.2 * DIRBLKSIZ)
            (lastLive pre) v)) := rfl
    rw [bind_of_ok hwrite]
    refine bind_of_ok ?_
    rw [updateNodeTimes_eq, if_pos hinodes]
    rfl
  · intro k hkmem
    have hlt := List.mem_range.mp hkmem
    refine ⟨by omega, by omega, fun j hj => ?_⟩
    exact h.before (k, j) (mem_dirPlaces.mpr ⟨by dsimp only; omega, hj⟩)
      (Or.inl hlt)

/-- Behind the direct pointers nothing is removed. -/
theorem removeDirent_beyond (hbs : 0 < sb.blockSize)
    (hpart : DirPartitioned sb d dirnode.inode)
    (h : Found sb d dirnode.inode name x pre v post) (hk : 12 ≤ x.1) :
    ∃ e, removeDirent sb dirnode name d = .error e d := by
  obtain ⟨hin, -⟩ := mem_dirPlaces.mp h.place
  obtain ⟨rest, hrange⟩ := range_split (show 12 < fileBlocks sb
    dirnode.inode.size by omega)
  unfold removeDirent
  rw [hrange, removeBlocks_skip hbs hpart, removeBlocks]
  · rcases @readDirBlock_cases sb d dirnode.inode 12 hbs with hread | hread
    · rw [bind_of_ok hread]
      exact ⟨_, rfl⟩
    · rw [bind_of_error hread]
      exact ⟨_, rfl⟩
  · intro k hkmem
    have hlt := List.mem_range.mp hkmem
    refine ⟨hlt, by omega, fun j hj => ?_⟩
    exact h.before (k, j) (mem_dirPlaces.mpr ⟨by dsimp only; omega, hj⟩)
      (Or.inl (by dsimp only; omega))

/-- The chunks when the record has been joined. -/
theorem Found.dirChunk_after (hgeo : DataGeometry sb)
    (honce : ∀ f, blockClaims sb d dirnode.inode f ≤ 1)
    (hpart : DirPartitioned sb d dirnode.inode)
    (h : Found sb d dirnode.inode name x pre v post) (hk : x.1 < 12)
    {y : Nat × Nat} (hy : y ∈ dirPlaces sb dirnode.inode.size) :
    dirChunk sb (removedDisk sb d dirnode (dirnode.inode.db ⟨x.1, hk⟩) x
          (lastLive pre) v) (touched d.clock dirnode.inode) y
      = if y = x then
          joined (dirChunk sb d dirnode.inode x) 0 (lastLive pre) v
        else dirChunk sb d dirnode.inode y := by
  obtain ⟨hin, -⟩ := mem_dirPlaces.mp h.place
  obtain ⟨hv, hprev⟩ := h.inChunk
  have hdb := hpart.db_ne_zero hgeo.blockSize_pos hk hin
  have hblock : dirBlock sb (removedDisk sb d dirnode
          (dirnode.inode.db ⟨x.1, hk⟩) x (lastLive pre) v)
        (touched d.clock dirnode.inode) y.1
      = if y.1 = x.1 then
          joined (dirBlock sb d dirnode.inode x.1) (x.2 * DIRBLKSIZ)
            (lastLive pre) v
        else dirBlock sb d dirnode.inode y.1 := by
    rw [← write_dirBlock hgeo honce hk hin hdb h.joined_length
      (mem_dirPlaces.mp hy).1]
    exact dirBlock_congr rfl rfl rfl rfl y.1
  unfold dirChunk at hv hprev ⊢
  rw [hblock]
  by_cases hfst : y.1 = x.1
  · rw [if_pos hfst, joined_chunk hv hprev, hfst]
    by_cases hsnd : y.2 = x.2
    · rw [if_pos hsnd, if_pos (Prod.ext hfst hsnd)]
    · rw [if_neg hsnd, if_neg fun heq => hsnd (congrArg Prod.snd heq)]
  · rw [if_neg hfst, if_neg fun heq => hfst (congrArg Prod.fst heq)]

end Run

/-! ## §4. Removal. -/

/-- **The directory loses the name and nothing else**: the call succeeds, every
chunk is still partitioned, the entries are the old ones without the name, and
every other record in use keeps its inode number and its name. -/
def Removed (sb : Superblock) (d : Disk) (dirnode : Node) (name : Bytes) :
    Prop :=
  ∃ node ino d', removeDirent sb dirnode name d = .ok (node, ino) d' ∧
    DirPartitioned sb d' node.inode ∧
    dirEntries sb d' node.inode
      = (dirEntries sb d dirnode.inode).filter (fun e => e.2 ≠ name) ∧
    ∀ x ∈ dirPlaces sb dirnode.inode.size,
      ∀ rs, Tiles (dirChunk sb d dirnode.inode x)
          (dirChunk sb d dirnode.inode x).length 0
          (dirChunk sb d dirnode.inode x).length rs →
        ∀ r ∈ rs, r.2.ino ≠ 0 → r.2.name ≠ name →
          SameBytes (dirChunk sb d dirnode.inode x)
              (dirChunk sb d' node.inode x) r.1 (r.1 + 4) ∧
            SameBytes (dirChunk sb d dirnode.inode x)
              (dirChunk sb d' node.inode x) (r.1 + 8)
              (r.1 + 8 + r.2.namlen)

/-- The first record of the name has a direct pointer, no other chunk has the
name, and from the end of the joined records on the chunk is tiled by records
with the entries of those behind the removed one, less the name. -/
def JoinsRightly (sb : Superblock) (d : Disk) (dirino : Inode) (name : Bytes) :
    Prop :=
  ∃ x pre v post rs, Found sb d dirino name x pre v post ∧ x.1 < 12 ∧
    (∀ y ∈ dirPlaces sb dirino.size, y ≠ x →
      Without name (chunkEntries (dirChunk sb d dirino y))) ∧
    Tiles (dirChunk sb d dirino x) (dirChunk sb d dirino x).length
      (joinedEnd (lastLive pre) v) (dirChunk sb d dirino x).length rs ∧
    (∀ r ∈ rs, NameInside r.2) ∧
    entriesOf rs = (entriesOf post).filter fun e => e.2 ≠ name

section Removal

variable {sb : Superblock} {d : Disk} {dirnode : Node} {name : Bytes}
  {x : Nat × Nat} {pre post : List (Nat × Dirent)} {v : Nat × Dirent}

/-- The entries of the chunk of the first record of the name. -/
theorem Found.entries (h : Found sb d dirnode.inode name x pre v post) :
    chunkEntries (dirChunk sb d dirnode.inode x)
      = entriesOf pre ++ (v.2.ino, v.2.name) :: entriesOf post := by
  have hentries := Partitioned.entries ⟨_, h.tiles, h.inside, rfl⟩
  rw [hentries, entriesOf_append, entriesOf_cons_live h.live]

/-- Records in use between which nothing stands are joined rightly, if the name
is there once. -/
theorem joinsRightly_of_adjacent
    (h : Found sb d dirnode.inode name x pre v post) (hk : x.1 < 12)
    (hothers : ∀ y ∈ dirPlaces sb dirnode.inode.size, y ≠ x →
      Without name (chunkEntries (dirChunk sb d dirnode.inode y)))
    (hpost : Without name (entriesOf post))
    (hnext : ∀ p, lastLive pre = some p → p.1 + p.2.reclen = v.1) :
    JoinsRightly sb d dirnode.inode name := by
  obtain ⟨-, -, htail⟩ := h.tiles.around
  refine ⟨x, pre, v, post, post, h, hk, hothers, ?_, ?_,
    (filter_of_without hpost).symm⟩
  · unfold joinedEnd
    cases hlast : lastLive pre with
    | none => exact htail
    | some p =>
      show Tiles _ _ (p.1 + (p.2.reclen + v.2.reclen)) _ _
      rw [← Nat.add_assoc, hnext p hlast]
      exact htail
  · exact fun r hr =>
      h.inside r (List.mem_append_right _ (List.mem_cons_of_mem _ hr))

/-- One entry replaced by nothing, and some entries by others, is the list
without the name exactly when the others are. -/
theorem filter_split_iff {B P R S A : List (Nat × Bytes)} {e : Nat × Bytes}
    (hP : Without name P) (he : e.2 = name) :
    B ++ (P ++ R ++ A)
        = (B ++ (P ++ e :: S ++ A)).filter (fun e => e.2 ≠ name) ↔
      Without name B ∧ Without name A ∧
        R = S.filter fun e => e.2 ≠ name := by
  have hremoved : (e :: S).filter (fun e => e.2 ≠ name)
      = S.filter fun e => e.2 ≠ name :=
    List.filter_cons_of_neg fun h => of_decide_eq_true h he
  rw [List.filter_append, List.filter_append, List.filter_append, hremoved,
    filter_of_without hP]
  constructor
  · intro h
    -- what is left has no entry of the name
    have hwithout : Without name (B ++ (P ++ R ++ A)) := by
      rw [h]
      exact without_append.mpr ⟨without_filter B, without_append.mpr
        ⟨without_append.mpr ⟨hP, without_filter S⟩, without_filter A⟩⟩
    rw [without_append, without_append] at hwithout
    obtain ⟨hB, -, hA⟩ := hwithout
    rw [filter_of_without hB, filter_of_without hA] at h
    exact ⟨hB, hA, List.append_cancel_left
      (List.append_cancel_right (List.append_cancel_left h))⟩
  · rintro ⟨hB, hA, rfl⟩
    rw [filter_of_without hB, filter_of_without hA]

/-- The entries afterwards, when the joined chunk has some. -/
theorem Found.entries_after (hgeo : DataGeometry sb)
    (honce : ∀ f, blockClaims sb d dirnode.inode f ≤ 1)
    (hpart : DirPartitioned sb d dirnode.inode)
    (h : Found sb d dirnode.inode name x pre v post) (hk : x.1 < 12)
    {rs : List (Nat × Dirent)}
    (hes : Partitioned (joined (dirChunk sb d dirnode.inode x) 0
      (lastLive pre) v) (entriesOf pre ++ entriesOf rs)) :
    dirEntries sb (removedDisk sb d dirnode (dirnode.inode.db ⟨x.1, hk⟩) x
          (lastLive pre) v) (touched d.clock dirnode.inode)
        = (dirEntries sb d dirnode.inode).filter (fun e => e.2 ≠ name) ↔
      (∀ y ∈ dirPlaces sb dirnode.inode.size, y ≠ x →
          Without name (chunkEntries (dirChunk sb d dirnode.inode y))) ∧
        entriesOf rs = (entriesOf post).filter fun e => e.2 ≠ name := by
  have hafter := fun y => @Found.dirChunk_after sb d dirnode name x pre post v
    hgeo honce hpart h hk y
  obtain ⟨before, after, hmem, hsplit⟩ := entries_split h.place
  -- the other chunks are what they were
  have hsame : ∀ l : List (Nat × Nat), (∀ y ∈ l, y ∈ before ++ after) →
      l.flatMap (fun y => chunkEntries (dirChunk sb
          (removedDisk sb d dirnode (dirnode.inode.db ⟨x.1, hk⟩) x
            (lastLive pre) v) (touched d.clock dirnode.inode) y))
        = l.flatMap fun y => chunkEntries
            (dirChunk sb d dirnode.inode y) := by
    intro l hl
    apply List.flatMap_congr
    intro y hy
    obtain ⟨hplace, hne⟩ := (hmem y).mp (hl y hy)
    rw [hafter y hplace, if_neg hne]
  have hothers : (∀ y ∈ dirPlaces sb dirnode.inode.size, y ≠ x →
        Without name (chunkEntries (dirChunk sb d dirnode.inode y))) ↔
      Without name (before.flatMap fun y => chunkEntries
          (dirChunk sb d dirnode.inode y)) ∧
        Without name (after.flatMap fun y => chunkEntries
          (dirChunk sb d dirnode.inode y)) := by
    rw [without_flatMap, without_flatMap, ← List.forall_mem_append]
    exact ⟨fun hall y hy => hall y ((hmem y).mp hy).1 ((hmem y).mp hy).2,
      fun hall y hy hne => hall y ((hmem y).mpr ⟨hy, hne⟩)⟩
  rw [hsplit _ (touched d.clock dirnode.inode) rfl, hsplit d dirnode.inode rfl,
    hafter x h.place, if_pos rfl, hes.entries,
    hsame before fun y hy => List.mem_append_left _ hy,
    hsame after fun y hy => List.mem_append_right _ hy, h.entries,
    filter_split_iff h.first h.named, hothers, and_assoc]

/-- **The directory loses the name and nothing else exactly when the records
are joined rightly.** -/
theorem removed_iff (hgeo : DataGeometry sb) (hinodes : hasInodes sb)
    (honce : ∀ f, blockClaims sb d dirnode.inode f ≤ 1)
    (hpart : DirPartitioned sb d dirnode.inode)
    (hdots : nameIsDotOrDotdot name = false)
    (hname : ∃ e ∈ dirEntries sb d dirnode.inode, e.2 = name) :
    Removed sb d dirnode name ↔ JoinsRightly sb d dirnode.inode name := by
  have hbs := hgeo.blockSize_pos
  have hsmall : ∀ x, (dirChunk sb d dirnode.inode x).length < 2 ^ 16 := by
    intro x
    rw [dirChunk_length]
    exact Nat.lt_of_le_of_lt (Nat.min_le_left _ _) (by decide)
  constructor
  · rintro ⟨node, ino, d', hrun, hpart', hentries, -⟩
    obtain ⟨x, pre, v, post, h⟩ := exists_found hpart hname
    by_cases hk : x.1 < 12
    · rw [removeDirent_run hbs hinodes hpart hdots h hk] at hrun
      cases hrun
      obtain ⟨es, hes⟩ := hpart' x h.place
      rw [h.dirChunk_after hgeo honce hpart hk h.place, if_pos rfl] at hes
      have hes' := hes
      rw [joined_partitioned_iff (hsmall x) h.tiles h.inside h.live] at hes
      obtain ⟨rs, hrs, hinside, rfl⟩ := hes
      obtain ⟨hothers, heq⟩ :=
        (h.entries_after hgeo honce hpart hk hes').mp hentries
      exact ⟨x, pre, v, post, rs, h, hk, hothers, hrs, hinside, heq⟩
    · obtain ⟨e, herr⟩ := removeDirent_beyond hbs hpart h (by omega)
      rw [herr] at hrun
      cases hrun
  · rintro ⟨x, pre, v, post, rs, h, hk, hothers, hrs, hinside, heq⟩
    have hafter := fun y => @Found.dirChunk_after sb d dirnode name x pre post v
      hgeo honce hpart h hk y
    have hes := (joined_partitioned_iff (hsmall x) h.tiles h.inside h.live).mpr
      ⟨rs, hrs, hinside, rfl⟩
    refine ⟨_, _, _, removeDirent_run hbs hinodes hpart hdots h hk, ?_,
      (h.entries_after hgeo honce hpart hk hes).mpr ⟨hothers, heq⟩, ?_⟩
    · intro y hy
      rw [hafter y hy]
      by_cases heqx : y = x
      · rw [if_pos heqx]
        exact ⟨_, hes⟩
      · rw [if_neg heqx]
        exact hpart y hy
    · intro y hy rs' hrs' r hr hrlive hrname
      rw [hafter y hy]
      by_cases heqx : y = x
      · subst heqx
        rw [if_pos rfl]
        rw [h.tiles.unique hrs'] at hr
        refine joined_kept h.tiles h.inside h.live ?_ hrlive
        rcases List.mem_append.mp hr with hr | hr
        · exact List.mem_append_left _ hr
        · rcases List.mem_cons.mp hr with rfl | hr
          · exact absurd h.named hrname
          · exact List.mem_append_right _ hr
      · rw [if_neg heqx]
        exact ⟨fun _ _ _ => rfl, fun _ _ _ => rfl⟩

end Removal

/-! ## §5. A gap before the record. -/

/-- The disk with two files when the record of `f` is not in use. -/
def gapDisk : Disk :=
  { filesDisk with
    data := fun i => if i = 64 + 27 then 0 else filesDisk.data i }

theorem files_partitioned :
    DirPartitioned filesSb filesDisk filesRootNode.inode := by
  have hwalk : ∀ x ∈ dirPlaces filesSb filesRootNode.inode.size,
      walkEnd (dirChunk filesSb filesDisk filesRootNode.inode x)
          (dirChunk filesSb filesDisk filesRootNode.inode x).length
          (dirChunk filesSb filesDisk filesRootNode.inode x).length 0
        = (dirChunk filesSb filesDisk filesRootNode.inode x).length ∧
      ∀ r ∈ records (dirChunk filesSb filesDisk filesRootNode.inode x)
          (dirChunk filesSb filesDisk filesRootNode.inode x).length,
        NameInside r.2 := by
    decide +kernel
  exact fun x hx => ⟨_, partitioned_of_walk (hwalk x hx).1 (hwalk x hx).2⟩

/-- The name of `g` is taken out of the root of the two files' disk. -/
theorem removed_iff_files :
    Removed filesSb filesDisk filesRootNode [103] := by
  have hclaims : ∀ f, blockClaims filesSb filesDisk filesRootNode.inode f
      ≤ 1 := by
    intro f
    have hle := files_owned.sum_le f
    have hroot := Finset.single_le_sum
      (f := fun m => inodeClaims filesSb filesDisk (filesDisk.inodes m) f)
      (fun _ _ => Nat.zero_le _) (show 2 ∈ ({2, 3, 4} : Finset Nat) by decide)
    have hstores : inodeClaims filesSb filesDisk (filesDisk.inodes 2) f
        = blockClaims filesSb filesDisk (filesDisk.inodes 2) f :=
      if_pos (by decide)
    show blockClaims filesSb filesDisk (filesDisk.inodes 2) f ≤ 1
    omega
  have hname : ∃ e ∈ dirEntries filesSb filesDisk filesRootNode.inode,
      e.2 = [103] := by
    decide +kernel
  refine (removed_iff files_geometry (by decide) hclaims files_partitioned
    (by decide) hname).mpr ?_
  have htiles := tiles_walk (dirChunk filesSb filesDisk filesRootNode.inode (0, 0))
    48 48 0
  have hend : walkEnd (dirChunk filesSb filesDisk filesRootNode.inode (0, 0))
      48 48 0 = 48 := by
    decide +kernel
  have hrecords : (recordsFrom (dirChunk filesSb filesDisk filesRootNode.inode
        (0, 0)) 48 48 0).map (fun r => (r.1, r.2.shown))
      = [(0, ⟨2, 12, 1, [46]⟩), (12, ⟨2, 12, 2, [46, 46]⟩),
          (24, ⟨3, 12, 1, [102]⟩)] ++ (36, ⟨4, 12, 1, [103]⟩) :: [] := by
    decide +kernel
  rw [hend, hrecords] at htiles
  have hsize : (dirChunk filesSb filesDisk filesRootNode.inode (0, 0)).length
      = 48 := by
    decide +kernel
  have hplaces : ∀ y ∈ dirPlaces filesSb filesRootNode.inode.size,
      y = (0, 0) := by
    decide +kernel
  have hfound : Found filesSb filesDisk filesRootNode.inode [103] (0, 0)
      [(0, ⟨2, 12, 1, [46]⟩), (12, ⟨2, 12, 2, [46, 46]⟩),
        (24, ⟨3, 12, 1, [102]⟩)] (36, ⟨4, 12, 1, [103]⟩) [] := by
    refine ⟨by decide +kernel, by rw [hsize]; exact htiles, by decide,
      by decide, rfl, by unfold Without; decide, fun y hy hlt => ?_⟩
    rw [hplaces y hy] at hlt
    omega
  refine joinsRightly_of_adjacent hfound (by decide)
    (fun y hy hne => absurd (hplaces y hy) hne) (by unfold Without; decide) ?_
  intro p hp
  cases hp
  rfl

/-- **A record that is not in use stands between**: the name is still there
after a removal that succeeded. -/
theorem not_removed_gap :
    DirPartitioned filesSb gapDisk filesRootNode.inode ∧
      (∃ e ∈ dirEntries filesSb gapDisk filesRootNode.inode, e.2 = [103]) ∧
      ¬Removed filesSb gapDisk filesRootNode [103] := by
  have hwalk : ∀ x ∈ dirPlaces filesSb filesRootNode.inode.size,
      walkEnd (dirChunk filesSb gapDisk filesRootNode.inode x)
          (dirChunk filesSb gapDisk filesRootNode.inode x).length
          (dirChunk filesSb gapDisk filesRootNode.inode x).length 0
        = (dirChunk filesSb gapDisk filesRootNode.inode x).length ∧
      ∀ r ∈ records (dirChunk filesSb gapDisk filesRootNode.inode x)
          (dirChunk filesSb gapDisk filesRootNode.inode x).length,
        NameInside r.2 := by
    decide +kernel
  have hstill : (match removeDirent filesSb filesRootNode [103] gapDisk with
      | .ok (node, _) d' =>
        decide (∃ e ∈ dirEntries filesSb d' node.inode, e.2 = [103])
      | .error _ _ => false) = true := by
    decide +kernel
  refine ⟨fun x hx => ⟨_, partitioned_of_walk (hwalk x hx).1 (hwalk x hx).2⟩,
    by decide +kernel, ?_⟩
  rintro ⟨node, ino, d', hrun, -, hentries, -⟩
  rw [hrun] at hstill
  obtain ⟨e, he, hname⟩ := of_decide_eq_true hstill
  rw [hentries] at he
  exact without_filter _ e he hname

end NextUfs
