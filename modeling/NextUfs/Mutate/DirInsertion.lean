/-
  NextUfs.Mutate.DirInsertion
  ───────────────────────────
  **A NAME PUT INTO A DIRECTORY.**

  `insertDirent` walks the records of a whole block, so a record it takes is
  first looked up among the records of its chunk.  Without room the directory
  grows by a chunk that is one record.

    • `exists_slot`           — the record taken, in its chunk,
    • `inserted_slot`         — the directory with the new record in its room,
    • `inserted_behind`       — the directory with the new record behind its end,
    • `insertDirent_inserted` — an insertion that succeeds adds the entry and
      nothing else, whichever way it found the room.
-/
import NextUfs.Mutate.DirGrowth
import NextUfs.Mutate.InsertBounds
import NextUfs.Mutate.Rollback

namespace NextUfs

open State Radix

/-! ## §1. The record taken. -/

section Locate

variable {buf : Bytes} {limit off stop : Nat} {rs : List (Nat × Dirent)}

/-- A tiling of the first bytes of a buffer. -/
theorem Tiles.ofTake (h : Tiles (buf.take limit) limit off stop rs) :
    Tiles buf limit off stop rs := by
  induction h with
  | nil => exact .nil _
  | cons hread _ ih =>
    rw [readDirent_take] at hread
    exact .cons hread ih

end Locate

section Slot

variable {sb : Superblock} {d : Disk} {dirino : Inode} {name : Bytes}
  {k j : Nat} {r : Nat × Dirent} {ks : List Nat}

/-- The records the search sees are those of the blocks. -/
theorem records_of_searched (hbs : 0 < sb.blockSize) : ∀ {ks : List Nat},
    (k, r) ∈ searched sb d dirino ks →
      r ∈ records (dirBlock sb d dirino k) (chunkBytes sb dirino.size k)
  | [], h => absurd h List.not_mem_nil
  | k' :: rest, h => by
    unfold searched at h
    rcases @readDirBlock_cases sb d dirino k' hbs with hread | hread
    · rw [hread] at h
      rcases List.mem_append.mp h with h | h
      · obtain ⟨r', hr', heq⟩ := List.mem_map.mp h
        cases heq
        exact hr'
      · exact records_of_searched hbs h
    · rw [hread] at h
      exact absurd h List.not_mem_nil

/-- A chunk's records stand in its block. -/
theorem block_tiles {rs : List (Nat × Dirent)}
    (hj : j * DIRBLKSIZ ≤ chunkBytes sb dirino.size k)
    (h : Tiles (dirChunk sb d dirino (k, j))
      (dirChunk sb d dirino (k, j)).length 0
      (dirChunk sb d dirino (k, j)).length rs) :
    Tiles (dirBlock sb d dirino k) (chunkBytes sb dirino.size k)
      (j * DIRBLKSIZ)
      (min ((j + 1) * DIRBLKSIZ) (chunkBytes sb dirino.size k))
      (rs.map fun r => (j * DIRBLKSIZ + r.1, r.2)) := by
  have hlen := dirChunk_length sb d dirino (k, j)
  dsimp only at hlen
  have htake : dirChunk sb d dirino (k, j)
      = ((dirBlock sb d dirino k).drop (j * DIRBLKSIZ)).take
          (dirChunk sb d dirino (k, j)).length := by
    rw [hlen]
    unfold dirChunk
    rw [List.take_eq_take_iff, List.length_drop, dirBlock_length]
    dsimp only
    omega
  generalize (dirChunk sb d dirino (k, j)).length = len at h hlen htake
  rw [htake] at h
  have hshift := (Tiles.ofTake h).shift
  have hend : j * DIRBLKSIZ + len
      = min ((j + 1) * DIRBLKSIZ) (chunkBytes sb dirino.size k) := by
    rw [Nat.add_mul, Nat.one_mul]
    omega
  rw [hend, Nat.add_zero (j * DIRBLKSIZ)] at hshift
  exact hshift.mono (Nat.min_le_right _ _)

/-- The first `j` chunks of a block tile it up to there. -/
theorem block_tiles_upto (hchunks : WellChunks sb d dirino)
    (hk : k < fileBlocks sb dirino.size) : ∀ j ≤ dirChunks sb dirino.size k,
    ∃ rs, Tiles (dirBlock sb d dirino k) (chunkBytes sb dirino.size k) 0
        (min (j * DIRBLKSIZ) (chunkBytes sb dirino.size k)) rs ∧
      ∀ r ∈ rs, ∃ i < j, ∃ rs' r', Tiles (dirChunk sb d dirino (k, i))
          (dirChunk sb d dirino (k, i)).length 0
          (dirChunk sb d dirino (k, i)).length rs' ∧ Fitting rs' ∧ r' ∈ rs' ∧
        r = (i * DIRBLKSIZ + r'.1, r'.2) := by
  intro j
  induction j with
  | zero =>
    intro _
    refine ⟨[], ?_, fun r hr => absurd hr List.not_mem_nil⟩
    rw [Nat.zero_mul, Nat.zero_min]
    exact .nil 0
  | succ j ih =>
    intro hj
    obtain ⟨rs, htiles, hfrom⟩ := ih (by omega)
    obtain ⟨es, rs', htiles', hfits, -⟩ :=
      hchunks (k, j) (mem_dirPlaces.mpr ⟨hk, hj⟩)
    have hlt : j * DIRBLKSIZ ≤ chunkBytes sb dirino.size k := by
      unfold dirChunks DIRBLKSIZ at hj
      unfold DIRBLKSIZ
      omega
    rw [Nat.min_eq_left hlt] at htiles
    refine ⟨_, htiles.append (block_tiles hlt htiles'), fun r hr => ?_⟩
    rcases List.mem_append.mp hr with hr | hr
    · obtain ⟨i, hi, hrest⟩ := hfrom r hr
      exact ⟨i, by omega, hrest⟩
    · obtain ⟨r', hr', rfl⟩ := List.mem_map.mp hr
      exact ⟨j, Nat.lt_succ_self j, rs', r', htiles', hfits, hr', rfl⟩

/-- **A record of a block is a record of one of its chunks.** -/
theorem mem_chunk (hchunks : WellChunks sb d dirino)
    (hk : k < fileBlocks sb dirino.size)
    (hr : r ∈ records (dirBlock sb d dirino k)
      (chunkBytes sb dirino.size k)) :
    ∃ j < dirChunks sb dirino.size k, ∃ rs' r',
      Tiles (dirChunk sb d dirino (k, j)) (dirChunk sb d dirino (k, j)).length
        0 (dirChunk sb d dirino (k, j)).length rs' ∧ Fitting rs' ∧ r' ∈ rs' ∧
      r.1 = j * DIRBLKSIZ + r'.1 ∧ r.2.shown = r'.2 := by
  obtain ⟨rs, htiles, hfrom⟩ := block_tiles_upto hchunks hk _ le_rfl
  have hend : min (dirChunks sb dirino.size k * DIRBLKSIZ)
      (chunkBytes sb dirino.size k) = chunkBytes sb dirino.size k := by
    unfold dirChunks DIRBLKSIZ
    omega
  rw [hend] at htiles
  have hmem : (r.1, r.2.shown) ∈ rs := by
    rw [← htiles.records]
    exact List.mem_map.mpr ⟨r, hr, rfl⟩
  obtain ⟨j, hj, rs', r', htiles', hfits, hr', heq⟩ := hfrom _ hmem
  obtain ⟨hat, hshown⟩ := Prod.mk.inj heq
  exact ⟨j, hj, rs', r', htiles', hfits, hr', hat, hshown⟩

end Slot

/-! ## §2. The record placed. -/

section Place

variable {block name : Bytes} {newInode i j : Nat} {r r' : Nat × Dirent}

/-- What is placed in a block is placed in the chunk of the record. -/
theorem placed_chunk (hat : r.1 = j * DIRBLKSIZ + r'.1)
    (hshown : r.2.shown = r'.2)
    (hinside : r'.1 + 6
      ≤ ((block.drop (j * DIRBLKSIZ)).take DIRBLKSIZ).length)
    (hend : newOffset r' + room r'.2
      ≤ ((block.drop (j * DIRBLKSIZ)).take DIRBLKSIZ).length)
    (hneed : direntSize name.length ≤ room r'.2) :
    ((placed block r newInode name).drop (i * DIRBLKSIZ)).take DIRBLKSIZ
      = if i = j then
          placed ((block.drop (j * DIRBLKSIZ)).take DIRBLKSIZ) r' newInode name
        else (block.drop (i * DIRBLKSIZ)).take DIRBLKSIZ := by
  have hino : r.2.ino = r'.2.ino := by rw [← hshown, shown_ino]
  have hnam : r.2.namlen = r'.2.namlen := by rw [← hshown, shown_namlen]
  have hroom : room r.2 = room r'.2 := by rw [← hshown, room_shown]
  have hoff : newOffset r = j * DIRBLKSIZ + newOffset r' := by
    unfold newOffset
    rw [hat, hino, hnam, Nat.add_assoc]
  have htwo : (writeBe16 (direntSize r'.2.namlen)).length = 2 := rfl
  have hpos := direntSize_pos name.length
  have hraw : (rawDirent newInode (room r'.2) name).length = room r'.2 :=
    rawDirent_length (by omega)
  -- the record in use is cut first
  have hcut : ∀ i, ((if r'.2.ino = 0 then block
        else overlay block (j * DIRBLKSIZ + (r'.1 + 4))
          (writeBe16 (direntSize r'.2.namlen))).drop
            (i * DIRBLKSIZ)).take DIRBLKSIZ
      = if i = j then
          if r'.2.ino = 0 then (block.drop (j * DIRBLKSIZ)).take DIRBLKSIZ
          else overlay ((block.drop (j * DIRBLKSIZ)).take DIRBLKSIZ) (r'.1 + 4)
            (writeBe16 (direntSize r'.2.namlen))
        else (block.drop (i * DIRBLKSIZ)).take DIRBLKSIZ := by
    intro i
    by_cases hfree : r'.2.ino = 0
    · rw [if_pos hfree, if_pos hfree]
      split
      · rename_i heq
        rw [heq]
      · rfl
    · rw [if_neg hfree, if_neg hfree]
      exact overlay_chunk (by omega)
  have hlen : (((if r'.2.ino = 0 then block
        else overlay block (j * DIRBLKSIZ + (r'.1 + 4))
          (writeBe16 (direntSize r'.2.namlen))).drop
            (j * DIRBLKSIZ)).take DIRBLKSIZ).length
      = ((block.drop (j * DIRBLKSIZ)).take DIRBLKSIZ).length := by
    rw [hcut, if_pos rfl]
    split
    · rfl
    · exact overlay_length (by omega)
  unfold placed
  rw [hino, hnam, hroom, hoff, hat, Nat.add_assoc,
    overlay_chunk (by rw [hlen, hraw]; exact hend), hcut i, hcut j, if_pos rfl]
  split <;> rfl

end Place

/-- **An insertion into a record's room**: the record, in its chunk, and the
block that is written back. -/
structure Slotting (sb : Superblock) (live : Finset Nat) (modes : Nat → UInt16)
    (d : Disk) (dirnode : Node) (newInode : Nat) (name : Bytes) (x : Nat × Nat)
    (pre : List (Nat × Dirent)) (r : Nat × Dirent) (post : List (Nat × Dirent))
    (new : Bytes) : Prop where
  good : OrderedDir sb live modes d dirnode
  place : x ∈ dirPlaces sb dirnode.inode.size
  tiles : Tiles (dirChunk sb d dirnode.inode x)
    (dirChunk sb d dirnode.inode x).length 0
    (dirChunk sb d dirnode.inode x).length (pre ++ r :: post)
  fits : Fitting (pre ++ r :: post)
  room : direntSize name.length ≤ room r.2
  length : new.length = chunkBytes sb dirnode.inode.size x.1
  chunks : ∀ i, (new.drop (i * DIRBLKSIZ)).take DIRBLKSIZ
    = if i = x.2 then placed (dirChunk sb d dirnode.inode x) r newInode name
      else dirChunk sb d dirnode.inode (x.1, i)

section Slot

variable {sb : Superblock} {live : Finset Nat} {modes : Nat → UInt16}
  {d d' : Disk} {dirnode node : Node} {name : Bytes} {newInode : Nat}

/-- **What a search that found room comes to.** -/
theorem exists_slot (hgeo : DirGeometry sb)
    (h : OrderedDir sb live modes d dirnode)
    (hrun : insertBlocks sb dirnode name newInode (dirBlocks sb dirnode.inode) d
      = .ok (some node) d') :
    ∃ x pre r post new now, ∃ hk : x.1 < 12,
      Slotting sb live modes d dirnode newInode name x pre r post new ∧
      node = ⟨dirnode.inodeNo, touched now dirnode.inode⟩ ∧
      d' = storeNode (d.write (dirnode.inode.db ⟨x.1, hk⟩ * sb.fragSize) new)
        node := by
  have hbs := hgeo.blockSize_pos
  cases hfirst : firstRoom sb d dirnode.inode name
      (dirBlocks sb dirnode.inode) with
  | none =>
    rcases @insertBlocks_none sb d dirnode name newInode hbs _ hfirst with hnone | hnone
    · rw [hnone] at hrun
      cases hrun
    · rw [hnone] at hrun
      cases hrun
  | some kr =>
    obtain ⟨k, r⟩ := kr
    obtain ⟨hmem, hread, res, hplaced, hstore⟩ :=
      @insertBlocks_first sb d dirnode name newInode hbs k r _ hfirst
    have hk : k < fileBlocks sb dirnode.inode.size := List.mem_range.mp hmem
    -- the record, in its chunk
    obtain ⟨j, hj, rs', r', htiles, hfits, hr', hat, hshown⟩ :=
      mem_chunk h.chunks hk
        (records_of_searched hbs (List.mem_of_find?_eq_some hfirst))
    obtain ⟨pre, post, rfl⟩ := List.append_of_mem hr'
    have hshort : ¬TooShort r.2 := by
      rw [← tooShort_shown, hshown]
      exact hfits r' hr'
    have hlen := dirBlock_length sb d dirnode.inode k
    have hrec : r.2.reclen < 2 ^ 16 := by
      obtain ⟨-, -, -, -, -, hreclen, -⟩ := readDirent_eq_some.mp hread
      rw [hreclen]
      exact readBe16_lt _
    rw [hstore] at hrun
    unfold storePlaced at hrun
    cases res with
    | error e => cases hrun
    | ok new =>
      obtain ⟨-, hneed, hnew⟩ := placeDirent_eq hrec hshort hplaced
      obtain ⟨-, hnewlen, -⟩ := placeDirent_carved hread hlen.ge hshort hplaced
      rw [hlen] at hnewlen
      dsimp only at hrun
      by_cases hk12 : k < 12
      swap
      · rw [dif_neg hk12] at hrun
        cases hrun
      rw [dif_pos hk12, List.take_of_length_le hnewlen.le] at hrun
      obtain ⟨_, d₁, hwrite, hrun⟩ := bind_eq_ok hrun
      obtain ⟨node', d₂, htimes, hret⟩ := bind_eq_ok hrun
      cases hwrite
      rw [updateNodeTimes_eq, if_pos hgeo.hasInodes] at htimes
      cases htimes
      cases hret
      have hsmall : (dirChunk sb d dirnode.inode (k, j)).length < 2 ^ 16 := by
        rw [dirChunk_length]
        exact Nat.lt_of_le_of_lt (Nat.min_le_left _ _) (by decide)
      obtain ⟨hle, hroom, hend⟩ := newOffset_room hsmall htiles hfits
      obtain ⟨-, -, -, hmin⟩ := htiles.mem hr'
      have hneed' : direntSize name.length ≤ room r'.2 := by
        rw [← hshown, room_shown]
        exact hneed
      have hnew' : new = placed (dirBlock sb d dirnode.inode k) r newInode
          name := hnew
      refine ⟨(k, j), pre, r', post, new, _, hk12,
        ⟨h, mem_dirPlaces.mpr ⟨hk, hj⟩, htiles, hfits, hneed', hnewlen, ?_⟩,
        rfl, rfl⟩
      intro i
      rw [hnew']
      refine placed_chunk hat hshown ?_ ?_ hneed'
      · show _ ≤ (dirChunk sb d dirnode.inode (k, j)).length
        omega
      · show _ ≤ (dirChunk sb d dirnode.inode (k, j)).length
        omega

end Slot

/-! ## §3. The directory afterwards: a record's room. -/

section Slotted

variable {sb : Superblock} {live : Finset Nat} {modes : Nat → UInt16}
  {d : Disk} {dirnode : Node} {newInode : Nat} {name : Bytes} {x : Nat × Nat}
  {pre post : List (Nat × Dirent)} {r : Nat × Dirent} {new : Bytes}

/-- The node of the directory with its times set. -/
def touchedNode (now : UInt32) (dirnode : Node) : Node :=
  ⟨dirnode.inodeNo, touched now dirnode.inode⟩

/-- The disk with block `k` of the directory written back. -/
def slotDisk (sb : Superblock) (d : Disk) (now : UInt32) (dirnode : Node)
    (k : Fin 12) (new : Bytes) : Disk :=
  storeNode (d.write (dirnode.inode.db k * sb.fragSize) new)
    (touchedNode now dirnode)

/-- The block written back is one of the directory's. -/
theorem Slotting.block (hgeo : DirGeometry sb)
    (hs : Slotting sb live modes d dirnode newInode name x pre r post new)
    (hk : x.1 < 12) :
    x.1 < fileBlocks sb dirnode.inode.size ∧
      dirnode.inode.db ⟨x.1, hk⟩ ≠ 0 := by
  have hin := (mem_dirPlaces.mp hs.place).1
  exact ⟨hin, hs.good.chunks.partitioned.db_ne_zero hgeo.blockSize_pos hk hin⟩

/-- The claims afterwards. -/
theorem Slotting.claims (hgeo : DirGeometry sb)
    (hs : Slotting sb live modes d dirnode newInode name x pre r post new)
    (hk : x.1 < 12) (now : UInt32) (f : Nat) :
    blockClaims sb (slotDisk sb d now dirnode ⟨x.1, hk⟩ new)
        (touched now dirnode.inode) f
      = blockClaims sb d dirnode.inode f := by
  obtain ⟨hin, hdb⟩ := hs.block hgeo hk
  exact write_blockClaims hgeo.toDataGeometry hs.good.once hk hin hdb hs.length f

/-- No pointer block is changed. -/
theorem Slotting.pointers (hgeo : DirGeometry sb)
    (hs : Slotting sb live modes d dirnode newInode name x pre r post new)
    (hk : x.1 < 12) {f : Nat} (hf : 0 < metaFrags sb d dirnode.inode f) :
    SameFrag sb d (d.write (dirnode.inode.db ⟨x.1, hk⟩ * sb.fragSize) new) f := by
  obtain ⟨hin, hdb⟩ := hs.block hgeo hk
  exact write_meta hgeo.toDataGeometry hs.good.once hk hin hdb hs.length hf

/-- Writing a block back changes no fragment that is not the directory's. -/
theorem slotDisk_others (hgeo : DirGeometry sb) {k : Nat} (hk : k < 12)
    (hin : k < fileBlocks sb dirnode.inode.size)
    (hdb : dirnode.inode.db ⟨k, hk⟩ ≠ 0)
    (hlen : new.length = chunkBytes sb dirnode.inode.size k) (now : UInt32)
    {f : Nat} (hf : blockClaims sb d dirnode.inode f = 0) :
    SameFrag sb d (slotDisk sb d now dirnode ⟨k, hk⟩ new) f := by
  have hblock : blockAt sb d dirnode.inode k = dirnode.inode.db ⟨k, hk⟩ :=
    dif_pos hk
  have hsame : ∀ d', d'.data = (d.write (dirnode.inode.db ⟨k, hk⟩
      * sb.fragSize) new).data → SameFrag sb d d' f := by
    intro d' hdata
    refine (write_sameFrag hgeo.toDataGeometry hk hlen ?_).trans
      (SameFrag.of_data_eq hdata f)
    intro hmem
    have hle := @covers_le_dataFrags sb d dirnode.inode dirnode.inode.size _
      k hin (by rw [hblock]; exact hdb) f
    rw [covers_eq_one hmem] at hle
    unfold blockClaims at hf
    omega
  exact hsame _ rfl

/-- What is in use and not the directory's is as it was. -/
theorem Slotting.others (hgeo : DirGeometry sb)
    (hs : Slotting sb live modes d dirnode newInode name x pre r post new)
    (hk : x.1 < 12) (now : UInt32) {f : Nat}
    (hf : inodeClaims sb d (d.inodes dirnode.inodeNo) f = 0) :
    SameFrag sb d (slotDisk sb d now dirnode ⟨x.1, hk⟩ new) f := by
  obtain ⟨hin, hdb⟩ := hs.block hgeo hk
  rw [hs.good.inodeClaims] at hf
  exact slotDisk_others hgeo hk hin hdb hs.length now hf

/-- The inodes afterwards. -/
theorem slotDisk_inodes (d : Disk) (now : UInt32) (k : Fin 12) (m : Nat) :
    (slotDisk sb d now dirnode k new).inodes m
      = if m = dirnode.inodeNo then touched now dirnode.inode
        else d.inodes m :=
  Function.update_apply ..

/-- **Every fragment still has one owner.** -/
theorem Slotting.owned (hgeo : DirGeometry sb)
    (hs : Slotting sb live modes d dirnode newInode name x pre r post new)
    (hk : x.1 < 12) (now : UInt32) :
    FragsOwned sb live (slotDisk sb d now dirnode ⟨x.1, hk⟩ new) := by
  apply hs.good.owned.replace hgeo.toDataGeometry hs.good.mem
  · intro n _ hne
    rw [slotDisk_inodes, if_neg hne]
  · intro f _ hf
    exact hs.others hgeo hk now hf
  · intro f
    have hstores : storesBlocks (touched now dirnode.inode) = true :=
      storesBlocks_of_dir hs.good.isDir
    rw [hs.good.inodeClaims, slotDisk_inodes, if_pos rfl]
    unfold inodeClaims
    rw [if_pos hstores, hs.claims hgeo hk]
    rfl

/-- The chunks afterwards. -/
theorem Slotting.dirChunk_after (hgeo : DirGeometry sb)
    (hs : Slotting sb live modes d dirnode newInode name x pre r post new)
    (hk : x.1 < 12) (now : UInt32) {y : Nat × Nat}
    (hy : y ∈ dirPlaces sb dirnode.inode.size) :
    dirChunk sb (slotDisk sb d now dirnode ⟨x.1, hk⟩ new)
        (touched now dirnode.inode) y
      = if y = x then placed (dirChunk sb d dirnode.inode x) r newInode name
        else dirChunk sb d dirnode.inode y := by
  obtain ⟨hin, hdb⟩ := hs.block hgeo hk
  have hblock : dirBlock sb (slotDisk sb d now dirnode ⟨x.1, hk⟩ new)
      (touched now dirnode.inode) y.1
      = if y.1 = x.1 then new else dirBlock sb d dirnode.inode y.1 := by
    rw [← write_dirBlock hgeo.toDataGeometry hs.good.once hk hin hdb hs.length
      (mem_dirPlaces.mp hy).1]
    exact dirBlock_congr rfl rfl rfl rfl y.1
  show ((dirBlock sb _ _ y.1).drop (y.2 * DIRBLKSIZ)).take DIRBLKSIZ = _
  rw [hblock]
  by_cases hfst : y.1 = x.1
  · rw [if_pos hfst, hs.chunks]
    by_cases hsnd : y.2 = x.2
    · rw [if_pos hsnd, if_pos (Prod.ext hfst hsnd)]
    · have hne : y ≠ x := fun heq => hsnd (by rw [heq])
      rw [if_neg hsnd, if_neg hne, ← hfst]
  · have hne : y ≠ x := fun heq => hfst (by rw [heq])
    rw [if_neg hfst, if_neg hne]
    rfl

/-- The chunk with the new record. -/
theorem Slotting.wellChunk
    (hs : Slotting sb live modes d dirnode newInode name x pre r post new)
    (hlive : newInode ≠ 0) (hino : newInode < 2 ^ 32) :
    WellChunk (placed (dirChunk sb d dirnode.inode x) r newInode name)
      (entriesOf pre ++ (entriesOf [r] ++ [(newInode, name)])
        ++ entriesOf post) := by
  have hsmall : (dirChunk sb d dirnode.inode x).length < 2 ^ 16 := by
    rw [dirChunk_length]
    exact Nat.lt_of_le_of_lt (Nat.min_le_left _ _) (by decide)
  exact placed_wellChunk hsmall hs.tiles hs.fits hlive hino hs.room

/-- **The directory is in order afterwards.** -/
theorem Slotting.ordered_after (hgeo : DirGeometry sb)
    (hs : Slotting sb live modes d dirnode newInode name x pre r post new)
    (hk : x.1 < 12) (now : UInt32) (hlive : newInode ≠ 0)
    (hino : newInode < 2 ^ 32) :
    OrderedDir sb live modes (slotDisk sb d now dirnode ⟨x.1, hk⟩ new)
      (touchedNode now dirnode) := by
  have h := hs.good
  have hbooks := (BooksKept.write sb d
    (dirnode.inode.db ⟨x.1, hk⟩ * sb.fragSize) new).space modes h.space
  constructor
  · exact ⟨⟨hbooks.accounted.frags, hbooks.accounted.inodes,
      hbooks.accounted.csum, hbooks.accounted.total⟩, hbooks.magic,
      hbooks.ndblk⟩
  · exact hs.owned hgeo hk now
  · exact h.mem
  · exact Function.update_self ..
  · exact h.isDir
  · intro lb hlb
    have hmap := blockAt_congr hgeo.toDataGeometry fun f hf => hs.pointers hgeo hk hf
    have hsame : blockAt sb (slotDisk sb d now dirnode ⟨x.1, hk⟩ new)
        (touched now dirnode.inode) = blockAt sb d dirnode.inode :=
      (blockAt_eq rfl rfl rfl).trans hmap
    show RunFits sb (blockAt sb _ (touched now dirnode.inode) lb) _
    rw [hsame]
    exact h.runs lb hlb
  · have hclaimed : claimedFrags sb (slotDisk sb d now dirnode ⟨x.1, hk⟩ new)
        (touched now dirnode.inode) = claimedFrags sb d dirnode.inode :=
      Finset.sum_congr rfl fun f _ => hs.claims hgeo hk now f
    show dirnode.inode.blocks = UInt32.ofNat (claimedFrags sb _
      (touched now dirnode.inode) * _)
    rw [hclaimed, h.sectors]
  · intro y hy
    show ∃ es, WellChunk (dirChunk sb _ (touched now dirnode.inode) y) es
    rw [hs.dirChunk_after hgeo hk now hy]
    split
    · exact ⟨_, hs.wellChunk hlive hino⟩
    · exact h.chunks y hy

/-- **It has the new entry and its old ones.** -/
theorem Slotting.entries_after (hgeo : DirGeometry sb)
    (hs : Slotting sb live modes d dirnode newInode name x pre r post new)
    (hk : x.1 < 12) (now : UInt32) (hlive : newInode ≠ 0)
    (hino : newInode < 2 ^ 32) :
    (dirEntries sb (slotDisk sb d now dirnode ⟨x.1, hk⟩ new)
        (touched now dirnode.inode)).Perm
      ((newInode, name) :: dirEntries sb d dirnode.inode) := by
  obtain ⟨before, after, hmem, hsplit⟩ := entries_split hs.place
  -- the other chunks are what they were
  have hsame : ∀ l : List (Nat × Nat), (∀ y ∈ l, y ∈ before ++ after) →
      l.flatMap (fun y => chunkEntries (dirChunk sb
          (slotDisk sb d now dirnode ⟨x.1, hk⟩ new)
          (touched now dirnode.inode) y))
        = l.flatMap fun y => chunkEntries (dirChunk sb d dirnode.inode y) := by
    intro l hl
    apply List.flatMap_congr
    intro y hy
    obtain ⟨hplace, hne⟩ := (hmem y).mp (hl y hy)
    rw [hs.dirChunk_after hgeo hk now hplace, if_neg hne]
  have hold : chunkEntries (dirChunk sb d dirnode.inode x)
      = entriesOf pre ++ (entriesOf [r] ++ entriesOf post) := by
    have hentries := Partitioned.entries ⟨_, hs.tiles, hs.fits.nameInside, rfl⟩
    rw [hentries, entriesOf_append, ← entriesOf_append [r] post]
    rfl
  rw [hsplit _ (touched now dirnode.inode) rfl, hsplit d dirnode.inode rfl,
    hs.dirChunk_after hgeo hk now hs.place, if_pos rfl,
    (hs.wellChunk hlive hino).partitioned.entries, hold,
    hsame before fun y hy => List.mem_append_left _ hy,
    hsame after fun y hy => List.mem_append_right _ hy]
  -- the new entry is brought to the front
  have hfront : ∀ (P R S : List (Nat × Bytes)) (e : Nat × Bytes),
      (P ++ (R ++ [e]) ++ S).Perm (e :: (P ++ (R ++ S))) := by
    intro P R S e
    have hmiddle := @List.perm_middle _ e (P ++ R) S
    simpa only [List.append_assoc, List.singleton_append] using hmiddle
  have hchunk := ((hfront (entriesOf pre) (entriesOf [r]) (entriesOf post)
    (newInode, name)).append_right (after.flatMap fun y =>
      chunkEntries (dirChunk sb d dirnode.inode y))).append_left
        (before.flatMap fun y => chunkEntries (dirChunk sb d dirnode.inode y))
  exact hchunk.trans List.perm_middle

end Slotted

/-! ## §4. The directory afterwards: a chunk behind its end. -/

section Behind

variable {sb : Superblock} {live : Finset Nat} {modes : Nat → UInt16}
  {d d₁ : Disk} {dirnode : Node} {newInode k r b : Nat} {name raw : Bytes}
  {now : UInt32}

/-- A read in two parts. -/
theorem read_add (d : Disk) (off m n : Nat) :
    d.read off (m + n) = d.read off m ++ d.read (off + m) n := by
  unfold Disk.read
  rw [List.range_add, List.map_append, List.map_map]
  congr 1
  apply List.map_congr_left
  intro i _
  show d.data (off + (m + i)) = _
  rw [Nat.add_assoc]

/-- The node of a directory that has grown. -/
abbrev Growing.node (hg : Growing sb live modes d dirnode k r b d₁)
    (now : UInt32) : Node :=
  grownNode sb now dirnode ⟨k, hg.direct⟩ b r

/-- The blocks before the last one are as they were. -/
theorem Growing.dirBlock_before (hgeo : DirGeometry sb)
    (hg : Growing sb live modes d dirnode k r b d₁)
    (hraw : raw.length = DIRBLKSIZ) (node : Node) {lb : Nat} (hlb : lb < k) :
    dirBlock sb (grownDisk sb d₁ node b r raw) (hg.node now).inode lb
      = dirBlock sb d dirnode.inode lb := by
  have hlb12 : lb < 12 := Nat.lt_trans hlb hg.direct
  have hin := hg.block_lt hgeo hlb
  have hdb : (hg.node now).inode.db ⟨lb, hlb12⟩
      = dirnode.inode.db ⟨lb, hlb12⟩ := by
    apply Function.update_of_ne
    intro heq
    have := congrArg Fin.val heq
    dsimp only at this
    omega
  obtain ⟨_, hblock, hne⟩ := hg.good.direct hgeo hin
  rw [hblock] at hne
  have hchunk : chunkBytes sb (hg.node now).inode.size lb
      = chunkBytes sb dirnode.inode.size lb := by
    rw [grownNode_size hg, hg.size, chunkBytes_before hlb,
      chunkBytes_before hlb]
  rw [dirBlock_direct hlb12, dirBlock_direct hlb12, hdb, if_neg hne, if_neg hne,
    hchunk]
  apply @read_congr sb d (grownDisk sb d₁ node b r raw)
    (dirnode.inode.db ⟨lb, hlb12⟩) (fragsNeeded sb dirnode.inode.size lb) 0
  · intro f h1 h2
    have honce := hg.good.claimed_le f
    have hdata := hg.data_before hgeo f
    have hle := @covers_le_dataFrags sb d dirnode.inode
      (k * sb.blockSize + r) k lb hlb (by rw [hblock]; exact hne) f
    rw [hblock, ← hg.size, covers_eq_one ⟨h1, h2⟩] at hle
    rw [hg.size] at hdata
    unfold blockClaims at honce
    rw [hg.size] at honce hle
    exact hg.same hgeo hraw node (by omega) (by omega)
  · rw [Nat.zero_add]
    exact chunkBytes_le hgeo.toDataGeometry dirnode.inode.size lb

/-- **The last block has the chunk behind its old bytes.** -/
theorem Growing.dirBlock_last (hgeo : DirGeometry sb)
    (hg : Growing sb live modes d dirnode k r b d₁)
    (hraw : raw.length = DIRBLKSIZ) (node : Node) :
    dirBlock sb (grownDisk sb d₁ node b r raw) (hg.node now).inode k
      = dirBlock sb d dirnode.inode k ++ raw := by
  have hfits := chunk_fits hgeo hg.inside hg.chunk
  have hdb : (hg.node now).inode.db ⟨k, hg.direct⟩ = b :=
    Function.update_self ..
  have hchunk : chunkBytes sb (hg.node now).inode.size k = r + raw.length := by
    rw [grownNode_size hg, chunkBytes_last hfits, hraw]
  have hold : chunkBytes sb dirnode.inode.size k = r := by
    rw [hg.size, chunkBytes_last hg.inside.le]
  rw [dirBlock_direct hg.direct, hdb, if_neg (hg.ne_zero hgeo), hchunk, read_add]
  congr 1
  · -- the old bytes have been kept, or copied
    rcases Nat.eq_zero_or_pos r with rfl | hpos
    · have hlen := dirBlock_length sb d dirnode.inode k
      rw [hold] at hlen
      exact (List.eq_nil_of_length_eq_zero hlen).symm
    · have hin := (hg.good.tail hgeo hg.size hg.inside hg.direct hpos).1
      obtain ⟨_, hblock, hne⟩ := hg.good.direct hgeo hin
      rw [hblock] at hne
      rw [dirBlock_direct hg.direct, if_neg hne, hold]
      apply List.map_congr_left
      intro i hi
      have hlt := List.mem_range.mp hi
      have hroom := chunkBytes_le hgeo.toDataGeometry dirnode.inode.size k
      rw [hold, hg.size, fragsNeeded_last hg.direct hg.inside.le] at hroom
      rw [← hg.run.bytes i (by omega)]
      exact write_data_of_not_mem (Or.inl (by omega))
  · exact read_write_self ..

/-- The chunks afterwards. -/
theorem Growing.dirChunk_old (hgeo : DirGeometry sb)
    (hg : Growing sb live modes d dirnode k r b d₁)
    (hraw : raw.length = DIRBLKSIZ) (node : Node) {x : Nat × Nat}
    (hx : x ∈ dirPlaces sb dirnode.inode.size) :
    dirChunk sb (grownDisk sb d₁ node b r raw) (hg.node now).inode x
      = dirChunk sb d dirnode.inode x := by
  obtain ⟨hk, hj⟩ := mem_dirPlaces.mp hx
  unfold dirChunk
  rcases Nat.lt_or_ge x.1 k with hlt | hge
  · rw [hg.dirBlock_before hgeo hraw node hlt]
  · -- a chunk of the last block ends before the new one
    have hle : fileBlocks sb dirnode.inode.size ≤ k + 1 := by
      have hinside := hg.inside
      rw [fileBlocks_le_iff hgeo.blockSize_pos, hg.size, Nat.succ_mul]
      omega
    have heq : x.1 = k := by omega
    have hchunk := hg.chunk
    have hold : chunkBytes sb dirnode.inode.size k = r := by
      rw [hg.size, chunkBytes_last hg.inside.le]
    have hend : x.2 * DIRBLKSIZ + DIRBLKSIZ ≤ r := by
      rw [heq] at hj
      unfold dirChunks at hj
      rw [hold] at hj
      unfold DIRBLKSIZ at hj hchunk ⊢
      omega
    have hlen := dirBlock_length sb d dirnode.inode k
    rw [hold] at hlen
    rw [heq, hg.dirBlock_last hgeo hraw node,
      List.drop_append_of_le_length (by omega),
      List.take_append_of_le_length (by rw [List.length_drop]; omega)]

theorem Growing.dirChunk_new (hgeo : DirGeometry sb)
    (hg : Growing sb live modes d dirnode k r b d₁)
    (hraw : raw.length = DIRBLKSIZ) (node : Node) :
    dirChunk sb (grownDisk sb d₁ node b r raw) (hg.node now).inode
      (k, r / DIRBLKSIZ) = raw := by
  have hold : chunkBytes sb dirnode.inode.size k = r := by
    rw [hg.size, chunkBytes_last hg.inside.le]
  have hlen := dirBlock_length sb d dirnode.inode k
  rw [hold] at hlen
  have hat : r / DIRBLKSIZ * DIRBLKSIZ = r :=
    Nat.div_mul_cancel (Nat.dvd_of_mod_eq_zero hg.chunk)
  unfold dirChunk
  dsimp only
  rw [hg.dirBlock_last hgeo hraw node, hat, List.drop_left' hlen,
    List.take_of_length_le hraw.le]

/-- The places afterwards. -/
theorem Growing.places (hgeo : DirGeometry sb)
    (hg : Growing sb live modes d dirnode k r b d₁) (now : UInt32) :
    dirPlaces sb (hg.node now).inode.size
      = dirPlaces sb dirnode.inode.size ++ [(k, r / DIRBLKSIZ)] := by
  rw [grownNode_size hg, hg.size, ← Nat.add_assoc,
    dirPlaces_grown hgeo hg.inside hg.chunk]

/-- A chunk that is one record. -/
theorem rawDirent_wellChunk (hlive : newInode ≠ 0)
    (hino : newInode < 2 ^ 32) (hname : name.length ≤ 255) :
    (rawDirent newInode DIRBLKSIZ name).length = DIRBLKSIZ ∧
      WellChunk (rawDirent newInode DIRBLKSIZ name) [(newInode, name)] := by
  have hneed := direntSize_le name.length
  have hlen : (rawDirent newInode DIRBLKSIZ name).length = DIRBLKSIZ :=
    rawDirent_length (by unfold DIRBLKSIZ; omega)
  have hread : readDirent (rawDirent newInode DIRBLKSIZ name) DIRBLKSIZ 0
      = some ⟨newInode, DIRBLKSIZ, name.length, name⟩ := by
    refine readDirent_raw hino (by decide) ?_ ?_ ?_ ?_
    · unfold DIRBLKSIZ
      omega
    · unfold DIRBLKSIZ
      omega
    · rw [hlen, Nat.zero_add]
    · intro i _
      rw [Nat.zero_add]
  refine ⟨hlen, [(0, Dirent.shown ⟨newInode, DIRBLKSIZ, name.length, name⟩)],
    ?_, ?_, ?_⟩
  · rw [hlen]
    have htile := Tiles.cons hread (.nil _)
    dsimp only at htile
    rw [Nat.zero_add] at htile
    exact htile
  · intro x hx hbad
    rw [List.mem_singleton.mp hx, tooShort_shown] at hbad
    have hshort := hbad.2
    unfold DIRBLKSIZ at hshort
    dsimp only at hshort
    omega
  · rw [shown_of_live (by exact hlive), entriesOf_cons_live (by exact hlive)]
    rfl

/-- **The directory is in order afterwards.** -/
theorem Growing.good_after (hgeo : DirGeometry sb)
    (hg : Growing sb live modes d dirnode k r b d₁) (now : UInt32)
    {es : List (Nat × Bytes)} (hraw : raw.length = DIRBLKSIZ)
    (hes : WellChunk raw es) :
    GoodDir sb live modes (grownDisk sb d₁ (hg.node now) b r raw)
      (hg.node now) := by
  have hspace := hg.run.books.space modes hg.good.space
  have hfits := chunk_fits hgeo hg.inside hg.chunk
  have hdirect := hg.direct
  constructor
  · exact ⟨⟨hspace.accounted.frags, hspace.accounted.inodes,
      hspace.accounted.csum, hspace.accounted.total⟩, hspace.magic,
      hspace.ndblk⟩
  · exact hg.owned hgeo hraw
  · exact hg.good.mem
  · exact Function.update_self ..
  · exact hg.good.isDir
  · rw [grownNode_size hg, fileBlocks_end (Nat.lt_add_left _ (by decide)) hfits]
    exact hdirect
  · exact fun lb hlb => hg.runs hgeo _ hlb
  · exact hg.sectors hgeo hraw _
  · intro x hx
    rw [hg.places hgeo] at hx
    rcases List.mem_append.mp hx with hx | hx
    · rw [hg.dirChunk_old hgeo hraw _ hx]
      exact hg.good.chunks x hx
    · rw [List.mem_singleton.mp hx, hg.dirChunk_new hgeo hraw]
      exact ⟨es, hes⟩

/-- **It has the entries of the chunk behind its old ones.** -/
theorem Growing.entries_after (hgeo : DirGeometry sb)
    (hg : Growing sb live modes d dirnode k r b d₁) (now : UInt32)
    {es : List (Nat × Bytes)} (hraw : raw.length = DIRBLKSIZ)
    (hes : WellChunk raw es) :
    dirEntries sb (grownDisk sb d₁ (hg.node now) b r raw) (hg.node now).inode
      = dirEntries sb d dirnode.inode ++ es := by
  have hold : (dirPlaces sb dirnode.inode.size).flatMap (fun x =>
        chunkEntries (dirChunk sb (grownDisk sb d₁ (hg.node now) b r raw)
          (hg.node now).inode x))
      = dirEntries sb d dirnode.inode := by
    apply List.flatMap_congr
    intro x hx
    rw [hg.dirChunk_old hgeo hraw _ hx]
  conv => lhs; unfold dirEntries
  rw [hg.places hgeo, List.flatMap_append, hold, List.flatMap_singleton,
    hg.dirChunk_new hgeo hraw, hes.partitioned.entries]

end Behind

/-! ## §5. An insertion that succeeds. -/

/-- **A name inserted**: the directory is in order and has the new entry and
its old ones, and every other inode is as it was and reads what it read. -/
structure Inserted (sb : Superblock) (live : Finset Nat)
    (modes : Nat → UInt16) (d : Disk) (dirnode : Node) (name : Bytes)
    (newInode : Nat) (d' : Disk) (node : Node) : Prop where
  good : GoodDir sb live modes d' node
  same : node.inodeNo = dirnode.inodeNo
  entries : (dirEntries sb d' node.inode).Perm
    ((newInode, name) :: dirEntries sb d dirnode.inode)
  inodes : ∀ m, m ≠ dirnode.inodeNo → d'.inodes m = d.inodes m
  reads : ∀ m ∈ live, m ≠ dirnode.inodeNo →
    storesBlocks (d.inodes m) = true → ∀ start len,
      outcome (inodeReadData sb (d.inodes m) start len) d'
        = outcome (inodeReadData sb (d.inodes m) start len) d

section Insertion

variable {sb : Superblock} {live : Finset Nat} {modes : Nat → UInt16}
  {d d' : Disk} {dirnode node : Node} {name : Bytes} {newInode : Nat}

/-- In a record's room. -/
theorem inserted_slot (hgeo : DirGeometry sb)
    (h : GoodDir sb live modes d dirnode) (hlive : newInode ≠ 0)
    (hino : newInode < 2 ^ 32)
    (hrun : insertBlocks sb dirnode name newInode (dirBlocks sb dirnode.inode) d
      = .ok (some node) d') :
    Inserted sb live modes d dirnode name newInode d' node := by
  obtain ⟨x, pre, r, post, new, now, hk, hs, rfl, rfl⟩ :=
    exists_slot hgeo h.ordered hrun
  refine ⟨(hs.ordered_after hgeo hk now hlive hino).good h.short, rfl,
    hs.entries_after hgeo hk now hlive hino, fun m hm => ?_,
    fun m hm hne hblocks start len => ?_⟩
  · exact Function.update_of_ne hm ..
  · exact h.owned.others_read hgeo.toDataGeometry h.mem
      (fun f _ hf => hs.others hgeo hk now hf) hm hne hblocks start len

/-- A search that found no room has written nothing. -/
theorem insertBlocks_writes_nothing (hbs : 0 < sb.blockSize)
    (hrun : insertBlocks sb dirnode name newInode (dirBlocks sb dirnode.inode) d
      = .ok none d') : d' = d := by
  cases hfirst : firstRoom sb d dirnode.inode name
      (dirBlocks sb dirnode.inode) with
  | none =>
    rcases @insertBlocks_none sb d dirnode name newInode hbs _ hfirst with
      hnone | hnone
    · rw [hnone] at hrun
      cases hrun
      rfl
    · rw [hnone] at hrun
      cases hrun
  | some kr =>
    obtain ⟨-, -, res, -, hstore⟩ :=
      @insertBlocks_first sb d dirnode name newInode hbs kr.1 kr.2 _ hfirst
    rw [hstore] at hrun
    unfold storePlaced at hrun
    cases res with
    | error e => cases hrun
    | ok new =>
      dsimp only at hrun
      split at hrun
      · obtain ⟨_, d₁, -, hnext⟩ := bind_eq_ok hrun
        obtain ⟨_, d₂, -, hret⟩ := bind_eq_ok hnext
        cases hret
      · cases hrun

/-- Behind its end. -/
theorem inserted_behind (hgeo : DirGeometry sb)
    (h : GoodDir sb live modes d dirnode) (hlive : newInode ≠ 0)
    (hino : newInode < 2 ^ 32) (hname : name.length ≤ 255) {off : Nat}
    {d₁ : Disk}
    (hrun : growDirectoryByDirblk sb dirnode d = .ok (node, off) d₁) :
    Inserted sb live modes d dirnode name newInode
      (d₁.write off (rawDirent newInode DIRBLKSIZ name)) node := by
  have hsplit := Nat.div_add_mod' dirnode.inode.size sb.blockSize
  obtain ⟨b, now, d₂, hg, rfl, rfl, rfl⟩ :=
    growDirectory_ok hgeo h hsplit.symm (Nat.mod_lt _ hgeo.blockSize_pos) hrun
  obtain ⟨hraw, hes⟩ := rawDirent_wellChunk hlive hino hname
  refine ⟨hg.good_after hgeo now hraw hes, rfl, ?_, fun m hm => ?_,
    fun m hm hne hblocks start len => ?_⟩
  · have hentries := hg.entries_after hgeo now hraw hes
    show (dirEntries sb (grownDisk sb d₂ (hg.node now) b _ _)
      (hg.node now).inode).Perm _
    rw [hentries]
    exact List.perm_append_singleton ..
  · exact (hg.inodes _ m).trans (if_neg hm)
  · exact h.owned.others_read hgeo.toDataGeometry h.mem
      (hg.others hgeo hraw _) hm hne hblocks start len

/-- **An insertion that succeeds adds the entry and nothing else**, whether the
record fits into slack, takes the place of one that is not in use, or the
directory grows. -/
theorem insertDirent_inserted (hgeo : DirGeometry sb)
    (h : GoodDir sb live modes d dirnode) (hlive : newInode ≠ 0)
    (hino : newInode < 2 ^ 32)
    (hrun : insertDirent sb dirnode name newInode d = .ok node d') :
    Inserted sb live modes d dirnode name newInode d' node := by
  unfold insertDirent at hrun
  obtain ⟨found, d₁, hsearch, hfound⟩ := bind_eq_ok hrun
  cases found with
  | some node' =>
    cases hfound
    exact inserted_slot hgeo h hlive hino hsearch
  | none =>
    obtain rfl := insertBlocks_writes_nothing hgeo.blockSize_pos hsearch
    dsimp only at hfound
    split at hfound
    · cases hfound
    obtain ⟨grown, d₂, hattempt, hgrown⟩ := bind_eq_ok hfound
    rcases attempt_ok hattempt with ⟨⟨node', off⟩, rfl, hgrow⟩ | ⟨e, rfl, -⟩
    · dsimp only at hgrown
      cases hraw : writeDirentRaw newInode DIRBLKSIZ name with
      | error e =>
        rw [hraw] at hgrown
        cases hgrown
      | ok bytes =>
        rw [hraw] at hgrown
        obtain ⟨hname, rfl⟩ := writeDirentRaw_ok hraw
        obtain ⟨_, d₃, hwrite, hret⟩ := bind_eq_ok hgrown
        cases hwrite
        cases hret
        exact inserted_behind hgeo h hlive hino hname hgrow
    · cases hgrown

end Insertion

/-! ## §6. A directory with slack. -/

/-- The geometry of the disk with two files, in fragments of 1024 bytes. -/
def slackSb : Superblock := { filesSb with blockSize := 1024, fragSize := 1024 }

/-- The records of its root: itself, itself, `f`, and `g` with slack. -/
def slackRoot : Bytes :=
  [0, 0, 0, 2, 0, 12, 0, 1, 46, 0, 0, 0,
    0, 0, 0, 2, 0, 12, 0, 2, 46, 46, 0, 0,
    0, 0, 0, 3, 0, 12, 0, 1, 102, 0, 0, 0,
    0, 0, 0, 4, 3, 220, 0, 1, 103, 0, 0, 0]

/-- Its disk. -/
def slackDisk : Disk :=
  { countedFiles with
    inodes := fun m =>
      if m = 2 then { filesDisk.inodes 2 with size := 1024 }
      else filesDisk.inodes m
    data := fun i =>
      if 1024 ≤ i ∧ i < 1072 then slackRoot.getD (i - 1024) 0 else 0 }

/-- Its root. -/
def slackRootNode : Node := ⟨2, slackDisk.inodes 2⟩

theorem slack_geometry : DirGeometry slackSb := by
  refine ⟨⟨⟨?_, ?_, ?_, ?_, ?_, ?_⟩, ?_, ?_, ?_⟩, ?_, ?_⟩
  · constructor <;> decide
  all_goals decide

theorem slack_owned : FragsOwned slackSb {2, 3, 4} slackDisk := by
  constructor
  intro f
  by_cases hf : f < 16
  · have hall : ∀ f < 16, freeAt slackSb slackDisk f + reservedAt slackSb f
        + ∑ m ∈ {2, 3, 4}, inodeClaims slackSb slackDisk (slackDisk.inodes m) f
        = if f < slackSb.fragCount then 1 else 0 := by
      decide +kernel
    exact hall f hf
  · have hfree : freeAt slackSb slackDisk f = 0 := if_neg hf
    have hreserved : reservedAt slackSb f = 0 := by
      refine if_neg fun h => ?_
      obtain ⟨c, hc, -, hend⟩ := h
      obtain rfl : c = 0 := Nat.lt_one_iff.mp hc
      have : f < 1 := hend
      omega
    have hclaims : ∀ m ∈ ({2, 3, 4} : Finset Nat),
        inodeClaims slackSb slackDisk (slackDisk.inodes m) f = 0 := by
      intro m hm
      simp only [Finset.mem_insert, Finset.mem_singleton] at hm
      rcases hm with rfl | rfl | rfl <;>
        exact inodeClaims_past (n := 16) (fun _ => rfl) (by decide) (by omega)
    rw [hfree, hreserved, Finset.sum_eq_zero hclaims]
    exact (if_neg hf).symm

theorem slack_space :
    FreeSpace slackSb (fun m => (filesDisk.inodes m).mode) slackDisk := by
  obtain ⟨⟨hfrags, hinodes, hcsum, htotal⟩, hmagic, hndblk⟩ := countedFiles_space
  refine ⟨⟨fun c hc => ?_, fun c hc => ?_, hcsum, htotal⟩, hmagic, hndblk⟩
  · obtain ⟨h1, h2, h3, h4, h5, h6⟩ := hfrags c hc
    exact ⟨h1, h2, h3, h4, h5, h6⟩
  · obtain ⟨h1, h2⟩ := hinodes c hc
    exact ⟨h1, h2⟩

theorem slack_good :
    GoodDir slackSb {2, 3, 4} (fun m => (filesDisk.inodes m).mode) slackDisk
      slackRootNode := by
  have hwalk : ∀ x ∈ dirPlaces slackSb slackRootNode.inode.size,
      walkEnd (dirChunk slackSb slackDisk slackRootNode.inode x)
          (dirChunk slackSb slackDisk slackRootNode.inode x).length
          (dirChunk slackSb slackDisk slackRootNode.inode x).length 0
        = (dirChunk slackSb slackDisk slackRootNode.inode x).length ∧
      ∀ r ∈ records (dirChunk slackSb slackDisk slackRootNode.inode x)
          (dirChunk slackSb slackDisk slackRootNode.inode x).length,
        ¬TooShort r.2 := by
    decide +kernel
  refine ⟨slack_space, slack_owned, by decide, rfl, by decide, by decide,
    fun lb hlb => ?_, by decide +kernel,
    fun x hx => ⟨_, wellChunk_of_walk (hwalk x hx).1 (hwalk x hx).2⟩⟩
  obtain rfl : lb = 0 := Nat.lt_one_iff.mp hlb
  constructor <;> decide +kernel

/-- A second name for `g` goes into the slack of its first one. -/
theorem insertDirent_inserted_slack :
    ∃ node d', insertDirent slackSb slackRootNode [104] 4 slackDisk
        = .ok node d' ∧
      Inserted slackSb {2, 3, 4} (fun m => (filesDisk.inodes m).mode) slackDisk
        slackRootNode [104] 4 d' node := by
  have hok : returnedWith (fun _ => true)
      (insertDirent slackSb slackRootNode [104] 4 slackDisk) = true := by
    decide +kernel
  obtain ⟨node, d', hrun, -⟩ := exists_of_returnedWith hok
  exact ⟨node, d', hrun, insertDirent_inserted slack_geometry slack_good
    (by decide) (by decide) hrun⟩

end NextUfs
