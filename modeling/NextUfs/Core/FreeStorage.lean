/-
  NextUfs.Core.FreeStorage
  ────────────────────────
  **A FILE'S STORAGE IS GIVEN BACK.**

  `freeFileStorage` resolves every logical block of the file, frees the run it
  finds, and then frees the pointer blocks tree by tree.  Over the inode's map
  it gives back exactly the fragments the inode claims.

    • `resolveInodeDataBlock_eq`        — the freeing side's resolver computes
      the map, and fails past it,
    • `freeIndirectMetadataTree_spec`   — one tree of pointer blocks,
    • `freeFileStorage_spec`            — the whole file, or its data alone when
      its size is past the map.
-/
import NextUfs.Core.ReadSpec

namespace NextUfs

open Bits Radix State

/-! ## §1. The resolver. -/

/-- Number of logical blocks the map has room for. -/
def mapSpan (sb : Superblock) : Nat :=
  12 + (entriesPerBlock sb + entriesPerBlock sb * entriesPerBlock sb
    + entriesPerBlock sb * entriesPerBlock sb * entriesPerBlock sb)

section Resolve

variable {sb : Superblock} {d d' : Disk} {ino : Inode} {lb : Nat}

theorem indirectSlot_isSome {l : Nat} (h : 12 + l < mapSpan sb) :
    ∃ slot i, indirectSlot sb l = some (slot, i) := by
  rw [indirectSlot_eq]
  unfold mapSpan at h
  split
  · exact ⟨_, _, rfl⟩
  split
  · exact ⟨_, _, rfl⟩
  rw [if_pos (by omega)]
  exact ⟨_, _, rfl⟩

theorem indirectSlot_eq_none {l : Nat} (h : mapSpan sb ≤ 12 + l) :
    indirectSlot sb l = none := by
  unfold mapSpan at h
  rw [indirectSlot_eq, if_neg (by omega), if_neg (by omega),
    if_neg (by omega)]

/-- Past the map there is nothing. -/
theorem blockAt_past (h : mapSpan sb ≤ lb) : blockAt sb d ino lb = 0 := by
  have hlb : ¬lb < 12 := by
    unfold mapSpan at h
    omega
  unfold blockAt blockOf
  rw [dif_neg hlb, indirectSlot_eq_none (by omega)]

theorem resolveIndirectDataBlock_eq (L : Nat) : ∀ {b i : Nat},
    i < treeSpan sb (L + 1) →
    resolveIndirectDataBlock sb (L + 1) b i d
      = .ok (treeAt sb d (L + 1) b i) d := by
  induction L with
  | zero =>
    intro b i hi
    have hi : i < entriesPerBlock sb := by simpa using hi
    unfold resolveIndirectDataBlock
    split
    · rename_i hb
      rw [hb, treeAt_zero_root]
      rfl
    · rename_i hb
      rw [if_pos rfl, readIndirectEntry_eq d hi, treeAt_succ hb, treeSpan,
        pow_zero, Nat.div_one]
      rfl
  | succ L ih =>
    intro b i hi
    obtain ⟨hdiv, hmod⟩ := index_lt hi
    unfold resolveIndirectDataBlock
    split
    · rename_i hb
      rw [hb, treeAt_zero_root]
      rfl
    · rename_i hb
      rw [if_neg (Nat.succ_ne_zero L), bind_of_ok (readIndirectEntry_eq d hdiv),
        ih hmod, treeAt_succ hb]

/-- **The freeing side's resolver computes the map.** -/
theorem resolveInodeDataBlock_eq (d : Disk) (ino : Inode)
    (hlb : lb < mapSpan sb) :
    resolveInodeDataBlock sb ino lb d = .ok (blockAt sb d ino lb) d := by
  unfold resolveInodeDataBlock blockAt blockOf
  split
  · rfl
  · obtain ⟨slot, i, hs⟩ := indirectSlot_isSome
      (show 12 + (lb - 12) < mapSpan sb by omega)
    rw [hs]
    exact resolveIndirectDataBlock_eq slot (indirectSlot_lt hs)

/-- And fails past it. -/
theorem resolveInodeDataBlock_error (d : Disk) (ino : Inode)
    (hlb : mapSpan sb ≤ lb) :
    resolveInodeDataBlock sb ino lb d = .error .EFBIG d := by
  have hlb12 : ¬lb < 12 := by
    unfold mapSpan at hlb
    omega
  unfold resolveInodeDataBlock
  rw [dif_neg hlb12, indirectSlot_eq_none (by omega)]
  rfl

/-- Trees are made of the data area alone. -/
theorem treeFrags_eq (hdata : d'.data = d.data) :
    treeFrags sb d' = treeFrags sb d := by
  unfold treeFrags
  rw [entry_eq hdata]

theorem treeInside_eq {L b : Nat} (hdata : d'.data = d.data)
    (h : TreeInside sb d L b) : TreeInside sb d' L b := by
  unfold TreeInside
  rw [entry_eq hdata]
  exact h

end Resolve

/-! ## §2. One tree. -/

section Tree

variable {sb : Superblock} {d d' : Disk}

/-- **A tree of pointer blocks is given back.** -/
theorem freeIndirectMetadataTree_spec (hgeo : SpaceGeometry sb) (L : Nat) :
    ∀ {b : Nat} {d : Disk}, GroupsReadable sb d →
      TreeOwned sb d (L + 1) b → TreeInside sb d (L + 1) b →
      ∃ d', freeIndirectMetadataTree sb (L + 1) b d = .ok () d' ∧
        Given sb d d' (treeFrags sb d (L + 1) b) := by
  induction L with
  | zero =>
    intro b d hread hown hin
    unfold freeIndirectMetadataTree
    split
    · rename_i hb
      subst hb
      refine ⟨d, rfl, (Given.refl sb d).congr fun f => ?_⟩
      rw [treeFrags_zero_root]
    · rename_i hb
      obtain ⟨d', hrun, hgiven⟩ := freeFragmentRun_spec hgeo hread
        (hin b ⟨hb, Or.inl rfl⟩) fun i hi => by
          have hone := hown (b + i)
          rw [treeFrags_succ hb, covers_eq_one (by omega)] at hone
          omega
      refine ⟨d', ?_, hgiven.congr fun f => ?_⟩
      · rw [if_neg (Nat.lt_irrefl 0)]
        exact hrun
      · rw [treeFrags_succ hb]
        exact (Nat.add_eq_left.mpr (Finset.sum_eq_zero fun _ _ => rfl)).symm
  | succ L ih =>
    intro b d hread hown hin
    unfold freeIndirectMetadataTree
    split
    · rename_i hb
      subst hb
      refine ⟨d, rfl, (Given.refl sb d).congr fun f => ?_⟩
      rw [treeFrags_zero_root]
    · rename_i hb
      rw [if_pos (Nat.succ_pos L)]
      -- after `i` children their trees are free
      have hloop : wp ((List.range (entriesPerBlock sb)).forM fun i => do
            let childFrag ← readIndirectEntry sb b i
            if childFrag = 0 then return ()
            else freeIndirectMetadataTree sb (L + 1) childFrag)
          (fun _ d' => Given sb d d' fun f =>
            ∑ i ∈ Finset.range (entriesPerBlock sb),
              treeFrags sb d (L + 1) (entry sb d b i) f)
          (fun _ _ => False) d := by
        refine wp_forM_range (I := fun i d' => Given sb d d' fun f =>
          ∑ j ∈ Finset.range i, treeFrags sb d (L + 1) (entry sb d b j) f)
          (fun i hi d₁ hgiven => ?_) (Given.refl sb d)
        rw [wp_bind]
        refine wp_of_ok (readIndirectEntry_eq d₁ hi) ?_
        rw [congrFun (congrFun (entry_eq hgiven.data) b) i]
        rw [wp_ite]
        constructor
        · intro hnone
          refine hgiven.congr fun f => ?_
          simp [Finset.sum_range_succ, hnone, treeFrags_zero_root]
        · intro hchild
          have hin₁ := treeInside_eq hgiven.data (hin.child hb hi)
          have hown₁ : TreeOwned sb d₁ (L + 1) (entry sb d b i) := by
            intro f
            rw [treeFrags_eq hgiven.data, hgiven.free f]
            have hone := hown f
            rw [treeFrags_succ hb] at hone
            have hle : ∑ j ∈ Finset.range (i + 1),
                  treeFrags sb d (L + 1) (entry sb d b j) f
                ≤ ∑ j ∈ Finset.range (entriesPerBlock sb),
                  treeFrags sb d (L + 1) (entry sb d b j) f :=
              Finset.sum_le_sum_of_subset
                (Finset.range_subset_range.mpr (by omega))
            rw [Finset.sum_range_succ] at hle
            omega
          obtain ⟨d₂, hrun, hnext⟩ := ih (hgiven.readable hread) hown₁ hin₁
          refine wp_of_ok hrun ((hgiven.trans hnext).congr fun f => ?_)
          rw [Finset.sum_range_succ, treeFrags_eq hgiven.data]
      obtain ⟨d₁, hrun, hgiven⟩ := wp_safe hloop
      obtain ⟨d', hroot, hlast⟩ := freeFragmentRun_spec hgeo
        (hgiven.readable hread) (hin b ⟨hb, Or.inl rfl⟩) fun i hi => by
          have hone := hown (b + i)
          have hfree := hgiven.free (b + i)
          rw [treeFrags_succ hb, covers_eq_one (by omega)] at hone
          omega
      refine ⟨d', ?_, (hgiven.trans hlast).congr fun f => ?_⟩
      · rw [bind_of_ok hrun]
        exact hroot
      · rw [treeFrags_succ hb, Nat.add_comm]

/-! ## §3. The whole file. -/

/-- The storage of an inode can be given back: its claims are of runs in use,
each claimed once. -/
structure Freeable (sb : Superblock) (d : Disk) (ino : Inode) : Prop where
  owned : ∀ f, freeAt sb d f + blockClaims sb d ino f ≤ 1
  runs : ∀ lb < fileBlocks sb ino.size, blockAt sb d ino lb ≠ 0 →
    RunFits sb (blockAt sb d ino lb) (fragsNeeded sb ino.size lb)
  inside : InodeInside sb d ino

theorem dataFrags_succ (ino : Inode) (len k f : Nat) :
    dataFrags sb d ino len (k + 1) f
      = dataFrags sb d ino len k f
        + if blockAt sb d ino k = 0 then 0
          else covers (blockAt sb d ino k) (fragsNeeded sb len k) f :=
  Finset.sum_range_succ ..

theorem dataFrags_mono (ino : Inode) (len : Nat) {k m : Nat} (h : k ≤ m)
    (f : Nat) : dataFrags sb d ino len k f ≤ dataFrags sb d ino len m f :=
  Finset.sum_le_sum_of_subset (Finset.range_subset_range.mpr h)

/-- **The data runs are given back**, as far as the map reaches. -/
theorem freeData_spec (hgeo : SpaceGeometry sb) (hread : GroupsReadable sb d)
    {ino : Inode} {frags : Nat} (h : Freeable sb d ino) :
    wp ((List.range (fileBlocks sb ino.size)).forM fun logicalBlock => do
        let dataFrag ← onDisk (resolveInodeDataBlock sb ino logicalBlock)
        if dataFrag ≠ 0 then
          onDisk (freeFragmentRun sb dataFrag
            (fragsNeeded sb ino.size logicalBlock)))
      (fun _ s => fileBlocks sb ino.size ≤ mapSpan sb ∧
        s = ⟨s.disk, ino, frags⟩ ∧ Given sb d s.disk
          (dataFrags sb d ino ino.size (fileBlocks sb ino.size)))
      (fun e s => mapSpan sb < fileBlocks sb ino.size ∧ e = .EFBIG ∧
        s = ⟨s.disk, ino, frags⟩ ∧ Given sb d s.disk
          (dataFrags sb d ino ino.size (fileBlocks sb ino.size)))
      ⟨d, ino, frags⟩ := by
  refine wp_mono (wp_forM_range (n := fileBlocks sb ino.size)
    (I := fun k s => (k ≤ fileBlocks sb ino.size → k ≤ mapSpan sb) ∧
      s = ⟨s.disk, ino, frags⟩ ∧
      Given sb d s.disk (dataFrags sb d ino ino.size k))
    (fun k hk s hI => ?_) ⟨fun _ => Nat.zero_le _, rfl, Given.refl sb d⟩)
    (fun _ s hI => ⟨hI.1 le_rfl, hI.2⟩) fun _ _ he => he
  obtain ⟨hspan, hs, hgiven⟩ := hI
  have hmap : blockAt sb s.disk ino = blockAt sb d ino := by
    unfold blockAt slotTrees treeAt
    rw [entry_eq hgiven.data]
  rw [wp_bind, wp_onDisk]
  rcases Nat.lt_or_ge k (mapSpan sb) with hlt | hge
  · refine wp_of_ok (resolveInodeDataBlock_eq s.disk ino hlt) ?_
    rw [hmap, wp_ite]
    constructor
    · intro hblock
      rw [wp_onDisk]
      obtain ⟨d', hrun, hnext⟩ := freeFragmentRun_spec hgeo
        (hgiven.readable hread) (h.runs k hk hblock) fun i hi => by
          have hone := h.owned (blockAt sb d ino k + i)
          have hfree := hgiven.free (blockAt sb d ino k + i)
          have hle := @dataFrags_mono sb d ino ino.size (k + 1) _ hk
            (blockAt sb d ino k + i)
          rw [dataFrags_succ, if_neg hblock, covers_eq_one (by omega)] at hle
          unfold blockClaims at hone
          show freeAt sb s.disk _ = 0
          omega
      refine wp_of_ok hrun ⟨fun _ => hlt, ?_, ?_⟩
      · rw [hs]
      · refine (hgiven.trans hnext).congr fun f => ?_
        rw [dataFrags_succ, if_neg hblock]
    · intro hhole
      refine ⟨fun _ => hlt, hs, hgiven.congr fun f => ?_⟩
      rw [dataFrags_succ, if_pos (not_not.mp hhole), Nat.add_zero]
  · -- past the map: everything below it has been given back
    have hrun := @resolveInodeDataBlock_error sb k s.disk ino hge
    unfold wp
    rw [hrun]
    refine ⟨by omega, rfl, hs, hgiven.congr fun f => ?_⟩
    refine Finset.sum_subset (Finset.range_subset_range.mpr hk.le)
      fun lb _ hlb => ?_
    have : ¬lb < k := fun h => hlb (Finset.mem_range.mpr h)
    rw [if_pos (blockAt_past (by omega))]

/-- The inode that is left. -/
def emptied (ino : Inode) : Inode :=
  { ino with db := fun _ => 0, ib := fun _ => 0, size := 0, blocks := 0 }

theorem setIb_all (ino : Inode) :
    ((ino.setIb 0 0).setIb 1 0).setIb 2 0 = { ino with ib := fun _ => 0 } := by
  have hib : Function.update (Function.update (Function.update ino.ib 0 0)
      1 0) 2 0 = fun _ => 0 := by
    funext slot
    match slot with
    | 0 => rfl
    | 1 => rfl
    | 2 => rfl
  exact congrArg (fun ib => { ino with ib := ib }) hib

/-- **A file's storage is given back.**  On success every fragment it claimed
is free and the inode points nowhere; a size past the map is an error after
the data has been given back. -/
theorem freeFileStorage_spec (hgeo : SpaceGeometry sb)
    (hread : GroupsReadable sb d) {ino : Inode} {frags : Nat}
    (hfast : isFastLink ino = false) (h : Freeable sb d ino) :
    wp (freeFileStorage sb)
      (fun _ s => fileBlocks sb ino.size ≤ mapSpan sb ∧
        s.ino = emptied ino ∧ Given sb d s.disk (blockClaims sb d ino))
      (fun e s => mapSpan sb < fileBlocks sb ino.size ∧ e = .EFBIG ∧
        s.ino = ino ∧ Given sb d s.disk
          (dataFrags sb d ino ino.size (fileBlocks sb ino.size)))
      ⟨d, ino, frags⟩ := by
  unfold freeFileStorage
  rw [wp_bind, wp_get, wp_ite]
  refine ⟨fun hlink => ?_, fun _ => ?_⟩
  · rw [hfast] at hlink
    cases hlink
  rw [wp_bind]
  refine wp_mono (freeData_spec hgeo hread h) ?_ ?_
  · rintro _ s₁ ⟨hspan, hs₁, hdata⟩
    rw [wp_bind, wp_modify, wp_bind]
    -- one slot after the other, each tree with its own claims
    have hslot : ∀ (slot : Fin 3) (s : Storing) (claims : Nat → Nat),
        Given sb d s.disk claims →
        (∀ f, freeAt sb d f + claims f
          + treeFrags sb d (slot + 1) (ino.ib slot) f ≤ 1) →
        wp (do
            onDisk (freeIndirectMetadataTree sb (slot + 1) (ino.ib slot))
            modify fun s => { s with ino := s.ino.setIb slot 0 })
          (fun _ s' => s'.ino = s.ino.setIb slot 0 ∧ Given sb d s'.disk
            fun f => claims f + treeFrags sb d (slot + 1) (ino.ib slot) f)
          (fun _ _ => False) s := by
      intro slot s claims hgiven hone
      obtain ⟨d', hrun, hnext⟩ := freeIndirectMetadataTree_spec hgeo slot
        (hgiven.readable hread) (b := ino.ib slot) (fun f => by
          rw [treeFrags_eq hgiven.data, hgiven.free f]
          exact hone f) (treeInside_eq hgiven.data (h.inside slot))
      rw [wp_bind, wp_onDisk]
      refine wp_of_ok hrun ?_
      rw [wp_modify]
      refine ⟨rfl, (hgiven.trans hnext).congr fun f => ?_⟩
      rw [treeFrags_eq hgiven.data]
    have hmeta : ∀ f, metaFrags sb d ino f
        = treeFrags sb d ((0 : Fin 3) + 1) (ino.ib 0) f
          + treeFrags sb d ((1 : Fin 3) + 1) (ino.ib 1) f
          + treeFrags sb d ((2 : Fin 3) + 1) (ino.ib 2) f :=
      fun f => Fin.sum_univ_three _
    have hone := h.owned
    unfold blockClaims at hone
    simp only [hmeta] at hone
    show wp (_ >>= fun _ => List.forM [1, 2] _) _ _ _
    rw [wp_bind]
    have hdata : Given sb d s₁.disk
        (dataFrags sb d ino ino.size (fileBlocks sb ino.size)) := hdata
    refine wp_mono (hslot 0 _ _ hdata fun f => by have := hone f; omega)
      (fun _ s₂ h₂ => ?_) fun _ _ he => he.elim
    show wp (_ >>= fun _ => List.forM [2] _) _ _ _
    rw [wp_bind]
    refine wp_mono (hslot 1 _ _ h₂.2 fun f => by have := hone f; omega)
      (fun _ s₃ h₃ => ?_) fun _ _ he => he.elim
    show wp (_ >>= fun _ => List.forM [] _) _ _ _
    rw [wp_bind]
    refine wp_mono (hslot 2 _ _ h₃.2 fun f => by have := hone f; omega)
      (fun _ s₄ h₄ => ?_) fun _ _ he => he.elim
    refine ⟨hspan, ?_, h₄.2.congr fun f => ?_⟩
    · show { s₄.ino with size := 0, blocks := 0 } = emptied ino
      rw [h₄.1, h₃.1, h₂.1, setIb_all, hs₁]
      rfl
    · unfold blockClaims
      rw [hmeta]
      omega
  · rintro e s₁ ⟨hspan, rfl, hs₁, hdata⟩
    refine ⟨hspan, rfl, ?_, hdata⟩
    rw [hs₁]

end Tree

end NextUfs
