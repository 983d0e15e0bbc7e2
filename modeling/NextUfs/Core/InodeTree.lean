/-
  NextUfs.Core.InodeTree
  ──────────────────────
  **AN INODE'S BLOCKS AS ONE FUNCTION.**

  Twelve direct pointers and three block trees map a logical block to a
  fragment.  `blockAt` is that map; the writer and both resolvers have their
  own way to compute it.

    • `InodeStep`              — what a call does to an inode and its trees,
    • `setInodeDataBlock_spec` — the writer sets one block of the map,
    • `resolveFileBlockFrag_eq` — the reader's resolver computes the map, or
      fails where a whole tree is missing.
-/
import NextUfs.Core.TreeSpec
import Mathlib.Algebra.BigOperators.Fin

namespace NextUfs

open Bits Radix State

/-! ## §1. Slots. -/

section Slots

variable {sb : Superblock}

theorem indirectSlot_eq (sb : Superblock) (l : Nat) :
    indirectSlot sb l =
      if l < entriesPerBlock sb then some (0, l)
      else if l - entriesPerBlock sb
          < entriesPerBlock sb * entriesPerBlock sb then
        some (1, l - entriesPerBlock sb)
      else if l - entriesPerBlock sb - entriesPerBlock sb * entriesPerBlock sb
          < entriesPerBlock sb * entriesPerBlock sb * entriesPerBlock sb then
        some (2, l - entriesPerBlock sb
          - entriesPerBlock sb * entriesPerBlock sb)
      else none := rfl

/-- The index is one of its slot's tree. -/
theorem indirectSlot_lt {l i : Nat} {slot : Fin 3}
    (h : indirectSlot sb l = some (slot, i)) :
    i < treeSpan sb (slot + 1) := by
  rw [indirectSlot_eq] at h
  unfold treeSpan
  split at h
  · cases h
    simpa
  split at h
  · cases h
    simpa [pow_succ]
  split at h
  · cases h
    simpa [pow_succ]
  · cases h

/-- First block of a slot, counted from the first one that is not direct. -/
def slotBase (sb : Superblock) (slot : Fin 3) : Nat :=
  ![0, entriesPerBlock sb,
    entriesPerBlock sb + entriesPerBlock sb * entriesPerBlock sb] slot

theorem indirectSlot_base {l i : Nat} {slot : Fin 3}
    (h : indirectSlot sb l = some (slot, i)) : l = slotBase sb slot + i := by
  rw [indirectSlot_eq] at h
  split at h
  · cases h
    exact (Nat.zero_add l).symm
  split at h
  · cases h
    show l = entriesPerBlock sb + (l - entriesPerBlock sb)
    omega
  split at h
  · cases h
    show l = entriesPerBlock sb + entriesPerBlock sb * entriesPerBlock sb
      + (l - entriesPerBlock sb - entriesPerBlock sb * entriesPerBlock sb)
    omega
  · cases h

/-- Two logical blocks never share a place. -/
theorem indirectSlot_inj {l l' i : Nat} {slot : Fin 3}
    (h : indirectSlot sb l = some (slot, i))
    (h' : indirectSlot sb l' = some (slot, i)) : l = l' :=
  (indirectSlot_base h).trans (indirectSlot_base h').symm

end Slots

/-! ## §2. The map. -/

/-- The map from logical blocks that twelve pointers and three trees make. -/
def blockOf (sb : Superblock) (db : Fin 12 → Nat) (tree : Fin 3 → Nat → Nat)
    (logicalBlock : Nat) : Nat :=
  if h : logicalBlock < 12 then db ⟨logicalBlock, h⟩
  else
    match indirectSlot sb (logicalBlock - 12) with
    | none => 0
    | some (slot, i) => tree slot i

/-- The values of an inode's trees. -/
def slotTrees (sb : Superblock) (d : Disk) (ino : Inode) (slot : Fin 3) :
    Nat → Nat :=
  treeAt sb d (slot + 1) (ino.ib slot)

/-- The fragment of a logical block, 0 for a hole. -/
def blockAt (sb : Superblock) (d : Disk) (ino : Inode) : Nat → Nat :=
  blockOf sb ino.db (slotTrees sb d ino)

/-- How many of an inode's pointer blocks cover a fragment. -/
def metaFrags (sb : Superblock) (d : Disk) (ino : Inode) (f : Nat) : Nat :=
  ∑ slot : Fin 3, treeFrags sb d (slot + 1) (ino.ib slot) f

section Map

variable {sb : Superblock} {db : Fin 12 → Nat} {tree tree' : Fin 3 → Nat → Nat}

theorem blockOf_congr
    (h : ∀ slot : Fin 3, ∀ i < treeSpan sb (slot + 1),
      tree' slot i = tree slot i) (lb : Nat) :
    blockOf sb db tree' lb = blockOf sb db tree lb := by
  unfold blockOf
  split
  · rfl
  · cases hs : indirectSlot sb (lb - 12) with
    | none => rfl
    | some p => exact h p.1 p.2 (indirectSlot_lt hs)

/-- A tree that changes at one index changes the map at one block. -/
theorem blockOf_update {lb i a : Nat} {slot : Fin 3} (hlb : ¬lb < 12)
    (hs : indirectSlot sb (lb - 12) = some (slot, i)) :
    blockOf sb db (Function.update tree slot
        (Function.update (tree slot) i a))
      = Function.update (blockOf sb db tree) lb a := by
  funext lb'
  by_cases heq : lb' = lb
  · subst heq
    rw [Function.update_self]
    unfold blockOf
    rw [dif_neg hlb, hs]
    simp only [Function.update_self]
  · rw [Function.update_of_ne heq]
    unfold blockOf
    split
    · rfl
    · rename_i hlb'
      cases hs' : indirectSlot sb (lb' - 12) with
      | none => rfl
      | some p =>
        obtain ⟨slot', i'⟩ := p
        dsimp only
        by_cases hslot : slot' = slot
        · subst hslot
          have hi : i' ≠ i := by
            rintro rfl
            have := indirectSlot_inj hs hs'
            omega
          rw [Function.update_self, Function.update_of_ne hi]
        · rw [Function.update_of_ne hslot]

/-- A direct block is its own pointer. -/
theorem blockOf_setDb {lb a : Nat} (hlb : lb < 12) :
    blockOf sb (Function.update db ⟨lb, hlb⟩ a) tree
      = Function.update (blockOf sb db tree) lb a := by
  funext lb'
  by_cases heq : lb' = lb
  · subst heq
    rw [Function.update_self]
    unfold blockOf
    rw [dif_pos hlb, Function.update_self]
  · rw [Function.update_of_ne heq]
    unfold blockOf
    split
    · rw [Function.update_of_ne]
      exact fun h => heq (congrArg Fin.val h)
    · rfl

end Map

/-! ## §3. What a call does to an inode. -/

/-- The inode's pointer blocks share no fragment with each other or the free
bitmaps. -/
def InodeOwned (sb : Superblock) (d : Disk) (ino : Inode) : Prop :=
  ∀ f, freeAt sb d f + metaFrags sb d ino f ≤ 1

/-- Every pointer block of the inode is a block of the disk. -/
def InodeInside (sb : Superblock) (d : Disk) (ino : Inode) : Prop :=
  ∀ slot : Fin 3, TreeInside sb d (slot + 1) (ino.ib slot)

/-- From `d`, `ino` to `d'`, `ino'` the inode's trees have taken fragments that
were free, its map is `val`, and the books are kept. -/
structure InodeStep (sb : Superblock) (d d' : Disk) (ino ino' : Inode)
    (val : Nat → Nat) : Prop where
  conserved : ∀ f, freeAt sb d' f + metaFrags sb d' ino' f
    = freeAt sb d f + metaFrags sb d ino f
  taken : ∀ f, freeAt sb d' f ≤ freeAt sb d f
  frame : ∀ f, freeAt sb d f = 0 → metaFrags sb d ino f = 0 →
    SameFrag sb d d' f
  values : blockAt sb d' ino' = val
  pointers : ino' = { ino with db := ino'.db, ib := ino'.ib }
  inside : InodeInside sb d ino → InodeInside sb d' ino'
  books : BooksKept sb d d'

section Step

variable {sb : Superblock} {d d₁ d' : Disk} {ino ino₁ ino' : Inode}
  {val val' : Nat → Nat}

theorem InodeStep.refl (sb : Superblock) (d : Disk) (ino : Inode) :
    InodeStep sb d d ino ino (blockAt sb d ino) :=
  ⟨fun _ => rfl, fun _ => le_rfl, fun f _ _ => SameFrag.refl sb d f, rfl, rfl,
    id, BooksKept.refl sb d⟩

theorem InodeStep.owned (h : InodeStep sb d d' ino ino' val)
    (hown : InodeOwned sb d ino) : InodeOwned sb d' ino' := by
  intro f
  rw [h.conserved f]
  exact hown f

theorem InodeStep.trans (h₁ : InodeStep sb d d₁ ino ino₁ val)
    (h₂ : InodeStep sb d₁ d' ino₁ ino' val') :
    InodeStep sb d d' ino ino' val' where
  conserved f := (h₂.conserved f).trans (h₁.conserved f)
  taken f := (h₂.taken f).trans (h₁.taken f)
  frame f hfree hmeta := by
    have hsum := h₁.conserved f
    exact (h₁.frame f hfree hmeta).trans
      (h₂.frame f (by omega) (by omega))
  values := h₂.values
  pointers := by
    rw [h₂.pointers, h₁.pointers]
  inside h := h₂.inside (h₁.inside h)
  books := h₁.books.trans h₂.books

theorem treeFrags_le_metaFrags (sb : Superblock) (d : Disk) (ino : Inode)
    (slot : Fin 3) (f : Nat) :
    treeFrags sb d (slot + 1) (ino.ib slot) f ≤ metaFrags sb d ino f :=
  Finset.single_le_sum
    (f := fun slot : Fin 3 => treeFrags sb d (slot + 1) (ino.ib slot) f)
    (fun _ _ => Nat.zero_le _) (Finset.mem_univ slot)

/-- Two slots are two terms of the count. -/
theorem treeFrags_add_le_metaFrags {slot slot' : Fin 3} (hne : slot ≠ slot')
    (f : Nat) :
    treeFrags sb d (slot + 1) (ino.ib slot) f
        + treeFrags sb d (slot' + 1) (ino.ib slot') f
      ≤ metaFrags sb d ino f := by
  rw [metaFrags, ← Finset.sum_pair
    (f := fun slot : Fin 3 => treeFrags sb d (slot + 1) (ino.ib slot) f) hne]
  exact Finset.sum_le_sum_of_subset (Finset.subset_univ _)

theorem InodeOwned.tree (h : InodeOwned sb d ino) (slot : Fin 3) :
    TreeOwned sb d (slot + 1) (ino.ib slot) := by
  intro f
  have hle := treeFrags_le_metaFrags sb d ino slot f
  have hone := h f
  omega

/-- Fragments of an owned inode's trees that are in none of slot `slot` are
neither free nor that slot's. -/
theorem InodeOwned.other {slot slot' : Fin 3} {f : Nat}
    (h : InodeOwned sb d ino) (hne : slot' ≠ slot)
    (hpos : 0 < treeFrags sb d (slot' + 1) (ino.ib slot') f) :
    freeAt sb d f = 0 ∧ treeFrags sb d (slot + 1) (ino.ib slot) f = 0 := by
  have hle := @treeFrags_add_le_metaFrags sb d ino _ _ hne f
  have hone := h f
  omega

/-- **One slot's tree changed**, and its root is now `root`. -/
theorem inodeStep_slot (hgeo : DataGeometry sb) {slot : Fin 3} {root : Nat}
    {treeVal : Nat → Nat} (hown : InodeOwned sb d ino)
    (hconserved : ∀ f, freeAt sb d' f + treeFrags sb d' (slot + 1) root f
      = freeAt sb d f + treeFrags sb d (slot + 1) (ino.ib slot) f)
    (htaken : ∀ f, freeAt sb d' f ≤ freeAt sb d f)
    (hframe : ∀ f, freeAt sb d f = 0 →
      treeFrags sb d (slot + 1) (ino.ib slot) f = 0 → SameFrag sb d d' f)
    (hval : ∀ i < treeSpan sb (slot + 1),
      treeAt sb d' (slot + 1) root i = treeVal i)
    (hinside : TreeInside sb d (slot + 1) (ino.ib slot) →
      TreeInside sb d' (slot + 1) root)
    (hbooks : BooksKept sb d d') :
    InodeStep sb d d' ino (ino.setIb slot root)
      (blockOf sb ino.db
        (Function.update (slotTrees sb d ino) slot treeVal)) := by
  have hself : (ino.setIb slot root).ib slot = root := Function.update_self ..
  have hib : ∀ slot' ≠ slot, (ino.setIb slot root).ib slot' = ino.ib slot' :=
    fun slot' hne => Function.update_of_ne hne _ _
  have hsame : ∀ slot' ≠ slot, SameTree (entry sb d) (entry sb d')
      (entriesPerBlock sb) (slot' + 1) (ino.ib slot') := by
    intro slot' hne
    refine sameTree_of_frags hgeo fun f hpos => ?_
    obtain ⟨hfree, htree⟩ := hown.other hne hpos
    exact hframe f hfree htree
  refine ⟨fun f => ?_, htaken, fun f hfree hmeta => ?_, ?_, rfl,
    fun hin slot' => ?_, hbooks⟩
  · have hchange := sum_change_mem
      (Finset.mem_univ slot) fun slot' _ hne =>
        show treeFrags sb d' (slot' + 1) ((ino.setIb slot root).ib slot') f
            = treeFrags sb d (slot' + 1) (ino.ib slot') f by
          rw [hib slot' hne]
          exact footprint_congr (hsame slot' hne) f
    have hsum := hconserved f
    simp only [hself] at hchange
    unfold metaFrags
    omega
  · refine hframe f hfree ?_
    have hle := treeFrags_le_metaFrags sb d ino slot f
    omega
  · funext lb
    refine blockOf_congr (fun slot' i hi => ?_) lb
    by_cases hne : slot' = slot
    · subst hne
      rw [Function.update_self, slotTrees, hself]
      exact hval i hi
    · rw [Function.update_of_ne hne, slotTrees, hib slot' hne]
      exact lookup_congr (hsame slot' hne) hi
  · by_cases hne : slot' = slot
    · subst hne
      rw [hself]
      exact hinside (hin slot')
    · rw [hib slot' hne]
      exact (hin slot').congr (hsame slot' hne)

end Step

/-! ## §4. The writer. -/

/-- The inode with the root it has. -/
theorem setIb_self (ino : Inode) (slot : Fin 3) :
    ino.setIb slot (ino.ib slot) = ino := by
  show { ino with ib := _ } = ino
  rw [Function.update_eq_self]

/-- **One block of the map is set**; on failure none is. -/
theorem setInodeDataBlock_spec {sb : Superblock} (hgeo : DataGeometry sb)
    {preferredCg lb a : Nat} {s : Storing} (ha : a < 2 ^ 32)
    (hown : InodeOwned sb s.disk s.ino) (hzero : freeAt sb s.disk 0 = 0) :
    wp (setInodeDataBlock sb preferredCg lb a)
      (fun _ s' => InodeStep sb s.disk s'.disk s.ino s'.ino
        (Function.update (blockAt sb s.disk s.ino) lb a))
      (fun _ s' => InodeStep sb s.disk s'.disk s.ino s'.ino
        (blockAt sb s.disk s.ino)) s := by
  -- the call on a root that is there, from any state
  have hdescend : ∀ {t : Storing} {slot : Fin 3} {i : Nat}, ¬lb < 12 →
      indirectSlot sb (lb - 12) = some (slot, i) →
      InodeOwned sb t.disk t.ino → freeAt sb t.disk 0 = 0 →
      t.ino.ib slot ≠ 0 →
      wp (setIndirectDataBlock sb preferredCg (slot + 1) (t.ino.ib slot) i a)
        (fun _ s' => InodeStep sb t.disk s'.disk t.ino s'.ino
          (Function.update (blockAt sb t.disk t.ino) lb a))
        (fun _ s' => InodeStep sb t.disk s'.disk t.ino s'.ino
          (blockAt sb t.disk t.ino)) t := by
    intro t slot i hlb hs hown hzero hroot
    refine wp_mono (setIndirectDataBlock_spec hgeo ha slot hroot
      (indirectSlot_lt hs) (hown.tree slot) hzero) ?_ ?_
    · rintro _ s' ⟨hino, hstep⟩
      have := inodeStep_slot hgeo hown hstep.conserved hstep.taken hstep.frame
        hstep.values hstep.inside hstep.books
      rw [setIb_self] at this
      rw [hino]
      rwa [← slotTrees, blockOf_update hlb hs] at this
    · rintro _ s' ⟨hino, hstep⟩
      have := inodeStep_slot hgeo hown hstep.conserved hstep.taken hstep.frame
        hstep.values hstep.inside hstep.books
      rw [setIb_self] at this
      rw [hino]
      rwa [← slotTrees, Function.update_eq_self] at this
  unfold setInodeDataBlock
  split
  · rename_i hlb
    rw [wp_modify]
    refine ⟨fun _ => rfl, fun _ => le_rfl,
      fun f _ _ => SameFrag.refl sb _ f, ?_, rfl, id, BooksKept.refl ..⟩
    exact blockOf_setDb hlb
  · rename_i hlb
    cases hs : indirectSlot sb (lb - 12) with
    | none => exact InodeStep.refl ..
    | some p =>
      obtain ⟨slot, i⟩ := p
      dsimp only
      rw [wp_bind, wp_get, wp_ite]
      constructor
      · -- the slot has no tree yet: its root is allocated first
        intro hroot
        rw [wp_bind, wp_onDisk]
        refine wp_mono (allocateZeroedFullBlock_spec hgeo s.disk) ?_ ?_
        · rintro c d₁ ⟨hfree, hfits, hbooks, hempty, hsame⟩
          have hc : c ≠ 0 := by
            rintro rfl
            have hsum := hfree 0
            rw [covers_eq_one ⟨le_rfl, by have := hgeo.fpb_pos; omega⟩]
              at hsum
            omega
          rw [wp_bind, wp_modify, wp_bind, wp_countFrags]
          have hlink : InodeStep sb s.disk d₁ s.ino (s.ino.setIb slot c)
              (blockAt sb s.disk s.ino) := by
            have hnone : ∀ f, treeFrags sb s.disk (slot + 1)
                (s.ino.ib slot) f = 0 := by
              intro f
              rw [hroot, treeFrags_zero_root]
            have := @inodeStep_slot sb s.disk d₁ s.ino hgeo slot c
              (slotTrees sb s.disk s.ino slot) hown
              (fun f => by
                rw [hnone, Nat.add_zero, ← hfree f]
                exact congrArg _ (footprint_zeroed hc hempty f))
              (fun f => by
                have hsum := hfree f
                omega)
              (fun f hf0 _ => hsame f (by
                have hsum := hfree f
                omega))
              (fun j hj => by
                rw [slotTrees, hroot, treeAt_zero_root]
                exact lookup_zeroed hempty hj)
              (fun _ x hx => by
                rw [inTree_zeroed hempty hx]
                exact hfits)
              hbooks
            rwa [Function.update_eq_self] at this
          have hib : (s.ino.setIb slot c).ib slot = c :=
            Function.update_self ..
          have hcall := hdescend
            (t := ⟨d₁, s.ino.setIb slot c, s.frags + sb.fragsPerBlock⟩) hlb hs
            (hlink.owned hown)
            (Nat.le_zero.mp ((hlink.taken 0).trans (Nat.le_of_eq hzero)))
            (by rw [hib]; exact hc)
          rw [hib] at hcall
          refine wp_mono hcall ?_ ?_
          · intro _ s' hstep
            have := hlink.trans hstep
            rwa [hlink.values] at this
          · intro _ s' hstep
            have := hlink.trans hstep
            rwa [hlink.values] at this
        · rintro _ d₁ rfl
          exact InodeStep.refl ..
      · intro hroot
        exact hdescend hlb hs hown hzero hroot

/-! ## §5. The reader's resolver. -/

/-- A block the reader's resolver can reach: a direct one, or one of a slot
that has a tree. -/
def Reachable (sb : Superblock) (ino : Inode) (lb : Nat) : Prop :=
  lb < 12 ∨ ∃ slot i, indirectSlot sb (lb - 12) = some (slot, i) ∧
    ino.ib slot ≠ 0

/-- Below a root that is there, the reader follows the tree. -/
theorem resolveIndirectBlockFrag_eq {sb : Superblock} {d : Disk} (L : Nat) :
    ∀ {b i : Nat}, b ≠ 0 → i < treeSpan sb (L + 1) →
      resolveIndirectBlockFrag sb (L + 1) b i d
        = .ok (treeAt sb d (L + 1) b i) d := by
  induction L with
  | zero =>
    intro b i hb hi
    have hi : i < entriesPerBlock sb := by simpa using hi
    unfold resolveIndirectBlockFrag
    rw [if_neg (by omega), pow_zero, Nat.div_one]
    have hread : attempt (readIndirectEntry sb b i) d
        = .ok (.ok (entry sb d b i)) d := by
      unfold attempt
      rw [readIndirectEntry_eq _ hi]
    rw [bind_of_ok hread, treeAt_succ hb, treeSpan, pow_zero, Nat.div_one]
    rfl
  | succ L ih =>
    intro b i hb hi
    obtain ⟨he, hr⟩ := index_lt hi
    have hentries : ¬(b = 0 ∨ entriesPerBlock sb = 0) := by
      rintro (h | h)
      · exact hb h
      · rw [h] at he
        exact Nat.not_lt_zero _ he
    unfold resolveIndirectBlockFrag
    rw [if_neg hentries]
    have hread : attempt
        (readIndirectEntry sb b (i / entriesPerBlock sb ^ (L + 1))) d
        = .ok (.ok (entry sb d b (i / entriesPerBlock sb ^ (L + 1)))) d := by
      unfold attempt
      rw [readIndirectEntry_eq _ he]
    rw [bind_of_ok hread, treeAt_succ hb]
    dsimp only
    rw [if_neg (Nat.succ_ne_zero L)]
    split
    · rename_i hnone
      rw [treeSpan, hnone, treeAt_zero_root]
      rfl
    · rename_i hnext
      exact ih hnext hr

/-- **The reader's resolver computes the map.** -/
theorem resolveFileBlockFrag_eq {sb : Superblock} {ino : Inode} {lb : Nat}
    (d : Disk) (h : Reachable sb ino lb) :
    resolveFileBlockFrag sb ino lb d = .ok (blockAt sb d ino lb) d := by
  unfold resolveFileBlockFrag blockAt blockOf
  by_cases hlb : lb < 12
  · rw [dif_pos hlb, dif_pos hlb]
    rfl
  · rw [dif_neg hlb, dif_neg hlb]
    obtain hlt | ⟨slot, i, hs, hroot⟩ := h
    · exact absurd hlt hlb
    · rw [hs]
      exact resolveIndirectBlockFrag_eq slot hroot (indirectSlot_lt hs)

/-- Where it cannot reach a block it fails. -/
theorem resolveFileBlockFrag_error {sb : Superblock} {ino : Inode} {lb : Nat}
    (d : Disk) (h : ¬Reachable sb ino lb) :
    resolveFileBlockFrag sb ino lb d = .error .EINVAL d := by
  unfold resolveFileBlockFrag
  by_cases hlb : lb < 12
  · exact absurd (Or.inl hlb) h
  · rw [dif_neg hlb]
    cases hs : indirectSlot sb (lb - 12) with
    | none => rfl
    | some p =>
      obtain ⟨slot, i⟩ := p
      have hroot : ino.ib slot = 0 := by
        by_contra hne
        exact h (Or.inr ⟨slot, i, hs, hne⟩)
      dsimp only
      unfold resolveIndirectBlockFrag
      rw [if_pos (Or.inl hroot)]
      rfl

/-- A block that is not a hole can be reached. -/
theorem reachable_of_blockAt {sb : Superblock} {d : Disk} {ino : Inode}
    {lb : Nat} (h : blockAt sb d ino lb ≠ 0) : Reachable sb ino lb := by
  unfold blockAt blockOf at h
  by_cases hlb : lb < 12
  · exact Or.inl hlb
  · rw [dif_neg hlb] at h
    cases hs : indirectSlot sb (lb - 12) with
    | none =>
      rw [hs] at h
      exact absurd rfl h
    | some p =>
      obtain ⟨slot, i⟩ := p
      rw [hs] at h
      refine Or.inr ⟨slot, i, hs, fun hroot => h ?_⟩
      show treeAt sb d _ (ino.ib slot) i = 0
      rw [hroot, treeAt_zero_root]

end NextUfs
