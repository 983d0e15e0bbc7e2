/-
  NextUfs.Core.TreeSpec
  ─────────────────────
  **ONE POINTER IS WRITTEN INTO A BLOCK TREE.**

  `setIndirectDataBlock` descends through an inode's pointer blocks, allocates
  the ones that are missing and writes one entry.  Over the disk's bytes its
  trees are the radix trees of `Lib.Radix`.

    • `TreeStep`                  — what such a call does to its tree: fragments
      move from free to the tree and nowhere else, bytes outside change only
      where they were free, the values are the new ones, and the books are
      kept,
    • `treeStep_link`, `treeStep_child` — a new empty child, a changed child,
    • `setIndirectDataBlock_spec` — the induction over the levels, for success
      and for failure.
-/
import NextUfs.Core.Space

namespace NextUfs

open Bits Radix State

/-! ## §1. Trees on the disk. -/

/-- How many blocks of the tree of level `L` at `b` cover a fragment. -/
def treeFrags (sb : Superblock) (d : Disk) (L b f : Nat) : Nat :=
  footprint (entry sb d) (entriesPerBlock sb) sb.fragsPerBlock L b f

/-- The value at index `i` of the tree of level `L` at `b`. -/
def treeAt (sb : Superblock) (d : Disk) (L b i : Nat) : Nat :=
  lookup (entry sb d) (entriesPerBlock sb) L b i

/-- Number of indices of a tree of level `L`. -/
abbrev treeSpan (sb : Superblock) (L : Nat) : Nat := entriesPerBlock sb ^ L

/-- The tree at `b` shares no fragment with itself or the free bitmaps. -/
def TreeOwned (sb : Superblock) (d : Disk) (L b : Nat) : Prop :=
  ∀ f, freeAt sb d f + treeFrags sb d L b f ≤ 1

/-- Every pointer block of the tree is a block of the disk. -/
def TreeInside (sb : Superblock) (d : Disk) (L b : Nat) : Prop :=
  ∀ x, InTree (entry sb d) (entriesPerBlock sb) L b x →
    RunFits sb x sb.fragsPerBlock

section Same

variable {sb : Superblock} {d d' : Disk} {L b e : Nat}

theorem treeFrags_zero_root (sb : Superblock) (d : Disk) (L f : Nat) :
    treeFrags sb d L 0 f = 0 :=
  footprint_zero_root L f

theorem treeAt_zero_root (sb : Superblock) (d : Disk) (L i : Nat) :
    treeAt sb d L 0 i = 0 :=
  lookup_zero_root L i

theorem treeFrags_succ {f : Nat} (hb : b ≠ 0) :
    treeFrags sb d (L + 1) b f
      = covers b sb.fragsPerBlock f
        + ∑ i ∈ Finset.range (entriesPerBlock sb),
            treeFrags sb d L (entry sb d b i) f :=
  footprint_succ hb

theorem treeAt_succ {i : Nat} (hb : b ≠ 0) :
    treeAt sb d (L + 1) b i
      = treeAt sb d L (entry sb d b (i / treeSpan sb L)) (i % treeSpan sb L) :=
  lookup_succ hb

/-- A child's fragments are the tree's, and not its root's. -/
theorem treeFrags_child_le {f : Nat} (hb : b ≠ 0)
    (he : e < entriesPerBlock sb) :
    treeFrags sb d L (entry sb d b e) f + covers b sb.fragsPerBlock f
      ≤ treeFrags sb d (L + 1) b f :=
  footprint_child_le hb he

theorem sameTree_of_frags (hgeo : DataGeometry sb)
    (h : ∀ f, 0 < treeFrags sb d L b f → SameFrag sb d d' f) :
    SameTree (entry sb d) (entry sb d') (entriesPerBlock sb) L b := by
  intro x hx i hi
  refine entry_congr hgeo (fun f h1 h2 => h f ?_) hi
  exact hx.footprint_pos ⟨h1, h2⟩

theorem TreeInside.child (h : TreeInside sb d (L + 1) b) (hb : b ≠ 0)
    (he : e < entriesPerBlock sb) : TreeInside sb d L (entry sb d b e) :=
  fun x hx => h x ⟨hb, Or.inr ⟨e, he, hx⟩⟩

theorem TreeInside.congr (hsame : SameTree (entry sb d) (entry sb d')
    (entriesPerBlock sb) L b) (h : TreeInside sb d L b) :
    TreeInside sb d' L b :=
  fun x hx => h x (inTree_congr hsame hx)

/-- Every child of an owned tree is owned. -/
theorem TreeOwned.child (h : TreeOwned sb d (L + 1) b) (hb : b ≠ 0)
    (he : e < entriesPerBlock sb) :
    TreeOwned sb d L (entry sb d b e) := by
  intro f
  have hle := treeFrags_child_le (d := d) (L := L) (f := f) hb he
  have hf := h f
  omega

/-- A block of an owned tree holds no free fragment, and no child of it
covers it. -/
theorem TreeOwned.root (h : TreeOwned sb d (L + 1) b) (hb : b ≠ 0)
    (he : e < entriesPerBlock sb) {f : Nat}
    (hf : b ≤ f ∧ f < b + sb.fragsPerBlock) :
    freeAt sb d f = 0 ∧ treeFrags sb d L (entry sb d b e) f = 0 := by
  have hle := treeFrags_child_le (d := d) (L := L) (f := f) hb he
  rw [covers_eq_one hf] at hle
  have hone := h f
  omega

/-- The fragments of one child are neither free, nor the root's, nor another
child's. -/
theorem TreeOwned.sibling {i j f : Nat} (h : TreeOwned sb d (L + 1) b)
    (hb : b ≠ 0) (hi : i < entriesPerBlock sb) (hj : j < entriesPerBlock sb)
    (hij : i ≠ j) (hpos : 0 < treeFrags sb d L (entry sb d b i) f) :
    freeAt sb d f = 0 ∧ treeFrags sb d L (entry sb d b j) f = 0 ∧
      (f < b ∨ b + sb.fragsPerBlock ≤ f) := by
  have hle : treeFrags sb d L (entry sb d b i) f
        + treeFrags sb d L (entry sb d b j) f + covers b sb.fragsPerBlock f
      ≤ treeFrags sb d (L + 1) b f := footprint_children_le hb hi hj hij
  have hone := h f
  refine ⟨by omega, by omega, ?_⟩
  by_contra hin
  rw [covers_eq_one (by omega)] at hle
  omega

end Same

/-! ## §2. What a call does to its tree. -/

/-- From `d` to `d'` the tree of level `L` at `b` has taken fragments that were
free, and holds the values `val`. -/
structure TreeStep (sb : Superblock) (d d' : Disk) (L b : Nat)
    (val : Nat → Nat) : Prop where
  conserved : ∀ f, freeAt sb d' f + treeFrags sb d' L b f
    = freeAt sb d f + treeFrags sb d L b f
  taken : ∀ f, freeAt sb d' f ≤ freeAt sb d f
  frame : ∀ f, freeAt sb d f = 0 → treeFrags sb d L b f = 0 →
    SameFrag sb d d' f
  values : ∀ i < treeSpan sb L, treeAt sb d' L b i = val i
  inside : TreeInside sb d L b → TreeInside sb d' L b
  books : BooksKept sb d d'

section Step

variable {sb : Superblock} {d d₁ d' : Disk} {L b e : Nat} {val : Nat → Nat}

theorem TreeStep.refl (sb : Superblock) (d : Disk) (L b : Nat) :
    TreeStep sb d d L b (treeAt sb d L b) :=
  ⟨fun _ => rfl, fun _ => le_rfl, fun f _ _ => SameFrag.refl sb d f,
    fun _ _ => rfl, id, BooksKept.refl sb d⟩

theorem TreeStep.owned (h : TreeStep sb d d' L b val)
    (hown : TreeOwned sb d L b) : TreeOwned sb d' L b := by
  intro f
  rw [h.conserved f]
  exact hown f

/-- A step that keeps the values, then another one. -/
theorem TreeStep.trans {val' : Nat → Nat}
    (h₁ : TreeStep sb d d₁ L b val) (h₂ : TreeStep sb d₁ d' L b val') :
    TreeStep sb d d' L b val' where
  conserved f := (h₂.conserved f).trans (h₁.conserved f)
  taken f := (h₂.taken f).trans (h₁.taken f)
  frame f hfree htree := by
    have hsum := h₁.conserved f
    exact (h₁.frame f hfree htree).trans
      (h₂.frame f (by omega) (by omega))
  values := h₂.values
  inside h := h₂.inside (h₁.inside h)
  books := h₁.books.trans h₂.books

/-- Only the values below the span matter. -/
theorem TreeStep.congr {val' : Nat → Nat} (h : TreeStep sb d d' L b val)
    (hval : ∀ i < treeSpan sb L, val i = val' i) :
    TreeStep sb d d' L b val' :=
  { h with values := fun i hi => (h.values i hi).trans (hval i hi) }

/-- **One child changed**: what its step did, the whole tree's did. -/
theorem treeStep_child (hgeo : DataGeometry sb) (hb : b ≠ 0)
    (he : e < entriesPerBlock sb) (hown : TreeOwned sb d (L + 1) b)
    (h : TreeStep sb d d' L (entry sb d b e) val) :
    TreeStep sb d d' (L + 1) b fun i =>
      if i / treeSpan sb L = e then val (i % treeSpan sb L)
      else treeAt sb d (L + 1) b i := by
  -- the root block's own bytes do not change
  have hroot : ∀ i < entriesPerBlock sb, entry sb d' b i = entry sb d b i := by
    intro i hi
    refine entry_congr hgeo (fun f h1 h2 => ?_) hi
    obtain ⟨hfree, hchild⟩ := hown.root hb he ⟨h1, h2⟩
    exact h.frame f hfree hchild
  have hoff : SameOffChild (entry sb d) (entry sb d') (entriesPerBlock sb)
      L b e := by
    refine ⟨fun i hi _ => hroot i hi, fun i hi hne => ?_⟩
    refine sameTree_of_frags hgeo fun f hpos => ?_
    obtain ⟨hfree, hchild, -⟩ := hown.sibling hb hi he hne hpos
    exact h.frame f hfree hchild
  constructor
  · intro f
    have hchange : treeFrags sb d' (L + 1) b f
          + treeFrags sb d L (entry sb d b e) f
        = treeFrags sb d (L + 1) b f
          + treeFrags sb d' L (entry sb d' b e) f :=
      footprint_child hb he hoff f
    rw [hroot e he] at hchange
    have hsum := h.conserved f
    omega
  · exact h.taken
  · intro f hfree htree
    refine h.frame f hfree ?_
    have hle := treeFrags_child_le (d := d) (L := L) (f := f) hb he
    omega
  · intro i hi
    calc treeAt sb d' (L + 1) b i
        = if i / treeSpan sb L = e
            then treeAt sb d' L (entry sb d' b e) (i % treeSpan sb L)
            else treeAt sb d (L + 1) b i := lookup_child hb hoff hi
      _ = _ := by rw [hroot e he, h.values _ (index_lt hi).2]
  · intro hin x hx
    rcases inTree_child hoff hx with hx | hx
    · exact hin x hx
    · rw [hroot e he] at hx
      exact h.inside (hin.child hb he) x hx
  · exact h.books

end Step

/-! ## §3. A new pointer block. -/

/-- **What allocating a zeroed block does.** -/
theorem allocateZeroedFullBlock_spec {sb : Superblock} {preferredCg : Nat}
    (hgeo : DataGeometry sb) (d : Disk) :
    wp (allocateZeroedFullBlock sb preferredCg)
      (fun frag d' =>
        (∀ f, freeAt sb d' f + covers frag sb.fragsPerBlock f
          = freeAt sb d f) ∧
        RunFits sb frag sb.fragsPerBlock ∧ BooksKept sb d d' ∧
        (∀ i < entriesPerBlock sb, entry sb d' frag i = 0) ∧
        ∀ f, covers frag sb.fragsPerBlock f = 0 → SameFrag sb d d' f)
      (fun _ d' => d' = d) d := by
  unfold allocateZeroedFullBlock
  rw [wp_bind]
  refine wp_mono (allocateFragsAnycg_spec hgeo preferredCg d
    sb.fragsPerBlock) ?_ fun _ _ he => he
  · intro frag d₁ h
    show _ ∧ _
    refine ⟨h.free, h.fits, h.books.trans (BooksKept.write ..),
      fun i hi => entry_zeroed hi, fun f hf => ?_⟩
    refine (SameFrag.of_data_eq h.data f).trans ?_
    apply @sameFrag_write sb _ frag sb.fragsPerBlock 0 f
    · simp [hgeo.blockSize_eq]
    · by_contra hin
      rw [covers_eq_one (by omega)] at hf
      omega

/-- **A new empty child is linked**: `d₁` is the disk after it was allocated
and zeroed at `c`; then its address is written to entry `e` of `b`. -/
theorem treeStep_link {sb : Superblock} {d d₁ : Disk} {L b e c : Nat}
    (hgeo : DataGeometry sb) (hb : b ≠ 0) (he : e < entriesPerBlock sb)
    (hown : TreeOwned sb d (L + 2) b) (hnone : entry sb d b e = 0)
    (hc : c ≠ 0) (hfits : RunFits sb c sb.fragsPerBlock)
    (hfree : ∀ f, freeAt sb d₁ f + covers c sb.fragsPerBlock f
      = freeAt sb d f)
    (hbooks : BooksKept sb d d₁)
    (hzero : ∀ i < entriesPerBlock sb, entry sb d₁ c i = 0)
    (hsame : ∀ f, covers c sb.fragsPerBlock f = 0 → SameFrag sb d d₁ f) :
    TreeStep sb d (d₁.write (b * sb.fragSize + e * 4) (writeBe32 c)) (L + 2) b
        (treeAt sb d (L + 2) b) ∧
      entry sb (d₁.write (b * sb.fragSize + e * 4) (writeBe32 c)) b e = c := by
  have hend := entry_end_le he
  rw [hgeo.blockSize_eq] at hend
  have hc32 : c < 2 ^ 32 := by
    have := hgeo.fragCount_lt
    have := hfits.disk
    have := hfits.pos
    omega
  have hbooks' := hbooks.trans
    (BooksKept.write sb d₁ (b * sb.fragSize + e * 4) (writeBe32 c))
  -- fragments that were not free are not the new block's
  have hold : ∀ f, freeAt sb d f = 0 → SameFrag sb d d₁ f := fun f hf =>
    hsame f (by have := hfree f; omega)
  have hwrite : ∀ f, f < b ∨ b + sb.fragsPerBlock ≤ f →
      SameFrag sb d₁ (d₁.write (b * sb.fragSize + e * 4) (writeBe32 c)) f :=
    fun f hf => sameFrag_write (show e * 4 + 4 ≤ _ from hend) hf
  have hentry : ∀ i, entry sb (d₁.write (b * sb.fragSize + e * 4)
      (writeBe32 c)) b i = if i = e then c else entry sb d₁ b i :=
    fun i => entry_write hc32
  have hroot : ∀ f, b ≤ f → f < b + sb.fragsPerBlock → freeAt sb d f = 0 :=
    fun f h1 h2 => (hown.root hb he ⟨h1, h2⟩).1
  generalize hd' : d₁.write (b * sb.fragSize + e * 4) (writeBe32 c) = d' at *
  have hoff : SameOffChild (entry sb d) (entry sb d') (entriesPerBlock sb)
      (L + 1) b e := by
    constructor
    · intro i hi hne
      rw [hentry i, if_neg hne]
      exact entry_congr hgeo (fun f h1 h2 => hold f (hroot f h1 h2)) hi
    · intro i hi hne
      refine sameTree_of_frags hgeo fun f hpos => ?_
      obtain ⟨hf0, -, hout⟩ := hown.sibling hb hi he hne hpos
      exact (hold f hf0).trans (hwrite f hout)
  have hchild : entry sb d' b e = c := by
    rw [hentry e, if_pos rfl]
  -- the new block holds no fragment of the root, so it is still zeroed
  have hempty : ∀ i < entriesPerBlock sb, entry sb d' c i = 0 := by
    intro i hi
    rw [← hzero i hi]
    refine entry_congr hgeo (fun f h1 h2 => hwrite f ?_) hi
    by_contra hin
    have hf0 := hroot f (by omega) (by omega)
    have hsum := hfree f
    rw [covers_eq_one ⟨h1, h2⟩] at hsum
    omega
  have hfree' : freeAt sb d' = freeAt sb d₁ := by rw [← hd', freeAt_write]
  refine ⟨⟨fun f => ?_, fun f => ?_, fun f hf0 htree => ?_, fun i hi => ?_,
    fun hin x hx => ?_, hbooks'⟩, hchild⟩
  · have hchange : treeFrags sb d' (L + 2) b f
          + treeFrags sb d (L + 1) (entry sb d b e) f
        = treeFrags sb d (L + 2) b f
          + treeFrags sb d' (L + 1) (entry sb d' b e) f :=
      footprint_child hb he hoff f
    have hnew : treeFrags sb d' (L + 1) c f = covers c sb.fragsPerBlock f :=
      footprint_zeroed hc hempty f
    rw [hchild, hnone, treeFrags_zero_root, hnew] at hchange
    have hsum := hfree f
    rw [hfree']
    omega
  · have hsum := hfree f
    rw [hfree']
    omega
  · refine (hold f hf0).trans (hwrite f ?_)
    by_contra hin
    rw [treeFrags_succ hb, covers_eq_one (by omega)] at htree
    omega
  · have hvalue : treeAt sb d' (L + 2) b i
        = if i / treeSpan sb (L + 1) = e
            then treeAt sb d' (L + 1) (entry sb d' b e)
              (i % treeSpan sb (L + 1))
            else treeAt sb d (L + 2) b i := lookup_child hb hoff hi
    rw [hvalue]
    split
    · rename_i hie
      have hnew : treeAt sb d' (L + 1) c (i % treeSpan sb (L + 1)) = 0 :=
        lookup_zeroed hempty (index_lt hi).2
      rw [hchild, hnew, treeAt_succ hb, hie, hnone, treeAt_zero_root]
    · rfl
  · rcases inTree_child hoff hx with hx | hx
    · exact hin x hx
    · rw [hchild] at hx
      rw [inTree_zeroed hempty hx]
      exact hfits

/-! ## §4. The call. -/

theorem wp_onDisk {α : Type} (x : Op α) (Q : α → Storing → Prop)
    (E : Errno → Storing → Prop) (s : Storing) :
    wp (onDisk x) Q E s ↔
      wp x (fun a d => Q a { s with disk := d })
        (fun e d => E e { s with disk := d }) s.disk := by
  unfold wp onDisk
  cases x s.disk <;> rfl

theorem wp_countFrags (n : Nat) (Q : Unit → Storing → Prop)
    (E : Errno → Storing → Prop) (s : Storing) :
    wp (countFrags n) Q E s ↔ Q () { s with frags := s.frags + n } := Iff.rfl

/-- A step that cannot fail has no use for its cleanup. -/
theorem orCleanup_of_ok {σ α : Type} {x : EStateM Errno σ α}
    {cleanup : EStateM Errno σ Unit} {s s' : σ} {a : α}
    (h : x s = .ok a s') : orCleanup x cleanup s = .ok a s' := by
  unfold orCleanup
  rw [h]

/-- A cleanup takes up where the step failed. -/
theorem wp_orCleanup {σ α : Type} {x : EStateM Errno σ α}
    {cleanup : EStateM Errno σ Unit} {Q : α → σ → Prop}
    {E E' : Errno → σ → Prop} {s : σ} (hx : wp x Q E s)
    (hcleanup : ∀ e t, E e t →
      wp cleanup (fun _ u => E' e u) (fun _ u => E' e u) t) :
    wp (orCleanup x cleanup) Q E' s := by
  unfold wp orCleanup at *
  cases hrun : x s with
  | ok a s' =>
    rw [hrun] at hx
    exact hx
  | error e s' =>
    rw [hrun] at hx
    have hu := hcleanup e s' hx
    dsimp only
    cases hc : cleanup s' with
    | ok _ u =>
      rw [hc] at hu
      exact hu
    | error _ u =>
      rw [hc] at hu
      exact hu

/-- **One pointer is written.**  On success the tree maps the index to it and
is otherwise as it was; on failure it maps every index as it did. -/
theorem setIndirectDataBlock_spec {sb : Superblock} (hgeo : DataGeometry sb)
    {preferredCg a : Nat} (ha : a < 2 ^ 32) (L : Nat) :
    ∀ {b i : Nat} {s : Storing}, b ≠ 0 → i < treeSpan sb (L + 1) →
      TreeOwned sb s.disk (L + 1) b → freeAt sb s.disk 0 = 0 →
      wp (setIndirectDataBlock sb preferredCg (L + 1) b i a)
        (fun _ s' => s'.ino = s.ino ∧
          TreeStep sb s.disk s'.disk (L + 1) b
            (Function.update (treeAt sb s.disk (L + 1) b) i a))
        (fun _ s' => s'.ino = s.ino ∧
          TreeStep sb s.disk s'.disk (L + 1) b
            (treeAt sb s.disk (L + 1) b)) s := by
  induction L with
  | zero =>
    intro b i s hb hi hown hzero
    have hi : i < entriesPerBlock sb := by simpa using hi
    have hend := entry_end_le hi
    rw [hgeo.blockSize_eq] at hend
    unfold setIndirectDataBlock
    rw [wp_onDisk]
    refine wp_of_ok (writeIndirectEntry_eq _ hi) ⟨rfl, ?_⟩
    show TreeStep sb s.disk (s.disk.write (b * sb.fragSize + i * 4)
      (writeBe32 a)) 1 b _
    -- below level 1 there are no blocks, only the values
    have hblocks : ∀ d : Disk, ∀ f, treeFrags sb d 1 b f
        = covers b sb.fragsPerBlock f := by
      intro d f
      rw [treeFrags_succ hb]
      exact Nat.add_eq_left.mpr (Finset.sum_eq_zero fun _ _ => rfl)
    refine ⟨fun f => ?_, fun f => le_rfl, fun f _ htree => ?_, fun j hj => ?_,
      fun hin x hx => ?_, BooksKept.write ..⟩
    · rw [hblocks, hblocks, freeAt_write]
    · refine sameFrag_write (show i * 4 + 4 ≤ _ from hend) ?_
      by_contra hin
      rw [hblocks, covers_eq_one (by omega)] at htree
      omega
    · have hlevel : ∀ d : Disk, treeAt sb d 1 b j = entry sb d b j := by
        intro d
        rw [treeAt_succ hb, treeSpan, pow_zero, Nat.div_one]
        rfl
      rw [hlevel, entry_write ha]
      by_cases hji : j = i
      · rw [if_pos hji, hji, Function.update_self]
      · rw [if_neg hji, Function.update_of_ne hji, hlevel]
    · obtain ⟨-, rfl | ⟨_, _, hnot⟩⟩ := hx
      · exact hin x ⟨hb, Or.inl rfl⟩
      · exact absurd hnot id
  | succ L ih =>
    intro b i s hb hi hown hzero
    obtain ⟨he, hr⟩ := index_lt hi
    -- the call on a child that is there, from any disk
    have hdescend : ∀ {t : Storing} {next : Nat},
        TreeOwned sb t.disk (L + 2) b → freeAt sb t.disk 0 = 0 →
        entry sb t.disk b (i / treeSpan sb (L + 1)) = next → next ≠ 0 →
        wp (setIndirectDataBlock sb preferredCg (L + 1) next
            (i % treeSpan sb (L + 1)) a)
          (fun _ s' => s'.ino = t.ino ∧
            TreeStep sb t.disk s'.disk (L + 2) b
              (Function.update (treeAt sb t.disk (L + 2) b) i a))
          (fun _ s' => s'.ino = t.ino ∧
            TreeStep sb t.disk s'.disk (L + 2) b
              (treeAt sb t.disk (L + 2) b)) t := by
      intro t next hown hzero hentry hnext
      subst hentry
      refine wp_mono (ih hnext hr (hown.child hb he) hzero) ?_ ?_
      · rintro _ s' ⟨hino, hstep⟩
        refine ⟨hino, (treeStep_child hgeo hb he hown hstep).congr ?_⟩
        intro j hj
        by_cases hji : j = i
        · rw [hji, if_pos rfl, Function.update_self, Function.update_self]
        · rw [Function.update_of_ne hji]
          split
          · rename_i hdiv
            have hmod : j % treeSpan sb (L + 1) ≠ i % treeSpan sb (L + 1) := by
              intro hmod
              apply hji
              rw [← Nat.div_add_mod j (treeSpan sb (L + 1)), hdiv, hmod,
                Nat.div_add_mod]
            rw [Function.update_of_ne hmod, treeAt_succ hb, hdiv]
          · rfl
      · rintro _ s' ⟨hino, hstep⟩
        refine ⟨hino, (treeStep_child hgeo hb he hown hstep).congr ?_⟩
        intro j hj
        split
        · rename_i hdiv
          rw [treeAt_succ hb, hdiv]
        · rfl
    unfold setIndirectDataBlock
    rw [wp_bind, wp_onDisk]
    refine wp_of_ok (readIndirectEntry_eq _ he) ?_
    rw [wp_ite]
    constructor
    · -- no child yet: it is allocated, linked, and then there is one
      intro hnone
      rw [wp_bind, wp_onDisk]
      refine wp_mono (allocateZeroedFullBlock_spec hgeo s.disk) ?_ ?_
      · rintro c d₁ ⟨hfree, hfits, hbooks, hempty, hsame⟩
        have hc : c ≠ 0 := by
          rintro rfl
          have hsum := hfree 0
          rw [covers_eq_one ⟨le_rfl, by have := hgeo.fpb_pos; omega⟩] at hsum
          omega
        obtain ⟨hlink, hentry⟩ := treeStep_link hgeo hb he hown hnone hc hfits
          hfree hbooks hempty hsame
        rw [wp_bind, wp_onDisk]
        refine wp_of_ok (orCleanup_of_ok (writeIndirectEntry_eq _ he)) ?_
        rw [wp_bind, wp_countFrags]
        refine wp_mono (hdescend (hlink.owned hown) ?_ hentry hc) ?_ ?_
        · have htaken := hlink.taken 0
          rw [hzero] at htaken
          exact Nat.le_zero.mp htaken
        · rintro _ s' ⟨hino', hstep⟩
          refine ⟨hino', (hlink.trans hstep).congr fun j hj => ?_⟩
          by_cases hji : j = i
          · rw [hji, Function.update_self, Function.update_self]
          · rw [Function.update_of_ne hji, Function.update_of_ne hji]
            exact hlink.values j hj
        · rintro _ s' ⟨hino', hstep⟩
          exact ⟨hino', (hlink.trans hstep).congr hlink.values⟩
      · rintro _ d₁ rfl
        exact ⟨rfl, TreeStep.refl ..⟩
    · intro hnext
      exact hdescend hown hzero rfl hnext

end NextUfs
