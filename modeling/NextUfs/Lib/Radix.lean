/-
  NextUfs.Lib.Radix
  ─────────────────
  **RADIX TREES OF POINTER BLOCKS.**

  A store of blocks is a function `entry : Nat → Nat → Nat`: entry `i` of the
  block at address `b`, with 0 for no block.  A tree of level `L` over such a
  store maps an index below `n ^ L` to a value; `footprint` counts how often an
  address lies in one of the tree's own blocks, each of which covers `w`
  addresses.

    • `lookup_congr`, `footprint_congr` — only the tree's own blocks matter,
    • `lookup_child`, `footprint_child` — what one child contributes,
    • `lookup_zeroed`, `footprint_zeroed` — a block of zeros is an empty tree.
-/
import NextUfs.Lib.Bits

namespace NextUfs.Radix

open Bits

/-! ## §1. Lookup and footprint. -/

/-- 1 when `f` lies in `[b, b + k)`. -/
def covers (b k f : Nat) : Nat := if b ≤ f ∧ f < b + k then 1 else 0

section Tree

variable (entry entry' : Nat → Nat → Nat) (n w : Nat)

/-- The value at index `i` of the tree of level `L` at `b`. -/
def lookup : Nat → Nat → Nat → Nat
  | 0, b, _ => b
  | L + 1, b, i =>
    if b = 0 then 0 else lookup L (entry b (i / n ^ L)) (i % n ^ L)

/-- How many blocks of the tree cover address `f`. -/
def footprint : Nat → Nat → Nat → Nat
  | 0, _, _ => 0
  | L + 1, b, f =>
    if b = 0 then 0
    else covers b w f + ∑ i ∈ Finset.range n, footprint L (entry b i) f

/-- `x` is a block of the tree. -/
def InTree : Nat → Nat → Nat → Prop
  | 0, _, _ => False
  | L + 1, b, x => b ≠ 0 ∧ (x = b ∨ ∃ i < n, InTree L (entry b i) x)

variable {entry entry' n w}

theorem covers_eq_zero {b k f : Nat} (h : f < b ∨ b + k ≤ f) :
    covers b k f = 0 := by
  unfold covers
  rw [if_neg (by omega)]

theorem covers_eq_one {b k f : Nat} (h : b ≤ f ∧ f < b + k) :
    covers b k f = 1 := by
  unfold covers
  rw [if_pos h]

theorem lookup_zero_root (L i : Nat) : lookup entry n L 0 i = 0 := by
  cases L <;> rfl

theorem footprint_zero_root (L f : Nat) :
    footprint entry n w L 0 f = 0 := by
  cases L <;> rfl

theorem lookup_succ {L b i : Nat} (hb : b ≠ 0) :
    lookup entry n (L + 1) b i
      = lookup entry n L (entry b (i / n ^ L)) (i % n ^ L) := by
  show (if b = 0 then 0 else _) = _
  rw [if_neg hb]

theorem footprint_succ {L b f : Nat} (hb : b ≠ 0) :
    footprint entry n w (L + 1) b f
      = covers b w f
        + ∑ i ∈ Finset.range n, footprint entry n w L (entry b i) f := by
  show (if b = 0 then 0 else _) = _
  rw [if_neg hb]

/-- A child's blocks are the tree's. -/
theorem footprint_child_le {L b i f : Nat} (hb : b ≠ 0) (hi : i < n) :
    footprint entry n w L (entry b i) f + covers b w f
      ≤ footprint entry n w (L + 1) b f := by
  rw [footprint_succ hb, Nat.add_comm]
  refine Nat.add_le_add_left ?_ _
  exact Finset.single_le_sum
    (f := fun j => footprint entry n w L (entry b j) f)
    (fun _ _ => Nat.zero_le _) (Finset.mem_range.mpr hi)

/-- Two children of one block are two terms of its footprint. -/
theorem footprint_children_le {L b i j f : Nat} (hb : b ≠ 0) (hi : i < n)
    (hj : j < n) (hij : i ≠ j) :
    footprint entry n w L (entry b i) f + footprint entry n w L (entry b j) f
        + covers b w f
      ≤ footprint entry n w (L + 1) b f := by
  rw [footprint_succ hb, Nat.add_comm _ (covers b w f)]
  refine Nat.add_le_add_left ?_ _
  have hpair : ∑ k ∈ {i, j}, footprint entry n w L (entry b k) f
      ≤ ∑ k ∈ Finset.range n, footprint entry n w L (entry b k) f := by
    refine Finset.sum_le_sum_of_subset fun k hk => ?_
    rcases Finset.mem_insert.mp hk with rfl | hk
    · exact Finset.mem_range.mpr hi
    · rw [Finset.mem_singleton.mp hk]
      exact Finset.mem_range.mpr hj
  rwa [Finset.sum_pair hij] at hpair

/-- Every address of a tree's block is in its footprint. -/
theorem InTree.footprint_pos {L b x : Nat} (h : InTree entry n L b x)
    {f : Nat} (hf : x ≤ f ∧ f < x + w) :
    0 < footprint entry n w L b f := by
  induction L generalizing b with
  | zero => exact absurd h id
  | succ L ih =>
    obtain ⟨hb, rfl | ⟨i, hi, hin⟩⟩ := h
    · rw [footprint_succ hb, covers_eq_one hf]
      omega
    · calc 0 < footprint entry n w L (entry b i) f := ih hin
        _ ≤ footprint entry n w L (entry b i) f + covers b w f := by omega
        _ ≤ footprint entry n w (L + 1) b f := footprint_child_le hb hi

/-! ## §2. Only the tree's own blocks matter. -/

/-- The two stores agree on the blocks of the tree. -/
def SameTree (entry entry' : Nat → Nat → Nat) (n L b : Nat) : Prop :=
  ∀ x, InTree entry n L b x → ∀ i < n, entry' x i = entry x i

theorem SameTree.child {L b i : Nat} (h : SameTree entry entry' n (L + 1) b)
    (hb : b ≠ 0) (hi : i < n) : SameTree entry entry' n L (entry b i) :=
  fun x hx => h x ⟨hb, Or.inr ⟨i, hi, hx⟩⟩

theorem index_lt {L i : Nat} (hi : i < n ^ (L + 1)) :
    i / n ^ L < n ∧ i % n ^ L < n ^ L := by
  have hpow : n ^ (L + 1) = n * n ^ L := Nat.pow_succ'
  have hpos : 0 < n ^ L := by
    rcases Nat.eq_zero_or_pos (n ^ L) with h0 | h0
    · rw [hpow, h0] at hi
      omega
    · exact h0
  refine ⟨?_, Nat.mod_lt _ hpos⟩
  rw [Nat.div_lt_iff_lt_mul hpos, ← hpow]
  exact hi

theorem lookup_congr {L b i : Nat} (h : SameTree entry entry' n L b)
    (hi : i < n ^ L) : lookup entry' n L b i = lookup entry n L b i := by
  induction L generalizing b i with
  | zero => rfl
  | succ L ih =>
    by_cases hb : b = 0
    · subst hb
      rfl
    · obtain ⟨hdiv, hmod⟩ := index_lt hi
      rw [lookup_succ hb, lookup_succ hb, h b ⟨hb, Or.inl rfl⟩ _ hdiv]
      exact ih (h.child hb hdiv) hmod

theorem footprint_congr {L b : Nat} (h : SameTree entry entry' n L b)
    (f : Nat) : footprint entry' n w L b f = footprint entry n w L b f := by
  induction L generalizing b with
  | zero => rfl
  | succ L ih =>
    by_cases hb : b = 0
    · subst hb
      rfl
    · rw [footprint_succ hb, footprint_succ hb]
      congr 1
      refine Finset.sum_congr rfl fun i hi => ?_
      have hi := Finset.mem_range.mp hi
      rw [h b ⟨hb, Or.inl rfl⟩ i hi]
      exact ih (h.child hb hi)

/-- They are the same blocks. -/
theorem inTree_congr {L b x : Nat} (h : SameTree entry entry' n L b)
    (hx : InTree entry' n L b x) : InTree entry n L b x := by
  induction L generalizing b with
  | zero => exact hx
  | succ L ih =>
    obtain ⟨hb, rfl | ⟨i, hi, hin⟩⟩ := hx
    · exact ⟨hb, Or.inl rfl⟩
    · rw [h b ⟨hb, Or.inl rfl⟩ i hi] at hin
      exact ⟨hb, Or.inr ⟨i, hi, ih (h.child hb hi) hin⟩⟩

/-! ## §3. One child changes. -/

/-- Off child `e`, nothing of the tree at `b` has changed. -/
structure SameOffChild (entry entry' : Nat → Nat → Nat) (n L b e : Nat) :
    Prop where
  entries : ∀ i < n, i ≠ e → entry' b i = entry b i
  subtrees : ∀ i < n, i ≠ e → SameTree entry entry' n L (entry b i)

/-- **A tree changes by what its changed child changes.** -/
theorem footprint_child {L b e : Nat} (hb : b ≠ 0) (he : e < n)
    (h : SameOffChild entry entry' n L b e) (f : Nat) :
    footprint entry' n w (L + 1) b f + footprint entry n w L (entry b e) f
      = footprint entry n w (L + 1) b f
        + footprint entry' n w L (entry' b e) f := by
  have hother : ∀ i < n, i ≠ e → footprint entry' n w L (entry' b i) f
      = footprint entry n w L (entry b i) f := by
    intro i hi hne
    rw [h.entries i hi hne]
    exact footprint_congr (h.subtrees i hi hne) f
  have hsum := sum_change he hother
  rw [footprint_succ hb, footprint_succ hb]
  omega

/-- A block of the changed tree is a block of the old one, or of the changed
child. -/
theorem inTree_child {L b e x : Nat}
    (h : SameOffChild entry entry' n L b e)
    (hx : InTree entry' n (L + 1) b x) :
    InTree entry n (L + 1) b x ∨ InTree entry' n L (entry' b e) x := by
  obtain ⟨hb, rfl | ⟨i, hi, hin⟩⟩ := hx
  · exact Or.inl ⟨hb, Or.inl rfl⟩
  · by_cases hne : i = e
    · subst hne
      exact Or.inr hin
    · rw [h.entries i hi hne] at hin
      exact Or.inl ⟨hb, Or.inr ⟨i, hi, inTree_congr (h.subtrees i hi hne) hin⟩⟩

/-- A lookup sees the change only below the changed child. -/
theorem lookup_child {L b e i : Nat} (hb : b ≠ 0)
    (h : SameOffChild entry entry' n L b e) (hi : i < n ^ (L + 1)) :
    lookup entry' n (L + 1) b i
      = if i / n ^ L = e then lookup entry' n L (entry' b e) (i % n ^ L)
        else lookup entry n (L + 1) b i := by
  obtain ⟨hdiv, hmod⟩ := index_lt hi
  rw [lookup_succ hb]
  split
  · rename_i he
    rw [he]
  · rename_i he
    rw [lookup_succ hb, h.entries _ hdiv he]
    exact lookup_congr (h.subtrees _ hdiv he) hmod

/-! ## §4. A block of zeros. -/

theorem lookup_zeroed {L b i : Nat} (hz : ∀ i < n, entry b i = 0)
    (hi : i < n ^ (L + 1)) :
    lookup entry n (L + 1) b i = 0 := by
  by_cases hb : b = 0
  · subst hb
    rfl
  · rw [lookup_succ hb, hz _ (index_lt hi).1]
    exact lookup_zero_root L _

theorem footprint_zeroed {L b : Nat} (hb : b ≠ 0)
    (hz : ∀ i < n, entry b i = 0) (f : Nat) :
    footprint entry n w (L + 1) b f = covers b w f := by
  rw [footprint_succ hb]
  refine Nat.add_eq_left.mpr (Finset.sum_eq_zero fun i hi => ?_)
  rw [hz i (Finset.mem_range.mp hi)]
  exact footprint_zero_root L f

/-- Its only block is itself. -/
theorem inTree_zeroed {L b x : Nat} (hz : ∀ i < n, entry b i = 0)
    (hx : InTree entry n (L + 1) b x) : x = b := by
  obtain ⟨-, rfl | ⟨i, hi, hin⟩⟩ := hx
  · rfl
  · rw [hz i hi] at hin
    cases L with
    | zero => exact absurd hin id
    | succ L => exact absurd rfl hin.1

/-! ## §5. The blocks behind the last level. -/

/-- Sums over two digits. -/
theorem sum_range_mul (k m : Nat) (g : Nat → Nat) :
    ∑ i ∈ Finset.range (k * m), g i
      = ∑ e ∈ Finset.range k, ∑ j ∈ Finset.range m, g (e * m + j) := by
  induction k with
  | zero => simp
  | succ k ih =>
    rw [Nat.succ_mul, Finset.sum_range_add, ih, Finset.sum_range_succ]

/-- **One level more covers the values as well**: the blocks of the tree with
its values taken as blocks are its own and one for each value. -/
theorem footprint_values (L b f : Nat) :
    footprint entry n w (L + 1) b f = footprint entry n w L b f
      + ∑ i ∈ Finset.range (n ^ L),
          if lookup entry n L b i = 0 then 0
          else covers (lookup entry n L b i) w f := by
  induction L generalizing b with
  | zero =>
    by_cases hb : b = 0
    · subst hb
      simp [footprint, lookup]
    · rw [footprint_succ hb]
      simp [footprint, lookup, hb]
  | succ L ih =>
    by_cases hb : b = 0
    · subst hb
      have hvalues : ∑ i ∈ Finset.range (n ^ (L + 1)),
          (if lookup entry n (L + 1) 0 i = 0 then 0
            else covers (lookup entry n (L + 1) 0 i) w f) = 0 := by
        apply Finset.sum_eq_zero
        intro i _
        rw [lookup_zero_root, if_pos rfl]
      rw [footprint_zero_root, footprint_zero_root, hvalues]
    · -- the values of a tree are those of its children
      have hdigits : ∀ e j, j < n ^ L →
          lookup entry n (L + 1) b (e * n ^ L + j)
            = lookup entry n L (entry b e) j := by
        intro e j hj
        rw [lookup_succ hb, Nat.mul_comm e, Nat.mul_add_div (by omega),
          Nat.div_eq_of_lt hj, Nat.add_zero, Nat.mul_add_mod,
          Nat.mod_eq_of_lt hj]
      rw [footprint_succ hb, footprint_succ hb, Nat.add_assoc, pow_succ',
        sum_range_mul, ← Finset.sum_add_distrib]
      congr 1
      apply Finset.sum_congr rfl
      intro e _
      rw [ih]
      congr 1
      apply Finset.sum_congr rfl
      intro j hj
      rw [hdigits e j (Finset.mem_range.mp hj)]

/-- A block of the tree with its values is one of the tree, or a value. -/
theorem inTree_values {L b x : Nat} (hx : InTree entry n (L + 1) b x) :
    InTree entry n L b x
      ∨ ∃ i < n ^ L, lookup entry n L b i = x ∧ x ≠ 0 := by
  induction L generalizing b with
  | zero =>
    obtain ⟨hb, rfl | ⟨i, _, hin⟩⟩ := hx
    · exact Or.inr ⟨0, by simp, rfl, hb⟩
    · exact absurd hin id
  | succ L ih =>
    obtain ⟨hb, rfl | ⟨e, he, hin⟩⟩ := hx
    · exact Or.inl ⟨hb, Or.inl rfl⟩
    · rcases ih hin with htree | ⟨j, hj, hval, hne⟩
      · exact Or.inl ⟨hb, Or.inr ⟨e, he, htree⟩⟩
      · refine Or.inr ⟨e * n ^ L + j, ?_, ?_, hne⟩
        · rw [pow_succ']
          calc e * n ^ L + j < e * n ^ L + n ^ L := by omega
            _ = (e + 1) * n ^ L := by rw [Nat.succ_mul]
            _ ≤ n * n ^ L := Nat.mul_le_mul_right _ he
        · rw [lookup_succ hb, Nat.mul_comm e, Nat.mul_add_div (by omega),
            Nat.div_eq_of_lt hj, Nat.add_zero, Nat.mul_add_mod,
            Nat.mod_eq_of_lt hj]
          exact hval

/-! ## §6. Trees that end. -/

variable (entry n) in
/-- No pointer of the tree of level `L` at `b` is for an index from `m` on:
every entry all of whose indices lie there is 0. -/
def EndsAt : Nat → Nat → Nat → Prop
  | 0, b, m => m = 0 → b = 0
  | L + 1, b, m =>
    (m = 0 → b = 0) ∧ (b ≠ 0 → ∀ i < n, EndsAt L (entry b i) (m - i * n ^ L))

theorem EndsAt.root {L b m : Nat} (h : EndsAt entry n L b m) (hm : m = 0) :
    b = 0 := by
  cases L with
  | zero => exact h hm
  | succ L => exact h.1 hm

/-- Its values end there. -/
theorem EndsAt.lookup_eq_zero {L : Nat} : ∀ {b m i : Nat},
    EndsAt entry n L b m → m ≤ i → i < n ^ L → lookup entry n L b i = 0 := by
  induction L with
  | zero =>
    intro b m i h hm hi
    have hi : i < 1 := by simpa using hi
    exact h (by omega)
  | succ L ih =>
    intro b m i h hm hi
    by_cases hb : b = 0
    · subst hb
      exact lookup_zero_root _ i
    · obtain ⟨hdiv, hmod⟩ := index_lt hi
      have hsplit := Nat.div_add_mod' i (n ^ L)
      have hrest : m - i / n ^ L * n ^ L ≤ i % n ^ L := by
        apply Nat.sub_le_of_le_add
        rw [Nat.add_comm, hsplit]
        exact hm
      rw [lookup_succ hb]
      exact ih (h.2 hb _ hdiv) hrest hmod

end Tree

end NextUfs.Radix
