/-
  NextUfs.Lib.Links
  ─────────────────
  **CHAINS OF LINKS.**

  `next` says where a place links to, if anywhere.  A program that follows
  links has no measure of its own: it stops exactly when the chain ends, and
  on finitely many places a chain ends exactly when it comes to no place
  twice.

    • `follow`                — the place `n` links on,
    • `Ends`, `Repeats`       — the chain stops; a place comes up twice,
    • `not_ends_of_repeats`   — a chain that repeats itself never ends,
    • `ends_iff_not_repeats`  — and on places with numbers below a bound there
      is no other way not to end,
    • `ends_within`           — such a chain ends within that many links,
    • `ends_iff_not_repeats_of_finite` — the same on a finite set of places.
-/
import Mathlib.Data.Fintype.Pigeonhole
import Mathlib.Data.Set.Finite.Basic

namespace NextUfs.Links

variable {α : Type} {next : α → Option α} {a b : α}

/-! ## §1. Following links. -/

/-- The place `n` links on from `a`. -/
def follow (next : α → Option α) : Nat → α → Option α
  | 0, a => some a
  | n + 1, a =>
    match next a with
    | none => none
    | some b => follow next n b

/-- The chain from `a` ends. -/
def Ends (next : α → Option α) (a : α) : Prop := ∃ n, follow next n a = none

/-- The chain from `a` comes to one place twice. -/
def Repeats (next : α → Option α) (a : α) : Prop :=
  ∃ i j b, i < j ∧ follow next i a = some b ∧ follow next j a = some b

theorem follow_succ_of_some (h : next a = some b) (n : Nat) :
    follow next (n + 1) a = follow next n b := by
  rw [follow, h]

theorem follow_succ_of_none (h : next a = none) (n : Nat) :
    follow next (n + 1) a = none := by
  rw [follow, h]

/-- `m + n` links are `n` links after the first `m`. -/
theorem follow_add (m n : Nat) (a : α) :
    follow next (m + n) a = (follow next m a).bind (follow next n) := by
  induction m generalizing a with
  | zero =>
    rw [Nat.zero_add]
    rfl
  | succ m ih =>
    rw [Nat.succ_add]
    cases h : next a with
    | none => rw [follow_succ_of_none h, follow_succ_of_none h, Option.bind_none]
    | some b => rw [follow_succ_of_some h, follow_succ_of_some h, ih]

/-- A chain that has ended stays ended. -/
theorem follow_none_of_le {m n : Nat} (hmn : m ≤ n)
    (h : follow next m a = none) : follow next n a = none := by
  obtain ⟨k, rfl⟩ := Nat.exists_eq_add_of_le hmn
  rw [follow_add, h, Option.bind_none]

/-- A chain that reaches a place has reached one at every link before. -/
theorem follow_some_of_le {m n : Nat} (hmn : m ≤ n)
    (h : follow next n a = some b) : ∃ c, follow next m a = some c := by
  cases hm : follow next m a with
  | none =>
    rw [follow_none_of_le hmn hm] at h
    cases h
  | some c => exact ⟨c, rfl⟩

theorem ends_of_next_none (h : next a = none) : Ends next a :=
  ⟨1, follow_succ_of_none h 0⟩

/-- A chain ends when what its first link leads to does. -/
theorem ends_iff_of_some (h : next a = some b) :
    Ends next a ↔ Ends next b := by
  constructor
  · rintro ⟨n, hn⟩
    cases n with
    | zero => cases hn
    | succ n => exact ⟨n, by rwa [follow_succ_of_some h] at hn⟩
  · rintro ⟨n, hn⟩
    exact ⟨n + 1, by rwa [follow_succ_of_some h]⟩

/-! ## §2. Circles. -/

/-- **A chain that comes to a place twice goes round it for ever.** -/
theorem not_ends_of_repeats (h : Repeats next a) : ¬Ends next a := by
  obtain ⟨i, j, b, hij, hi, hj⟩ := h
  obtain ⟨p, rfl⟩ := Nat.exists_eq_add_of_lt hij
  have hround : follow next (p + 1) b = some b := by
    rw [show i + p + 1 = i + (p + 1) by omega, follow_add, hi] at hj
    exact hj
  -- after `k` rounds it is at the same place
  have hrounds : ∀ k, follow next (i + k * (p + 1)) a = some b := by
    intro k
    induction k with
    | zero => rwa [Nat.zero_mul, Nat.add_zero]
    | succ k ih =>
      rw [Nat.succ_mul, ← Nat.add_assoc, follow_add, ih]
      exact hround
  rintro ⟨n, hn⟩
  have hle : n ≤ i + n * (p + 1) :=
    Nat.le_add_left_of_le (Nat.le_mul_of_pos_right n p.succ_pos)
  have hback := hrounds n
  rw [follow_none_of_le hle hn] at hback
  cases hback

section Numbered

variable (N : Nat) (code : α → Nat)

/-- **Pigeonhole.**  A chain that comes to no place twice, on places with
different numbers below `N`, has ended after `N` links from the first of
them. -/
theorem ends_within (hcode : ∀ i b, follow next (i + 1) a = some b → code b < N)
    (hinj : ∀ i j b c, follow next (i + 1) a = some b →
      follow next (j + 1) a = some c → code b = code c → b = c)
    (h : ¬Repeats next a) : follow next (N + 1) a = none := by
  by_contra hlive
  have hplace : ∀ i : Fin (N + 1), ∃ b, follow next (i.val + 1) a = some b := by
    intro i
    obtain ⟨b, hb⟩ := Option.ne_none_iff_exists'.mp hlive
    exact follow_some_of_le (by omega) hb
  choose place hplace using hplace
  -- more places than numbers
  obtain ⟨i, j, hne, heq⟩ := Fintype.exists_ne_map_eq_of_card_lt
    (fun i : Fin (N + 1) => (⟨code (place i), hcode _ _ (hplace i)⟩ : Fin N))
    (by rw [Fintype.card_fin, Fintype.card_fin]; omega)
  have hsame : place i = place j :=
    hinj _ _ _ _ (hplace i) (hplace j) (congrArg Fin.val heq)
  apply h
  rcases Nat.lt_or_gt_of_ne (fun hv => hne (Fin.ext hv)) with hij | hij
  · exact ⟨i + 1, j + 1, place i, by omega, hplace i, hsame ▸ hplace j⟩
  · exact ⟨j + 1, i + 1, place j, by omega, hplace j, hsame ▸ hplace i⟩

/-- **On finitely many places a chain ends exactly when it comes to none of
them twice.** -/
theorem ends_iff_not_repeats
    (hcode : ∀ i b, follow next (i + 1) a = some b → code b < N)
    (hinj : ∀ i j b c, follow next (i + 1) a = some b →
      follow next (j + 1) a = some c → code b = code c → b = c) :
    Ends next a ↔ ¬Repeats next a :=
  ⟨fun hends hrep => not_ends_of_repeats hrep hends,
    fun h => ⟨N + 1, ends_within N code hcode hinj h⟩⟩

end Numbered

/-- The same on any finite set of places. -/
theorem ends_iff_not_repeats_of_finite {places : Set α} (hfin : places.Finite)
    (hmem : ∀ i b, follow next (i + 1) a = some b → b ∈ places) :
    Ends next a ↔ ¬Repeats next a := by
  refine ⟨fun hends hrep => not_ends_of_repeats hrep hends, fun h => ?_⟩
  by_contra hlive
  have hplace : ∀ i : Nat, ∃ b, follow next (i + 1) a = some b := fun i =>
    Option.ne_none_iff_exists'.mp fun hnone => hlive ⟨i + 1, hnone⟩
  choose place hplace using hplace
  have : Finite places := hfin
  obtain ⟨i, j, hne, heq⟩ := Finite.exists_ne_map_eq_of_infinite
    fun i => (⟨place i, hmem i _ (hplace i)⟩ : places)
  have hsame : place i = place j := congrArg Subtype.val heq
  apply h
  rcases Nat.lt_or_gt_of_ne hne with hij | hij
  · exact ⟨i + 1, j + 1, place i, by omega, hplace i, hsame ▸ hplace j⟩
  · exact ⟨j + 1, i + 1, place j, by omega, hplace j, hsame ▸ hplace i⟩

end NextUfs.Links
