/-
  NextUfs.Lib.Bits
  ────────────────
  **BITMAPS AS PREDICATES, COUNTED BLOCK BY BLOCK.**

  A bitmap is a total function `Nat → Bool`.  This file has what an
  accounting argument over such a map needs and nothing about any one
  format:

    • `setRange` / `clearRange` and their pointwise reading,
    • `allSet` / `popRange` — the two summaries of a range,
    • `sum_change` — a sum over blocks in which one block changed,
    • the shift lemmas of fixed-width counters (`ofNat32_shift`, …).
-/
import Mathlib.Algebra.BigOperators.Group.Finset.Basic
import Mathlib.Algebra.BigOperators.Group.Finset.Piecewise
import Mathlib.Algebra.Order.BigOperators.Group.Finset
import Mathlib.Order.Interval.Finset.Nat
import Mathlib.Tactic.Ring

namespace NextUfs.Bits

/-! ## §1. Ranges of a bitmap. -/

/-- The bitmap with the bits `[s, s + n)` set. -/
def setRange (m : Nat → Bool) (s n : Nat) : Nat → Bool :=
  fun i => if s ≤ i ∧ i < s + n then true else m i

/-- The bitmap with the bits `[s, s + n)` cleared. -/
def clearRange (m : Nat → Bool) (s n : Nat) : Nat → Bool :=
  fun i => if s ≤ i ∧ i < s + n then false else m i

/-- Every bit of `[s, s + n)` is set. -/
def allSet (m : Nat → Bool) (s n : Nat) : Bool :=
  (List.range n).all fun i => m (s + i)

/-- Number of set bits in `[s, s + n)`. -/
def popRange (m : Nat → Bool) (s n : Nat) : Nat :=
  ∑ i ∈ Finset.range n, (m (s + i)).toNat

@[simp] theorem allSet_iff (m : Nat → Bool) (s n : Nat) :
    allSet m s n = true ↔ ∀ i < n, m (s + i) = true := by
  simp [allSet]

theorem setRange_of_not_mem {m : Nat → Bool} {s n i : Nat}
    (h : i < s ∨ s + n ≤ i) : setRange m s n i = m i := by
  unfold setRange
  rw [if_neg (by omega)]

theorem clearRange_of_not_mem {m : Nat → Bool} {s n i : Nat}
    (h : i < s ∨ s + n ≤ i) : clearRange m s n i = m i := by
  unfold clearRange
  rw [if_neg (by omega)]

theorem setRange_of_mem {m : Nat → Bool} {s n i : Nat}
    (h : s ≤ i ∧ i < s + n) : setRange m s n i = true := by
  unfold setRange
  rw [if_pos h]

theorem clearRange_of_mem {m : Nat → Bool} {s n i : Nat}
    (h : s ≤ i ∧ i < s + n) : clearRange m s n i = false := by
  unfold clearRange
  rw [if_pos h]

theorem popRange_le (m : Nat → Bool) (s n : Nat) : popRange m s n ≤ n := by
  calc popRange m s n
      ≤ ∑ _i ∈ Finset.range n, 1 :=
        Finset.sum_le_sum fun i _ => Bool.toNat_le _
    _ = n := by simp

/-- A range whose bits are all set counts its own length. -/
theorem popRange_of_allSet {m : Nat → Bool} {s n : Nat}
    (h : allSet m s n = true) : popRange m s n = n := by
  rw [allSet_iff] at h
  unfold popRange
  rw [Finset.sum_congr rfl (fun i hi => by
        rw [h i (Finset.mem_range.mp hi)])]
  simp

/-- The indicator of a subrange sums to its length. -/
theorem sum_indicator (base s n w : Nat) (hs : base ≤ s)
    (hw : s + n ≤ base + w) :
    ∑ i ∈ Finset.range w,
      (if s ≤ base + i ∧ base + i < s + n then 1 else 0) = n := by
  have hset : (Finset.range w).filter
      (fun i => s ≤ base + i ∧ base + i < s + n)
      = Finset.Ico (s - base) (s - base + n) := by
    ext i
    simp only [Finset.mem_filter, Finset.mem_range, Finset.mem_Ico]
    omega
  rw [← Finset.card_filter, hset, Nat.card_Ico]
  omega

/-- Clearing `n` set bits inside a block takes `n` off its count. -/
theorem popRange_clearRange {m : Nat → Bool} {base w s n : Nat}
    (hs : base ≤ s) (hw : s + n ≤ base + w) (hset : allSet m s n = true) :
    popRange (clearRange m s n) base w + n = popRange m base w := by
  rw [allSet_iff] at hset
  have hn := sum_indicator base s n w hs hw
  suffices hsum : popRange (clearRange m s n) base w
      + ∑ i ∈ Finset.range w,
          (if s ≤ base + i ∧ base + i < s + n then 1 else 0)
      = popRange m base w by
    rwa [hn] at hsum
  unfold popRange
  rw [← Finset.sum_add_distrib]
  refine Finset.sum_congr rfl fun i _ => ?_
  by_cases h : s ≤ base + i ∧ base + i < s + n
  · have hm : m (base + i) = true := by
      have := hset (base + i - s) (by omega)
      rwa [show s + (base + i - s) = base + i from by omega] at this
    rw [clearRange_of_mem h, if_pos h, hm]
    rfl
  · rw [if_neg h, clearRange_of_not_mem (by omega)]
    rfl

/-- Setting `n` clear bits inside a block adds `n` to its count. -/
theorem popRange_setRange {m : Nat → Bool} {base w s n : Nat}
    (hs : base ≤ s) (hw : s + n ≤ base + w)
    (hclr : ∀ i < n, m (s + i) = false) :
    popRange (setRange m s n) base w = popRange m base w + n := by
  have hn := sum_indicator base s n w hs hw
  suffices hsum : popRange (setRange m s n) base w
      = popRange m base w
        + ∑ i ∈ Finset.range w,
            (if s ≤ base + i ∧ base + i < s + n then 1 else 0) by
    rwa [hn] at hsum
  unfold popRange
  rw [← Finset.sum_add_distrib]
  refine Finset.sum_congr rfl fun i _ => ?_
  by_cases h : s ≤ base + i ∧ base + i < s + n
  · have hm : m (base + i) = false := by
      have := hclr (base + i - s) (by omega)
      rwa [show s + (base + i - s) = base + i from by omega] at this
    rw [setRange_of_mem h, if_pos h, hm]
    rfl
  · rw [if_neg h, setRange_of_not_mem (by omega)]
    rfl

/-- A range that is not all set counts fewer bits than its length. -/
theorem popRange_lt_of_not_allSet {m : Nat → Bool} {s n : Nat}
    (h : allSet m s n = false) : popRange m s n < n := by
  have hex : ∃ i < n, m (s + i) = false := by
    by_contra hne
    push Not at hne
    have : allSet m s n = true := by
      rw [allSet_iff]
      intro i hi
      simpa using hne i hi
    simp [this] at h
  obtain ⟨i, hi, hm⟩ := hex
  calc popRange m s n
      < ∑ _i ∈ Finset.range n, 1 :=
        Finset.sum_lt_sum (fun j _ => Bool.toNat_le _)
          ⟨i, Finset.mem_range.mpr hi, by rw [hm]; decide⟩
    _ = n := by simp

/-- A range counts as its two parts. -/
theorem popRange_add (m : Nat → Bool) (s a b : Nat) :
    popRange m s (a + b) = popRange m s a + popRange m (s + a) b := by
  unfold popRange
  rw [Finset.sum_range_add]
  congr 1
  refine Finset.sum_congr rfl fun i _ => ?_
  rw [Nat.add_assoc]

theorem popRange_eq_zero {m : Nat → Bool} {s n : Nat}
    (h : ∀ i < n, m (s + i) = false) : popRange m s n = 0 := by
  refine Finset.sum_eq_zero fun i hi => ?_
  rw [h i (Finset.mem_range.mp hi)]
  rfl

/-- Two maps that agree on a range count it alike. -/
theorem popRange_congr {m m' : Nat → Bool} {s n : Nat}
    (h : ∀ i, s ≤ i → i < s + n → m' i = m i) :
    popRange m' s n = popRange m s n := by
  unfold popRange
  refine Finset.sum_congr rfl fun i hi => ?_
  have := Finset.mem_range.mp hi
  rw [h (s + i) (by omega) (by omega)]

/-- Two maps that agree on a range fill it alike. -/
theorem allSet_congr {m m' : Nat → Bool} {s n : Nat}
    (h : ∀ i, s ≤ i → i < s + n → m' i = m i) :
    allSet m' s n = allSet m s n := by
  rw [Bool.eq_iff_iff, allSet_iff, allSet_iff]
  constructor <;> intro hm i hi <;> have := h (s + i) (by omega) (by omega)
  · rw [← this]
    exact hm i hi
  · rw [this]
    exact hm i hi

/-! ## §2. One block of a sum changes. -/

/-- **One-term change of a sum**: two families that agree off `k₀` have sums
that differ by the two values at `k₀`. -/
theorem sum_change_mem {ι : Type} [DecidableEq ι] {s : Finset ι}
    {g g' : ι → Nat} {k₀ : ι} (hmem : k₀ ∈ s)
    (h : ∀ k ∈ s, k ≠ k₀ → g' k = g k) :
    ∑ k ∈ s, g' k + g k₀ = ∑ k ∈ s, g k + g' k₀ := by
  have hrest : ∑ k ∈ s.erase k₀, g' k = ∑ k ∈ s.erase k₀, g k := by
    refine Finset.sum_congr rfl fun k hk => ?_
    obtain ⟨hne, hs⟩ := Finset.mem_erase.mp hk
    exact h k hs hne
  rw [← Finset.add_sum_erase _ _ hmem, ← Finset.add_sum_erase _ _ hmem,
      hrest]
  ring

theorem sum_change {g g' : Nat → Nat} {n k₀ : Nat} (hk : k₀ < n)
    (h : ∀ k < n, k ≠ k₀ → g' k = g k) :
    ∑ k ∈ Finset.range n, g' k + g k₀
      = ∑ k ∈ Finset.range n, g k + g' k₀ :=
  sum_change_mem (Finset.mem_range.mpr hk) fun k hk =>
    h k (Finset.mem_range.mp hk)

/-! ## §3. Fixed-width counters. -/

/-- A 32-bit counter of `n` things, moved by `m − k`, counts `n'` of them
when `n' + k = n + m`. -/
theorem ofNat32_shift {n n' k m : Nat} (h : n' + k = n + m) :
    UInt32.ofNat n + (UInt32.ofNat m - UInt32.ofNat k) = UInt32.ofNat n' := by
  have := congrArg UInt32.ofNat h
  simp only [UInt32.ofNat_add] at this
  grind

/-- The 16-bit form of `ofNat32_shift`. -/
theorem ofNat16_shift {n n' k m : Nat} (h : n' + k = n + m) :
    UInt16.ofNat n + (UInt16.ofNat m - UInt16.ofNat k) = UInt16.ofNat n' := by
  have := congrArg UInt16.ofNat h
  simp only [UInt16.ofNat_add] at this
  grind

end NextUfs.Bits
