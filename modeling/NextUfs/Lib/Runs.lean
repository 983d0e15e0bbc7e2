/-
  NextUfs.Lib.Runs
  ────────────────
  **MAXIMAL RUNS OF SET BITS IN A WINDOW.**

  `MaxRun m base w i k` says that the `k` bits from position `i` of the
  window `[base, base + w)` are a run that cannot be made longer on either
  side; `runsOf m base w k` counts them.  A scanner reads the window from
  left to right; the two step lemmas say what one step of it sees:

    • `runsFrom_of_clear` — a clear bit starts no run,
    • `runsFrom_of_run`   — at a run boundary a set bit starts exactly one
      run, as long as `runLen` measures, and no other starts inside it.
-/
import Mathlib.Algebra.BigOperators.Group.Finset.Basic
import Mathlib.Order.Interval.Finset.Nat
import Mathlib.Algebra.Order.Interval.Finset.SuccPred
import Mathlib.Data.Nat.SuccPred
import NextUfs.Lib.Bits

namespace NextUfs.Bits

/-! ## §1. The length of a run. -/

/-- Number of set bits from position `a` on, before the first clear one and
at most `w`. -/
def runLen (m : Nat → Bool) (a : Nat) : Nat → Nat
  | 0 => 0
  | w + 1 => if m a = true then runLen m (a + 1) w + 1 else 0

theorem runLen_le (m : Nat → Bool) (a w : Nat) : runLen m a w ≤ w := by
  induction w generalizing a with
  | zero => simp [runLen]
  | succ w ih =>
    have := ih (a + 1)
    unfold runLen
    split <;> omega

theorem runLen_set (m : Nat → Bool) (a w : Nat) :
    ∀ j < runLen m a w, m (a + j) = true := by
  induction w generalizing a with
  | zero =>
    intro j hj
    simp [runLen] at hj
  | succ w ih =>
    intro j hj
    unfold runLen at hj
    split at hj
    · rename_i ha
      cases j with
      | zero => exact ha
      | succ j =>
        have := ih (a + 1) j (by omega)
        rwa [show a + 1 + j = a + (j + 1) from by omega] at this
    · omega

theorem runLen_end (m : Nat → Bool) (a w : Nat) (h : runLen m a w < w) :
    m (a + runLen m a w) = false := by
  induction w generalizing a with
  | zero => omega
  | succ w ih =>
    unfold runLen at h ⊢
    split
    · rename_i ha
      rw [if_pos ha] at h
      have := ih (a + 1) (by omega)
      rwa [show a + 1 + runLen m (a + 1) w = a + (runLen m (a + 1) w + 1)
            from by omega] at this
    · rename_i ha
      simpa using ha

theorem runLen_pos_iff {m : Nat → Bool} {a w : Nat} :
    0 < runLen m a w ↔ 0 < w ∧ m a = true := by
  cases w with
  | zero => simp [runLen]
  | succ w =>
    unfold runLen
    split <;> simp_all

/-! ## §2. Maximal runs and their counts. -/

/-- `[i, i + k)` is a maximal run of set bits of the window
`[base, base + w)`. -/
def MaxRun (m : Nat → Bool) (base w i k : Nat) : Prop :=
  0 < k ∧ i + k ≤ w ∧ (∀ j < k, m (base + i + j) = true) ∧
    (i = 0 ∨ m (base + i - 1) = false) ∧
    (i + k = w ∨ m (base + i + k) = false)

instance (m : Nat → Bool) (base w i k : Nat) :
    Decidable (MaxRun m base w i k) := by
  unfold MaxRun
  infer_instance

/-- Number of maximal runs of length `k` that start at position `i` of the
window or later. -/
def runsFrom (m : Nat → Bool) (base w i k : Nat) : Nat :=
  ((Finset.Ico i w).filter fun j => MaxRun m base w j k).card

/-- **The number of maximal runs of length `k`** in the window
`[base, base + w)`. -/
def runsOf (m : Nat → Bool) (base w k : Nat) : Nat :=
  runsFrom m base w 0 k

theorem runsFrom_of_le (m : Nat → Bool) {base w i k : Nat} (h : w ≤ i) :
    runsFrom m base w i k = 0 := by
  unfold runsFrom
  rw [Finset.Ico_eq_empty (by omega)]
  rfl

/-- Positions that start no run can be skipped. -/
theorem runsFrom_skip {m : Nat → Bool} {base w i n k : Nat}
    (h : ∀ j, i ≤ j → j < i + n → ¬MaxRun m base w j k) :
    runsFrom m base w i k = runsFrom m base w (i + n) k := by
  unfold runsFrom
  congr 1
  ext j
  simp only [Finset.mem_filter, Finset.mem_Ico]
  constructor
  · rintro ⟨⟨hij, hjw⟩, hrun⟩
    refine ⟨⟨?_, hjw⟩, hrun⟩
    by_contra hlt
    exact h j hij (by omega) hrun
  · rintro ⟨⟨hij, hjw⟩, hrun⟩
    exact ⟨⟨by omega, hjw⟩, hrun⟩

/-- A clear bit starts no run. -/
theorem runsFrom_of_clear {m : Nat → Bool} {base w i k : Nat}
    (h : m (base + i) = false) :
    runsFrom m base w i k = runsFrom m base w (i + 1) k := by
  refine runsFrom_skip fun j hij hj => ?_
  obtain rfl : j = i := by omega
  rintro ⟨hk, -, hset, -⟩
  have := hset 0 hk
  simp [h] at this

/-- At a run boundary the only maximal run that starts at `i` is the measured
one. -/
theorem maxRun_iff_runLen {m : Nat → Bool} {base w i k : Nat} (hi : i < w)
    (hb : i = 0 ∨ m (base + i - 1) = false) (hm : m (base + i) = true) :
    MaxRun m base w i k ↔ k = runLen m (base + i) (w - i) := by
  have hle := runLen_le m (base + i) (w - i)
  have hset := runLen_set m (base + i) (w - i)
  have hend := runLen_end m (base + i) (w - i)
  have hpos : 0 < runLen m (base + i) (w - i) :=
    runLen_pos_iff.mpr ⟨by omega, hm⟩
  generalize runLen m (base + i) (w - i) = r at *
  constructor
  · rintro ⟨hk, hkw, hkset, -, hkend⟩
    rcases Nat.lt_trichotomy k r with hlt | heq | hgt
    · -- shorter than the measured run: its end bit is set
      have h1 := hset k hlt
      rcases hkend with hkend | hkend
      · omega
      · simp [h1] at hkend
    · exact heq
    · have h1 := hkset r hgt
      have h2 := hend (by omega)
      simp [h1] at h2
  · rintro rfl
    refine ⟨hpos, by omega, hset, hb, ?_⟩
    by_cases h : i + k = w
    · exact Or.inl h
    · exact Or.inr (hend (by omega))

/-- **One scanner step over a run**: it contributes itself and hides every
other start. -/
theorem runsFrom_of_run {m : Nat → Bool} {base w i k : Nat} (hi : i < w)
    (hb : i = 0 ∨ m (base + i - 1) = false) (hm : m (base + i) = true) :
    runsFrom m base w i k
      = (if k = runLen m (base + i) (w - i) then 1 else 0)
        + runsFrom m base w (i + runLen m (base + i) (w - i)) k := by
  have hset := runLen_set m (base + i) (w - i)
  have hpos : 0 < runLen m (base + i) (w - i) :=
    runLen_pos_iff.mpr ⟨by omega, hm⟩
  have hinside : ∀ j, i + 1 ≤ j → j < i + 1 + (runLen m (base + i) (w - i) - 1) →
      ¬MaxRun m base w j k := by
    rintro j hij hj ⟨-, -, -, hbj, -⟩
    have hprev := hset (j - 1 - i) (by omega)
    rw [show base + i + (j - 1 - i) = base + j - 1 from by omega] at hprev
    rcases hbj with hbj | hbj
    · omega
    · simp [hprev] at hbj
  have hskip := runsFrom_skip hinside
  rw [show i + 1 + (runLen m (base + i) (w - i) - 1)
        = i + runLen m (base + i) (w - i) from by omega] at hskip
  rw [← hskip]
  unfold runsFrom
  rw [← Finset.insert_Ico_add_one_left_eq_Ico hi, Finset.filter_insert]
  by_cases hk : k = runLen m (base + i) (w - i)
  · rw [if_pos ((maxRun_iff_runLen hi hb hm).mpr hk), if_pos hk,
      Finset.card_insert_of_notMem (by simp)]
    omega
  · rw [if_neg (fun h => hk ((maxRun_iff_runLen hi hb hm).mp h)), if_neg hk]
    omega

private theorem MaxRun.congr {m m' : Nat → Bool} {base base' w i k : Nat}
    (h : ∀ j < w, m' (base' + j) = m (base + j))
    (hrun : MaxRun m base w i k) : MaxRun m' base' w i k := by
  obtain ⟨hk, hkw, hset, hb, hend⟩ := hrun
  refine ⟨hk, hkw, fun j hj => ?_, ?_, ?_⟩
  · rw [Nat.add_assoc, h _ (by omega), ← Nat.add_assoc]
    exact hset j hj
  · refine or_iff_not_imp_left.mpr fun h0 => ?_
    have := hb.resolve_left h0
    rw [Nat.add_sub_assoc (by omega)] at this ⊢
    rw [h _ (by omega)]
    exact this
  · refine or_iff_not_imp_left.mpr fun hne => ?_
    rw [Nat.add_assoc, h _ (by omega), ← Nat.add_assoc]
    exact hend.resolve_left hne

/-- Two windows with the same bits have the same runs. -/
theorem runsOf_congr {m m' : Nat → Bool} {base base' w k : Nat}
    (h : ∀ j < w, m' (base' + j) = m (base + j)) :
    runsOf m' base' w k = runsOf m base w k := by
  unfold runsOf runsFrom
  congr 1
  refine Finset.filter_congr fun i _ => ⟨?_, MaxRun.congr h⟩
  exact MaxRun.congr fun j hj => (h j hj).symm

/-- A window whose first `n` bits are clear and the others set has one run,
of length `w - n`. -/
theorem runsOf_suffix {m : Nat → Bool} {base w n k : Nat} (hn : n ≤ w)
    (hclr : ∀ i < n, m (base + i) = false)
    (hset : ∀ i, n ≤ i → i < w → m (base + i) = true) :
    runsOf m base w k = if k = w - n ∧ n < w then 1 else 0 := by
  have hstart : runsOf m base w k = runsFrom m base w (0 + n) k := by
    refine runsFrom_skip fun j _ hj => ?_
    rintro ⟨hk, -, hj0, -⟩
    have h1 := hj0 0 hk
    have h2 := hclr j (by omega)
    simp [h2] at h1
  rw [hstart, Nat.zero_add]
  by_cases hnw : n < w
  · have hlen : runLen m (base + n) (w - n) = w - n := by
      by_contra hne
      have hle := runLen_le m (base + n) (w - n)
      have h1 := runLen_end m (base + n) (w - n) (by omega)
      have h2 := hset (n + runLen m (base + n) (w - n)) (by omega) (by omega)
      rw [← Nat.add_assoc, h1] at h2
      cases h2
    have hb : n = 0 ∨ m (base + n - 1) = false := by
      refine or_iff_not_imp_left.mpr fun h0 => ?_
      have := hclr (n - 1) (by omega)
      rwa [show base + (n - 1) = base + n - 1 from by omega] at this
    rw [runsFrom_of_run hnw hb (hset n le_rfl hnw), hlen,
      runsFrom_of_le m (by omega)]
    simp [hnw]
  · rw [runsFrom_of_le m (by omega), if_neg (by omega)]

/-- A window whose first `n` bits are set and the others clear has one run, of
length `n`. -/
theorem runsOf_prefix {m : Nat → Bool} {base w n k : Nat} (hn : n ≤ w)
    (hset : ∀ i < n, m (base + i) = true)
    (hclr : ∀ i, n ≤ i → i < w → m (base + i) = false) :
    runsOf m base w k = if k = n ∧ 0 < n then 1 else 0 := by
  have hrest : runsFrom m base w n k = 0 := by
    rw [← runsFrom_of_le m (show w ≤ n + (w - n) by omega)]
    refine runsFrom_skip fun j hnj hj => ?_
    rintro ⟨hk, -, hj0, -⟩
    have h1 := hj0 0 hk
    have h2 := hclr j hnj (by omega)
    simp [h2] at h1
  by_cases hpos : 0 < n
  · have hlen : runLen m (base + 0) (w - 0) = n := by
      have hle := runLen_le m (base + 0) (w - 0)
      rcases Nat.lt_trichotomy (runLen m (base + 0) (w - 0)) n with h | h | h
      · have h1 := runLen_end m (base + 0) (w - 0) (by omega)
        have h2 := hset _ h
        rw [Nat.add_zero] at h1 h2
        rw [h1] at h2
        cases h2
      · exact h
      · have h1 := runLen_set m (base + 0) (w - 0) n h
        have h2 := hclr n le_rfl (by omega)
        rw [Nat.add_zero] at h1
        rw [h1] at h2
        cases h2
    have hfirst : m (base + 0) = true := hset 0 hpos
    unfold runsOf
    rw [runsFrom_of_run (by omega) (Or.inl rfl) hfirst, hlen, Nat.zero_add,
      hrest]
    simp [hpos]
  · obtain rfl : n = 0 := by omega
    rw [if_neg (by omega)]
    exact hrest

end NextUfs.Bits
