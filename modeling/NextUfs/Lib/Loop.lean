/-
  NextUfs.Lib.Loop
  ────────────────
  **COUNTED `for` LOOPS.**

  A C loop `for (; cond(i); i += step) body(i)` over a counter that only
  moves forward, with a bound on its rounds.  The file has

    • `forLoop`         — the loop,
    • `forLoop_induct`  — an invariant of the body is one of the loop,
    • `forLoop_done`    — with enough fuel the condition fails at the end,
    • `forLoop_eq`      — a loop whose condition holds exactly `n` times is
      `rounds` of its body, whatever fuel is left over.
-/
import Mathlib.Tactic.Ring

namespace NextUfs.Loop

variable {σ : Type}

/-! ## §1. The loop. -/

/-- `for (; cond(i); i += step) body(i)`, at most `fuel` rounds: the counter
and the state it ends with. -/
def forLoop (cond : Nat → Bool) (step : Nat) (body : Nat → σ → σ) :
    Nat → Nat → σ → Nat × σ
  | 0, i, s => (i, s)
  | fuel + 1, i, s =>
    if cond i then forLoop cond step body fuel (i + step) (body i s)
    else (i, s)

/-- `n` rounds of a loop body, from counter `i`. -/
def rounds (step : Nat) (body : Nat → σ → σ) : Nat → Nat → σ → σ
  | 0, _, s => s
  | n + 1, i, s => rounds step body n (i + step) (body i s)

/-! ## §2. Invariants. -/

section Rules

variable {cond : Nat → Bool} {step : Nat} {body : Nat → σ → σ}

/-- **An invariant of the body is an invariant of the loop.** -/
theorem forLoop_induct {I : Nat → σ → Prop}
    (hbody : ∀ i s, cond i = true → I i s → I (i + step) (body i s)) :
    ∀ fuel i s, I i s →
      I (forLoop cond step body fuel i s).1
        (forLoop cond step body fuel i s).2 := by
  intro fuel
  induction fuel with
  | zero =>
    intro i s h
    exact h
  | succ fuel ih =>
    intro i s h
    rw [forLoop]
    split
    · rename_i hc
      exact ih _ _ (hbody i s hc h)
    · exact h

/-- A condition that fails past `limit` has failed once the fuel reaches it. -/
theorem forLoop_done {limit : Nat} (hstep : 0 < step)
    (hcond : ∀ i, limit ≤ i → cond i = false) :
    ∀ fuel i (s : σ), limit ≤ i + fuel →
      cond (forLoop cond step body fuel i s).1 = false := by
  intro fuel
  induction fuel with
  | zero =>
    intro i s h
    exact hcond i (by omega)
  | succ fuel ih =>
    intro i s h
    rw [forLoop]
    split
    · exact ih _ _ (by omega)
    · rename_i hc
      exact Bool.eq_false_iff.mpr hc

/-- **A loop that runs exactly `n` times** is `n` rounds of its body. -/
theorem forLoop_eq : ∀ n fuel i (s : σ), n < fuel →
    (∀ k < n, cond (i + k * step) = true) →
    cond (i + n * step) = false →
    forLoop cond step body fuel i s = (i + n * step, rounds step body n i s) := by
  intro n
  induction n with
  | zero =>
    intro fuel i s hfuel _ hend
    obtain ⟨f, rfl⟩ : ∃ f, fuel = f + 1 := ⟨fuel - 1, by omega⟩
    rw [Nat.zero_mul, Nat.add_zero] at hend
    rw [forLoop, hend, Nat.zero_mul, Nat.add_zero]
    rfl
  | succ n ih =>
    intro fuel i s hfuel hrun hend
    obtain ⟨f, rfl⟩ : ∃ f, fuel = f + 1 := ⟨fuel - 1, by omega⟩
    have hfirst : cond i = true := by simpa using hrun 0 (Nat.succ_pos n)
    have hshift : ∀ k, i + step + k * step = i + (k + 1) * step := by
      intro k
      ring
    rw [forLoop, if_pos hfirst, ih f (i + step) (body i s) (by omega) _ _,
      hshift]
    · rfl
    · intro k hk
      rw [hshift]
      exact hrun (k + 1) (by omega)
    · rw [hshift]
      exact hend

end Rules

/-- **An invariant of the body holds after `n` rounds.** -/
theorem rounds_induct {step : Nat} {body : Nat → σ → σ} {I : Nat → σ → Prop}
    {n : Nat} {i : Nat} {s : σ}
    (hbody : ∀ k s, k < n → I (i + k * step) s →
      I (i + (k + 1) * step) (body (i + k * step) s))
    (h : I i s) : I (i + n * step) (rounds step body n i s) := by
  induction n generalizing i s with
  | zero => simpa [rounds] using h
  | succ n ih =>
    have hshift : ∀ k, i + step + k * step = i + (k + 1) * step := by
      intro k
      ring
    have hfirst : I (i + step) (body i s) := by
      have := hbody 0 s (Nat.succ_pos n)
      simp only [Nat.zero_mul, Nat.add_zero, Nat.zero_add, Nat.one_mul] at this
      exact this h
    rw [rounds, ← hshift]
    apply ih _ hfirst
    intro k t hk ht
    rw [hshift] at ht ⊢
    rw [hshift]
    exact hbody (k + 1) t (by omega) ht

end NextUfs.Loop
