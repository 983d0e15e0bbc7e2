/-
  NextUfs.Lib.State
  ─────────────────
  **RULES FOR A STATE THAT SURVIVES A FAILURE.**

  `EStateM ε σ` without backtracking keeps the state a failing step has
  reached, which is what a program that writes to a device does.  `wp x Q E s`
  says that a run of `x` from `s` ends in `Q` when it returns and in `E` when
  it fails; the rules below read a program from the top, one bind at a time.

    • `wp_bind`, `wp_ite`, `wp_mono` — the structural rules,
    • `wp_forM_range`                — a counting loop with its invariant,
    • `Frame`, `Keeps`               — what no step of a program changes,
    • `Raises`                       — the errors a program can end in,
    • `wp_ok` / `wp_error`           — from a rule to a run and back,
    • `bind_eq_ok`, `bind_eq_error`  — inversion of a bind that has run,
    • `returnedWith`, `leftWith`, `failedWith` — tests of a run that is
      evaluated.
-/
import Mathlib.Logic.Basic

namespace NextUfs.State

variable {ε σ α β : Type}

/-- A run of `x` from `s` ends in `Q` on success and in `E` on failure. -/
def wp (x : EStateM ε σ α) (Q : α → σ → Prop) (E : ε → σ → Prop)
    (s : σ) : Prop :=
  match x s with
  | .ok a s' => Q a s'
  | .error e s' => E e s'

/-! ## §1. Inversion. -/

theorem bind_eq_ok {x : EStateM ε σ α} {f : α → EStateM ε σ β} {s s' : σ}
    {b : β} (h : (x >>= f) s = .ok b s') :
    ∃ a t, x s = .ok a t ∧ f a t = .ok b s' := by
  change EStateM.bind x f s = _ at h
  unfold EStateM.bind at h
  cases hx : x s with
  | ok a t =>
    rw [hx] at h
    exact ⟨a, t, rfl, h⟩
  | error e t =>
    rw [hx] at h
    cases h

theorem bind_eq_error {x : EStateM ε σ α} {f : α → EStateM ε σ β} {s s' : σ}
    {e : ε} (h : (x >>= f) s = .error e s') :
    x s = .error e s' ∨ ∃ a t, x s = .ok a t ∧ f a t = .error e s' := by
  change EStateM.bind x f s = _ at h
  unfold EStateM.bind at h
  cases hx : x s with
  | ok a t =>
    rw [hx] at h
    exact Or.inr ⟨a, t, rfl, h⟩
  | error e' t =>
    rw [hx] at h
    cases h
    exact Or.inl rfl

theorem bind_of_ok {x : EStateM ε σ α} {f : α → EStateM ε σ β} {s t : σ}
    {a : α} (h : x s = .ok a t) : (x >>= f) s = f a t := by
  change EStateM.bind x f s = _
  unfold EStateM.bind
  rw [h]

theorem bind_of_error {x : EStateM ε σ α} {f : α → EStateM ε σ β} {s t : σ}
    {e : ε} (h : x s = .error e t) : (x >>= f) s = .error e t := by
  change EStateM.bind x f s = _
  unfold EStateM.bind
  rw [h]

theorem bind_get (f : σ → EStateM ε σ β) (s : σ) : (get >>= f) s = f s s := rfl

theorem bind_modify (g : σ → σ) (f : PUnit → EStateM ε σ β) (s : σ) :
    (modify g >>= f) s = f ⟨⟩ (g s) := rfl

/-! ## §2. The rules. -/

theorem wp_ok {x : EStateM ε σ α} {Q : α → σ → Prop} {E : ε → σ → Prop}
    {s s' : σ} {a : α} (h : wp x Q E s) (hx : x s = .ok a s') : Q a s' := by
  unfold wp at h
  rwa [hx] at h

/-- A run that is known. -/
theorem wp_of_ok {x : EStateM ε σ α} {Q : α → σ → Prop} {E : ε → σ → Prop}
    {s s' : σ} {a : α} (hx : x s = .ok a s') (h : Q a s') : wp x Q E s := by
  unfold wp
  rwa [hx]

theorem wp_error {x : EStateM ε σ α} {Q : α → σ → Prop} {E : ε → σ → Prop}
    {s s' : σ} {e : ε} (h : wp x Q E s) (hx : x s = .error e s') : E e s' := by
  unfold wp at h
  rwa [hx] at h

@[simp] theorem wp_pure (a : α) (Q : α → σ → Prop) (E : ε → σ → Prop)
    (s : σ) : wp (pure a) Q E s ↔ Q a s := Iff.rfl

@[simp] theorem wp_throw (e : ε) (Q : α → σ → Prop) (E : ε → σ → Prop)
    (s : σ) : wp (throw e) Q E s ↔ E e s := Iff.rfl

@[simp] theorem wp_get (Q : σ → σ → Prop) (E : ε → σ → Prop) (s : σ) :
    wp get Q E s ↔ Q s s := Iff.rfl

@[simp] theorem wp_set (t : σ) (Q : PUnit → σ → Prop) (E : ε → σ → Prop)
    (s : σ) : wp (set t) Q E s ↔ Q ⟨⟩ t := Iff.rfl

@[simp] theorem wp_modify (f : σ → σ) (Q : PUnit → σ → Prop)
    (E : ε → σ → Prop) (s : σ) : wp (modify f) Q E s ↔ Q ⟨⟩ (f s) := Iff.rfl

@[simp] theorem wp_bind (x : EStateM ε σ α) (f : α → EStateM ε σ β)
    (Q : β → σ → Prop) (E : ε → σ → Prop) (s : σ) :
    wp (x >>= f) Q E s ↔ wp x (fun a t => wp (f a) Q E t) E s := by
  change wp (EStateM.bind x f) Q E s ↔ _
  unfold wp EStateM.bind
  cases x s <;> rfl

theorem wp_ite (p : Prop) [Decidable p] (x y : EStateM ε σ α)
    (Q : α → σ → Prop) (E : ε → σ → Prop) (s : σ) :
    wp (if p then x else y) Q E s ↔ (p → wp x Q E s) ∧ (¬p → wp y Q E s) := by
  split <;> simp_all

/-- Consequence: both outcomes may be weakened. -/
theorem wp_mono {x : EStateM ε σ α} {Q Q' : α → σ → Prop}
    {E E' : ε → σ → Prop} {s : σ} (h : wp x Q E s)
    (hQ : ∀ a t, Q a t → Q' a t) (hE : ∀ e t, E e t → E' e t) :
    wp x Q' E' s := by
  unfold wp at h ⊢
  cases hx : x s with
  | ok a t =>
    rw [hx] at h
    exact hQ a t h
  | error e t =>
    rw [hx] at h
    exact hE e t h

/-- Two things known of one run. -/
theorem wp_and {x : EStateM ε σ α} {Q Q' : α → σ → Prop}
    {E E' : ε → σ → Prop} {s : σ} (h : wp x Q E s) (h' : wp x Q' E' s) :
    wp x (fun a t => Q a t ∧ Q' a t) (fun e t => E e t ∧ E' e t) s := by
  unfold wp at *
  cases hx : x s with
  | ok a t =>
    rw [hx] at h h'
    exact ⟨h, h'⟩
  | error e t =>
    rw [hx] at h h'
    exact ⟨h, h'⟩

/-- A run that cannot fail. -/
theorem wp_safe {x : EStateM ε σ PUnit} {Q : PUnit → σ → Prop} {s : σ}
    (h : wp x Q (fun _ _ => False) s) : ∃ t, x s = .ok ⟨⟩ t ∧ Q ⟨⟩ t := by
  unfold wp at h
  cases hx : x s with
  | ok a t =>
    rw [hx] at h
    exact ⟨t, rfl, h⟩
  | error e t =>
    rw [hx] at h
    exact absurd h id

/-- Every run ends somewhere. -/
theorem wp_trivial (x : EStateM ε σ α) (s : σ) :
    wp x (fun _ _ => True) (fun _ _ => True) s := by
  unfold wp
  cases x s <;> trivial

/-! ## §3. Loops. -/

/-- **A counting loop**: a body that takes the invariant at `i` to the
invariant at `i + 1` takes it from 0 to `n`. -/
theorem wp_forM_range {f : Nat → EStateM ε σ PUnit} {I : Nat → σ → Prop}
    {E : ε → σ → Prop} {n : Nat}
    (hbody : ∀ i < n, ∀ s, I i s → wp (f i) (fun _ t => I (i + 1) t) E s)
    {s : σ} (h0 : I 0 s) :
    wp ((List.range n).forM f) (fun _ t => I n t) E s := by
  have hfrom : ∀ m k s, k + m = n → I k s →
      wp ((List.range' k m).forM f) (fun _ t => I n t) E s := by
    intro m
    induction m with
    | zero =>
      intro k s hk hI
      obtain rfl : k = n := by omega
      exact hI
    | succ m ih =>
      intro k s hk hI
      show wp (f k >>= fun _ => (List.range' (k + 1) m).forM f) _ _ s
      rw [wp_bind]
      refine wp_mono (hbody k (by omega) s hI) (fun _ t ht => ?_)
        fun _ _ he => he
      exact ih (k + 1) t (by omega) ht
  rw [List.range_eq_range']
  exact hfrom n 0 s (by omega) h0

/-! ## §4. Frames. -/

/-- A relation that steps compose along: what they leave as it was. -/
structure Frame (σ : Type) where
  rel : σ → σ → Prop
  refl : ∀ s, rel s s
  trans : ∀ {s t u}, rel s t → rel t u → rel s u

/-- Every run of `x`, whether it returns or fails, keeps `F`. -/
def Keeps (F : Frame σ) (x : EStateM ε σ α) : Prop :=
  ∀ s, wp x (fun _ t => F.rel s t) (fun _ t => F.rel s t) s

namespace Keeps

variable {F : Frame σ} {x y : EStateM ε σ α} {f : α → EStateM ε σ β}

theorem ok (h : Keeps F x) {s t : σ} {a : α} (hx : x s = .ok a t) :
    F.rel s t := by
  have ht := wp_ok (h s) hx
  exact ht

theorem error (h : Keeps F x) {s t : σ} {e : ε} (hx : x s = .error e t) :
    F.rel s t := by
  have ht := wp_error (h s) hx
  exact ht

theorem of_runs (hok : ∀ s a t, x s = .ok a t → F.rel s t)
    (herror : ∀ s e t, x s = .error e t → F.rel s t) : Keeps F x := by
  intro s
  unfold wp
  cases hx : x s with
  | ok a t => exact hok s a t hx
  | error e t => exact herror s e t hx

theorem bind (hx : Keeps F x) (hf : ∀ a, Keeps F (f a)) :
    Keeps F (x >>= f) := by
  intro s
  rw [wp_bind]
  refine wp_mono (hx s) (fun a t ht => ?_) fun _ _ he => he
  exact wp_mono (hf a t) (fun _ _ hu => F.trans ht hu)
    fun _ _ hu => F.trans ht hu

theorem pure (a : α) : Keeps F (Pure.pure a : EStateM ε σ α) :=
  fun s => F.refl s

theorem throw (e : ε) : Keeps F (MonadExcept.throw e : EStateM ε σ α) :=
  fun s => F.refl s

theorem get : Keeps F (MonadState.get : EStateM ε σ σ) := fun s => F.refl s

theorem modify {g : σ → σ} (h : ∀ s, F.rel s (g s)) :
    Keeps F (modify g : EStateM ε σ PUnit) := h

theorem ite {p : Prop} [Decidable p] (hx : Keeps F x) (hy : Keeps F y) :
    Keeps F (if p then x else y) := by
  split
  · exact hx
  · exact hy

theorem forM {ι : Type} {g : ι → EStateM ε σ PUnit} (h : ∀ i, Keeps F (g i)) :
    ∀ l : List ι, Keeps F (l.forM g)
  | [] => fun s => F.refl s
  | i :: l => bind (h i) fun _ => forM h l

end Keeps

/-! ## §5. Errors. -/

/-- Every error a run of `x` ends in is one of `E`. -/
def Raises (E : ε → Prop) (x : EStateM ε σ α) : Prop :=
  ∀ s, wp x (fun _ _ => True) (fun e _ => E e) s

namespace Raises

variable {E : ε → Prop} {x y : EStateM ε σ α} {f : α → EStateM ε σ β}

theorem error (h : Raises E x) {s t : σ} {e : ε} (hx : x s = .error e t) :
    E e := by
  have he := wp_error (h s) hx
  exact he

theorem of_runs (h : ∀ s e t, x s = .error e t → E e) : Raises E x := by
  intro s
  unfold wp
  cases hx : x s with
  | ok a t => trivial
  | error e t => exact h s e t hx

theorem bind (hx : Raises E x) (hf : ∀ a, Raises E (f a)) :
    Raises E (x >>= f) := by
  intro s
  rw [wp_bind]
  exact wp_mono (hx s) (fun a t _ => hf a t) fun _ _ he => he

theorem pure (a : α) : Raises E (Pure.pure a : EStateM ε σ α) :=
  fun _ => trivial

theorem throw {e : ε} (he : E e) :
    Raises E (MonadExcept.throw e : EStateM ε σ α) := fun _ => he

theorem modify (g : σ → σ) :
    Raises E (modify g : EStateM ε σ PUnit) := fun _ => trivial

theorem ite {p : Prop} [Decidable p] (hx : Raises E x) (hy : Raises E y) :
    Raises E (if p then x else y) := by
  split
  · exact hx
  · exact hy

theorem forM {ι : Type} {g : ι → EStateM ε σ PUnit}
    (h : ∀ i, Raises E (g i)) : ∀ l : List ι, Raises E (l.forM g)
  | [] => fun _ => trivial
  | i :: l => bind (h i) fun _ => forM h l

end Raises

/-! ## §6. What a run came to. -/

/-- A run has returned what `p` holds of. -/
def returnedWith (p : α → Bool) (r : EStateM.Result ε σ α) : Bool :=
  match r with
  | .ok a _ => p a
  | .error _ _ => false

/-- A run has returned in a state `p` holds of. -/
def leftWith (p : σ → Bool) (r : EStateM.Result ε σ α) : Bool :=
  match r with
  | .ok _ s => p s
  | .error _ _ => false

/-- A run has failed with an error `p` holds of. -/
def failedWith (p : ε → Bool) (r : EStateM.Result ε σ α) : Bool :=
  match r with
  | .ok _ _ => false
  | .error e _ => p e

theorem exists_of_returnedWith {p : α → Bool} {r : EStateM.Result ε σ α}
    (h : returnedWith p r = true) : ∃ a s, r = .ok a s ∧ p a = true := by
  cases r with
  | ok a s => exact ⟨a, s, rfl, h⟩
  | error e s => cases h

theorem exists_of_leftWith {p : σ → Bool} {r : EStateM.Result ε σ α}
    (h : leftWith p r = true) : ∃ a s, r = .ok a s ∧ p s = true := by
  cases r with
  | ok a s => exact ⟨a, s, rfl, h⟩
  | error e s => cases h

theorem exists_of_failedWith {p : ε → Bool} {r : EStateM.Result ε σ α}
    (h : failedWith p r = true) : ∃ e s, r = .error e s ∧ p e = true := by
  cases r with
  | ok a s => cases h
  | error e s => exact ⟨e, s, rfl, h⟩

end NextUfs.State
