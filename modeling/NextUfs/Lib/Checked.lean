/-
  NextUfs.Lib.Checked
  ───────────────────
  **PROGRAMS WHOSE STEPS MAY HAVE NO MEANING.**

  A C program that indexes outside an array or divides by zero has no meaning
  from there on.  Such a step is modelled as a fault: the run stops, with
  neither a result nor an error of the program.

    • `Halt`, `need`     — why a run stops; a step that needs a condition,
    • `Safe`             — no run comes to a fault,
    • `Yields`           — and what is returned has a property,
    • `wp_need`          — a run that comes to none had what it needed,
    • `Completes`        — a run that comes to none ends, and how.
-/
import NextUfs.Lib.State

namespace NextUfs.Checked

open State

variable {ε σ α β : Type}

/-! ## §1. Faults. -/

/-- Why a run has stopped before it returned a value. -/
inductive Halt (ε : Type) where
  /-- The program returns an error. -/
  | error (e : ε)
  /-- An index outside its array, or a divisor that is zero. -/
  | fault
  /-- The rounds that were allowed are used up. -/
  | unfinished

/-- Every reason but a fault. -/
def Halt.Sound : Halt ε → Prop
  | .fault => False
  | _ => True

/-- Go on if `p` holds; there is no meaning otherwise. -/
def need (p : Prop) [Decidable p] : EStateM (Halt ε) σ Unit :=
  if p then pure () else throw .fault

/-- `a / b`. -/
def divBy (a b : Nat) : EStateM (Halt ε) σ Nat := do
  need (b ≠ 0)
  return a / b

/-- `a % b`. -/
def modBy (a b : Nat) : EStateM (Halt ε) σ Nat := do
  need (b ≠ 0)
  return a % b

theorem divBy_bind {b : Nat} (hb : b ≠ 0) (a : Nat)
    (f : Nat → EStateM (Halt ε) σ β) : divBy a b >>= f = f (a / b) := by
  unfold divBy need
  rw [if_pos hb]
  rfl

theorem modBy_bind {b : Nat} (hb : b ≠ 0) (a : Nat)
    (f : Nat → EStateM (Halt ε) σ β) : modBy a b >>= f = f (a % b) := by
  unfold modBy need
  rw [if_pos hb]
  rfl

/-! ## §2. Programs without faults. -/

/-- **No run comes to a fault.** -/
def Safe (x : EStateM (Halt ε) σ α) : Prop := Raises Halt.Sound x

namespace Safe

variable {x y : EStateM (Halt ε) σ α} {f : α → EStateM (Halt ε) σ β}

theorem bind (hx : Safe x) (hf : ∀ a, Safe (f a)) : Safe (x >>= f) :=
  Raises.bind hx hf

theorem pure (a : α) : Safe (Pure.pure a : EStateM (Halt ε) σ α) :=
  Raises.pure a

theorem error (e : ε) : Safe (throw (Halt.error e) : EStateM (Halt ε) σ α) :=
  Raises.throw trivial

theorem unfinished : Safe (throw Halt.unfinished : EStateM (Halt ε) σ α) :=
  Raises.throw trivial

theorem get : Safe (MonadState.get : EStateM (Halt ε) σ σ) := fun _ => trivial

theorem modify (g : σ → σ) : Safe (modify g : EStateM (Halt ε) σ PUnit) :=
  Raises.modify g

theorem need {p : Prop} [Decidable p] (hp : p) :
    Safe (need p : EStateM (Halt ε) σ Unit) := by
  unfold Checked.need
  rw [if_pos hp]
  exact pure ()

theorem divBy (a : Nat) {b : Nat} (hb : b ≠ 0) :
    Safe (divBy a b : EStateM (Halt ε) σ Nat) :=
  bind (need hb) fun _ => pure _

theorem modBy (a : Nat) {b : Nat} (hb : b ≠ 0) :
    Safe (modBy a b : EStateM (Halt ε) σ Nat) :=
  bind (need hb) fun _ => pure _

theorem ite {p : Prop} [Decidable p] (hx : p → Safe x) (hy : ¬p → Safe y) :
    Safe (if p then x else y) := by
  split
  · exact hx ‹_›
  · exact hy ‹_›

/-- A loop whose rounds are safe. -/
theorem forM {ι : Type} {g : ι → EStateM (Halt ε) σ PUnit} :
    ∀ l : List ι, (∀ i ∈ l, Safe (g i)) → Safe (l.forM g)
  | [], _ => fun _ => trivial
  | i :: l, h => bind (h i List.mem_cons_self) fun _ =>
      forM l fun j hj => h j (List.mem_cons_of_mem i hj)

end Safe

/-- No run comes to a fault, and what is returned has the property `P`. -/
def Yields (P : α → Prop) (x : EStateM (Halt ε) σ α) : Prop :=
  ∀ s, wp x (fun a _ => P a) (fun e _ => e.Sound) s

namespace Yields

variable {P : α → Prop} {R : β → Prop}
variable {x y : EStateM (Halt ε) σ α} {f : α → EStateM (Halt ε) σ β}

theorem safe_bind (hx : Yields P x) (hf : ∀ a, P a → Safe (f a)) :
    Safe (x >>= f) := fun s => by
  rw [wp_bind]
  exact wp_mono (hx s) (fun a t ha => hf a ha t) fun _ _ h => h

theorem bind (hx : Safe x) (hf : ∀ a, Yields R (f a)) : Yields R (x >>= f) :=
  fun s => by
    rw [wp_bind]
    exact wp_mono (hx s) (fun a t _ => hf a t) fun _ _ h => h

theorem pure {a : α} (h : P a) : Yields P (Pure.pure a : EStateM (Halt ε) σ α) :=
  fun _ => h

theorem unfinished : Yields P (throw Halt.unfinished : EStateM (Halt ε) σ α) :=
  fun _ => trivial

theorem ite {p : Prop} [Decidable p] (hx : p → Yields P x) (hy : ¬p → Yields P y) :
    Yields P (if p then x else y) := by
  split
  · exact hx ‹_›
  · exact hy ‹_›

end Yields

/-! ## §3. One run. -/

section Runs

variable {Q : α → σ → Prop} {R : β → σ → Prop} {s : σ}

/-- A run from `s` that comes to no fault. -/
def SoundAt (x : EStateM (Halt ε) σ α) (s : σ) : Prop :=
  wp x (fun _ _ => True) (fun e _ => e.Sound) s

theorem Safe.soundAt {x : EStateM (Halt ε) σ α} (h : Safe x) (s : σ) :
    SoundAt x s := h s

/-- A run without a fault had what it needed. -/
theorem wp_need {p : Prop} [Decidable p] {Q : Unit → σ → Prop} {s : σ} :
    wp (need p : EStateM (Halt ε) σ Unit) Q (fun e _ => e.Sound) s ↔ p ∧ Q () s := by
  unfold need
  rw [wp_ite]
  constructor
  · intro h
    by_cases hp : p
    · exact ⟨hp, h.1 hp⟩
    · exact absurd (h.2 hp) id
  · rintro ⟨hp, hq⟩
    exact ⟨fun _ => hq, fun h => absurd hp h⟩

theorem soundAt_bind {x : EStateM (Halt ε) σ α} {f : α → EStateM (Halt ε) σ β} :
    SoundAt (x >>= f) s ↔
      wp x (fun a t => SoundAt (f a) t) (fun e _ => e.Sound) s :=
  wp_bind ..

theorem soundAt_need_bind {p : Prop} [Decidable p]
    {f : Unit → EStateM (Halt ε) σ β} :
    SoundAt (need p >>= f) s ↔ p ∧ SoundAt (f ()) s := by
  rw [soundAt_bind, wp_need]

/-- A run that may fault, and otherwise returns with `Q`. -/
def Completes (x : EStateM (Halt ε) σ α) (Q : α → σ → Prop) (s : σ) : Prop :=
  wp x Q (fun e _ => e = .fault) s

namespace Completes

theorem bind {x : EStateM (Halt ε) σ α} {f : α → EStateM (Halt ε) σ β}
    (hx : Completes x Q s) (hf : ∀ a t, Q a t → Completes (f a) R t) :
    Completes (x >>= f) R s := by
  unfold Completes
  rw [wp_bind]
  exact wp_mono hx hf fun _ _ h => h

theorem need (p : Prop) [Decidable p] {Q : Unit → σ → Prop} (h : p → Q () s) :
    Completes (need p : EStateM (Halt ε) σ Unit) Q s := by
  unfold Completes Checked.need
  rw [wp_ite]
  exact ⟨h, fun _ => rfl⟩

theorem ite {p : Prop} [Decidable p] {x y : EStateM (Halt ε) σ α}
    (hx : p → Completes x Q s) (hy : ¬p → Completes y Q s) :
    Completes (if p then x else y) Q s := by
  split
  · exact hx ‹_›
  · exact hy ‹_›

theorem mono {x : EStateM (Halt ε) σ α} {Q' : α → σ → Prop}
    (h : Completes x Q s) (hQ : ∀ a t, Q a t → Q' a t) : Completes x Q' s :=
  wp_mono h hQ fun _ _ h => h

/-- **A part that completes is run through**: without a fault the rest is
reached. -/
theorem soundAt {x : EStateM (Halt ε) σ α} {f : α → EStateM (Halt ε) σ β}
    (hx : Completes x Q s) (h : SoundAt (x >>= f) s) :
    ∃ a t, Q a t ∧ SoundAt (f a) t := by
  have hboth := wp_and (soundAt_bind.1 h) hx
  cases hrun : x s with
  | ok a t =>
    obtain ⟨hf, hq⟩ := wp_ok hboth hrun
    exact ⟨a, t, hq, hf⟩
  | error e t =>
    obtain ⟨hsound, rfl⟩ := wp_error hboth hrun
    exact absurd hsound id

/-- A counting loop whose rounds complete. -/
theorem forM_range {f : Nat → EStateM (Halt ε) σ PUnit} {I : Nat → σ → Prop}
    {n : Nat} (hbody : ∀ i < n, ∀ s, I i s →
      Completes (f i) (fun _ t => I (i + 1) t) s) (h0 : I 0 s) :
    Completes ((List.range n).forM f) (fun _ t => I n t) s :=
  wp_forM_range hbody h0

end Completes

/-- The first part of a run without a fault. -/
theorem soundAt_first {x : EStateM (Halt ε) σ α} {f : α → EStateM (Halt ε) σ β}
    (h : SoundAt (x >>= f) s) : SoundAt x s :=
  wp_mono (soundAt_bind.1 h) (fun _ _ _ => trivial) fun _ _ he => he

/-- **Every round of a loop without a fault is one**, if the rounds before it
complete. -/
theorem soundAt_forM_range {f : Nat → EStateM (Halt ε) σ PUnit}
    {I : Nat → σ → Prop} {n : Nat} (hbody : ∀ i < n, ∀ s, I i s →
      Completes (f i) (fun _ t => I (i + 1) t) s) (h0 : I 0 s)
    (h : SoundAt ((List.range n).forM f) s) :
    ∀ i < n, ∃ t, I i t ∧ SoundAt (f i) t := by
  have hfrom : ∀ m k s, k + m = n → I k s →
      SoundAt ((List.range' k m).forM f) s →
      ∀ i, k ≤ i → i < n → ∃ t, I i t ∧ SoundAt (f i) t := by
    intro m
    induction m with
    | zero =>
      intro k s hk _ _ i hki hin
      exact absurd hin (by omega)
    | succ m ih =>
      intro k s hk hI hrun i hki hin
      change SoundAt (f k >>= fun _ => (List.range' (k + 1) m).forM f) s at hrun
      by_cases hik : i = k
      · exact ⟨s, hik ▸ hI, hik ▸ soundAt_first hrun⟩
      · obtain ⟨_, t, hIt, hrest⟩ := (hbody k (by omega) s hI).soundAt hrun
        exact ih (k + 1) t (by omega) hIt hrest i (by omega) hin
  rw [List.range_eq_range'] at h
  exact fun i hi => hfrom n 0 s (by omega) h0 h i (by omega) hi

end Runs

end NextUfs.Checked
