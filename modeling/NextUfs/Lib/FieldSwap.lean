/-
  NextUfs.Lib.FieldSwap
  ─────────────────────
  **MANY FIELDS REVERSED IN PLACE.**

  A record is turned from one byte order into the other by reversing each of
  its fields where it stands.  Fields are pairs of an offset and a width.

    • `reverseEach`             — every field of a list reversed,
    • `Spread`                  — the fields of a list stand one behind the other
      in a range,
    • `reverseEach_reverseEach` — fields that do not overlap are back in place
      after the second time,
    • `reverseEach_same`        — no field across the end of an area brings in
      what lies behind it.
-/
import NextUfs.Lib.Window

namespace NextUfs.Window

variable {α : Type}

/-! ## §1. Fields. -/

/-- Reverse the fields of a list, one after the other. -/
def reverseEach : List (Nat × Nat) → (Nat → α) → Nat → α
  | [], f => f
  | x :: l, f => reverseEach l (reverseAt x.2 x.1 f)

/-- Field `x` ends before field `y` begins. -/
def Before (x y : Nat × Nat) : Prop := x.1 + x.2 ≤ y.1

/-- Fields in `[lo, hi)`, one behind the other. -/
structure Spread (lo hi : Nat) (l : List (Nat × Nat)) : Prop where
  inside : ∀ x ∈ l, lo ≤ x.1 ∧ x.1 + x.2 ≤ hi
  apart : l.Pairwise Before

/-- No field crosses `size`. -/
def Fits (l : List (Nat × Nat)) (size : Nat) : Prop :=
  ∀ x ∈ l, x.1 + x.2 ≤ size ∨ size ≤ x.1

/-- `n` fields of `w` bytes from `off` on. -/
def fields (w off n : Nat) : List (Nat × Nat) :=
  (List.range n).map fun k => (off + k * w, w)

/-! ## §2. Lists of fields that are put together. -/

namespace Spread

variable {lo hi : Nat} {l l' : List (Nat × Nat)}

theorem append (mid : Nat) (h : Spread lo mid l) (h' : Spread mid hi l') (hlo : lo ≤ mid)
    (hhi : mid ≤ hi) : Spread lo hi (l ++ l') where
  inside x hx := by
    rcases List.mem_append.mp hx with hx | hx
    · have := h.inside x hx
      omega
    · have := h'.inside x hx
      omega
  apart := by
    rw [List.pairwise_append]
    refine ⟨h.apart, h'.apart, fun x hx y hy => ?_⟩
    have hend := (h.inside x hx).2
    have hstart := (h'.inside y hy).1
    exact Nat.le_trans hend hstart

theorem mono {lo' hi' : Nat} (h : Spread lo hi l) (hlo : lo' ≤ lo)
    (hhi : hi ≤ hi') : Spread lo' hi' l where
  inside x hx := by
    have := h.inside x hx
    omega
  apart := h.apart

theorem equal (w off n : Nat) : Spread off (off + n * w) (fields w off n) where
  inside x hx := by
    obtain ⟨k, hk, rfl⟩ := List.mem_map.mp hx
    have hmul : (k + 1) * w ≤ n * w :=
      Nat.mul_le_mul_right w (List.mem_range.mp hk)
    rw [Nat.succ_mul] at hmul
    exact ⟨Nat.le_add_right _ _, by dsimp only; omega⟩
  apart := by
    unfold fields
    rw [List.pairwise_map]
    refine List.pairwise_lt_range.imp fun {a b} hab => ?_
    have hmul : (a + 1) * w ≤ b * w := Nat.mul_le_mul_right w hab
    rw [Nat.succ_mul] at hmul
    unfold Before
    dsimp only
    omega

/-- Records of `step` bytes, each with its fields. -/
theorem repeated {step : Nat} {record : Nat → List (Nat × Nat)}
    (h : ∀ off, Spread off (off + step) (record off)) (n : Nat) :
    Spread 0 (n * step)
      ((List.range n).flatMap fun k => record (k * step)) := by
  induction n with
  | zero => exact ⟨fun _ hx => absurd hx List.not_mem_nil, List.Pairwise.nil⟩
  | succ n ih =>
    rw [List.range_succ, List.flatMap_append, List.flatMap_cons, List.flatMap_nil,
      List.append_nil, Nat.succ_mul]
    exact append _ ih (h (n * step)) (Nat.zero_le _) (Nat.le_add_right _ _)

end Spread

/-! ## §3. Reversing twice. -/

/-- Reversing a field before others commutes with reversing them. -/
theorem reverseAt_reverseEach {x : Nat × Nat} : ∀ {l : List (Nat × Nat)}
    (f : Nat → α), (∀ y ∈ l, Before x y) →
    reverseAt x.2 x.1 (reverseEach l f) = reverseEach l (reverseAt x.2 x.1 f)
  | [], _, _ => rfl
  | y :: l, f, h => by
    have hxy : x.1 + x.2 ≤ y.1 := h y List.mem_cons_self
    unfold reverseEach
    rw [reverseAt_reverseEach _ fun z hz => h z (List.mem_cons_of_mem y hz),
      (reverseAt_local x.2 x.1).comm (reverseAt_local y.2 y.1) (Or.inl hxy)]

/-- **Reversing twice is nothing**, for fields that do not overlap. -/
theorem reverseEach_reverseEach : ∀ {l : List (Nat × Nat)} (f : Nat → α),
    l.Pairwise Before → reverseEach l (reverseEach l f) = f
  | [], _, _ => rfl
  | x :: l, f, h => by
    obtain ⟨hx, hl⟩ := List.pairwise_cons.mp h
    rw [reverseEach, reverseEach, reverseAt_reverseEach _ hx,
      reverseEach_reverseEach _ hl, reverseAt_reverseAt]

/-! ## §4. The end of an area. -/

/-- **Areas that agree below `size` still do**, when no field crosses it. -/
theorem reverseEach_same {size : Nat} : ∀ {l : List (Nat × Nat)}
    {f g : Nat → α}, Fits l size → Same f g 0 size →
    Same (reverseEach l f) (reverseEach l g) 0 size
  | [], _, _, _, hs => hs
  | x :: l, f, g, h, hs => by
    unfold reverseEach
    refine reverseEach_same (fun y hy => h y (List.mem_cons_of_mem x hy)) ?_
    rcases h x List.mem_cons_self with hin | hout
    · exact (reverseAt_local x.2 x.1).same hs (Nat.zero_le _) hin
    · have hkeep : ∀ f : Nat → α, Same (reverseAt x.2 x.1 f) f 0 size :=
        fun f => (reverseAt_local x.2 x.1).keeps f (Or.inl hout)
      exact ((hkeep f).trans hs).trans (hkeep g).symm

end NextUfs.Window
