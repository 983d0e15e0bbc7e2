/-
  NextUfs.Lib.Window
  ──────────────────
  **WINDOWS OF A BYTE AREA.**

  An area of memory or of a disk is a function from offsets; what a program
  does to it in place concerns a window `[off, off + w)`.

    • `Same`              — two areas agree on a range,
    • `Local`             — an edit that reads and changes one window only,
    • `Local.comm`        — edits of disjoint windows commute,
    • `reverseAt`         — a window reversed in place, as a byte swap does,
    • `store`, `load`     — bytes put to and taken from a window.
-/
import Mathlib.Data.List.GetD
import Mathlib.Logic.Function.Basic

namespace NextUfs.Window

variable {α : Type}

/-! ## §1. Ranges. -/

/-- The areas agree on `[lo, hi)`. -/
def Same (f g : Nat → α) (lo hi : Nat) : Prop :=
  ∀ i, lo ≤ i → i < hi → f i = g i

namespace Same

variable {f g h : Nat → α} {lo hi lo' hi' : Nat}

theorem refl (f : Nat → α) (lo hi : Nat) : Same f f lo hi :=
  fun _ _ _ => rfl

theorem symm (hs : Same f g lo hi) : Same g f lo hi :=
  fun i hlo hhi => (hs i hlo hhi).symm

theorem trans (hs : Same f g lo hi) (ht : Same g h lo hi) : Same f h lo hi :=
  fun i hlo hhi => (hs i hlo hhi).trans (ht i hlo hhi)

theorem mono (hs : Same f g lo hi) (hl : lo ≤ lo') (hh : hi' ≤ hi) :
    Same f g lo' hi' :=
  fun i hlo hhi => hs i (Nat.le_trans hl hlo) (Nat.lt_of_lt_of_le hhi hh)

end Same

/-! ## §2. Edits of one window. -/

/-- `e` changes nothing outside `[lo, hi)`, and what it leaves there depends
on nothing outside. -/
structure Local (e : (Nat → α) → Nat → α) (lo hi : Nat) : Prop where
  outside : ∀ f i, (i < lo ∨ hi ≤ i) → e f i = f i
  inside : ∀ f g, Same f g lo hi → Same (e f) (e g) lo hi

namespace Local

variable {d e : (Nat → α) → Nat → α} {f g : Nat → α} {lo hi lo' hi' : Nat}

/-- Areas that agree on a range around the window agree there afterwards. -/
theorem same (he : Local e lo hi) (hs : Same f g lo' hi')
    (hl : lo' ≤ lo) (hh : hi ≤ hi') : Same (e f) (e g) lo' hi' := by
  intro i hlo hhi
  by_cases hin : lo ≤ i ∧ i < hi
  · exact he.inside f g (hs.mono hl hh) i hin.1 hin.2
  · have hout : i < lo ∨ hi ≤ i := by omega
    rw [he.outside f i hout, he.outside g i hout]
    exact hs i hlo hhi

/-- Bytes away from the window stay. -/
theorem keeps (he : Local e lo hi) (f : Nat → α)
    (hdis : hi' ≤ lo ∨ hi ≤ lo') : Same (e f) f lo' hi' := by
  intro i hlo hhi
  exact he.outside f i (by omega)

/-- A larger window. -/
theorem mono (he : Local e lo hi) (hl : lo' ≤ lo) (hh : hi ≤ hi') :
    Local e lo' hi' where
  outside f i hi := he.outside f i (by omega)
  inside _ _ hs := he.same hs hl hh

/-- One edit after the other. -/
theorem comp (he : Local e lo hi) (hd : Local d lo hi) :
    Local (fun f => d (e f)) lo hi where
  outside f i hi := (hd.outside _ i hi).trans (he.outside f i hi)
  inside f g hs := hd.inside _ _ (he.inside f g hs)

/-- **Edits of disjoint windows commute.** -/
theorem comm (he : Local e lo hi) (hd : Local d lo' hi')
    (hdis : hi ≤ lo' ∨ hi' ≤ lo) (f : Nat → α) : e (d f) = d (e f) := by
  funext i
  by_cases hin : lo ≤ i ∧ i < hi
  · rw [hd.outside (e f) i (by omega)]
    exact he.inside _ _ (hd.keeps f (by omega)) i hin.1 hin.2
  · rw [he.outside (d f) i (by omega)]
    by_cases hin' : lo' ≤ i ∧ i < hi'
    · exact (hd.inside _ _ (he.keeps f (by omega)) i hin'.1 hin'.2).symm
    · rw [hd.outside f i (by omega), hd.outside (e f) i (by omega),
        he.outside f i (by omega)]

end Local

/-! ## §3. Reversing. -/

/-- The window `[off, off + w)` reversed in place. -/
def reverseAt (w off : Nat) (f : Nat → α) : Nat → α := fun i =>
  if off ≤ i ∧ i < off + w then f (off + (w - 1 - (i - off))) else f i

theorem reverseAt_in {w k : Nat} (off : Nat) (f : Nat → α) (hk : k < w) :
    reverseAt w off f (off + k) = f (off + (w - 1 - k)) := by
  unfold reverseAt
  rw [if_pos (by omega), Nat.add_sub_cancel_left]

theorem reverseAt_local (w off : Nat) :
    Local (reverseAt (α := α) w off) off (off + w) where
  outside f i hi := if_neg (by omega)
  inside f g hs i hlo hhi := by
    unfold reverseAt
    rw [if_pos ⟨hlo, hhi⟩, if_pos ⟨hlo, hhi⟩]
    exact hs _ (by omega) (by omega)

/-- Reversing twice is nothing. -/
@[simp] theorem reverseAt_reverseAt (w off : Nat) (f : Nat → α) :
    reverseAt w off (reverseAt w off f) = f := by
  funext i
  by_cases hin : off ≤ i ∧ i < off + w
  · obtain ⟨k, rfl⟩ := Nat.exists_eq_add_of_le hin.1
    have hk : k < w := by omega
    rw [reverseAt_in off _ hk, reverseAt_in off f (by omega)]
    congr 2
    omega
  · rw [(reverseAt_local w off).outside _ i (by omega),
      (reverseAt_local w off).outside f i (by omega)]

/-! ## §4. Bytes put and taken. -/

/-- The area with `bs` put at `off`. -/
def store (f : Nat → α) (off : Nat) (bs : List α) : Nat → α := fun i =>
  if off ≤ i then bs.getD (i - off) (f i) else f i

/-- `n` bytes from `off` on. -/
def load (f : Nat → α) (off n : Nat) : List α :=
  (List.range n).map fun k => f (off + k)

section Store

variable {f g : Nat → α} {off n k : Nat} {bs : List α}

theorem store_in (h : k < bs.length) : store f off bs (off + k) = bs[k] := by
  unfold store
  rw [if_pos (by omega), Nat.add_sub_cancel_left, List.getD_eq_getElem _ _ h]

theorem store_out {i : Nat} (h : i < off ∨ off + bs.length ≤ i) :
    store f off bs i = f i := by
  unfold store
  split
  · exact List.getD_eq_default _ _ (by omega)
  · rfl

theorem store_local (off : Nat) (bs : List α) :
    Local (fun f => store f off bs) off (off + bs.length) where
  outside _ _ hi := store_out hi
  inside f g _ i hlo hhi := by
    obtain ⟨k, rfl⟩ := Nat.exists_eq_add_of_le hlo
    rw [store_in (by omega), store_in (by omega)]

/-- Two pieces, one after the other. -/
theorem store_append (f : Nat → α) (off : Nat) (as bs : List α) :
    store f off (as ++ bs) = store (store f off as) (off + as.length) bs := by
  funext i
  by_cases hbs : off + as.length ≤ i
  · rw [show store (store f off as) (off + as.length) bs i =
      bs.getD (i - (off + as.length)) (store f off as i) from if_pos hbs,
      store_out (Or.inr hbs)]
    unfold store
    rw [if_pos (by omega), List.getD_append_right _ _ _ _ (by omega), Nat.sub_sub]
  · rw [store_out (f := store f off as) (Or.inl (by omega))]
    unfold store
    by_cases hi : off ≤ i
    · rw [if_pos hi, if_pos hi, List.getD_append _ _ _ _ (by omega)]
    · rw [if_neg hi, if_neg hi]

@[simp] theorem length_load (f : Nat → α) (off n : Nat) :
    (load f off n).length = n := by
  rw [load, List.length_map, List.length_range]

theorem getElem_load (h : k < (load f off n).length) :
    (load f off n)[k] = f (off + k) := by
  simp only [load, List.getElem_map, List.getElem_range]

theorem getD_load (d : α) (h : k < n) : (load f off n).getD k d = f (off + k) := by
  rw [List.getD_eq_getElem _ _ (by rwa [length_load]), getElem_load]

/-- What is taken depends on its window. -/
theorem load_congr (h : Same f g off (off + n)) : load f off n = load g off n := by
  apply List.ext_getElem
  · rw [length_load, length_load]
  · intro k hk hk'
    rw [length_load] at hk
    rw [getElem_load, getElem_load]
    exact h _ (by omega) (by omega)

/-- Putting back what is there changes nothing. -/
theorem store_load (f : Nat → α) (off n : Nat) : store f off (load f off n) = f := by
  funext i
  by_cases hin : off ≤ i ∧ i < off + n
  · obtain ⟨k, rfl⟩ := Nat.exists_eq_add_of_le hin.1
    rw [store_in (by rw [length_load]; omega), getElem_load]
  · exact store_out (by rw [length_load]; omega)

end Store

end NextUfs.Window
