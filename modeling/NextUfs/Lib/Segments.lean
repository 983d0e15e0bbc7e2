/-
  NextUfs.Lib.Segments
  ────────────────────
  **A LIST CUT AT A SEPARATOR.**

  `segments sep xs` are the nonempty pieces of `xs` between occurrences of
  `sep`, and `EndsTwice sep xs` says that `xs` ends in two of them.

    • `segments_append`   — cutting at a known separator,
    • `segments_eq_nil`   — nothing but separators,
    • `exists_lastSegment` — cutting at the last separator,
    • `endsTwice_*`       — what decides how a list ends.
-/
import Mathlib.Data.List.Basic

namespace NextUfs.Segments

variable {α : Type} {sep : α} {xs ys : List α}

/-! ## §1. Segments. -/

section Segments

variable [DecidableEq α]

/-- The nonempty pieces between separators. -/
def segments (sep : α) (xs : List α) : List (List α) :=
  (xs.splitOn sep).filter fun s => s ≠ []

@[simp] theorem segments_nil : segments sep [] = [] := rfl

theorem segments_append (xs ys : List α) :
    segments sep (xs ++ sep :: ys) = segments sep xs ++ segments sep ys := by
  unfold segments
  rw [List.splitOn_append_cons_self, List.filter_append]

@[simp] theorem segments_cons_sep (ys : List α) :
    segments sep (sep :: ys) = segments sep ys := by
  have h : segments sep ([] ++ sep :: ys) = _ := segments_append [] ys
  rw [List.nil_append, segments_nil, List.nil_append] at h
  exact h

theorem segments_single (hsep : sep ∉ xs) (hne : xs ≠ []) :
    segments sep xs = [xs] := by
  unfold segments
  rw [List.splitOn_eq_singleton hsep]
  simp [hne]

/-- Leading separators add nothing. -/
theorem segments_dropWhile (xs : List α) :
    segments sep (xs.dropWhile (· = sep)) = segments sep xs := by
  induction xs with
  | nil => rfl
  | cons x xs ih =>
    by_cases hx : x = sep
    · subst hx
      rw [List.dropWhile_cons_of_pos (by simp), ih, segments_cons_sep]
    · rw [List.dropWhile_cons_of_neg (by simpa using hx)]

/-- A list without segments is made of separators. -/
theorem segments_eq_nil (h : segments sep xs = []) :
    xs = List.replicate xs.length sep := by
  induction xs with
  | nil => rfl
  | cons x xs ih =>
    by_cases hx : x = sep
    · subst hx
      rw [segments_cons_sep] at h
      rw [List.length_cons, List.replicate_succ, ← ih h]
    · -- the first piece starts with `x`
      exfalso
      unfold segments at h
      rw [List.splitOn_cons_eq_if_modifyHead, if_neg (by simpa using hx)] at h
      obtain ⟨first, rest, hsplit⟩ :=
        List.exists_cons_of_ne_nil (List.splitOn_ne_nil sep xs)
      rw [hsplit] at h
      simp at h

/-- A list cut at its last separator. -/
theorem exists_lastSegment (h : sep ∈ xs) :
    ∃ front last, xs = front ++ sep :: last ∧
      (xs.reverse.takeWhile (· ≠ sep)).reverse = last ∧ sep ∉ last := by
  obtain ⟨last, front, hrev, hnone⟩ :=
    List.eq_append_cons_of_mem (List.mem_reverse.mpr h)
  have hall : ∀ a ∈ last, decide (a ≠ sep) = true := fun a ha =>
    decide_eq_true fun heq => hnone (heq ▸ ha)
  refine ⟨front.reverse, last.reverse, ?_, ?_, ?_⟩
  · rw [← List.reverse_reverse xs, hrev, List.reverse_append, List.reverse_cons,
      List.append_assoc, List.singleton_append]
  · rw [hrev, List.takeWhile_append_of_pos hall, List.takeWhile_cons_of_neg (by simp),
      List.append_nil]
  · rw [List.mem_reverse]
    exact hnone

end Segments

/-! ## §2. How a list ends. -/

/-- The list ends in two separators. -/
def EndsTwice (sep : α) (xs : List α) : Prop := [sep, sep] <:+ xs

instance [DecidableEq α] (sep : α) (xs : List α) :
    Decidable (EndsTwice sep xs) := by
  unfold EndsTwice
  infer_instance

/-- Two elements at the end decide. -/
theorem endsTwice_append (xs : List α) (hlen : 2 ≤ ys.length) :
    EndsTwice sep (xs ++ ys) ↔ EndsTwice sep ys := by
  constructor
  · intro h
    exact List.suffix_of_suffix_length_le h (List.suffix_append xs ys) hlen
  · intro h
    exact h.trans (List.suffix_append xs ys)

theorem not_endsTwice_of_notMem (hsep : sep ∉ xs) : ¬EndsTwice sep xs := by
  intro h
  exact hsep (h.subset (by simp))

/-- One separator after a piece is not two. -/
theorem not_endsTwice_concat (hsep : sep ∉ xs) :
    ¬EndsTwice sep (xs ++ [sep]) := by
  rintro ⟨t, ht⟩
  have hcut : t ++ [sep] = xs := by
    apply List.append_cancel_right
    rw [← ht]
    simp
  apply hsep
  rw [← hcut]
  simp

/-- A piece before a separator does not matter. -/
theorem endsTwice_piece (hsep : sep ∉ xs) :
    EndsTwice sep (xs ++ sep :: ys) ↔ EndsTwice sep (sep :: ys) := by
  cases ys with
  | nil =>
    constructor
    · intro h
      exact absurd h (not_endsTwice_concat hsep)
    · intro h
      exact absurd h.length_le (by simp)
  | cons y ys => exact endsTwice_append xs (by simp)

/-- A separator before a list with segments does not matter. -/
theorem endsTwice_cons_sep [DecidableEq α] (h : segments sep ys ≠ []) :
    EndsTwice sep (sep :: ys) ↔ EndsTwice sep ys := by
  match ys with
  | [] => exact absurd rfl h
  | [y] =>
    have hy : y ≠ sep := by
      rintro rfl
      exact h (segments_cons_sep [])
    constructor
    · intro hends
      have heq := hends.eq_of_length rfl
      simp only [List.cons.injEq, and_true, true_and] at heq
      exact absurd heq.symm hy
    · intro hends
      exact absurd hends.length_le (by simp)
  | y :: z :: ys => exact endsTwice_append [sep] (by simp)

/-- Leading separators do not matter to a list with segments. -/
theorem endsTwice_dropWhile [DecidableEq α]
    (h : segments sep (xs.dropWhile (· = sep)) ≠ []) :
    EndsTwice sep xs ↔ EndsTwice sep (xs.dropWhile (· = sep)) := by
  induction xs with
  | nil => rfl
  | cons x xs ih =>
    by_cases hx : x = sep
    · subst hx
      rw [List.dropWhile_cons_of_pos (by simp)] at h ⊢
      rw [← ih h]
      rw [segments_dropWhile] at h
      exact endsTwice_cons_sep h
    · rw [List.dropWhile_cons_of_neg (by simpa using hx)]

/-- Separators only: two of them in a row. -/
theorem endsTwice_of_segments_nil [DecidableEq α]
    (h : segments sep ys = []) (hne : ys ≠ []) :
    EndsTwice sep (sep :: ys) := by
  have hrep := segments_eq_nil h
  obtain ⟨n, hn⟩ : ∃ n, ys.length = n + 1 := by
    cases ys with
    | nil => exact absurd rfl hne
    | cons y ys => exact ⟨ys.length, rfl⟩
  rw [hn] at hrep
  rw [hrep, ← List.replicate_succ]
  exact ⟨List.replicate n sep, by
    rw [show [sep, sep] = List.replicate 2 sep from rfl,
      List.replicate_append_replicate]⟩

/-- A list that ends in a piece does not end in two separators. -/
theorem not_endsTwice_segment (hsep : sep ∉ ys) (hne : ys ≠ []) :
    ¬EndsTwice sep (xs ++ sep :: ys) := by
  rintro ⟨more, hmore⟩
  have hends := congrArg List.getLast? hmore
  rw [List.getLast?_append_of_ne_nil _ (List.cons_ne_nil _ _),
    List.getLast?_append_of_ne_nil _ (List.cons_ne_nil _ _),
    List.getLast?_cons_of_ne_nil hne] at hends
  exact hsep (List.mem_of_getLast? hends.symm)

end NextUfs.Segments
