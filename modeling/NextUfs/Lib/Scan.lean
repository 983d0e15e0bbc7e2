/-
  NextUfs.Lib.Scan
  ────────────────
  **TWO SCANS FOR THE SAME THING.**

  Two lists pass some of the same elements, in the order of their keys, and
  both are searched from the front.

    • `find?_eq_some_iff` — what is found is the hit with the least key,
    • `find?_eq_iff`      — both searches find the same exactly when the hit
      with the least key is in both lists.
-/
import Mathlib.Data.List.Basic
import Mathlib.Data.List.Find
import Mathlib.Order.Defs.LinearOrder

namespace NextUfs.Scan

variable {α β : Type} [LinearOrder β]

/-- The keys grow along the list. -/
def Ascending (key : α → β) (l : List α) : Prop :=
  l.Pairwise fun a b => key a < key b

/-- An element of one of two lists. -/
def Passed (l l' : List α) (a : α) : Prop := a ∈ l ∨ a ∈ l'

/-- **The hit with the least key is in both lists**, if there is one. -/
def FirstShared (key : α → β) (p : α → Bool) (l l' : List α) : Prop :=
  ∀ a, Passed l l' a → p a = true →
    (∀ b, Passed l l' b → p b = true → key a ≤ key b) → a ∈ l ∧ a ∈ l'

variable {key : α → β} {p : α → Bool} {l l' : List α} {a : α}

theorem Ascending.append (h : Ascending key l) (h' : Ascending key l')
    (hlt : ∀ a ∈ l, ∀ b ∈ l', key a < key b) : Ascending key (l ++ l') :=
  List.pairwise_append.mpr ⟨h, h', hlt⟩

theorem Ascending.filter (h : Ascending key l) (q : α → Bool) :
    Ascending key (l.filter q) :=
  List.Pairwise.filter q h

/-- Lists one after another, each with keys from its own range. -/
theorem Ascending.flatMap {f : Nat → List α} (start : Nat → β) {n : Nat}
    (h : ∀ i < n, Ascending key (f i))
    (hmono : ∀ i j, i < j → start (i + 1) ≤ start j)
    (hlo : ∀ i < n, ∀ a ∈ f i, start i ≤ key a)
    (hhi : ∀ i < n, ∀ a ∈ f i, key a < start (i + 1)) :
    Ascending key ((List.range n).flatMap f) := by
  induction n with
  | zero => exact List.Pairwise.nil
  | succ n ih =>
    rw [List.range_succ, List.flatMap_append, List.flatMap_singleton]
    refine Ascending.append (ih (fun i hi => h i (by omega))
      (fun i hi => hlo i (by omega)) fun i hi => hhi i (by omega))
      (h n (by omega)) fun a ha b hb => ?_
    obtain ⟨i, hi, ha⟩ := List.mem_flatMap.mp ha
    have hi := List.mem_range.mp hi
    calc key a < start (i + 1) := hhi i (by omega) a ha
      _ ≤ start n := hmono i n hi
      _ ≤ key b := hlo n (by omega) b hb

/-- **What is found** is the hit with the least key. -/
theorem find?_eq_some_iff (h : Ascending key l) :
    l.find? p = some a ↔
      a ∈ l ∧ p a = true ∧ ∀ b ∈ l, p b = true → key a ≤ key b := by
  induction l with
  | nil => simp
  | cons x l ih =>
    obtain ⟨hx, hl⟩ := List.pairwise_cons.mp h
    cases hp : p x with
    | true =>
      rw [List.find?_cons_of_pos hp, Option.some.injEq]
      constructor
      · rintro rfl
        refine ⟨List.mem_cons_self, hp, fun b hb _ => ?_⟩
        rcases List.mem_cons.mp hb with rfl | hb
        · exact le_rfl
        · exact le_of_lt (hx b hb)
      · rintro ⟨ha, -, hleast⟩
        rcases List.mem_cons.mp ha with rfl | ha
        · rfl
        · exact absurd (hleast x List.mem_cons_self hp) (not_le.mpr (hx a ha))
    | false =>
      rw [List.find?_cons_of_neg (by simp [hp]), ih hl]
      have hother : ∀ b, p b = true → (b ∈ x :: l ↔ b ∈ l) := by
        intro b hb
        rw [List.mem_cons, or_iff_right]
        rintro rfl
        rw [hp] at hb
        cases hb
      constructor
      · rintro ⟨ha, hpa, hleast⟩
        exact ⟨(hother a hpa).mpr ha, hpa,
          fun b hb hpb => hleast b ((hother b hpb).mp hb) hpb⟩
      · rintro ⟨ha, hpa, hleast⟩
        exact ⟨(hother a hpa).mp ha, hpa,
          fun b hb hpb => hleast b ((hother b hpb).mpr hb) hpb⟩

/-- Of the hits of both lists one has the least key, if there is one. -/
theorem exists_least (h : Ascending key l) (h' : Ascending key l')
    (hhit : Passed l l' a) (hp : p a = true) :
    ∃ c, Passed l l' c ∧ p c = true ∧
      ∀ b, Passed l l' b → p b = true → key c ≤ key b := by
  have hleast : ∀ {l : List α}, Ascending key l → ∀ {b}, b ∈ l → p b = true →
      ∃ c, l.find? p = some c := by
    intro l _ b hb hpb
    cases hf : l.find? p with
    | some c => exact ⟨c, rfl⟩
    | none => exact absurd hpb (List.find?_eq_none.mp hf b hb)
  cases hf : l.find? p with
  | none =>
    have hnone := List.find?_eq_none.mp hf
    have ha : a ∈ l' := hhit.resolve_left fun ha => hnone a ha hp
    obtain ⟨c, hc⟩ := hleast h' ha hp
    obtain ⟨hcl, hpc, hc⟩ := (find?_eq_some_iff h').mp hc
    exact ⟨c, .inr hcl, hpc, fun b hb hpb =>
      hc b (hb.resolve_left fun hb => hnone b hb hpb) hpb⟩
  | some c =>
    obtain ⟨hcl, hpc, hc⟩ := (find?_eq_some_iff h).mp hf
    cases hf' : l'.find? p with
    | none =>
      have hnone := List.find?_eq_none.mp hf'
      exact ⟨c, .inl hcl, hpc, fun b hb hpb =>
        hc b (hb.resolve_right fun hb => hnone b hb hpb) hpb⟩
    | some c' =>
      obtain ⟨hcl', hpc', hc'⟩ := (find?_eq_some_iff h').mp hf'
      rcases le_total (key c) (key c') with hle | hle
      · exact ⟨c, .inl hcl, hpc, fun b hb hpb => hb.elim (fun hb => hc b hb hpb)
          fun hb => le_trans hle (hc' b hb hpb)⟩
      · exact ⟨c', .inr hcl', hpc', fun b hb hpb =>
          hb.elim (fun hb => le_trans hle (hc b hb hpb)) fun hb => hc' b hb hpb⟩

/-- **Both searches find the same** exactly when the hit with the least key is
in both lists. -/
theorem find?_eq_iff (h : Ascending key l) (h' : Ascending key l') :
    l.find? p = l'.find? p ↔ FirstShared key p l l' := by
  constructor
  · intro heq a ha hp hleast
    have hin : ∀ {l : List α}, Ascending key l → a ∈ l →
        (∀ b ∈ l, p b = true → key a ≤ key b) → l.find? p = some a :=
      fun hl hal hal' => (find?_eq_some_iff hl).mpr ⟨hal, hp, hal'⟩
    rcases ha with ha | ha
    · have hf := hin h ha fun b hb => hleast b (.inl hb)
      rw [heq] at hf
      exact ⟨ha, List.mem_of_find?_eq_some hf⟩
    · have hf := hin h' ha fun b hb => hleast b (.inr hb)
      rw [← heq] at hf
      exact ⟨List.mem_of_find?_eq_some hf, ha⟩
  · intro hshared
    by_cases hany : ∃ a, Passed l l' a ∧ p a = true
    · obtain ⟨a, ha, hp⟩ := hany
      obtain ⟨c, hc, hpc, hleast⟩ := exists_least h h' ha hp
      obtain ⟨hcl, hcl'⟩ := hshared c hc hpc hleast
      rw [(find?_eq_some_iff h).mpr ⟨hcl, hpc, fun b hb => hleast b (.inl hb)⟩,
        (find?_eq_some_iff h').mpr ⟨hcl', hpc, fun b hb => hleast b (.inr hb)⟩]
    · have hnone : ∀ {l : List α}, (∀ a ∈ l, ¬p a = true) →
          l.find? p = none := fun hl => List.find?_eq_none.mpr hl
      rw [hnone fun a ha hp => hany ⟨a, .inl ha, hp⟩,
        hnone fun a ha hp => hany ⟨a, .inr ha, hp⟩]

end NextUfs.Scan
