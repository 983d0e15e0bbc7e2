/-
  NextUfs.Lib.Claims
  ──────────────────
  **CLAIMS, COUNTED IN A BITMAP AND A LIST.**

  Owners claim things, one after the other.  Whoever goes over the claims keeps
  a bit for each thing that has been claimed, and a list of the things that are
  claimed once more: each of them once in its first part.  An owner is marked
  when it claims what has been claimed before it.

    • `Counts`             — the bitmap and the list count the claims, and go
      on doing so when a claim comes or goes,
    • `Counts.exclusive`   — what they look like with one claim to a thing,
    • `Entered`            — what is known after some claims,
    • `shares_iff`         — the owners marked, and the first claims that a
      second pass looks for: together all owners that share a thing,
    • `exclusive_of_gone`  — without those owners nothing is shared,
    • `Sought`             — what is known during the second pass.
-/
import Mathlib.Data.List.Basic
import Mathlib.Data.List.Nodup
import Mathlib.Logic.Function.Basic

namespace NextUfs.Claims

variable {ι α : Type} [DecidableEq α]

/-! ## §1. Counting. -/

/-- **The bitmap `taken` and the list `again` count `n a` claims to each `a`.** -/
structure Counts (taken : α → Bool) (again : List α) (n : α → Nat) : Prop where
  count : ∀ a, n a = (taken a).toNat + again.count a
  taken : ∀ a ∈ again, taken a = true

/-- One claim to `a` more. -/
def plus (n : α → Nat) (a : α) : α → Nat := fun b => n b + if b = a then 1 else 0

section Counts

variable {taken : α → Bool} {again again' : List α} {n : α → Nat} {a : α}

theorem Counts.congr (h : Counts taken again n) (hp : again.Perm again') :
    Counts taken again' n where
  count b := by
    rw [← hp.count_eq]
    exact h.count b
  taken b hb := h.taken b (hp.mem_iff.mpr hb)

/-- The first claim to a thing. -/
theorem Counts.claim_first (h : Counts taken again n) (ha : taken a = false) :
    Counts (Function.update taken a true) again (plus n a) where
  count b := by
    have hb := h.count b
    unfold plus
    by_cases hba : b = a
    · subst hba
      have hnone : again.count b = 0 :=
        List.count_eq_zero.mpr fun hmem => by
          have htaken := h.taken b hmem
          rw [ha] at htaken
          cases htaken
      rw [Function.update_self, if_pos rfl]
      simp only [ha, Bool.toNat_false, Bool.toNat_true] at *
      omega
    · rw [Function.update_of_ne hba, if_neg hba]
      exact hb
  taken b hb := by
    by_cases hba : b = a
    · rw [hba, Function.update_self]
    · rw [Function.update_of_ne hba]
      exact h.taken b hb

/-- Another claim to it. -/
theorem Counts.claim_again (h : Counts taken again n) (ha : taken a = true)
    (hp : again'.Perm (a :: again)) : Counts taken again' (plus n a) where
  count b := by
    have hb := h.count b
    rw [hp.count_eq, List.count_cons]
    unfold plus
    by_cases hba : b = a
    · subst hba
      rw [if_pos rfl, if_pos (beq_self_eq_true b)]
      omega
    · rw [if_neg hba, if_neg (by simpa using fun h => hba h.symm)]
      exact hb
  taken b hb := by
    rcases List.mem_cons.mp (hp.mem_iff.mp hb) with rfl | hmem
    · exact ha
    · exact h.taken b hmem

/-- One claim of several is given up. -/
theorem Counts.release_again (h : Counts taken again (plus n a))
    (hp : again.Perm (a :: again')) : Counts taken again' n where
  count b := by
    have hb := h.count b
    rw [hp.count_eq, List.count_cons] at hb
    unfold plus at hb
    by_cases hba : b = a
    · subst hba
      rw [if_pos rfl, if_pos (beq_self_eq_true b)] at hb
      omega
    · rw [if_neg hba, if_neg (by simpa using fun h => hba h.symm)] at hb
      exact hb
  taken b hb := h.taken b (hp.mem_iff.mpr (List.mem_cons_of_mem a hb))

/-- The only claim is given up. -/
theorem Counts.release_last (h : Counts taken again (plus n a))
    (ha : a ∉ again) : Counts (Function.update taken a false) again n where
  count b := by
    have hb := h.count b
    unfold plus at hb
    by_cases hba : b = a
    · subst hba
      rw [if_pos rfl, List.count_eq_zero.mpr ha] at hb
      rw [Function.update_self, List.count_eq_zero.mpr ha]
      have hle := Bool.toNat_le (taken b)
      simp only [Bool.toNat_false]
      omega
    · rw [if_neg hba] at hb
      rw [Function.update_of_ne hba]
      exact hb
  taken b hb := by
    by_cases hba : b = a
    · exact absurd (hba ▸ hb) ha
    · rw [Function.update_of_ne hba]
      exact h.taken b hb

/-- What is claimed is taken. -/
theorem Counts.taken_of_pos (h : Counts taken again n) (hn : 0 < n a) :
    taken a = true := by
  have ha := h.count a
  cases htaken : taken a with
  | true => rfl
  | false =>
    have hnone : again.count a = 0 :=
      List.count_eq_zero.mpr fun hmem => by
        rw [h.taken a hmem] at htaken
        cases htaken
    rw [htaken, hnone] at ha
    simp only [Bool.toNat_false] at ha
    omega

/-- **With at most one claim to each thing** the list is empty, and the bitmap
says which things are claimed. -/
theorem Counts.exclusive (h : Counts taken again n) (hn : ∀ a, n a ≤ 1) :
    again = [] ∧ ∀ a, taken a = true ↔ n a = 1 := by
  have hnone : again = [] := by
    rw [List.eq_nil_iff_forall_not_mem]
    intro a hmem
    have hpos := List.count_pos_iff.mpr hmem
    have ha := h.count a
    rw [h.taken a hmem] at ha
    have hle := hn a
    simp only [Bool.toNat_true] at ha
    omega
  refine ⟨hnone, fun a => ?_⟩
  have ha := h.count a
  rw [hnone, List.count_nil] at ha
  cases htaken : taken a with
  | true =>
    rw [htaken] at ha
    simpa using ha
  | false =>
    rw [htaken] at ha
    simp only [Bool.toNat_false] at ha
    simp only [Bool.false_eq_true, false_iff]
    omega

end Counts

/-! ## §2. Who shares what. -/

/-- Claims to `a` among some claims. -/
def claimsTo (l : List (ι × α)) (a : α) : Nat := (l.map Prod.snd).count a

/-- Owner `i` claims what is claimed before: at the start, by `base`, or in an
earlier claim. -/
def Later (base : α → Bool) (l : List (ι × α)) (i : ι) : Prop :=
  ∃ l₁ a l₂, l = l₁ ++ (i, a) :: l₂ ∧ 0 < (base a).toNat + claimsTo l₁ a

/-- Owner `i` is the first of the list to claim a thing of `P`. -/
def First (P : α → Prop) (l : List (ι × α)) (i : ι) : Prop :=
  ∃ l₁ a l₂, l = l₁ ++ (i, a) :: l₂ ∧ claimsTo l₁ a = 0 ∧ P a

/-- Claimed more than once. -/
def Repeated (base : α → Bool) (l : List (ι × α)) (a : α) : Prop :=
  2 ≤ (base a).toNat + claimsTo l a

/-- Owner `i` claims a thing that is claimed more than once. -/
def Shares (base : α → Bool) (l : List (ι × α)) (i : ι) : Prop :=
  ∃ a, (i, a) ∈ l ∧ Repeated base l a

section Sharing

variable {base : α → Bool} {P : α → Prop} {l l' : List (ι × α)} {i j : ι} {a : α}

@[simp] theorem claimsTo_nil (a : α) : claimsTo ([] : List (ι × α)) a = 0 := rfl

theorem claimsTo_append (l l' : List (ι × α)) (a : α) :
    claimsTo (l ++ l') a = claimsTo l a + claimsTo l' a := by
  unfold claimsTo
  rw [List.map_append, List.count_append]

theorem claimsTo_cons (x : ι × α) (l : List (ι × α)) (a : α) :
    claimsTo (x :: l) a = (if a = x.2 then 1 else 0) + claimsTo l a := by
  unfold claimsTo
  rw [List.map_cons, List.count_cons]
  by_cases h : a = x.2
  · rw [if_pos h, if_pos (by simp [h])]
    omega
  · rw [if_neg h, if_neg (by simpa using fun hx => h hx.symm)]
    omega

theorem claimsTo_pos : 0 < claimsTo l a ↔ ∃ i, (i, a) ∈ l := by
  unfold claimsTo
  rw [List.count_pos_iff, List.mem_map]
  constructor
  · rintro ⟨⟨i, b⟩, hmem, rfl⟩
    exact ⟨i, hmem⟩
  · rintro ⟨i, hmem⟩
    exact ⟨(i, a), hmem, rfl⟩

/-- Two owners, two claims. -/
theorem two_le_claimsTo (hi : (i, a) ∈ l) (hj : (j, a) ∈ l) (hne : i ≠ j) :
    2 ≤ claimsTo l a := by
  obtain ⟨l₁, l₂, rfl⟩ := List.append_of_mem hi
  have hrest : 0 < claimsTo (l₁ ++ l₂) a := by
    refine claimsTo_pos.mpr ⟨j, ?_⟩
    rcases List.mem_append.mp hj with hmem | hmem
    · exact List.mem_append_left _ hmem
    · rcases List.mem_cons.mp hmem with h | h
      · cases h
        exact absurd rfl hne
      · exact List.mem_append_right _ h
  rw [claimsTo_append] at hrest
  rw [claimsTo_append, claimsTo_cons, if_pos rfl]
  omega

/-- A list with one element more, taken apart at one of its elements. -/
theorem append_singleton_eq {γ : Type} {l l₁ l₂ : List γ} {x y : γ}
    (h : l ++ [x] = l₁ ++ y :: l₂) :
    (l = l₁ ∧ x = y ∧ l₂ = []) ∨ ∃ l₃, l = l₁ ++ y :: l₃ ∧ l₂ = l₃ ++ [x] := by
  rcases List.eq_nil_or_concat l₂ with rfl | ⟨l₃, z, rfl⟩
  · obtain ⟨h₁, h₂⟩ := List.append_inj' h rfl
    cases h₂
    exact .inl ⟨h₁, rfl, rfl⟩
  · rw [List.concat_eq_append, ← List.cons_append, ← List.append_assoc] at h
    obtain ⟨h₁, h₂⟩ := List.append_inj' h rfl
    cases h₂
    exact .inr ⟨l₃, h₁, List.concat_eq_append⟩

/-- One claim more: its owner is marked when the thing is claimed already. -/
theorem later_concat :
    Later base (l ++ [(j, a)]) i ↔
      Later base l i ∨ (i = j ∧ 0 < (base a).toNat + claimsTo l a) := by
  constructor
  · rintro ⟨l₁, b, l₂, h, hpos⟩
    rcases append_singleton_eq h with ⟨rfl, hx, -⟩ | ⟨l₃, rfl, -⟩
    · cases hx
      exact .inr ⟨rfl, hpos⟩
    · exact .inl ⟨l₁, b, l₃, rfl, hpos⟩
  · rintro (⟨l₁, b, l₂, rfl, hpos⟩ | ⟨rfl, hpos⟩)
    · exact ⟨l₁, b, l₂ ++ [(j, a)], by simp, hpos⟩
    · exact ⟨l, a, [], rfl, hpos⟩

/-- One claim more: its owner is a first one when nobody has claimed the thing
before. -/
theorem first_concat :
    First P (l ++ [(j, a)]) i ↔
      First P l i ∨ (i = j ∧ claimsTo l a = 0 ∧ P a) := by
  constructor
  · rintro ⟨l₁, b, l₂, h, hnone, hP⟩
    rcases append_singleton_eq h with ⟨rfl, hx, -⟩ | ⟨l₃, rfl, -⟩
    · cases hx
      exact .inr ⟨rfl, hnone, hP⟩
    · exact .inl ⟨l₁, b, l₃, rfl, hnone, hP⟩
  · rintro (⟨l₁, b, l₂, rfl, hnone, hP⟩ | ⟨rfl, hnone, hP⟩)
    · exact ⟨l₁, b, l₂ ++ [(j, a)], by simp, hnone, hP⟩
    · exact ⟨l, a, [], rfl, hnone, hP⟩

/-- **Who shares a thing** claims it after somebody else, or first. -/
theorem shares_iff :
    Shares base l i ↔ Later base l i ∨ First (Repeated base l) l i := by
  constructor
  · rintro ⟨a, hmem, hrep⟩
    obtain ⟨l₁, l₂, rfl⟩ := List.append_of_mem hmem
    rcases Nat.eq_zero_or_pos ((base a).toNat + claimsTo l₁ a) with h0 | hpos
    · exact .inr ⟨l₁, a, l₂, rfl, by omega, hrep⟩
    · exact .inl ⟨l₁, a, l₂, rfl, hpos⟩
  · rintro (⟨l₁, a, l₂, rfl, hpos⟩ | ⟨l₁, a, l₂, rfl, -, hrep⟩)
    · refine ⟨a, by simp, ?_⟩
      unfold Repeated
      rw [claimsTo_append, claimsTo_cons, if_pos rfl]
      omega
    · exact ⟨a, by simp, hrep⟩

/-- **Without the owners that share a thing** nothing is claimed twice. -/
theorem exclusive_of_gone [DecidableEq ι] {gone : List ι}
    (hgone : ∀ i, Shares base l i → i ∈ gone) (a : α) :
    (base a).toNat + claimsTo (l.filter fun x => x.1 ∉ gone) a ≤ 1 := by
  by_cases hrep : Repeated base l a
  · have hnone : claimsTo (l.filter fun x => x.1 ∉ gone) a = 0 := by
      refine Nat.eq_zero_of_not_pos fun hpos => ?_
      obtain ⟨i, hmem⟩ := claimsTo_pos.mp hpos
      obtain ⟨hmem, hleft⟩ := List.mem_filter.mp hmem
      exact of_decide_eq_true hleft (hgone i ⟨a, hmem, hrep⟩)
    rw [hnone]
    exact Bool.toNat_le (base a)
  · unfold Repeated at hrep
    have hle : claimsTo (l.filter fun x => x.1 ∉ gone) a ≤ claimsTo l a :=
      (List.filter_sublist.map Prod.snd).count_le a
    omega

end Sharing

/-! ## §3. The first pass. -/

/-- **What is known after the claims `l`**, when `base` was taken before them
and the owners in `bad` were marked for something else. -/
structure Entered (base : α → Bool) (l : List (ι × α)) (bad : List ι)
    (taken : α → Bool) (once more : List α) (marked : ι → Prop) : Prop where
  counts : Counts taken (once ++ more) fun a => (base a).toNat + claimsTo l a
  nodup : once.Nodup
  once : ∀ a, a ∈ once ↔ Repeated base l a
  marked : ∀ i, marked i ↔ i ∈ bad ∨ Later base l i

section Entered

variable {base taken : α → Bool} {l : List (ι × α)} {bad : List ι}
  {once more : List α} {marked marked' : ι → Prop} {i : ι} {a : α}

theorem Entered.start (base : α → Bool) :
    Entered base ([] : List (ι × α)) [] base [] [] fun _ => False where
  counts := ⟨fun _ => rfl, fun _ h => nomatch h⟩
  nodup := List.nodup_nil
  once a := by
    unfold Repeated
    have hle := Bool.toNat_le (base a)
    simp only [List.not_mem_nil, claimsTo_nil, false_iff]
    omega
  marked i := by
    simp only [List.not_mem_nil, false_or, false_iff]
    rintro ⟨l₁, a, l₂, h, -⟩
    cases l₁ <;> cases h

theorem claimsTo_concat (l : List (ι × α)) (i : ι) (a : α) :
    (fun b => (base b).toNat + claimsTo (l ++ [(i, a)]) b)
      = plus (fun b => (base b).toNat + claimsTo l b) a := by
  funext b
  show _ = (base b).toNat + claimsTo l b + if b = a then 1 else 0
  rw [claimsTo_append, claimsTo_cons, claimsTo_nil]
  dsimp only
  omega

/-- Something is taken exactly when it is claimed. -/
theorem Entered.taken_iff (h : Entered base l bad taken once more marked) :
    taken a = true ↔ 0 < (base a).toNat + claimsTo l a := by
  constructor
  · intro htaken
    have hcount := h.counts.count a
    rw [htaken] at hcount
    simp only [Bool.toNat_true] at hcount
    omega
  · exact h.counts.taken_of_pos

/-- **The first claim to a thing.** -/
theorem Entered.claim_first (h : Entered base l bad taken once more marked)
    (ha : taken a = false) :
    Entered base (l ++ [(i, a)]) bad (Function.update taken a true) once more
      marked where
  counts := by
    rw [claimsTo_concat]
    exact h.counts.claim_first ha
  nodup := h.nodup
  once b := by
    have hnone : ¬0 < (base a).toNat + claimsTo l a := fun hpos => by
      rw [h.taken_iff.mpr hpos] at ha
      cases ha
    rw [h.once b]
    unfold Repeated
    rw [claimsTo_append, claimsTo_cons, claimsTo_nil]
    by_cases hba : b = a
    · subst hba
      rw [if_pos rfl]
      omega
    · rw [if_neg hba]
      omega
  marked j := by
    have hnone : ¬0 < (base a).toNat + claimsTo l a := fun hpos => by
      rw [h.taken_iff.mpr hpos] at ha
      cases ha
    rw [h.marked j, later_concat]
    exact or_congr_right ⟨Or.inl, fun hor => hor.resolve_right fun hx => hnone hx.2⟩

/-- **A claim to a thing that is taken**: the thing goes on the list, to its
first part if it is not there, and the owner is marked. -/
theorem Entered.claim_again [DecidableEq ι]
    (h : Entered base l bad taken once more marked) (ha : taken a = true)
    (hmarked : ∀ j, marked' j ↔ marked j ∨ j = i) :
    Entered base (l ++ [(i, a)]) bad taken
      (if a ∈ once then once else once ++ [a])
      (if a ∈ once then a :: more else more) marked' where
  counts := by
    rw [claimsTo_concat]
    refine h.counts.claim_again ha ?_
    split
    · exact List.perm_middle
    · rw [List.append_assoc]
      exact List.perm_middle
  nodup := by
    split
    · exact h.nodup
    · rename_i hnew
      exact List.nodup_append'.mpr ⟨h.nodup, List.nodup_singleton a,
        List.disjoint_singleton.mpr hnew⟩
  once b := by
    have hpos := h.taken_iff.mp ha
    have hb := h.once b
    have hiff : Repeated base (l ++ [(i, a)]) b ↔ Repeated base l b ∨ b = a := by
      unfold Repeated
      rw [claimsTo_append, claimsTo_cons, claimsTo_nil]
      by_cases hba : b = a
      · subst hba
        rw [if_pos rfl]
        simp only [or_true, iff_true]
        omega
      · rw [if_neg hba]
        simp only [hba, or_false]
        omega
    rw [hiff, ← hb]
    split
    · rename_i hin
      exact ⟨Or.inl, fun hor => hor.elim id fun hba => hba ▸ hin⟩
    · rw [List.mem_append, List.mem_singleton]
  marked j := by
    have hpos := h.taken_iff.mp ha
    rw [hmarked j, h.marked j, later_concat, or_assoc]
    simp only [hpos, and_true]

/-- Only who is marked matters. -/
theorem Entered.congr (h : Entered base l bad taken once more marked)
    (hmarked : ∀ j, marked' j ↔ marked j) :
    Entered base l bad taken once more marked' where
  counts := h.counts
  nodup := h.nodup
  once := h.once
  marked j := (hmarked j).trans (h.marked j)

/-- An owner is marked for something else. -/
theorem Entered.mark (h : Entered base l bad taken once more marked)
    (hmarked : ∀ j, marked' j ↔ marked j ∨ j = i) :
    Entered base l (bad ++ [i]) taken once more marked' where
  counts := h.counts
  nodup := h.nodup
  once := h.once
  marked j := by
    rw [hmarked j, h.marked j, List.mem_append, List.mem_singleton]
    constructor
    · rintro ((hbad | hlater) | hj)
      · exact .inl (.inl hbad)
      · exact .inr hlater
      · exact .inl (.inr hj)
    · rintro ((hbad | hj) | hlater)
      · exact .inl (.inl hbad)
      · exact .inr hj
      · exact .inl (.inr hlater)

end Entered

/-! ## §4. The second pass. -/

/-- **What is known after a second look at the claims `l`**: `head` is what is
left of the things `P`, of which `once` is the list, and their first owners are
marked beside those who were. -/
structure Sought (P : α → Prop) (once : List α) (before : ι → Prop)
    (l : List (ι × α)) (found head : List α) (marked : ι → Prop) : Prop where
  perm : (found ++ head).Perm once
  head : ∀ a, a ∈ head ↔ P a ∧ claimsTo l a = 0
  marked : ∀ i, marked i ↔ before i ∨ First P l i

section Sought

variable {P : α → Prop} {once found head head' : List α}
  {before marked marked' : ι → Prop} {l : List (ι × α)} {i : ι} {a : α}

theorem Sought.start (before : ι → Prop) (honce : ∀ a, a ∈ once ↔ P a) :
    Sought P once before ([] : List (ι × α)) [] once before where
  perm := List.Perm.refl once
  head a := by
    rw [honce a, claimsTo_nil]
    simp only [and_true]
  marked i := by
    refine ⟨Or.inl, fun hor => hor.resolve_right ?_⟩
    intro hfirst
    obtain ⟨l₁, a, l₂, h, -⟩ := hfirst
    cases l₁ <;> cases h

theorem claimsTo_concat_eq_zero {b : α} :
    claimsTo (l ++ [(i, a)]) b = 0 ↔ claimsTo l b = 0 ∧ b ≠ a := by
  rw [claimsTo_append, claimsTo_cons, claimsTo_nil]
  dsimp only
  by_cases hba : b = a
  · rw [if_pos hba]
    simp [hba]
  · rw [if_neg hba]
    simp [hba]

/-- **The first claim to a thing that is sought.** -/
theorem Sought.hit (h : Sought P once before l found head marked)
    (hnodup : once.Nodup) (hp : head.Perm (a :: head'))
    (hmarked : ∀ j, marked' j ↔ marked j ∨ j = i) :
    Sought P once before (l ++ [(i, a)]) (found ++ [a]) head' marked' where
  perm := by
    refine List.Perm.trans ?_ h.perm
    rw [List.append_assoc]
    exact hp.symm.append_left found
  head b := by
    have hb := h.head b
    have hnodup : (a :: head').Nodup :=
      hp.nodup (h.perm.symm.nodup hnodup).of_append_right
    have hfresh := (List.nodup_cons.mp hnodup).1
    rw [hp.mem_iff, List.mem_cons] at hb
    rw [claimsTo_concat_eq_zero, ← and_assoc, ← hb]
    constructor
    · intro hmem
      exact ⟨.inr hmem, fun hba => hfresh (hba ▸ hmem)⟩
    · intro hor
      exact hor.1.resolve_left hor.2
  marked j := by
    have ha := (h.head a).mp (hp.mem_iff.mpr List.mem_cons_self)
    rw [hmarked j, h.marked j, first_concat, or_assoc]
    simp only [ha.1, ha.2, and_true]

/-- A claim to anything else. -/
theorem Sought.miss (h : Sought P once before l found head marked)
    (ha : a ∉ head) :
    Sought P once before (l ++ [(i, a)]) found head marked where
  perm := h.perm
  head b := by
    rw [claimsTo_concat_eq_zero, ← and_assoc, ← h.head b]
    exact ⟨fun hmem => ⟨hmem, fun hba => ha (hba ▸ hmem)⟩, And.left⟩
  marked j := by
    rw [h.marked j, first_concat]
    refine or_congr_right ⟨Or.inl, fun hor => hor.resolve_right ?_⟩
    intro hx
    exact ha ((h.head a).mpr ⟨hx.2.2, hx.2.1⟩)

/-- **When nothing is left to seek** the claims that follow do not matter. -/
theorem Sought.rest (h : Sought P once before l found [] marked)
    (more : List (ι × α)) :
    Sought P once before (l ++ more) found [] marked := by
  induction more generalizing l with
  | nil =>
    rw [List.append_nil]
    exact h
  | cons x more ih =>
    rw [← List.singleton_append, ← List.append_assoc]
    exact ih (h.miss List.not_mem_nil)

end Sought

end NextUfs.Claims
