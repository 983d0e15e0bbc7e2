/-
  NextUfs.Fsck.PhaseMarks
  ───────────────────────
  **PHASES 1 AND 1B MARK EVERY OWNER OF WHAT IS SHARED.**
  Phase 1 marks an inode when it meets a fragment that is in the block map
  already, so the first owner of a fragment gets away; phase 1b looks for the
  first owners, and stops when it has them all.  Together they mark the inodes
  that have a run out of range or claim a fragment with another claim to it, or
  with metadata in it, and no other ones.
    • `Sees`            — what phase 1b does with some claims,
    • `pass1b_sought`   — what it leaves,
    • `phases_mark`     — the inodes that are marked.
  Phase 1 passes the links that have their target in place of the pointers, and
  phase 1b walks them too: their texts may not read as fragments of the disk.
-/
import NextUfs.Fsck.Pass1Frees
import NextUfs.Fsck.Pass1Loop

namespace NextUfs.Fsck

open State Claims

/-! ## §1. The list of duplicates. -/

theorem replace_perm {a b : Nat} {l : List Nat} (ha : a ∈ l) :
    (a :: l.replace a b).Perm (b :: l) := by
  induction l with
  | nil => cases ha
  | cons c l ih =>
    by_cases hc : a = c
    · rw [hc, List.replace_cons_self]
      exact List.Perm.swap _ _ _
    · rw [List.replace_cons, beq_eq_false_iff_ne.mpr hc]
      have hmem := (List.mem_cons.mp ha).resolve_left hc
      exact (List.Perm.swap _ _ _).trans
        (((ih hmem).cons c).trans (List.Perm.swap _ _ _))

/-- **A fragment that is taken off the list** is there once less. -/
theorem dropDup_some {a : Nat} {l l' : List Nat} (h : dropDup a l = some l') :
    l.Perm (a :: l') := by
  unfold dropDup at h
  by_cases ha : a ∈ l
  · rw [if_pos ha] at h
    cases h
    cases l with
    | nil => cases ha
    | cons b l =>
      rw [List.headD_cons]
      by_cases hb : a = b
      · rw [hb, List.replace_cons_self]
        exact List.Perm.refl _
      · rw [List.replace_cons, beq_eq_false_iff_ne.mpr hb]
        have hmem := (List.mem_cons.mp ha).resolve_left hb
        exact (replace_perm hmem).symm
  · rw [if_neg ha] at h
    cases h

theorem dropDup_none {a : Nat} {l : List Nat} (h : dropDup a l = none) : a ∉ l := by
  unfold dropDup at h
  intro ha
  rw [if_pos ha] at h
  cases h

/-! ## §2. Phase 1b. -/

/-- What phase 1b knows after the claims `l`: the things `P` are sought, `once`
is the list of them, and `before` was marked. -/
abbrev Seeks (P : Nat → Prop) (once : List Nat) (before : Nat → Prop) (t : Rescan)
    (l : List (Nat × Nat)) : Prop :=
  Sought P once before l t.found t.head (Marked t.walk)

/-- **From `s` to `t` phase 1b has seen the claims `cs`.** -/
structure Sees (P : Nat → Prop) (once : List Nat) (before : Nat → Prop)
    (cs : List (Nat × Nat)) (s t : Rescan) : Prop where
  walk : ∃ reports statemap,
    t.walk = { s.walk with reports := reports, statemap := statemap }
  inUse : ∀ j, InUse (t.walk.statemap j) ↔ InUse (s.walk.statemap j)
  unset : ∀ j, t.walk.statemap j = .unset ↔ s.walk.statemap j = .unset
  head : ∀ a ∈ t.head, a ∈ s.head
  seeks : ∀ {l}, Seeks P once before s l → Seeks P once before t (l ++ cs)

section Rescan

variable {sb : Superblock} {P : Nat → Prop} {once : List Nat} {before : Nat → Prop}
  {i : Nat} {cs cs' : List (Nat × Nat)} {s t u : Rescan} {ret : Ret}

theorem Sees.refl (s : Rescan) : Sees P once before [] s s where
  walk := ⟨s.walk.reports, s.walk.statemap, rfl⟩
  inUse _ := Iff.rfl
  unset _ := Iff.rfl
  head _ := id
  seeks h := by
    rw [List.append_nil]
    exact h

theorem Sees.trans (h : Sees P once before cs s t)
    (h' : Sees P once before cs' t u) : Sees P once before (cs ++ cs') s u where
  walk := by
    obtain ⟨r, m, heq⟩ := h.walk
    obtain ⟨r', m', heq'⟩ := h'.walk
    exact ⟨r', m', by rw [heq', heq]⟩
  inUse j := (h'.inUse j).trans (h.inUse j)
  unset j := (h'.unset j).trans (h.unset j)
  head a ha := h.head a (h'.head a ha)
  seeks hl := by
    rw [← List.append_assoc]
    exact h'.seeks (h.seeks hl)

/-- When nothing is left to seek the claims that follow do not matter. -/
theorem Sees.rest (h : Sees P once before cs s t) (hempty : t.head = [])
    (more : List (Nat × Nat)) : Sees P once before (cs ++ more) s t where
  walk := h.walk
  inUse := h.inUse
  unset := h.unset
  head := h.head
  seeks hl := by
    have ht := h.seeks hl
    unfold Seeks at ht ⊢
    rw [hempty] at ht ⊢
    rw [← List.append_assoc]
    exact ht.rest _

/-- A fragment that is sought. -/
theorem sees_hit (hnodup : once.Nodup) {b : Nat} {head : List Nat}
    {a : Unit} {walk : Pass1} (hdrop : dropDup b s.head = some head)
    (herr : blkerr i (.dup b) s.walk = .ok a walk) (huse : InUse (s.walk.statemap i)) :
    Sees P once before [(i, b)] s ⟨walk, s.found ++ [b], head⟩ := by
  obtain ⟨heq, hother, hmarked⟩ := blkerr_ok herr
  have hperm := dropDup_some hdrop
  have huse' := hmarked.inUse
  refine ⟨⟨_, _, heq⟩, fun j => ?_, fun j => ?_,
    fun c hc => hperm.mem_iff.mpr (List.mem_cons_of_mem b hc), fun {l} hl => ?_⟩
  · by_cases hj : j = i
    · subst hj
      exact ⟨fun _ => huse, fun _ => huse'⟩
    · show InUse (walk.statemap j) ↔ _
      rw [hother j hj]
  · by_cases hj : j = i
    · subst hj
      exact ⟨fun h => absurd h huse'.1, fun h => absurd h huse.1⟩
    · show walk.statemap j = _ ↔ _
      rw [hother j hj]
  · exact hl.hit hnodup hperm (marked_iff hother hmarked)

/-- A fragment that is not. -/
theorem sees_miss {b : Nat} (hdrop : dropDup b s.head = none) :
    Sees P once before [(i, b)] s s where
  walk := ⟨s.walk.reports, s.walk.statemap, rfl⟩
  inUse _ := Iff.rfl
  unset _ := Iff.rfl
  head _ := id
  seeks h := h.miss (dropDup_none hdrop)

/-- Claims of inode `i`. -/
def ownedBy (i : Nat) (frags : List Nat) : List (Nat × Nat) :=
  frags.map fun f => (i, f)

theorem ownedBy_append (i : Nat) (l l' : List Nat) :
    ownedBy i (l ++ l') = ownedBy i l ++ ownedBy i l' := List.map_append

/-- **One run.** -/
theorem pass1bcheck_sees (hnodup : once.Nodup)
    (hP : ∀ a, P a → outrange sb a 1 = false) (n : Nat) :
    ∀ {b : Nat} {res ret : Ret} {s t : Rescan},
      pass1bcheck sb i n b res s = .ok ret t → InUse (s.walk.statemap i) →
      (∀ a ∈ s.head, P a) → res ≠ .stop →
      Sees P once before (ownedBy i (runClaims sb (b, n))) s t ∧
        (ret = .stop → t.head = []) ∧
        (ret = .skip → res = .skip ∨ ∃ k < n, outrange sb (b + k) 1 = true) := by
  induction n with
  | zero =>
    intro b res ret s t hrun _ _ hres
    cases hrun
    exact ⟨Sees.refl _, fun h => absurd h hres, Or.inl⟩
  | succ n ih =>
    intro b res ret s t hrun huse hhead hres
    rw [pass1bcheck, bind_get] at hrun
    rw [runClaims_succ, ownedBy_append]
    have hskip : ∀ {ret : Ret}, (ret = .skip →
        (if outrange sb b 1 = true then Ret.skip else res) = .skip ∨
          ∃ k < n, outrange sb (b + 1 + k) 1 = true) →
        ret = .skip → res = .skip ∨ ∃ k < n + 1, outrange sb (b + k) 1 = true := by
      intro ret h hret
      rcases h hret with hfirst | ⟨k, hk, hout⟩
      · by_cases hb : outrange sb b 1 = true
        · exact .inr ⟨0, Nat.succ_pos n, hb⟩
        · rw [if_neg hb] at hfirst
          exact .inl hfirst
      · refine .inr ⟨k + 1, by omega, ?_⟩
        rwa [show b + (k + 1) = b + 1 + k by omega]
    have hres' : (if outrange sb b 1 = true then Ret.skip else res) ≠ .stop := by
      split
      · exact nofun
      · exact hres
    cases hdrop : dropDup b s.head with
    | some head =>
      rw [hdrop] at hrun
      dsimp only at hrun
      have hmem : b ∈ s.head :=
        (dropDup_some hdrop).mem_iff.mpr List.mem_cons_self
      rw [if_pos (hP b (hhead b hmem))]
      cases herr : blkerr i (.dup b) s.walk with
      | error e walk =>
        rw [herr] at hrun
        cases hrun
      | ok a walk =>
        rw [herr] at hrun
        dsimp only at hrun
        have hsees : Sees P once before [(i, b)] s ⟨walk, s.found ++ [b], head⟩ :=
          sees_hit hnodup hdrop herr huse
        obtain ⟨u, s₁, hset, hrest⟩ := bind_eq_ok hrun
        cases hset
        by_cases hempty : head = []
        · rw [if_pos hempty] at hrest
          cases hrest
          exact ⟨hsees.rest hempty _, fun _ => hempty, fun h => nomatch h⟩
        · rw [if_neg hempty] at hrest
          obtain ⟨hrec, hstop, hret⟩ := ih hrest ((hsees.inUse i).mpr huse)
            (fun c hc => hhead c (hsees.head c hc)) hres'
          exact ⟨hsees.trans hrec, hstop, hskip hret⟩
    | none =>
      rw [hdrop] at hrun
      dsimp only at hrun
      have hsees : Sees P once before
          (ownedBy i (if outrange sb b 1 = false then [b] else [])) s s := by
        split
        · exact sees_miss hdrop
        · exact Sees.refl s
      by_cases hempty : s.head = []
      · rw [if_pos hempty] at hrun
        cases hrun
        exact ⟨hsees.rest hempty _, fun _ => hempty, fun h => nomatch h⟩
      · rw [if_neg hempty] at hrun
        obtain ⟨hrec, hstop, hret⟩ := ih hrun huse hhead hres'
        exact ⟨hsees.trans hrec, hstop, hskip hret⟩

/-- What `pass1bcheck` does in a walk. -/
theorem pass1bcheck_visits (hgeo : MetadataInside sb) (hnodup : once.Nodup)
    (hP : ∀ a, P a → outrange sb a 1 = false) (huse : InUse (s.walk.statemap i))
    (hhead : ∀ a ∈ s.head, P a) :
    Visits sb (fun b n => pass1bcheck sb i n b .keepon)
      (fun done t => Sees P once before (ownedBy i (claimsOf sb done)) s t)
      (fun t => t.head = []) where
  step {done b n u ret t} hs hrun := by
    have hrun := @pass1bcheck_sees sb P once before i hnodup hP n b .keepon ret u t
      hrun ((hs.inUse i).mpr huse) (fun a ha => hhead a (hs.head a ha)) nofun
    refine ⟨?_, fun hskip => ?_, hrun.2.1⟩
    · rw [claimsOf_append, claimsOf_singleton, ownedBy_append]
      exact hs.trans hrun.1
    · rcases hrun.2.2 hskip with h | ⟨k, hk, hout⟩
      · cases h
      · refine .inl ?_
        cases hb : outrange sb b n with
        | true => rfl
        | false =>
          rw [outrange_frag hgeo hb hk] at hout
          cases hout
  idle {done t} more hempty hs := by
    rw [claimsOf_append, ownedBy_append]
    exact hs.rest hempty _

/-- **One inode.** -/
theorem rescanInode_sees (hgeo : MetadataInside sb) (hnodup : once.Nodup)
    (hP : ∀ a, P a → outrange sb a 1 = false)
    (hknown : s.walk.statemap i ≠ .unset) (hhead : ∀ a ∈ s.head, P a)
    (hrun : rescanInode sb i s = .ok ret t) :
    Sees P once before (ownedBy i (heldClaims sb s.walk i)) s t ∧
      (ret = .stop → t.head = []) := by
  unfold rescanInode at hrun
  rw [bind_get] at hrun
  by_cases hstate : s.walk.statemap i = .ustate
  · rw [if_pos hstate] at hrun
    cases hrun
    have hnone : heldClaims sb s.walk i = [] := if_neg fun h => h.2 hstate
    rw [hnone]
    exact ⟨Sees.refl _, fun h => nomatch h⟩
  · rw [if_neg hstate] at hrun
    have huse : InUse (s.walk.statemap i) := ⟨hknown, hstate⟩
    have hheld : heldClaims sb s.walk i
        = walkClaims sb s.walk.disk (s.walk.disk.inodes i) := if_pos huse
    rw [hheld]
    have hvisits := @pass1bcheck_visits sb P once before i s hgeo hnodup hP huse hhead
    have hstart : Sees P once before (ownedBy i (claimsOf sb [])) s s := Sees.refl s
    exact scanInode_visits hvisits hstart hrun

/-- **All inodes.** -/
theorem rescan_sees (hgeo : MetadataInside sb) (hnodup : once.Nodup)
    (hP : ∀ a, P a → outrange sb a 1 = false) (l : List Nat) :
    ∀ {s t : Rescan} {ret : Ret}, (∀ i ∈ l, s.walk.statemap i ≠ .unset) →
      (∀ a ∈ s.head, P a) → scanList (rescanInode sb) l s = .ok ret t →
      Sees P once before (allClaims sb s.walk l) s t := by
  induction l with
  | nil =>
    intro s t ret _ _ hrun
    cases hrun
    exact Sees.refl s
  | cons i l ih =>
    intro s t ret hknown hhead hrun
    obtain ⟨r, s₁, hfirst, hrest⟩ := bind_eq_ok hrun
    obtain ⟨hsees, hstop⟩ := @rescanInode_sees sb P once before i s s₁ r hgeo hnodup
      hP (hknown i List.mem_cons_self) hhead hfirst
    show Sees P once before
      (ownedBy i (heldClaims sb s.walk i) ++ allClaims sb s.walk l) s t
    by_cases hr : r = .stop
    · rw [if_pos hr] at hrest
      cases hrest
      exact hsees.rest (hstop hr) _
    · rw [if_neg hr] at hrest
      have hrec := ih (fun j hj h => hknown j (List.mem_cons_of_mem i hj)
        ((hsees.unset j).mp h)) (fun a ha => hhead a (hsees.head a ha)) hrest
      have hsame : allClaims sb s₁.walk l = allClaims sb s.walk l := by
        obtain ⟨reports, statemap, heq⟩ := hsees.walk
        have hdisk : s₁.walk.disk = s.walk.disk := by rw [heq]
        refine (allClaims_congr fun j _ => held_congr ?_ ?_ (hsees.inUse j)).1
        · rw [hdisk]
        · rw [hdisk]
      rw [hsame] at hrec
      exact hsees.trans hrec

end Rescan

/-! ## §3. The inodes that are marked. -/

section Phases

variable {sb : Superblock} {d : Disk} {s s' : Phase1}

/-- What is claimed more than once is in range. -/
theorem repeated_in_range {w : Pass1} {l : List Nat} {f : Nat}
    (h : Repeated (reserved sb) (allClaims sb w l) f) : outrange sb f 1 = false := by
  have hle := Bool.toNat_le (reserved sb f)
  unfold Repeated at h
  have hpos : 0 < claimsTo (allClaims sb w l) f := by omega
  obtain ⟨i, hmem⟩ := claimsTo_pos.mp hpos
  obtain ⟨-, hheld⟩ := mem_allClaims.mp hmem
  unfold heldClaims at hheld
  split at hheld
  · obtain ⟨r, -, hr⟩ := List.mem_flatMap.mp hheld
    exact of_decide_eq_true (List.mem_filter.mp hr).2
  · cases hheld

/-- **What phase 1b leaves.** -/
theorem pass1b_sought (hgeo : MetadataInside sb)
    (hpassed : Passed sb d (inodeRange sb) s.walk)
    (hrun : pass1b sb s = .ok () s') :
    (∃ reports statemap multi, s'.walk = { s.walk with
        reports := reports, statemap := statemap, multi := multi } ∧
      multi.Perm s.walk.multi) ∧
    (∀ j, InUse (s'.walk.statemap j) ↔ InUse (s.walk.statemap j)) ∧
    ∀ i, Marked s'.walk i ↔ Marked s.walk i ∨
      First (Repeated (reserved sb) (allClaims sb s.walk (inodeRange sb)))
        (allClaims sb s.walk (inodeRange sb)) i := by
  unfold pass1b at hrun
  cases hscan : scanList (rescanInode sb) (inodeRange sb) ⟨s.walk, [], s.walk.multi⟩ with
  | error e t =>
    rw [hscan] at hrun
    cases hrun
  | ok ret t =>
    rw [hscan] at hrun
    cases hrun
    have hreads := hpassed.reads
    have hsees := @rescan_sees sb
      (Repeated (reserved sb) (allClaims sb s.walk (inodeRange sb)))
      s.walk.multi (Marked s.walk) hgeo hreads.nodup
      (fun a ha => repeated_in_range ha) (inodeRange sb) ⟨s.walk, [], s.walk.multi⟩
      t ret hpassed.known (fun a ha => (hreads.once a).mp ha) hscan
    have hsought := hsees.seeks (Sought.start (Marked s.walk) hreads.once)
    rw [List.nil_append] at hsought
    obtain ⟨reports, statemap, heq⟩ := hsees.walk
    refine ⟨⟨reports, statemap, t.found ++ t.head, ?_, hsought.perm⟩, hsees.inUse,
      hsought.marked⟩
    dsimp only
    rw [heq]

/-- **The checker can walk the inodes.**  Sizes and the ends of the runs are
what its 32-bit integers hold, so that the numbers of the walk are the
checker's, and no link with its target in place of the pointers reads as
fragments of the disk. -/
structure Walkable (sb : Superblock) (d : Disk) : Prop where
  size : ∀ i, (d.inodes i).size + sb.blockSize ≤ 2 ^ 31 ∨
    2 ^ 31 ≤ (d.inodes i).size ∧ (d.inodes i).size < 2 ^ 32
  pointers : ∀ i, ∀ r ∈ inodeRuns sb d (d.inodes i), r.1 + r.2 < 2 ^ 31
  links : ∀ i, fast (d.inodes i) → walkClaims sb d (d.inodes i) = []

/-- Claims to fragment `f` by the inodes in use. -/
def claimants (sb : Superblock) (w : Pass1) (f : Nat) : Nat :=
  ((inodeRange sb).map fun i => (heldClaims sb w i).count f).sum

/-- **The inodes that are marked share something, or point out of range.** -/
theorem marked_shares (hgeo : MetadataInside sb)
    (hpassed : Passed sb d (inodeRange sb) s.walk)
    (hrun : pass1b sb s = .ok () s') (i : Nat) :
    Marked s'.walk i ↔ i ∈ inodeRange sb ∧ heldBad sb s.walk i ≠ [] ∨
      Shares (reserved sb) (allClaims sb s.walk (inodeRange sb)) i := by
  rw [(pass1b_sought hgeo hpassed hrun).2.2 i, hpassed.reads.marked i, mem_allBad,
    or_assoc, ← shares_iff]

/-- **Phases 1 and 1b mark** the inodes that point out of range, or claim a
fragment that is metadata or has another claim to it, and no other ones. -/
theorem phases_mark (hgeo : MetadataInside sb) (hwalk : Walkable sb d)
    (hpass1 : pass1 sb true (Phase1.start d) = .ok () s) (hquiet : Quiet s.walk.reports)
    (hpass1b : pass1b sb s = .ok () s') (i : Nat) :
    Marked s'.walk i ↔ heldBad sb s.walk i ≠ [] ∨
      ∃ f ∈ heldClaims sb s.walk i, 2 ≤ reservedAt sb f + claimants sb s.walk f := by
  have hpassed := pass1_passed hgeo hwalk.links hpass1 hquiet
  rw [marked_shares hgeo hpassed hpass1b i]
  have hin : heldBad sb s.walk i ≠ [] → i ∈ inodeRange sb := by
    intro hbad
    by_contra hout
    have hunset := (hpassed.left i hout).2
    refine hbad (if_neg fun h => h.1.1 hunset)
  have hclaimed : ∀ f ∈ heldClaims sb s.walk i, i ∈ inodeRange sb := by
    intro f hf
    by_contra hout
    have hunset := (hpassed.left i hout).2
    unfold heldClaims at hf
    rw [if_neg fun h => h.1 hunset] at hf
    cases hf
  have hreserved : ∀ f, (reserved sb f).toNat = reservedAt sb f := by
    intro f
    unfold reserved reservedAt
    split <;> rfl
  refine or_congr ⟨And.right, fun h => ⟨hin h, h⟩⟩ ⟨fun h => ?_, fun h => ?_⟩
  · obtain ⟨f, hmem, hrep⟩ := h
    refine ⟨f, (mem_allClaims.mp hmem).2, ?_⟩
    unfold Repeated at hrep
    rw [claimsTo_allClaims, hreserved] at hrep
    exact hrep
  · obtain ⟨f, hheld, hrep⟩ := h
    refine ⟨f, mem_allClaims.mpr ⟨hclaimed f hheld, hheld⟩, ?_⟩
    unfold Repeated
    rw [claimsTo_allClaims, hreserved]
    exact hrep

end Phases

/-- `pageSb`, with eight inodes. -/
def sharedSb : Superblock := { pageSb with inodesPerGroup := 8 }

/-- A directory, two files with one block, a file with a fragment of the
metadata, and a link with its target in place of the pointers. -/
def sharedDisk : Disk :=
  { pageDisk with
    inodes := fun i =>
      if i = 2 then
        { zeroInode with
          mode := IFDIR ||| 0o755, nlink := 2, size := 1024, blocks := 1
          db := fun j => if j = 0 then 12 else 0 }
      else if i = 3 ∨ i = 4 then
        { zeroInode with
          mode := IFREG ||| 0o644, nlink := 1, size := 4096, blocks := 4
          db := fun j => if j = 0 then 8 else 0 }
      else if i = 5 then
        { zeroInode with
          mode := IFREG ||| 0o644, nlink := 1, size := 1024, blocks := 1
          db := fun j => if j = 0 then 2 else 0 }
      else if i = 6 then
        { zeroInode with
          mode := IFLNK ||| 0o777, nlink := 1, size := 1, flags := IC_FASTLINK
          db := fun j => if j = 0 then 0x61000000 else 0 }
      else zeroInode }

theorem shared_inside : MetadataInside sharedSb := by
  refine ⟨by decide, by decide, fun c hc => ?_⟩
  have hc : c * 32 < 32 := hc
  obtain rfl : c = 0 := by omega
  decide

theorem shared_inodes (i : Nat) :
    i ∈ [2, 3, 4, 5, 6] ∨ sharedDisk.inodes i = zeroInode := by
  by_cases hi : i ∈ [2, 3, 4, 5, 6]
  · exact .inl hi
  · refine .inr ?_
    simp only [List.mem_cons, List.not_mem_nil, or_false, not_or] at hi
    simp only [sharedDisk, hi, or_self, if_false]

theorem shared_walkable : Walkable sharedSb sharedDisk := by
  refine ⟨fun i => .inl ?_, fun i => ?_, fun i => ?_⟩
  · rcases shared_inodes i with hi | hi
    · have hsize : ∀ i ∈ [2, 3, 4, 5, 6],
          (sharedDisk.inodes i).size + sharedSb.blockSize ≤ 2 ^ 31 := by
        decide
      exact hsize i hi
    · rw [hi]
      decide
  · rcases shared_inodes i with hi | hi
    · have hruns : ∀ i ∈ [2, 3, 4, 5, 6],
          ∀ r ∈ inodeRuns sharedSb sharedDisk (sharedDisk.inodes i),
            r.1 + r.2 < 2 ^ 31 := by
        decide +kernel
      exact hruns i hi
    · rw [hi]
      decide +kernel
  · rcases shared_inodes i with hi | hi
    · have hlinks : ∀ i ∈ [2, 3, 4, 5, 6], fast (sharedDisk.inodes i) →
          walkClaims sharedSb sharedDisk (sharedDisk.inodes i) = [] := by
        decide +kernel
      exact hlinks i hi
    · rw [hi]
      intro h
      exact absurd rfl h

/-- Both owners of the block are marked, and the file with the metadata. -/
theorem phases_mark_shared :
    ∃ s s', pass1 sharedSb true (Phase1.start sharedDisk) = .ok () s ∧
      pass1b sharedSb s = .ok () s' ∧ Marked s'.walk 3 ∧ Marked s'.walk 4 ∧
      Marked s'.walk 5 ∧ ¬Marked s'.walk 2 ∧ ¬Marked s'.walk 6 := by
  have hcheck : leftWith (fun s =>
      decide ((.excessiveBad ∉ s.walk.reports ∧ .excessiveDup ∉ s.walk.reports ∧
          .partiallyTruncated ∉ s.walk.reports) ∧
        (∀ i ∈ [3, 4], 8 ∈ heldClaims sharedSb s.walk i) ∧
        claimants sharedSb s.walk 8 = 2 ∧ heldBad sharedSb s.walk 5 ≠ [] ∧
        ∀ i ∈ [2, 6], heldBad sharedSb s.walk i = [] ∧
          ∀ f ∈ heldClaims sharedSb s.walk i,
            reservedAt sharedSb f + claimants sharedSb s.walk f < 2) &&
      leftWith (fun _ => true) (pass1b sharedSb s))
      (pass1 sharedSb true (Phase1.start sharedDisk)) = true := by
    decide +kernel
  obtain ⟨u, s, hpass1, hleft⟩ := exists_of_leftWith hcheck
  obtain ⟨hfacts, hsecond⟩ := Bool.and_eq_true_iff.mp hleft
  obtain ⟨u, s', hpass1b, -⟩ := exists_of_leftWith hsecond
  obtain ⟨⟨hbad, hdup, hcut⟩, hclaims, htwo, hout, halone⟩ := of_decide_eq_true hfacts
  have hmarks := phases_mark shared_inside shared_walkable hpass1 ⟨hbad, hdup, hcut⟩ hpass1b
  have hshared : ∀ i ∈ [3, 4], Marked s'.walk i := by
    intro i hi
    refine (hmarks i).mpr (.inr ⟨8, hclaims i hi, ?_⟩)
    omega
  have hfree : ∀ i ∈ [2, 6], ¬Marked s'.walk i := by
    intro i hi hmarked
    obtain ⟨hnone, hlt⟩ := halone i hi
    rcases (hmarks i).mp hmarked with hbad | ⟨f, hf, hle⟩
    · exact hbad hnone
    · have hf := hlt f hf
      omega
  exact ⟨s, s', hpass1, hpass1b, hshared 3 (by decide), hshared 4 (by decide),
    (hmarks 5).mpr (.inl hout), hfree 2 (by decide), hfree 6 (by decide)⟩

end NextUfs.Fsck
