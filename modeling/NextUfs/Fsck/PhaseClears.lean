/-
  NextUfs.Fsck.PhaseClears
  ────────────────────────
  **WITHOUT THE INODES THAT ARE MARKED EVERY FRAGMENT HAS ONE OWNER.**
  To clear an inode is to give back what it claims: a fragment on the list of
  duplicates is taken off the list, and any other one out of the block map.  So
  the two go on counting the claims.  When all inodes that phases 1 and 1b mark
  are cleared, the list is empty, the block map is exact, and the inodes that
  are left share nothing.
    • `pass4check_counts`      — a run is given back,
    • `releaseInode_counts`    — an inode,
    • `Cleared`                — what holds after some inodes,
    • `OneOwner`               — what holds in the end,
    • `clearing_leaves_owners` — it does, whatever else is cleared, and in
      whatever order.
-/
import NextUfs.Fsck.PhaseMarks

namespace NextUfs.Fsck

open State Claims

/-! ## §1. One inode. -/

section Release

variable {sb : Superblock} {d : Disk} {m : Nat → Nat} {s t : Repair}

/-- **A run is given back.** -/
theorem pass4check_counts (n : Nat) : ∀ {b : Nat} {s : Repair} {m : Nat → Nat},
    Counts s.blockmap s.duplist (fun f => m f + (runClaims sb (b, n)).count f) →
    Counts (pass4check sb n b s).blockmap (pass4check sb n b s).duplist m := by
  induction n with
  | zero =>
    intro b s m h
    exact h
  | succ n ih =>
    intro b s m h
    rw [runClaims_succ] at h
    rw [pass4check]
    by_cases hin : outrange sb b 1 = false
    · rw [if_pos hin, List.singleton_append] at h
      have hplus : (fun f => m f + (b :: runClaims sb (b + 1, n)).count f)
          = plus (fun f => m f + (runClaims sb (b + 1, n)).count f) b := by
        funext f
        show _ = m f + (runClaims sb (b + 1, n)).count f + if f = b then 1 else 0
        rw [List.count_cons]
        by_cases hf : f = b
        · rw [if_pos hf, if_pos (beq_iff_eq.mpr hf.symm)]
          omega
        · rw [if_neg hf, if_neg (by simpa using fun h => hf h.symm)]
          omega
      rw [hplus] at h
      have htaken : s.blockmap b = true := by
        refine h.taken_of_pos ?_
        unfold plus
        rw [if_pos rfl]
        omega
      rw [if_pos ⟨hin, htaken⟩]
      cases hdrop : dropDup b s.duplist with
      | some duplist => exact ih (h.release_again (dropDup_some hdrop))
      | none => exact ih (h.release_last (dropDup_none hdrop))
    · rw [if_neg hin, List.nil_append] at h
      rw [if_neg fun hand => hin hand.1]
      exact ih h

/-- What `pass4check` does in a walk. -/
theorem pass4func_visits (hgeo : MetadataInside sb) (s : Repair) :
    Visits sb (pass4func sb)
      (fun done t => ∀ m : Nat → Nat,
        Counts s.blockmap s.duplist (fun f => m f + (claimsOf sb done).count f) →
        Counts t.blockmap t.duplist m)
      (fun _ => False) where
  step {done b n u ret t} hs hrun := by
    unfold pass4func at hrun
    rw [bind_modify] at hrun
    cases hrun
    refine ⟨fun m h => ?_, fun hskip => ?_, fun hstop => ?_⟩
    · refine pass4check_counts n (hs _ ?_)
      rw [claimsOf_append, claimsOf_singleton] at h
      have heq : (fun f => m f + (runClaims sb (b, n)).count f
            + (claimsOf sb done).count f)
          = fun f => m f + (claimsOf sb done ++ runClaims sb (b, n)).count f := by
        funext f
        rw [List.count_append]
        omega
      rw [heq]
      exact h
    · by_cases hany : (List.range n).any (fun k => outrange sb (b + k) 1) = true
      · obtain ⟨k, hk, hout⟩ := List.any_eq_true.mp hany
        refine .inl ?_
        cases hb : outrange sb b n with
        | true => rfl
        | false =>
          rw [outrange_frag hgeo hb (List.mem_range.mp hk)] at hout
          cases hout
      · rw [if_neg hany] at hskip
        cases hskip
    · split at hstop
      · cases hstop
      · cases hstop
  idle _ hidle := hidle.elim

/-- **What an inode claims is given back.** -/
theorem releaseInode_counts (hgeo : MetadataInside sb) {dp : Inode}
    (h : Counts s.blockmap s.duplist fun f => m f + (walkClaims sb d dp).count f) :
    Counts (releaseInode sb d dp s).blockmap (releaseInode sb d dp s).duplist m := by
  unfold releaseInode
  cases hscan : scanInode sb (pass4func sb) d dp s with
  | error e t => exact nomatch e
  | ok ret t =>
    have hstart : ∀ m : Nat → Nat,
        Counts s.blockmap s.duplist (fun f => m f + (claimsOf sb []).count f) →
        Counts s.blockmap s.duplist m := fun _ h => h
    exact (scanInode_visits (pass4func_visits hgeo s) hstart hscan).1 m h

end Release

/-! ## §2. Some inodes. -/

/-- The claims of the inodes that are not among `gone`. -/
def leftClaims (sb : Superblock) (w : Pass1) (gone : List Nat) : List (Nat × Nat) :=
  (allClaims sb w (inodeRange sb)).filter fun x => x.1 ∉ gone

/-- **The inodes `gone` have been cleared**, and nothing else has been done. -/
structure Cleared (sb : Superblock) (w : Pass1) (gone : List Nat) (s : Phase4) :
    Prop where
  data : s.disk.data = w.disk.data
  left : ∀ j, j ∉ gone →
    s.disk.inodes j = w.disk.inodes j ∧ s.statemap j = w.statemap j
  cleared : ∀ j ∈ gone, s.statemap j = .ustate
  counts : Counts s.repair.blockmap s.repair.duplist fun f =>
    (reserved sb f).toNat + claimsTo (leftClaims sb w gone) f

section Cleared

variable {sb : Superblock} {w : Pass1} {s : Phase4} {i : Nat} {gone l : List Nat}

/-- The claims of some owners are those of fewer inodes. -/
theorem filter_allClaims (q : Nat → Bool) (l : List Nat) :
    (allClaims sb w l).filter (fun x => q x.1) = allClaims sb w (l.filter q) := by
  induction l with
  | nil => rfl
  | cons i l ih =>
    have hown : (ownedBy i (heldClaims sb w i)).filter (fun x => q x.1)
        = if q i then ownedBy i (heldClaims sb w i) else [] := by
      unfold ownedBy
      rw [List.filter_map]
      have hconst : ((fun x : Nat × Nat => q x.1) ∘ fun f => (i, f))
          = fun _ : Nat => q i := rfl
      rw [hconst]
      by_cases hq : q i = true
      · rw [if_pos hq, List.filter_eq_self.mpr fun _ _ => hq]
      · rw [if_neg hq, List.filter_eq_nil_iff.mpr fun _ _ => hq]
        rfl
    show (ownedBy i (heldClaims sb w i) ++ allClaims sb w l).filter _ = _
    rw [List.filter_append, hown, ih]
    by_cases hq : q i = true
    · rw [if_pos hq, List.filter_cons_of_pos hq]
      rfl
    · rw [if_neg hq, List.filter_cons_of_neg hq]
      rfl

/-- One inode less. -/
theorem claimsTo_leftClaims (hi : i ∈ inodeRange sb) (hleft : i ∉ gone) (f : Nat) :
    claimsTo (leftClaims sb w gone) f
      = claimsTo (leftClaims sb w (gone ++ [i])) f
        + (heldClaims sb w i).count f := by
  have hperm : ((inodeRange sb).filter fun j => j ∉ gone).Perm
      (i :: (inodeRange sb).filter fun j => j ∉ gone ++ [i]) := by
    refine (List.perm_ext_iff_of_nodup ((inodeRange_nodup sb).filter _)
      (List.nodup_cons.mpr ⟨?_, (inodeRange_nodup sb).filter _⟩)).mpr fun j => ?_
    · intro hmem
      have hnot := of_decide_eq_true (List.mem_filter.mp hmem).2
      exact hnot (List.mem_append_right _ (List.mem_singleton_self i))
    · rw [List.mem_cons, List.mem_filter, List.mem_filter, decide_eq_true_iff,
        decide_eq_true_iff, List.mem_append, List.mem_singleton, not_or]
      constructor
      · intro h
        by_cases hj : j = i
        · exact .inl hj
        · exact .inr ⟨h.1, h.2, hj⟩
      · intro h
        rcases h with rfl | h
        · exact ⟨hi, hleft⟩
        · exact ⟨h.1, h.2.1⟩
  have hsum := (hperm.map fun j => (heldClaims sb w j).count f).sum_eq
  unfold leftClaims
  rw [filter_allClaims (fun j => decide (j ∉ gone)),
    filter_allClaims (fun j => decide (j ∉ gone ++ [i])), claimsTo_allClaims,
    claimsTo_allClaims, hsum, List.map_cons, List.sum_cons, Nat.add_comm]

/-- **One inode more is cleared.** -/
theorem Cleared.step (h : Cleared sb w gone s) (hgeo : MetadataInside sb)
    (hi : i ∈ inodeRange sb) (hleft : i ∉ gone) (huse : InUse (w.statemap i)) :
    Cleared sb w (gone ++ [i]) (freeino sb i s) where
  data := h.data
  left j hj := by
    rw [List.mem_append, List.mem_singleton, not_or] at hj
    obtain ⟨hino, hstate⟩ := h.left j hj.1
    exact ⟨(Function.update_of_ne hj.2 _ _).trans hino,
      (Function.update_of_ne hj.2 _ _).trans hstate⟩
  cleared j hj := by
    by_cases hji : j = i
    · rw [hji]
      exact Function.update_self _ _ _
    · have hmem := (List.mem_append.mp hj).resolve_right fun hm =>
        hji (List.mem_singleton.mp hm)
      exact (Function.update_of_ne hji _ _).trans (h.cleared j hmem)
  counts := by
    have hheld : heldClaims sb w i = walkClaims sb s.disk (s.disk.inodes i) := by
      unfold heldClaims
      rw [if_pos huse, (h.left i hleft).1, walkClaims_congr h.data]
    refine releaseInode_counts hgeo ?_
    rw [← hheld]
    have heq : (fun f => (reserved sb f).toNat
          + claimsTo (leftClaims sb w (gone ++ [i])) f + (heldClaims sb w i).count f)
        = fun f => (reserved sb f).toNat + claimsTo (leftClaims sb w gone) f := by
      funext f
      rw [claimsTo_leftClaims hi hleft]
      omega
    rw [heq]
    exact h.counts

/-- **They are cleared one after the other.** -/
theorem cleared_all (hgeo : MetadataInside sb) (l : List Nat) :
    ∀ {gone : List Nat} {s : Phase4}, (gone ++ l).Nodup →
      (∀ i ∈ l, i ∈ inodeRange sb ∧ InUse (w.statemap i)) → Cleared sb w gone s →
      Cleared sb w (gone ++ l) (l.foldl (fun s i => clri sb true i s) s) := by
  induction l with
  | nil =>
    intro gone s _ _ h
    rw [List.append_nil]
    exact h
  | cons i l ih =>
    intro gone s hnodup hl h
    rw [← List.singleton_append, ← List.append_assoc] at hnodup ⊢
    have hleft : i ∉ gone := by
      intro hmem
      have hparts := List.nodup_append'.mp (List.nodup_append'.mp hnodup).1
      exact hparts.2.2 hmem (List.mem_singleton_self i)
    obtain ⟨hi, huse⟩ := hl i List.mem_cons_self
    exact ih hnodup (fun j hj => hl j (List.mem_cons_of_mem i hj))
      (h.step hgeo hi hleft huse)

end Cleared

/-! ## §3. All that are marked. -/

/-- **Every fragment has one owner**, the metadata among them: the list of
duplicates is empty, the block map is exact, and no inode in use claims a
fragment twice, metadata, what another one claims, or, where it is walked, what
is out of range. -/
structure OneOwner (sb : Superblock) (s : Phase4) : Prop where
  duplist : s.repair.duplist = []
  blockmap : ∀ f, s.repair.blockmap f = true ↔ reservedAt sb f = 1 ∨
    ∃ i, InUse (s.statemap i) ∧ f ∈ walkClaims sb s.disk (s.disk.inodes i)
  once : ∀ i, InUse (s.statemap i) → (walkClaims sb s.disk (s.disk.inodes i)).Nodup
  apart : ∀ i j, InUse (s.statemap i) → InUse (s.statemap j) → i ≠ j →
    ∀ f ∈ walkClaims sb s.disk (s.disk.inodes i),
      f ∉ walkClaims sb s.disk (s.disk.inodes j)
  unreserved : ∀ i, InUse (s.statemap i) →
    ∀ f ∈ walkClaims sb s.disk (s.disk.inodes i), reservedAt sb f = 0
  inside : ∀ i, InUse (s.statemap i) → ¬fast (s.disk.inodes i) →
    badRuns sb (inodeRuns sb s.disk (s.disk.inodes i)) = []

section Owners

variable {sb : Superblock} {d : Disk} {w : Pass1} {s s' : Phase1} {t : Phase4}
  {gone : List Nat}

theorem reserved_toNat (sb : Superblock) (f : Nat) :
    (reserved sb f).toNat = reservedAt sb f := by
  unfold reserved reservedAt
  split <;> rfl

/-- **Once all owners of what is shared are gone**, and all that point out of
range. -/
theorem Cleared.oneOwner (h : Cleared sb w gone t)
    (hrange : ∀ i, InUse (w.statemap i) → i ∈ inodeRange sb)
    (hbad : ∀ i, heldBad sb w i ≠ [] → i ∈ gone)
    (hshares : ∀ i, Shares (reserved sb) (allClaims sb w (inodeRange sb)) i →
      i ∈ gone) : OneOwner sb t := by
  have hle : ∀ f, (reserved sb f).toNat + claimsTo (leftClaims sb w gone) f ≤ 1 :=
    exclusive_of_gone hshares
  obtain ⟨hempty, htaken⟩ := h.counts.exclusive hle
  have htaken : ∀ f, t.repair.blockmap f = true ↔
      (reserved sb f).toNat + claimsTo (leftClaims sb w gone) f = 1 := htaken
  -- an inode in use is one of those that are left
  have hleft : ∀ {i}, InUse (t.statemap i) → i ∉ gone ∧ i ∈ inodeRange sb ∧
      t.disk.inodes i = w.disk.inodes i ∧
      walkClaims sb t.disk (t.disk.inodes i) = heldClaims sb w i ∧
      InUse (w.statemap i) := by
    intro i huse
    have hi : i ∉ gone := fun hmem => huse.2 (h.cleared i hmem)
    obtain ⟨hino, hstate⟩ := h.left i hi
    rw [hstate] at huse
    refine ⟨hi, hrange i huse, hino, ?_, huse⟩
    unfold heldClaims
    rw [if_pos huse, hino, walkClaims_congr h.data]
  have hmem : ∀ {i f}, i ∉ gone → i ∈ inodeRange sb → f ∈ heldClaims sb w i →
      (i, f) ∈ leftClaims sb w gone := by
    intro i f hi hrange hf
    exact List.mem_filter.mpr ⟨mem_allClaims.mpr ⟨hrange, hf⟩, decide_eq_true hi⟩
  refine ⟨hempty, fun f => ?_, fun i hi => ?_, fun i j hi hj hne f hf hf' => ?_,
    fun i hi f hf => ?_, fun i hi hslow => ?_⟩
  · rw [htaken f]
    have hone := hle f
    have hres := reserved_toNat sb f
    constructor
    · intro hclaimed
      rcases Nat.eq_zero_or_pos (claimsTo (leftClaims sb w gone) f) with h0 | hpos
      · exact .inl (by omega)
      · obtain ⟨i, hi⟩ := claimsTo_pos.mp hpos
        obtain ⟨hi, hgone⟩ := List.mem_filter.mp hi
        obtain ⟨-, hf⟩ := mem_allClaims.mp hi
        have hgone := of_decide_eq_true hgone
        obtain ⟨hino, hstate⟩ := h.left i hgone
        have huse : InUse (w.statemap i) := by
          by_contra hunused
          unfold heldClaims at hf
          rw [if_neg hunused] at hf
          cases hf
        have huse' : InUse (t.statemap i) := hstate ▸ huse
        exact .inr ⟨i, huse', (hleft huse').2.2.2.1 ▸ hf⟩
    · intro hclaimed
      rcases hclaimed with hmeta | ⟨i, hi, hf⟩
      · omega
      · obtain ⟨hgone, hrange, -, heq, -⟩ := hleft hi
        rw [heq] at hf
        have hpos := claimsTo_pos.mpr ⟨i, hmem hgone hrange hf⟩
        omega
  · obtain ⟨hgone, hrange, -, heq, -⟩ := hleft hi
    rw [heq, List.nodup_iff_count_le_one]
    intro f
    have hsplit := claimsTo_leftClaims (w := w) hrange hgone f
    have hone := hle f
    omega
  · obtain ⟨hgone, hrange, -, heq, -⟩ := hleft hi
    obtain ⟨hgone', hrange', -, heq', -⟩ := hleft hj
    rw [heq] at hf
    rw [heq'] at hf'
    have htwo := two_le_claimsTo (hmem hgone hrange hf) (hmem hgone' hrange' hf') hne
    have hone := hle f
    omega
  · obtain ⟨hgone, hrange, -, heq, -⟩ := hleft hi
    rw [heq] at hf
    have hpos := claimsTo_pos.mpr ⟨i, hmem hgone hrange hf⟩
    have hone := hle f
    have hres := reserved_toNat sb f
    omega
  · obtain ⟨hgone, -, hino, -, huse⟩ := hleft hi
    by_contra hne
    refine hgone (hbad i ?_)
    unfold heldBad
    rw [hino] at hslow hne
    rw [if_pos ⟨huse, hslow⟩, ← inodeRuns_congr h.data]
    exact hne

/-- **When the inodes that phases 1 and 1b mark are cleared**, with any others
and in any order, every fragment has one owner, and the inodes that have not
been cleared are as they were. -/
theorem clearing_leaves_owners (hgeo : MetadataInside sb) (hwalk : Walkable sb d)
    (hpass1 : pass1 sb true (Phase1.start d) = .ok () s) (hquiet : Quiet s.walk.reports)
    (hpass1b : pass1b sb s = .ok () s') (hnodup : gone.Nodup)
    (huse : ∀ i ∈ gone, InUse (s'.walk.statemap i))
    (hmarked : ∀ i, Marked s'.walk i → i ∈ gone) (io : DirIo) :
    OneOwner sb (gone.foldl (fun t i => clri sb true i t) (s'.toPhase4 io)) ∧
      ∀ i, i ∉ gone →
        (gone.foldl (fun t i => clri sb true i t) (s'.toPhase4 io)).disk.inodes i
          = s'.walk.disk.inodes i ∧
        (gone.foldl (fun t i => clri sb true i t) (s'.toPhase4 io)).statemap i
          = s'.walk.statemap i := by
  have hpassed := pass1_passed hgeo hwalk.links hpass1 hquiet
  obtain ⟨⟨reports, statemap, multi, heq, hperm⟩, huse', -⟩ :=
    pass1b_sought hgeo hpassed hpass1b
  have hrange : ∀ i, InUse (s'.walk.statemap i) → i ∈ inodeRange sb := by
    intro i hi
    by_contra hout
    exact ((huse' i).mp hi).1 (hpassed.left i hout).2
  have hdisk : s'.walk.disk = s.walk.disk := by rw [heq]
  have hheld : ∀ i, heldClaims sb s'.walk i = heldClaims sb s.walk i ∧
      heldBad sb s'.walk i = heldBad sb s.walk i := fun i =>
    held_congr (by rw [hdisk]) (by rw [hdisk]) (huse' i)
  have hall : allClaims sb s'.walk (inodeRange sb)
      = allClaims sb s.walk (inodeRange sb) :=
    (allClaims_congr fun i _ => hheld i).1
  have hstart : Cleared sb s'.walk [] (s'.toPhase4 io) := by
    refine ⟨rfl, fun j _ => ⟨rfl, rfl⟩, fun j hj => absurd hj List.not_mem_nil, ?_⟩
    have hleft : leftClaims sb s'.walk [] = allClaims sb s.walk (inodeRange sb) := by
      unfold leftClaims
      rw [hall, List.filter_eq_self.mpr fun x _ => decide_eq_true List.not_mem_nil]
    rw [hleft]
    have hcounts := hpassed.reads.counts.congr (hperm.symm.append_right s.walk.more)
    show Counts s'.walk.blockmap (s'.walk.multi ++ s'.walk.more) _
    rw [heq]
    exact hcounts
  have hcleared := cleared_all hgeo gone (by rwa [List.nil_append])
    (fun i hi => ⟨hrange i (huse i hi), huse i hi⟩) hstart
  rw [List.nil_append] at hcleared
  have hmarks := marked_shares hgeo hpassed hpass1b
  refine ⟨hcleared.oneOwner hrange (fun i hi => ?_) fun i hi => ?_, hcleared.left⟩
  · refine hmarked i ((hmarks i).mpr (.inl ⟨hrange i ?_, (hheld i).2 ▸ hi⟩))
    by_contra hunused
    exact hi (if_neg fun h => hunused h.1)
  · rw [hall] at hi
    exact hmarked i ((hmarks i).mpr (.inr hi))

end Owners

/-- The file with the metadata, and the two owners of the block. -/
def sharedGone : List Nat := [5, 3, 4]

/-- They are cleared. -/
theorem clearing_leaves_owners_shared :
    ∃ s s', pass1 sharedSb true (Phase1.start sharedDisk) = .ok () s ∧
      pass1b sharedSb s = .ok () s' ∧
      ∀ io, OneOwner sharedSb
        (sharedGone.foldl (fun t i => clri sharedSb true i t) (s'.toPhase4 io)) := by
  have hcheck : leftWith (fun s =>
      decide (.excessiveBad ∉ s.walk.reports ∧ .excessiveDup ∉ s.walk.reports ∧
        .partiallyTruncated ∉ s.walk.reports) &&
      leftWith (fun s' => decide (
          (∀ i ∈ sharedGone, InUse (s'.walk.statemap i)) ∧
          ∀ i ∈ inodeRange sharedSb, (s'.walk.statemap i = .fclear ∨
            s'.walk.statemap i = .dclear) → i ∈ sharedGone))
        (pass1b sharedSb s))
      (pass1 sharedSb true (Phase1.start sharedDisk)) = true := by
    decide +kernel
  obtain ⟨u, s, hpass1, hleft⟩ := exists_of_leftWith hcheck
  obtain ⟨hquiet, hsecond⟩ := Bool.and_eq_true_iff.mp hleft
  obtain ⟨u, s', hpass1b, hfacts⟩ := exists_of_leftWith hsecond
  obtain ⟨hbad, hdup, hcut⟩ := of_decide_eq_true hquiet
  obtain ⟨huse, hin⟩ := of_decide_eq_true hfacts
  have hquiet : Quiet s.walk.reports := ⟨hbad, hdup, hcut⟩
  have hpassed := pass1_passed shared_inside shared_walkable.links hpass1 hquiet
  have hmarked : ∀ i, Marked s'.walk i → i ∈ sharedGone := by
    intro i hi
    refine hin i ?_ hi
    rcases (marked_shares shared_inside hpassed hpass1b i).mp hi with h | ⟨f, h, -⟩
    · exact h.1
    · exact (mem_allClaims.mp h).1
  exact ⟨s, s', hpass1, hpass1b, fun io =>
    (clearing_leaves_owners shared_inside shared_walkable hpass1 hquiet hpass1b
      (by decide) huse hmarked io).1⟩

end NextUfs.Fsck
