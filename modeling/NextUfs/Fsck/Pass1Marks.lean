/-
  NextUfs.Fsck.Pass1Marks
  ───────────────────────
  **WHAT PHASE 1 MARKS IN ONE INODE.**
  Every fragment in range that the walk of an inode meets is a claim.  The
  block map and the list of duplicates count the claims, and the inode is
  marked for a run that is out of range and for a fragment that somebody has
  claimed before.  All this holds as long as the phase has not given an inode
  up for too many bad fragments, and has not cut off an indirect block.
    • `walkClaims`     — what an inode claims,
    • `Quiet`          — nothing has been given up or cut off,
    • `Enters`         — from one state to another, claims have been entered,
    • `ckinode_enters` — the walk of one inode.
-/
import NextUfs.Fsck.WalkRuns
import NextUfs.Lib.Claims

namespace NextUfs.Fsck

open State Claims

/-! ## §1. Claims. -/

section Claims

variable (sb : Superblock) (d : Disk) (dp : Inode)

/-- The fragments of a run that are in range. -/
def runClaims (r : Nat × Nat) : List Nat :=
  (List.range' r.1 r.2).filter fun f => outrange sb f 1 = false

/-- The fragments that some runs claim. -/
def claimsOf (runs : List (Nat × Nat)) : List Nat := runs.flatMap (runClaims sb)

/-- The runs that are out of range. -/
def badRuns (runs : List (Nat × Nat)) : List (Nat × Nat) :=
  runs.filter fun r => outrange sb r.1 r.2

/-- **What an inode claims.** -/
def walkClaims : List Nat := claimsOf sb (inodeRuns sb d dp)

end Claims

/-- The metadata of each group stands in the group, its superblock copy first. -/
structure MetadataInside (sb : Superblock) : Prop where
  fragsPerGroup_pos : 0 < sb.fragsPerGroup
  sbOff_le : sb.sbOff ≤ sb.dataOff
  inside : ∀ c, c * sb.fragsPerGroup < sb.fragCount →
    cgdmin sb c ≤ sb.fragsPerGroup * (c + 1)

/-- The fragments of a run in range are in range. -/
theorem outrange_frag {sb : Superblock} (hgeo : MetadataInside sb) {b n k : Nat}
    (hrun : outrange sb b n = false) (hk : k < n) :
    outrange sb (b + k) 1 = false := by
  unfold outrange at hrun ⊢
  dsimp only at hrun ⊢
  by_cases hdisk : sb.fragCount < b + n
  · rw [if_pos hdisk] at hrun
    cases hrun
  rw [if_neg hdisk] at hrun
  rw [if_neg (by omega)]
  have hmod := Nat.div_add_mod b sb.fragsPerGroup
  have hlt := Nat.mod_lt b hgeo.fragsPerGroup_pos
  have hmul := Nat.mul_comm sb.fragsPerGroup (b / sb.fragsPerGroup)
  have hin := hgeo.inside (b / sb.fragsPerGroup) (by omega)
  have hsb : cgsblock sb (b / sb.fragsPerGroup) ≤ cgdmin sb (b / sb.fragsPerGroup) := by
    have hle := hgeo.sbOff_le
    unfold cgsblock cgdmin
    omega
  have hsucc : sb.fragsPerGroup * (b / sb.fragsPerGroup + 1)
      = sb.fragsPerGroup * (b / sb.fragsPerGroup) + sb.fragsPerGroup := Nat.mul_succ _ _
  -- the group of a fragment of the run is the group of the run
  have hend : b + n ≤ sb.fragsPerGroup * (b / sb.fragsPerGroup + 1) := by
    by_cases hbefore : b < cgdmin sb (b / sb.fragsPerGroup)
    · rw [if_pos hbefore] at hrun
      have hle := of_decide_eq_false hrun
      omega
    · rw [if_neg hbefore] at hrun
      have hle := of_decide_eq_false hrun
      omega
  have hgroup : (b + k) / sb.fragsPerGroup = b / sb.fragsPerGroup := by
    rw [Nat.div_eq_iff hgeo.fragsPerGroup_pos]
    constructor
    · omega
    · omega
  rw [hgroup]
  by_cases hbefore : b < cgdmin sb (b / sb.fragsPerGroup)
  · rw [if_pos hbefore] at hrun
    have hle := of_decide_eq_false hrun
    rw [if_pos (by omega)]
    exact decide_eq_false (by omega)
  · rw [if_neg hbefore] at hrun
    have hle := of_decide_eq_false hrun
    rw [if_neg (by omega)]
    exact decide_eq_false (by omega)

/-! ## §2. What the phase does not do. -/

/-- Nothing has been given up, and nothing cut off. -/
structure Quiet (reports : List Report) : Prop where
  bad : .excessiveBad ∉ reports
  dup : .excessiveDup ∉ reports
  truncated : .partiallyTruncated ∉ reports

theorem Quiet.mono {rs rs' : List Report} (h : Quiet rs') (hsub : rs ⊆ rs') :
    Quiet rs :=
  ⟨fun hm => h.bad (hsub hm), fun hm => h.dup (hsub hm),
    fun hm => h.truncated (hsub hm)⟩

/-- What has been printed stays printed. -/
def printed : Frame Pass1 where
  rel s t := s.reports ⊆ t.reports
  refl s := List.Subset.refl s.reports
  trans := List.Subset.trans

/-- A run changes neither the disk nor `id_fix`. -/
def sameDisk : Frame Pass1 where
  rel s t := s.reports ⊆ t.reports ∧ t.disk = s.disk ∧ t.idFix = s.idFix
  refl s := ⟨List.Subset.refl s.reports, rfl, rfl⟩
  trans h h' := ⟨List.Subset.trans h.1 h'.1, h'.2.1.trans h.2.1, h'.2.2.trans h.2.2⟩

section Frames

variable {sb : Superblock} {op : Operator} {inumber : Nat}

theorem report_subset (s : Pass1) (r : Report) :
    s.reports ⊆ (s.report r).reports := List.subset_append_left s.reports [r]

theorem blkerr_sameDisk (r : Report) : Keeps sameDisk (blkerr inumber r) := by
  refine .bind (.modify fun s => ⟨report_subset s r, rfl, rfl⟩) fun _ => ?_
  refine .bind .get fun s => ?_
  split
  · exact .modify fun s => ⟨List.Subset.refl _, rfl, rfl⟩
  · exact .modify fun s => ⟨List.Subset.refl _, rfl, rfl⟩
  · exact .pure _
  · exact .pure _
  · exact .throw _

theorem excessive_sameDisk (r : Report) : Keeps sameDisk (excessive op r) := by
  refine .bind (.modify fun s => ⟨report_subset s r, rfl, rfl⟩) fun _ => ?_
  exact .ite (.pure _) (.throw _)

theorem checkFrags_sameDisk (anyout : Bool) (n : Nat) : ∀ (b : Nat) (res : Ret),
    Keeps sameDisk (checkFrags sb op inumber anyout n b res) := by
  induction n with
  | zero =>
    intro b res
    exact .pure res
  | succ n ih =>
    intro b res
    rw [checkFrags]
    refine .bind .get fun s => .ite ?_ (.ite ?_ ?_)
    · exact .bind (.modify fun s => ⟨List.Subset.refl _, rfl, rfl⟩) fun _ => ih _ _
    · exact .bind (.modify fun s => ⟨List.Subset.refl _, rfl, rfl⟩) fun _ => ih _ _
    · refine .bind (blkerr_sameDisk _) fun _ => ?_
      refine .bind (.modify fun s => ⟨List.Subset.refl _, rfl, rfl⟩) fun _ => ?_
      refine .ite (excessive_sameDisk _) ?_
      refine .bind (.modify fun s => ?_) fun _ => ih _ _
      unfold Pass1.addDup
      split <;> exact ⟨List.Subset.refl _, rfl, rfl⟩

theorem pass1check_sameDisk (b n : Nat) :
    Keeps sameDisk (pass1check sb op inumber b n) := by
  unfold pass1check
  refine .bind .get fun s => .ite ?_ (checkFrags_sameDisk _ _ _ _)
  refine .bind (blkerr_sameDisk _) fun _ => ?_
  refine .bind (.modify fun s => ⟨List.Subset.refl _, rfl, rfl⟩) fun _ => ?_
  exact .ite (excessive_sameDisk _) (checkFrags_sameDisk _ _ _ _)

theorem pass1check_printed (b n : Nat) :
    Keeps printed (pass1check sb op inumber b n) :=
  fun s => wp_mono (pass1check_sameDisk b n s) (fun _ _ h => h.1) fun _ _ h => h.1

theorem untilStop_printed {α : Type} {f : α → Pass1Op Ret}
    (h : ∀ a, Keeps printed (f a)) (l : List α) : Keeps printed (untilStop f l) := by
  induction l with
  | nil => exact .pure _
  | cons a l ih => exact .bind (h a) fun ret => .ite (.pure _) ih

theorem dofix1_printed (r : Report) : Keeps printed (dofix1 op r) := by
  intro s
  unfold dofix1
  rw [wp_bind, wp_get]
  cases dofix (op.preen || op.yes) s.idFix with
  | mk idFix altered =>
    show wp (set { s with idFix := idFix } >>= _) _ _ s
    rw [wp_bind, wp_set]
    by_cases hfirst : s.idFix = .dontknow
    · rw [if_pos hfirst]
      exact report_subset s r
    · rw [if_neg hfirst]
      exact List.Subset.refl _

theorem truncateEntry_printed (blkno : Nat) (entries : Nat → Nat) (i : Nat) :
    Keeps printed (truncateEntry sb op blkno entries i) := by
  unfold truncateEntry
  refine .ite (.pure _) (.bind (dofix1_printed _) fun altered => ?_)
  split
  · exact .bind (.modify fun s => List.Subset.refl _) fun _ => .pure _
  · exact .pure _

theorem iblock_printed (ilevel : Nat) : ∀ (blkno : Nat) (isize : Int),
    Keeps printed (iblock sb op inumber ilevel blkno isize) := by
  induction ilevel with
  | zero =>
    intro blkno isize
    exact .pure _
  | succ ilevel ih =>
    intro blkno isize
    rw [iblock]
    refine .bind (pass1check_printed _ _) fun n => .ite (.pure _) (.ite (.pure _) ?_)
    refine .bind .get fun s => ?_
    refine .bind (untilStop_printed (fun i => truncateEntry_printed _ _ _) _) fun _ => ?_
    refine untilStop_printed (fun i => .ite (.pure _) (.ite (ih _ _) ?_)) _
    exact pass1check_printed _ _

theorem ckinode_printed (dp : Inode) : Keeps printed (ckinode sb op inumber dp) := by
  unfold ckinode
  refine .bind (.modify fun s => List.Subset.refl _) fun _ => .ite (.pure _) ?_
  refine .bind (untilStop_printed (fun i => ?_) _) fun ret => .ite (.pure _) ?_
  · exact .ite (.pure _) (pass1check_printed _ _)
  · exact untilStop_printed (fun slot => .ite (.pure _) (iblock_printed _ _ _)) _

end Frames

/-! ## §3. One run. -/

/-- The inode is marked: it is to be cleared. -/
def Marked (s : Pass1) (i : Nat) : Prop :=
  s.statemap i = .fclear ∨ s.statemap i = .dclear

/-- A state of an inode that holds something. -/
def InUse (state : InodeState) : Prop := state ≠ .unset ∧ state ≠ .ustate

/-- What phase 1 knows after the claims `l`. -/
abbrev Reads (base : Nat → Bool) (s : Pass1) (l : List (Nat × Nat))
    (bad : List Nat) : Prop :=
  Entered base l bad s.blockmap s.multi s.more (Marked s)

/-- **From `s` to `t` inode `i` claims `frags`**, and has the runs `bad` that
are out of range. -/
structure Enters (base : Nat → Bool) (i : Nat) (frags : List Nat)
    (bad : List (Nat × Nat)) (s t : Pass1) : Prop where
  others : ∀ j, j ≠ i → t.statemap j = s.statemap j
  inUse : InUse (s.statemap i) → InUse (t.statemap i)
  reads : ∀ {l b}, Reads base s l b →
    Reads base t (l ++ frags.map fun f => (i, f)) (b ++ bad.map fun _ => i)

section Run

variable {base : Nat → Bool} {sb : Superblock} {op : Operator} {i : Nat}
  {frags frags' : List Nat} {bad bad' : List (Nat × Nat)} {s t u : Pass1}

theorem Enters.refl (base : Nat → Bool) (i : Nat) (s : Pass1) :
    Enters base i [] [] s s where
  others _ _ := rfl
  inUse := id
  reads h := by
    rw [List.map_nil, List.append_nil, List.map_nil, List.append_nil]
    exact h

theorem Enters.trans (h : Enters base i frags bad s t)
    (h' : Enters base i frags' bad' t u) :
    Enters base i (frags ++ frags') (bad ++ bad') s u where
  others j hj := (h'.others j hj).trans (h.others j hj)
  inUse hs := h'.inUse (h.inUse hs)
  reads hs := by
    rw [List.map_append, List.map_append, ← List.append_assoc, ← List.append_assoc]
    exact h'.reads (h.reads hs)

/-- What `blkerr` does. -/
theorem blkerr_ok {r : Report} {a : Unit} (h : blkerr i r s = .ok a t) :
    t = { s with reports := s.reports ++ [r], statemap := t.statemap } ∧
      (∀ j, j ≠ i → t.statemap j = s.statemap j) ∧ Marked t i := by
  unfold blkerr at h
  rw [bind_modify, bind_get] at h
  dsimp only [Pass1.report] at h
  cases hstate : s.statemap i with
  | fstate =>
    rw [hstate] at h
    cases h
    exact ⟨rfl, fun j hj => Function.update_of_ne hj _ _,
      .inl (Function.update_self _ _ _)⟩
  | dstate =>
    rw [hstate] at h
    cases h
    exact ⟨rfl, fun j hj => Function.update_of_ne hj _ _,
      .inr (Function.update_self _ _ _)⟩
  | fclear =>
    rw [hstate] at h
    cases h
    exact ⟨rfl, fun _ _ => rfl, .inl hstate⟩
  | dclear =>
    rw [hstate] at h
    cases h
    exact ⟨rfl, fun _ _ => rfl, .inr hstate⟩
  | unset =>
    rw [hstate] at h
    cases h
  | ustate =>
    rw [hstate] at h
    cases h
  | dfound =>
    rw [hstate] at h
    cases h

theorem Marked.inUse (h : Marked s i) : InUse (s.statemap i) := by
  rcases h with h | h
  · rw [h]
    exact ⟨nofun, nofun⟩
  · rw [h]
    exact ⟨nofun, nofun⟩

/-- An inode that is marked beside those that were. -/
theorem marked_iff (hother : ∀ j, j ≠ i → t.statemap j = s.statemap j)
    (hi : Marked t i) (j : Nat) : Marked t j ↔ Marked s j ∨ j = i := by
  by_cases hj : j = i
  · subst hj
    simp only [hi, or_true]
  · unfold Marked
    rw [hother j hj]
    simp only [hj, or_false]

/-- A fragment that nobody has claimed. -/
theorem enters_claim {b : Nat} (hfree : s.blockmap b = false) :
    Enters base i [b] [] s ((s.claim b).visit b) where
  others _ _ := rfl
  inUse := id
  reads h := by
    rw [List.map_nil, List.append_nil]
    exact h.claim_first hfree

/-- A fragment that is taken. -/
theorem enters_dup {b : Nat} {a : Unit} {dupblk : Nat}
    (htaken : s.blockmap b = true) (h : blkerr i (.dup b) s = .ok a t) :
    Enters base i [b] [] s (({ t with dupblk := dupblk }.addDup b).visit b) := by
  obtain ⟨heq, hother, hmarked⟩ := blkerr_ok h
  have hstate : (({ t with dupblk := dupblk }.addDup b).visit b).statemap
      = t.statemap := by
    unfold Pass1.addDup
    split <;> rfl
  refine ⟨fun j hj => ?_, fun _ => ?_, fun {l bd} hreads => ?_⟩
  · rw [hstate]
    exact hother j hj
  · rw [hstate]
    exact hmarked.inUse
  · rw [List.map_nil, List.append_nil]
    have hnew := hreads.claim_again (i := i) htaken (marked_iff hother hmarked)
    have hmulti : t.multi = s.multi := by rw [heq]
    have hmore : t.more = s.more := by rw [heq]
    have hmap : t.blockmap = s.blockmap := by rw [heq]
    unfold Pass1.addDup
    by_cases hin : b ∈ s.multi
    · rw [if_pos hin, if_pos hin] at hnew
      rw [if_pos (show b ∈ t.multi from hmulti ▸ hin)]
      show Entered base _ _ t.blockmap t.multi (b :: t.more) _
      rw [hmulti, hmore, hmap]
      exact hnew
    · rw [if_neg hin, if_neg hin] at hnew
      rw [if_neg (show b ∉ t.multi from hmulti ▸ hin)]
      show Entered base _ _ t.blockmap (t.multi ++ [b]) t.more _
      rw [hmulti, hmore, hmap]
      exact hnew

/-- A run that is out of range. -/
theorem enters_bad {b : Nat} {r : Nat × Nat} {a : Unit} {badblk : Nat}
    (h : blkerr i (.bad b) s = .ok a t) :
    Enters base i [] [r] s { t with badblk := badblk } := by
  obtain ⟨heq, hother, hmarked⟩ := blkerr_ok h
  refine ⟨hother, fun _ => hmarked.inUse, fun {l bd} hreads => ?_⟩
  rw [List.map_nil, List.append_nil]
  have hnew := hreads.mark (i := i) (marked_iff hother hmarked)
  have hmulti : t.multi = s.multi := by rw [heq]
  have hmore : t.more = s.more := by rw [heq]
  have hmap : t.blockmap = s.blockmap := by rw [heq]
  show Entered base _ _ t.blockmap t.multi t.more _
  rw [hmulti, hmore, hmap]
  exact hnew

theorem runClaims_succ (sb : Superblock) (b n : Nat) :
    runClaims sb (b, n + 1)
      = (if outrange sb b 1 = false then [b] else []) ++ runClaims sb (b + 1, n) := by
  unfold runClaims
  rw [List.range'_succ, List.filter_cons]
  by_cases hin : outrange sb b 1 = false
  · rw [if_pos hin, if_pos (by rw [hin]; rfl)]
    rfl
  · rw [if_neg hin, if_neg (by simpa using hin)]
    rfl

/-- Too many bad fragments, or too many duplicates: that is not quiet. -/
theorem excessive_not_quiet {r : Report} {ret : Ret}
    (hr : r = .excessiveBad ∨ r = .excessiveDup) (h : excessive op r s = .ok ret t) :
    ¬Quiet t.reports := by
  unfold excessive at h
  rw [bind_modify] at h
  intro hquiet
  by_cases hyes : op.preen = true ∨ op.yes = true
  · rw [if_pos hyes] at h
    cases h
    rcases hr with rfl | rfl
    · exact hquiet.bad (List.mem_append_right _ (List.mem_singleton_self _))
    · exact hquiet.dup (List.mem_append_right _ (List.mem_singleton_self _))
  · rw [if_neg hyes] at h
    cases h

/-- **The fragments of a run.** -/
theorem checkFrags_enters (anyout : Bool) (n : Nat) :
    ∀ {b : Nat} {res ret : Ret} {s t : Pass1},
      checkFrags sb op i anyout n b res s = .ok ret t → Quiet t.reports →
      (anyout = false → ∀ k < n, outrange sb (b + k) 1 = false) → res ≠ .stop →
      Enters base i (runClaims sb (b, n)) [] s t ∧ ret ≠ .stop ∧
        (ret = .skip → res = .skip ∨ anyout = true) := by
  induction n with
  | zero =>
    intro b res ret s t hrun _ _ hres
    cases hrun
    exact ⟨Enters.refl base i _, hres, Or.inl⟩
  | succ n ih =>
    intro b res ret s t hrun hquiet hin hres
    rw [checkFrags, bind_get] at hrun
    rw [runClaims_succ]
    have hin' : anyout = false → ∀ k < n, outrange sb (b + 1 + k) 1 = false := by
      intro hany k hk
      have hk' := hin hany (k + 1) (by omega)
      rwa [show b + (k + 1) = b + 1 + k by omega] at hk'
    by_cases hskip : anyout = true ∧ outrange sb b 1 = true
    · rw [if_pos hskip, bind_modify] at hrun
      rw [if_neg (by rw [hskip.2]; decide), List.nil_append]
      obtain ⟨henters, hstop, -⟩ := ih hrun hquiet hin' nofun
      exact ⟨⟨henters.others, henters.inUse, henters.reads⟩, hstop,
        fun _ => .inr hskip.1⟩
    · rw [if_neg hskip] at hrun
      have hb : outrange sb b 1 = false := by
        cases hany : anyout with
        | false => exact hin hany 0 (by omega)
        | true =>
          rw [hany] at hskip
          simpa using hskip
      rw [if_pos hb]
      by_cases hfree : s.blockmap b = false
      · rw [if_pos hfree, bind_modify] at hrun
        obtain ⟨henters, hstop, hret⟩ := ih hrun hquiet hin' hres
        exact ⟨(enters_claim hfree).trans henters, hstop, hret⟩
      · rw [if_neg hfree] at hrun
        obtain ⟨a, s₁, herr, hrun⟩ := bind_eq_ok hrun
        rw [bind_modify] at hrun
        by_cases hmax : MAXDUP ≤ s.dupblk + 1
        · rw [if_pos hmax] at hrun
          exact absurd hquiet (excessive_not_quiet (.inr rfl) hrun)
        · rw [if_neg hmax, bind_modify] at hrun
          obtain ⟨henters, hstop, hret⟩ := ih hrun hquiet hin' hres
          have htaken : s.blockmap b = true := by simpa using hfree
          exact ⟨(enters_dup htaken herr).trans henters, hstop, hret⟩

/-- **One run.** -/
theorem pass1check_enters (base : Nat → Bool) (hgeo : MetadataInside sb)
    {b n : Nat} {ret : Ret}
    (hrun : pass1check sb op i b n s = .ok ret t) (hquiet : Quiet t.reports) :
    Enters base i (runClaims sb (b, n)) (badRuns sb [(b, n)]) s t ∧
      ret ≠ .stop ∧ (ret = .skip → outrange sb b n = true) := by
  unfold pass1check at hrun
  rw [bind_get] at hrun
  by_cases hout : outrange sb b n = true
  · rw [if_pos hout] at hrun
    have hbad : badRuns sb [(b, n)] = [(b, n)] := by simp [badRuns, hout]
    rw [hbad]
    obtain ⟨a, s₁, herr, hrun⟩ := bind_eq_ok hrun
    rw [bind_modify] at hrun
    by_cases hmax : MAXBAD ≤ s.badblk + 1
    · rw [if_pos hmax] at hrun
      exact absurd hquiet (excessive_not_quiet (.inl rfl) hrun)
    · rw [if_neg hmax] at hrun
      obtain ⟨henters, hstop, -⟩ :=
        checkFrags_enters true n hrun hquiet (fun h => nomatch h) nofun
      exact ⟨(enters_bad herr).trans henters, hstop, fun _ => hout⟩
  · rw [if_neg hout] at hrun
    have hin : outrange sb b n = false := by simpa using hout
    have hbad : badRuns sb [(b, n)] = [] := by simp [badRuns, hin]
    rw [hbad]
    obtain ⟨henters, hstop, hret⟩ := checkFrags_enters false n hrun hquiet
      (fun _ k hk => outrange_frag hgeo hin hk) nofun
    refine ⟨henters, hstop, fun h => ?_⟩
    rcases hret h with h | h <;> cases h

end Run

/-! ## §4. The walk. -/

section Walk

variable {base : Nat → Bool} {sb : Superblock} {op : Operator} {i : Nat}
  {d : Disk} {s t : Pass1} {ret : Ret}

/-- A list of pointers, when `f` does with each what `g` does. -/
theorem untilStop_scan {α : Type} {f g : α → Pass1Op Ret} {l : List α}
    (hprinted : ∀ a, Keeps printed (f a))
    (hf : ∀ a ∈ l, ∀ {s t : Pass1} {ret : Ret}, s.disk = d → s.idFix = .dontknow →
      f a s = .ok ret t → Quiet t.reports →
      g a s = .ok ret t ∧ t.disk = d ∧ t.idFix = .dontknow)
    (hdisk : s.disk = d) (hfix : s.idFix = .dontknow)
    (hrun : untilStop f l s = .ok ret t) (hquiet : Quiet t.reports) :
    scanList g l s = .ok ret t ∧ t.disk = d ∧ t.idFix = .dontknow := by
  induction l generalizing s with
  | nil =>
    cases hrun
    exact ⟨rfl, hdisk, hfix⟩
  | cons a l ih =>
    obtain ⟨r, s₁, hfirst, hrest⟩ := bind_eq_ok hrun
    have hsub : s₁.reports ⊆ t.reports := by
      split at hrest
      · cases hrest
        exact List.Subset.refl _
      · exact (untilStop_printed hprinted l).ok hrest
    obtain ⟨hg, hdisk, hfix⟩ :=
      hf a List.mem_cons_self hdisk hfix hfirst (hquiet.mono hsub)
    rw [scanList, bind_of_ok hg]
    by_cases hr : r = .stop
    · rw [if_pos hr] at hrest ⊢
      cases hrest
      exact ⟨rfl, hdisk, hfix⟩
    · rw [if_neg hr] at hrest ⊢
      exact ih (fun b hb => hf b (List.mem_cons_of_mem a hb)) hdisk hfix hrest

/-- Where it is quiet, no entry is cut off. -/
theorem truncateEntry_quiet {blkno k : Nat} {entries : Nat → Nat}
    (hfix : s.idFix = .dontknow)
    (hrun : truncateEntry sb op blkno entries k s = .ok ret t)
    (hquiet : Quiet t.reports) : ret = .keepon ∧ t = s := by
  unfold truncateEntry at hrun
  by_cases hk : entries k = 0
  · rw [if_pos hk] at hrun
    cases hrun
    exact ⟨rfl, rfl⟩
  · rw [if_neg hk] at hrun
    obtain ⟨altered, s₁, hdofix, hrun⟩ := bind_eq_ok hrun
    -- it is printed, whatever the answer is
    have hprinted : Report.partiallyTruncated ∈ s₁.reports := by
      unfold dofix1 at hdofix
      rw [bind_get] at hdofix
      cases hanswer : dofix (op.preen || op.yes) s.idFix with
      | mk idFix altered' =>
        rw [hanswer] at hdofix
        dsimp only at hdofix
        rw [hfix, if_pos rfl] at hdofix
        cases hdofix
        exact List.mem_append_right _ (List.mem_singleton_self _)
    have hsub : s₁.reports ⊆ t.reports := by
      split at hrun
      · cases hrun
        exact List.Subset.refl _
      · cases hrun
        exact List.Subset.refl _
    exact absurd (hsub hprinted) hquiet.truncated

theorem truncate_quiet {blkno : Nat} {entries : Nat → Nat} {l : List Nat}
    (hfix : s.idFix = .dontknow)
    (hrun : untilStop (truncateEntry sb op blkno entries) l s = .ok ret t)
    (hquiet : Quiet t.reports) : t = s := by
  induction l generalizing s with
  | nil =>
    cases hrun
    rfl
  | cons k l ih =>
    obtain ⟨r, s₁, hfirst, hrest⟩ := bind_eq_ok hrun
    have hsub : s₁.reports ⊆ t.reports := by
      split at hrest
      · cases hrest
        exact List.Subset.refl _
      · exact (untilStop_printed (fun k => truncateEntry_printed _ _ k) l).ok hrest
    obtain ⟨rfl, rfl⟩ := truncateEntry_quiet hfix hfirst (hquiet.mono hsub)
    rw [if_neg (by decide)] at hrest
    exact ih hfix hrest

/-- **A tree is walked as by any other function.** -/
theorem iblock_scan (ilevel : Nat) :
    ∀ {blkno : Nat} {isize : Int} {s t : Pass1} {ret : Ret}, s.disk = d →
      s.idFix = .dontknow →
      iblock sb op i ilevel blkno isize s = .ok ret t → Quiet t.reports →
      scanIndirect sb (pass1check sb op i) d ilevel blkno isize s = .ok ret t ∧
        t.disk = d ∧ t.idFix = .dontknow := by
  induction ilevel with
  | zero =>
    intro blkno isize s t ret hdisk hfix hrun _
    cases hrun
    exact ⟨rfl, hdisk, hfix⟩
  | succ ilevel ih =>
    intro blkno isize s t ret hdisk hfix hrun hquiet
    rw [iblock] at hrun
    obtain ⟨n, s₁, hfirst, hrest⟩ := bind_eq_ok hrun
    obtain ⟨-, hdisk₁, hfix₁⟩ := (pass1check_sameDisk _ _).ok hfirst
    rw [hdisk] at hdisk₁
    rw [hfix] at hfix₁
    rw [scanIndirect, bind_of_ok hfirst]
    by_cases hn : n ≠ .keepon
    · rw [if_pos hn] at hrest ⊢
      cases hrest
      exact ⟨rfl, hdisk₁, hfix₁⟩
    rw [if_neg hn] at hrest ⊢
    by_cases hout : outrange sb blkno sb.fragsPerBlock = true
    · rw [if_pos hout] at hrest ⊢
      cases hrest
      exact ⟨rfl, hdisk₁, hfix₁⟩
    rw [if_neg hout, bind_get, hdisk₁] at hrest
    rw [if_neg hout]
    obtain ⟨r, s₂, hcut, hentries⟩ := bind_eq_ok hrest
    have hprinted : ∀ k : Nat, Keeps printed
        (if entry sb d blkno k = 0 then (return .keepon : Pass1Op Ret)
        else if 0 < ilevel then
          iblock sb op i ilevel (entry sb d blkno k)
            (isize - int32 ((k + 1 : Int) * sizepb sb ilevel))
        else pass1check sb op i (entry sb d blkno k) sb.fragsPerBlock) := by
      intro k
      exact .ite (.pure _) (.ite (iblock_printed _ _ _) (pass1check_printed _ _))
    have hsub := (untilStop_printed hprinted _).ok hentries
    have hsame := truncate_quiet hfix₁ hcut (hquiet.mono hsub)
    rw [hsame] at hentries
    refine untilStop_scan hprinted (fun k _ => ?_) hdisk₁ hfix₁ hentries hquiet
    intro s t ret hdisk hfix hrun hquiet
    by_cases hk : entry sb d blkno k = 0
    · rw [if_pos hk] at hrun ⊢
      cases hrun
      exact ⟨rfl, hdisk, hfix⟩
    rw [if_neg hk] at hrun ⊢
    by_cases hlevel : 0 < ilevel
    · rw [if_pos hlevel] at hrun ⊢
      exact ih hdisk hfix hrun hquiet
    · rw [if_neg hlevel] at hrun ⊢
      obtain ⟨-, hdisk₁, hfix₁⟩ := (pass1check_sameDisk _ _).ok hrun
      exact ⟨hrun, hdisk₁.trans hdisk, hfix₁.trans hfix⟩

/-- An inode is walked as by any other function. -/
theorem ckinode_scan {dp : Inode} (hrun : ckinode sb op i dp s = .ok ret t)
    (hquiet : Quiet t.reports) :
    scanInode sb (pass1check sb op i) s.disk dp
        { s with idFix := .dontknow, visited := [] } = .ok ret t ∧
      t.disk = s.disk := by
  unfold ckinode at hrun
  rw [bind_modify] at hrun
  unfold scanInode
  by_cases hspecial : special dp = true
  · rw [if_pos hspecial] at hrun ⊢
    cases hrun
    exact ⟨rfl, rfl⟩
  rw [if_neg hspecial] at hrun ⊢
  obtain ⟨r, s₁, hdirect, hrest⟩ := bind_eq_ok hrun
  have hslot : ∀ slot : Fin 3, Keeps printed
      (if dp.ib slot = 0 then (return .keepon : Pass1Op Ret)
      else iblock sb op i (slot + 1) (dp.ib slot)
        (dp.size - int32 (sb.blockSize * 12))) :=
    fun slot => .ite (.pure _) (iblock_printed _ _ _)
  have hblock : ∀ k : Fin 12, Keeps printed
      (if dp.db k = 0 then (return .keepon : Pass1Op Ret)
      else pass1check sb op i (dp.db k) (directFrags sb dp.size k)) :=
    fun k => .ite (.pure _) (pass1check_printed _ _)
  have hsub : s₁.reports ⊆ t.reports := by
    split at hrest
    · cases hrest
      exact List.Subset.refl _
    · exact (untilStop_printed hslot _).ok hrest
  have hscan : scanList (fun k : Fin 12 =>
        if dp.db k = 0 then (return .keepon : Pass1Op Ret)
        else pass1check sb op i (dp.db k) (directFrags sb dp.size k))
        (List.finRange 12) { s with idFix := .dontknow, visited := [] } = .ok r s₁ ∧
      s₁.disk = s.disk ∧ s₁.idFix = .dontknow := by
    refine untilStop_scan hblock (fun k _ => ?_) rfl rfl hdirect (hquiet.mono hsub)
    intro s t ret hdisk hfix hrun _
    by_cases hk : dp.db k = 0
    · rw [if_pos hk] at hrun ⊢
      cases hrun
      exact ⟨rfl, hdisk, hfix⟩
    · rw [if_neg hk] at hrun ⊢
      obtain ⟨-, hdisk₁, hfix₁⟩ := (pass1check_sameDisk _ _).ok hrun
      exact ⟨hrun, hdisk₁.trans hdisk, hfix₁.trans hfix⟩
  obtain ⟨hscan, hdisk₁, hfix₁⟩ := hscan
  rw [bind_of_ok hscan]
  by_cases hr : r = .stop
  · rw [if_pos hr] at hrest ⊢
    cases hrest
    exact ⟨rfl, hdisk₁⟩
  rw [if_neg hr] at hrest ⊢
  have htrees : scanList (fun slot : Fin 3 =>
        if dp.ib slot = 0 then (return .keepon : Pass1Op Ret)
        else scanIndirect sb (pass1check sb op i) s.disk (slot + 1) (dp.ib slot)
          (dp.size - int32 (sb.blockSize * 12))) [0, 1, 2] s₁ = .ok ret t ∧
      t.disk = s.disk ∧ t.idFix = .dontknow := by
    refine untilStop_scan hslot (fun slot _ => ?_) hdisk₁ hfix₁ hrest hquiet
    intro s t ret hdisk hfix hrun hquiet
    by_cases hk : dp.ib slot = 0
    · rw [if_pos hk] at hrun ⊢
      cases hrun
      exact ⟨rfl, hdisk, hfix⟩
    · rw [if_neg hk] at hrun ⊢
      exact iblock_scan _ hdisk hfix hrun hquiet
  exact ⟨htrees.1, htrees.2.1⟩

theorem claimsOf_append (sb : Superblock) (rs rs' : List (Nat × Nat)) :
    claimsOf sb (rs ++ rs') = claimsOf sb rs ++ claimsOf sb rs' :=
  List.flatMap_append

theorem claimsOf_singleton (sb : Superblock) (r : Nat × Nat) :
    claimsOf sb [r] = runClaims sb r := by
  unfold claimsOf
  rw [List.flatMap_singleton]

/-- What `pass1check` does in a walk. -/
theorem pass1check_visits (hgeo : MetadataInside sb) (base : Nat → Bool) (s : Pass1) :
    Visits sb (pass1check sb op i)
      (fun done t => Quiet t.reports →
        Enters base i (claimsOf sb done) (badRuns sb done) s t)
      (fun t => ¬Quiet t.reports) where
  step {done b n u ret t} hs hrun := by
    refine ⟨fun hquiet => ?_, fun hskip => ?_, fun hstop hquiet => ?_⟩
    · have hu := hs (hquiet.mono ((pass1check_printed _ _).ok hrun))
      have henters := (pass1check_enters base hgeo hrun hquiet).1
      rw [claimsOf_append, claimsOf_singleton]
      have hbad : badRuns sb (done ++ [(b, n)])
          = badRuns sb done ++ badRuns sb [(b, n)] := List.filter_append _ _
      rw [hbad]
      exact hu.trans henters
    · by_cases hquiet : Quiet t.reports
      · exact .inl ((pass1check_enters base hgeo hrun hquiet).2.2 hskip)
      · exact .inr hquiet
    · exact (pass1check_enters base hgeo hrun hquiet).2.1 hstop
  idle more hidle _ hquiet := absurd hquiet hidle

/-- **The walk of an inode** enters what it claims. -/
theorem ckinode_enters (base : Nat → Bool) (hgeo : MetadataInside sb) {dp : Inode}
    (hrun : ckinode sb op i dp s = .ok ret t) (hquiet : Quiet t.reports) :
    Enters base i (walkClaims sb s.disk dp)
        (badRuns sb (inodeRuns sb s.disk dp)) s t ∧
      t.disk = s.disk := by
  obtain ⟨hscan, hdisk⟩ := ckinode_scan hrun hquiet
  refine ⟨?_, hdisk⟩
  have hstart : Quiet s.reports → Enters base i (claimsOf sb []) (badRuns sb []) s
      { s with idFix := .dontknow, visited := [] } := by
    intro _
    obtain ⟨hother, huse, hreads⟩ := Enters.refl base i s
    exact ⟨hother, huse, hreads⟩
  have hwalk := scanInode_visits (pass1check_visits hgeo base s) hstart hscan
  exact hwalk.1 hquiet

end Walk

end NextUfs.Fsck
