/-
  NextUfs.Fsck.Pass1Loop
  ──────────────────────
  **WHAT PHASE 1 LEAVES, INODE BY INODE.**
  Phase 1 frees the inodes it can make nothing of, and walks the other ones,
  but for the links that have their target in place of the pointers.  Once it
  is through, the block map and the list of duplicates count the metadata and
  the claims of the inodes that are in use then.
    • `heldClaims`       — what an inode in use claims,
    • `Passes`           — phase 1 has done one inode,
    • `countFile_passes` — an inode of a known type,
    • `pass1_passed`     — all of them, by induction on the inodes.
-/
import NextUfs.Fsck.Pass1Marks

namespace NextUfs.Fsck

open State Claims

/-! ## §1. What the inodes hold. -/

/-- `di_icflags & IC_FASTLINK`. -/
def fast (dp : Inode) : Prop := dp.flags &&& IC_FASTLINK ≠ 0

instance (dp : Inode) : Decidable (fast dp) := by
  unfold fast
  infer_instance

instance (state : InodeState) : Decidable (InUse state) := by
  unfold InUse
  infer_instance

section Held

variable (sb : Superblock) (w : Pass1)

/-- **What inode `i` claims**, if it is in use. -/
def heldClaims (i : Nat) : List Nat :=
  if InUse (w.statemap i) then walkClaims sb w.disk (w.disk.inodes i) else []

/-- The runs of inode `i` that are out of range, if phase 1 walks it. -/
def heldBad (i : Nat) : List (Nat × Nat) :=
  if InUse (w.statemap i) ∧ ¬fast (w.disk.inodes i) then
    badRuns sb (inodeRuns sb w.disk (w.disk.inodes i))
  else []

/-- The claims of some inodes, in order. -/
def allClaims (l : List Nat) : List (Nat × Nat) :=
  l.flatMap fun i => (heldClaims sb w i).map fun f => (i, f)

/-- Their runs out of range: the inode for each. -/
def allBad (l : List Nat) : List Nat :=
  l.flatMap fun i => (heldBad sb w i).map fun _ => i

end Held

section Congr

variable {sb : Superblock} {w w' : Pass1} {d d' : Disk} {i : Nat} {l : List Nat}

theorem treeRuns_congr (hdata : d'.data = d.data) (ilevel : Nat) :
    ∀ (blkno : Nat) (isize : Int),
      treeRuns sb d' ilevel blkno isize = treeRuns sb d ilevel blkno isize := by
  induction ilevel with
  | zero =>
    intro blkno isize
    rfl
  | succ ilevel ih =>
    intro blkno isize
    rw [treeRuns, treeRuns, entry_eq hdata]
    simp only [ih]

/-- The runs of an inode depend on it and on the data. -/
theorem inodeRuns_congr (hdata : d'.data = d.data) (dp : Inode) :
    inodeRuns sb d' dp = inodeRuns sb d dp := by
  unfold inodeRuns
  simp only [treeRuns_congr hdata]

theorem walkClaims_congr (hdata : d'.data = d.data) (dp : Inode) :
    walkClaims sb d' dp = walkClaims sb d dp := by
  unfold walkClaims
  rw [inodeRuns_congr hdata]

/-- What inode `i` holds depends on it, on its state and on the data. -/
theorem held_congr (hdata : w'.disk.data = w.disk.data)
    (hino : w'.disk.inodes i = w.disk.inodes i)
    (hstate : InUse (w'.statemap i) ↔ InUse (w.statemap i)) :
    heldClaims sb w' i = heldClaims sb w i ∧ heldBad sb w' i = heldBad sb w i := by
  unfold heldClaims heldBad
  rw [hino, walkClaims_congr hdata, inodeRuns_congr hdata]
  simp only [hstate, and_self]

theorem allClaims_congr (h : ∀ i ∈ l, heldClaims sb w' i = heldClaims sb w i ∧
      heldBad sb w' i = heldBad sb w i) :
    allClaims sb w' l = allClaims sb w l ∧ allBad sb w' l = allBad sb w l := by
  constructor
  · exact List.flatMap_congr fun i hi => by rw [(h i hi).1]
  · exact List.flatMap_congr fun i hi => by rw [(h i hi).2]

theorem allClaims_concat (l : List Nat) (i : Nat) :
    allClaims sb w (l ++ [i])
      = allClaims sb w l ++ (heldClaims sb w i).map fun f => (i, f) := by
  unfold allClaims
  rw [List.flatMap_append, List.flatMap_singleton]

theorem allBad_concat (l : List Nat) (i : Nat) :
    allBad sb w (l ++ [i]) = allBad sb w l ++ (heldBad sb w i).map fun _ => i := by
  unfold allBad
  rw [List.flatMap_append, List.flatMap_singleton]

/-- The claims to one fragment, owner by owner. -/
theorem claimsTo_allClaims (l : List Nat) (f : Nat) :
    claimsTo (allClaims sb w l) f
      = (l.map fun i => (heldClaims sb w i).count f).sum := by
  induction l with
  | nil => rfl
  | cons i l ih =>
    show claimsTo ((heldClaims sb w i).map (fun f => (i, f)) ++ allClaims sb w l) f = _
    rw [claimsTo_append, ih, List.map_cons, List.sum_cons]
    unfold claimsTo
    rw [List.map_map]
    show ((heldClaims sb w i).map id).count f + _ = _
    rw [List.map_id]

theorem mem_allClaims {f : Nat} :
    (i, f) ∈ allClaims sb w l ↔ i ∈ l ∧ f ∈ heldClaims sb w i := by
  unfold allClaims
  rw [List.mem_flatMap]
  constructor
  · intro h
    obtain ⟨j, hj, hmem⟩ := h
    obtain ⟨g, hg, heq⟩ := List.mem_map.mp hmem
    cases heq
    exact ⟨hj, hg⟩
  · intro h
    exact ⟨i, h.1, List.mem_map.mpr ⟨f, h.2, rfl⟩⟩

theorem mem_allBad : i ∈ allBad sb w l ↔ i ∈ l ∧ heldBad sb w i ≠ [] := by
  unfold allBad
  rw [List.mem_flatMap]
  constructor
  · intro h
    obtain ⟨j, hj, hmem⟩ := h
    obtain ⟨r, hr, rfl⟩ := List.mem_map.mp hmem
    exact ⟨hj, List.ne_nil_of_mem hr⟩
  · intro h
    obtain ⟨r, hr⟩ := List.exists_mem_of_ne_nil _ h.2
    exact ⟨i, h.1, List.mem_map.mpr ⟨r, hr, rfl⟩⟩

end Congr

/-! ## §2. One inode of phase 1. -/

/-- The fragments that are metadata. -/
def reserved (sb : Superblock) (f : Nat) : Bool := reservedAt sb f == 1

/-- **Phase 1 has done inode `i`**, from `s` to `t`. -/
structure Passes (sb : Superblock) (i : Nat) (s t : Pass1) : Prop where
  printed : s.reports ⊆ t.reports
  data : t.disk.data = s.disk.data
  inodes : ∀ j, j ≠ i → t.disk.inodes j = s.disk.inodes j
  others : ∀ j, j ≠ i → t.statemap j = s.statemap j
  known : t.statemap i ≠ .unset
  reads : ∀ {l b}, Reads (reserved sb) s l b →
    Reads (reserved sb) t (l ++ (heldClaims sb t i).map fun f => (i, f))
      (b ++ (heldBad sb t i).map fun _ => i)

section Inode

variable {sb : Superblock} {i : Nat} {s t : Phase1} {dp : Inode}

theorem onWalk_ok {α : Type} {x : Pass1Op α} {a : α} (h : onWalk x s = .ok a t) :
    ∃ w, x s.walk = .ok a w ∧ t = { s with walk := w } := by
  unfold onWalk at h
  cases hx : x s.walk with
  | ok b w =>
    rw [hx] at h
    cases h
    exact ⟨w, rfl, rfl⟩
  | error e w =>
    rw [hx] at h
    cases h

/-- An inode that turns out not to be in use. -/
theorem passes_free {w : Pass1} (hstate : w.statemap i = .unset) (dp : Inode) :
    Passes sb i w (w.setState i .ustate) ∧
      Passes sb i w ((w.putInode i dp).setState i .ustate) := by
  have hunused : ∀ w' : Pass1, (w'.setState i .ustate).statemap i = .ustate :=
    fun w' => Function.update_self _ _ _
  have hheld : ∀ w' : Pass1, heldClaims sb (w'.setState i .ustate) i = [] ∧
      heldBad sb (w'.setState i .ustate) i = [] := by
    intro w'
    unfold heldClaims heldBad
    rw [hunused w']
    exact ⟨if_neg fun h => h.2 rfl, if_neg fun h => h.1.2 rfl⟩
  have hmarked : ∀ w' : Pass1, w'.statemap = w.statemap →
      ∀ j, Marked (w'.setState i .ustate) j ↔ Marked w j := by
    intro w' hw' j
    unfold Marked
    by_cases hj : j = i
    · subst hj
      rw [hunused w', hstate]
      simp
    · rw [show (w'.setState i .ustate).statemap j = w.statemap j from
        (Function.update_of_ne hj _ _).trans (by rw [hw'])]
  refine ⟨⟨List.Subset.refl _, rfl, fun _ _ => rfl,
    fun j hj => Function.update_of_ne hj _ _, ?_, fun {l b} h => ?_⟩,
    ⟨List.Subset.refl _, rfl, fun j hj => Function.update_of_ne hj _ _,
    fun j hj => Function.update_of_ne hj _ _, ?_, fun {l b} h => ?_⟩⟩
  · rw [hunused]
    exact nofun
  · rw [(hheld w).1, (hheld w).2, List.map_nil, List.append_nil, List.map_nil,
      List.append_nil]
    exact h.congr (hmarked w rfl)
  · rw [hunused]
    exact nofun
  · rw [(hheld _).1, (hheld _).2, List.map_nil, List.append_nil, List.map_nil,
      List.append_nil]
    exact h.congr (hmarked (w.putInode i dp) rfl)

/-- The record may be written before an inode is done. -/
theorem Passes.put {w w' : Pass1} (h : Passes sb i (w.putInode i dp) w') :
    Passes sb i w w' where
  printed := h.printed
  data := h.data
  inodes j hj := (h.inodes j hj).trans (Function.update_of_ne hj _ _)
  others := h.others
  known := h.known
  reads hl := h.reads hl

/-- Or after it, when its runs stay. -/
theorem Passes.putAfter {w w' : Pass1} (h : Passes sb i w w')
    (hruns : inodeRuns sb w'.disk dp = inodeRuns sb w'.disk (w'.disk.inodes i))
    (hfast : fast dp ↔ fast (w'.disk.inodes i)) :
    Passes sb i w (w'.putInode i dp) where
  printed := h.printed
  data := h.data
  inodes j hj := (Function.update_of_ne hj _ _).trans (h.inodes j hj)
  others := h.others
  known := h.known
  reads {l b} hl := by
    have hself : (w'.putInode i dp).disk.inodes i = dp := Function.update_self _ _ _
    have hdata : (w'.putInode i dp).disk.data = w'.disk.data := rfl
    have hheld : heldClaims sb (w'.putInode i dp) i = heldClaims sb w' i ∧
        heldBad sb (w'.putInode i dp) i = heldBad sb w' i := by
      unfold heldClaims heldBad walkClaims
      rw [hself, inodeRuns_congr hdata, hruns]
      simp only [hfast]
      exact ⟨rfl, rfl⟩
    rw [hheld.1, hheld.2]
    exact h.reads hl

/-- The inode gets the state it has before its walk. -/
theorem reads_setState {w : Pass1} {state : InodeState} {l : List (Nat × Nat)}
    {b : List Nat} (hunset : w.statemap i = .unset)
    (hstate : state = .dstate ∨ state = .fstate)
    (h : Reads (reserved sb) w l b) : Reads (reserved sb) (w.setState i state) l b := by
  refine h.congr fun j => ?_
  unfold Marked
  by_cases hj : j = i
  · subst hj
    rw [show (w.setState j state).statemap j = state from Function.update_self _ _ _,
      hunset]
    rcases hstate with h | h <;> rw [h] <;> simp
  · rw [show (w.setState i state).statemap j = w.statemap j from
      Function.update_of_ne hj _ _]

/-- **An inode of a known type.** -/
theorem countFile_passes (hgeo : MetadataInside sb)
    (hdp : s.walk.disk.inodes i = dp) (hunset : s.walk.statemap i = .unset)
    (hfast : fast dp → walkClaims sb s.walk.disk dp = [])
    (hrun : countFile sb true i dp s = .ok () t) (hquiet : Quiet t.walk.reports) :
    Passes sb i s.walk t.walk := by
  unfold countFile at hrun
  rw [bind_modify] at hrun
  generalize hkind : (if isDirMode dp.mode then InodeState.dstate else .fstate)
    = state at hrun
  have hstate : state = .dstate ∨ state = .fstate := by
    rw [← hkind]
    split
    · exact .inl rfl
    · exact .inr rfl
  have hself : (s.walk.setState i state).statemap i = state :=
    Function.update_self _ _ _
  have huse : InUse ((s.walk.setState i state).statemap i) := by
    rw [hself]
    rcases hstate with h | h <;> rw [h] <;> exact ⟨nofun, nofun⟩
  by_cases hlink : dp.flags &&& IC_FASTLINK = 0
  · rw [if_pos hlink] at hrun
    obtain ⟨ret, s₁, hwalk, hrest⟩ := bind_eq_ok hrun
    obtain ⟨w, hck, rfl⟩ := onWalk_ok hwalk
    rw [bind_get] at hrest
    dsimp only at hck hrest
    have hslow : ¬fast dp := fun h => h hlink
    have hsub := (ckinode_printed dp).ok hck
    have hwalked : Quiet w.reports → Passes sb i s.walk w ∧
        w.disk.inodes i = dp := by
      intro hquiet
      obtain ⟨henters, hdisk⟩ := ckinode_enters (reserved sb) hgeo hck hquiet
      have hdisk : w.disk = s.walk.disk := hdisk
      have hino : w.disk.inodes i = dp := by
        rw [hdisk]
        exact hdp
      refine ⟨⟨hsub, by rw [hdisk], fun j _ => by rw [hdisk], fun j hj => ?_,
        (henters.inUse huse).1, fun {l b} hl => ?_⟩, hino⟩
      · exact (henters.others j hj).trans (Function.update_of_ne hj _ _)
      · have hnew := henters.reads (reads_setState hunset hstate hl)
        have hclaims : heldClaims sb w i = walkClaims sb s.walk.disk dp := by
          unfold heldClaims
          rw [if_pos (henters.inUse huse), hino, hdisk]
        have hbad : heldBad sb w i = badRuns sb (inodeRuns sb s.walk.disk dp) := by
          unfold heldBad
          rw [hino, if_pos ⟨henters.inUse huse, hslow⟩, hdisk]
        rw [hclaims, hbad]
        exact hnew
    -- the count of sectors is put right
    split at hrest
    · cases hrest
      obtain ⟨hpasses, hino⟩ := hwalked hquiet
      refine hpasses.putAfter ?_ ?_
      · rw [hino]
        rfl
      · rw [hino]
        exact Iff.rfl
    · cases hrest
      exact (hwalked hquiet).1
  · rw [if_neg hlink] at hrun
    cases hrun
    refine ⟨List.Subset.refl _, rfl, fun _ _ => rfl,
      fun j hj => Function.update_of_ne hj _ _, huse.1, fun {l b} hl => ?_⟩
    have hheld : heldClaims sb (s.walk.setState i state) i = [] ∧
        heldBad sb (s.walk.setState i state) i = [] := by
      unfold heldClaims heldBad
      have hino : (s.walk.setState i state).disk.inodes i = dp := hdp
      rw [hino]
      refine ⟨?_, if_neg fun h => h.2 hlink⟩
      rw [show walkClaims sb (s.walk.setState i state).disk dp = [] from hfast hlink,
        ite_self]
    have hclaims : heldClaims sb { s.walk.setState i state with
        badblk := 0, dupblk := 0 } i = [] := hheld.1
    have hbad : heldBad sb { s.walk.setState i state with
        badblk := 0, dupblk := 0 } i = [] := hheld.2
    rw [hclaims, hbad, List.map_nil, List.append_nil, List.map_nil, List.append_nil]
    exact reads_setState hunset hstate hl

/-- **One inode.** -/
theorem pass1Inode_passes (hgeo : MetadataInside sb)
    (hunset : s.walk.statemap i = .unset)
    (hfast : fast (s.walk.disk.inodes i) →
      walkClaims sb s.walk.disk (s.walk.disk.inodes i) = [])
    (hrun : pass1Inode sb true i s = .ok () t) (hquiet : Quiet t.walk.reports) :
    Passes sb i s.walk t.walk := by
  unfold pass1Inode at hrun
  rw [bind_get] at hrun
  dsimp only at hrun
  by_cases halloc : isAlloc (s.walk.disk.inodes i) = false
  · rw [if_pos halloc] at hrun
    cases hrun
    dsimp only
    split
    · exact (passes_free hunset zeroInode).2
    · exact (passes_free hunset zeroInode).1
  rw [if_neg halloc, bind_modify] at hrun
  by_cases hsize : 2 ^ 31 ≤ (s.walk.disk.inodes i).size
  · rw [if_pos hsize] at hrun
    cases hrun
    exact (passes_free hunset zeroInode).2
  rw [if_neg hsize, bind_modify] at hrun
  by_cases hheld : (s.walk.disk.inodes i).mode &&& IFMT = IFMT
  · -- an inode that holds a bad block becomes a file of one fragment
    simp only [hheld, and_self, if_true] at hrun
    generalize hdp : ({ s.walk.disk.inodes i with
      size := sb.fragSize, mode := IFREG ||| 0o600 } : Inode) = dp at hrun
    have hclear : ∀ {t : Phase1}, clearUnknown true i
        { s with walk := s.walk.putInode i dp, lastino := i } = .ok () t →
        Passes sb i s.walk t.walk := by
      intro t hrun
      cases hrun
      have hfree := @passes_free sb i (s.walk.putInode i dp) hunset zeroInode
      exact hfree.2.put
    by_cases hlink : (s.walk.disk.inodes i).flags &&& IC_FASTLINK ≠ 0
    · rw [if_pos ⟨hlink, by decide⟩] at hrun
      exact hclear hrun
    rw [if_neg fun h => hlink h.1] at hrun
    split at hrun
    · exact hclear hrun
    · split at hrun
      · exact hclear hrun
      · have hcount := @countFile_passes sb i
          { s with walk := s.walk.putInode i dp, lastino := i } t dp hgeo
          (Function.update_self _ _ _) hunset ?_ hrun hquiet
        · exact hcount.put
        · intro h
          rw [← hdp] at h
          exact absurd h hlink
  · simp only [hheld, false_and, if_false] at hrun
    split at hrun
    · cases hrun
      exact (passes_free hunset zeroInode).2
    · split at hrun
      · cases hrun
        exact (passes_free hunset zeroInode).2
      · split at hrun
        · cases hrun
          exact (passes_free hunset zeroInode).2
        · have hcount := @countFile_passes sb i { s with lastino := i } t
            (s.walk.disk.inodes i) hgeo rfl hunset hfast hrun hquiet
          exact hcount

end Inode

/-! ## §3. All inodes of phase 1. -/

/-- **Phase 1 has done the inodes `pre`** of the disk `d`. -/
structure Passed (sb : Superblock) (d : Disk) (pre : List Nat) (w : Pass1) :
    Prop where
  data : w.disk.data = d.data
  left : ∀ j, j ∉ pre → w.disk.inodes j = d.inodes j ∧ w.statemap j = .unset
  known : ∀ j ∈ pre, w.statemap j ≠ .unset
  reads : Reads (reserved sb) w (allClaims sb w pre) (allBad sb w pre)

/-- What has been printed stays printed. -/
def printed1 : Frame Phase1 where
  rel s t := s.walk.reports ⊆ t.walk.reports
  refl s := List.Subset.refl s.walk.reports
  trans := List.Subset.trans

section All

variable {sb : Superblock} {d : Disk} {i : Nat} {pre : List Nat} {w w' : Pass1}

theorem onWalk_printed {α : Type} {x : Pass1Op α} (h : Keeps printed x) :
    Keeps printed1 (onWalk x) := by
  intro s
  have hs := h s.walk
  unfold wp at hs ⊢
  unfold onWalk
  cases hx : x s.walk with
  | ok a w =>
    rw [hx] at hs
    exact hs
  | error e w =>
    rw [hx] at hs
    exact hs

theorem clearUnknown_printed (yes : Bool) (i : Nat) :
    Keeps printed1 (clearUnknown yes i) := by
  refine .modify fun s => ?_
  show s.walk.reports ⊆ _
  split <;> exact List.Subset.refl _

theorem countFile_printed (yes : Bool) (i : Nat) (dp : Inode) :
    Keeps printed1 (countFile sb yes i dp) := by
  refine .bind (.modify fun s => List.Subset.refl _) fun _ => .ite ?_ (.pure _)
  refine .bind (onWalk_printed (ckinode_printed dp)) fun ret => ?_
  intro s
  rw [wp_bind, wp_get, wp_ite]
  exact ⟨fun _ => List.Subset.refl _, fun _ => List.Subset.refl _⟩

theorem pass1Inode_printed (yes : Bool) (i : Nat) :
    Keeps printed1 (pass1Inode sb yes i) := by
  refine .bind .get fun s => .ite ?_ ?_
  · refine .modify fun s => ?_
    show s.walk.reports ⊆ _
    split <;> exact List.Subset.refl _
  refine .bind (.modify fun s => List.Subset.refl _) fun _ =>
    .ite (clearUnknown_printed _ _) ?_
  refine .bind (.modify fun s => ?_) fun _ => ?_
  · show s.walk.reports ⊆ _
    split <;> exact List.Subset.refl _
  · exact .ite (clearUnknown_printed _ _) (.ite (clearUnknown_printed _ _)
      (.ite (clearUnknown_printed _ _) (countFile_printed _ _ _)))

/-- One inode more. -/
theorem Passed.step (h : Passed sb d pre w) (hi : i ∉ pre)
    (hp : Passes sb i w w') : Passed sb d (pre ++ [i]) w' where
  data := hp.data.trans h.data
  left j hj := by
    rw [List.mem_append, List.mem_singleton, not_or] at hj
    rw [hp.inodes j hj.2, hp.others j hj.2]
    exact h.left j hj.1
  known j hj := by
    rcases List.mem_append.mp hj with hmem | hmem
    · have hji : j ≠ i := fun hji => hi (hji ▸ hmem)
      rw [hp.others j hji]
      exact h.known j hmem
    · rw [List.mem_singleton.mp hmem]
      exact hp.known
  reads := by
    have hsame := @allClaims_congr sb w w' pre fun j hj => by
      have hji : j ≠ i := fun hji => hi (hji ▸ hj)
      exact held_congr hp.data (hp.inodes j hji) (by rw [hp.others j hji])
    rw [allClaims_concat, allBad_concat, hsame.1, hsame.2]
    exact hp.reads h.reads

theorem inodes_passed (hgeo : MetadataInside sb)
    (hfast : ∀ i, fast (d.inodes i) → walkClaims sb d (d.inodes i) = [])
    (l : List Nat) : ∀ {pre : List Nat} {s t : Phase1}, (pre ++ l).Nodup →
      l.forM (pass1Inode sb true) s = .ok () t → Quiet t.walk.reports →
      Passed sb d pre s.walk → Passed sb d (pre ++ l) t.walk := by
  induction l with
  | nil =>
    intro pre s t _ hrun _ h
    cases hrun
    rw [List.append_nil]
    exact h
  | cons i l ih =>
    intro pre s t hnodup hrun hquiet h
    obtain ⟨u, s₁, hfirst, hrest⟩ := bind_eq_ok hrun
    have hsub := (Keeps.forM (pass1Inode_printed true) l).ok hrest
    rw [← List.singleton_append, ← List.append_assoc] at hnodup ⊢
    have hi : i ∉ pre := by
      intro hmem
      have hparts := List.nodup_append'.mp (List.nodup_append'.mp hnodup).1
      exact hparts.2.2 hmem (List.mem_singleton_self i)
    obtain ⟨hino, hunset⟩ := h.left i hi
    refine ih hnodup hrest hquiet (h.step hi ?_)
    refine pass1Inode_passes hgeo hunset ?_ hfirst (hquiet.mono hsub)
    rw [hino, walkClaims_congr h.data]
    exact hfast i

theorem reserveGroup_eq (s : Pass1) (c : Nat) :
    reserveGroup sb s c
      = { s with
          blockmap := fun f => s.blockmap f || decide (GroupReserved sb c f) } := by
  unfold reserveGroup GroupReserved
  by_cases hc : c = 0
  · simp only [hc, if_true]
  · simp only [hc, if_false, Nat.add_zero]

/-- The metadata of the first `n` groups in the block map. -/
theorem foldl_reserveGroup (s : Pass1) (n : Nat) :
    ∃ m, (List.range n).foldl (reserveGroup sb) s = { s with blockmap := m } ∧
      ∀ f, m f = true ↔ s.blockmap f = true ∨ ∃ c < n, GroupReserved sb c f := by
  induction n with
  | zero =>
    refine ⟨s.blockmap, rfl, fun f => ⟨Or.inl, fun h => h.resolve_right ?_⟩⟩
    intro hex
    obtain ⟨c, hc, -⟩ := hex
    exact Nat.not_lt_zero c hc
  | succ n ih =>
    obtain ⟨m, heq, hm⟩ := ih
    refine ⟨fun f => m f || decide (GroupReserved sb n f), ?_, fun f => ?_⟩
    · rw [List.range_succ, List.foldl_append, heq]
      show reserveGroup sb _ n = _
      rw [reserveGroup_eq]
    · rw [Bool.or_eq_true, hm f, decide_eq_true_iff, or_assoc]
      refine or_congr_right ⟨fun h => ?_, fun h => ?_⟩
      · rcases h with ⟨c, hc, hin⟩ | hin
        · exact ⟨c, by omega, hin⟩
        · exact ⟨n, Nat.lt_succ_self n, hin⟩
      · obtain ⟨c, hc, hin⟩ := h
        by_cases hcn : c = n
        · exact .inr (hcn ▸ hin)
        · exact .inl ⟨c, by omega, hin⟩

theorem inodeRange_nodup (sb : Superblock) : (inodeRange sb).Nodup :=
  List.nodup_range.filter _

/-- **What phase 1 leaves.** -/
theorem pass1_passed (hgeo : MetadataInside sb)
    (hfast : ∀ i, fast (d.inodes i) → walkClaims sb d (d.inodes i) = [])
    {s : Phase1} (hrun : pass1 sb true (Phase1.start d) = .ok () s)
    (hquiet : Quiet s.walk.reports) : Passed sb d (inodeRange sb) s.walk := by
  unfold pass1 at hrun
  rw [bind_modify] at hrun
  have hpassed := @inodes_passed sb d hgeo hfast (inodeRange sb) []
    _ s (inodeRange_nodup sb) hrun hquiet
  refine hpassed ?_
  dsimp only
  obtain ⟨m, heq, hm⟩ := @foldl_reserveGroup sb (Phase1.start d).walk sb.cgCount
  rw [heq]
  refine ⟨rfl, fun j _ => ⟨rfl, rfl⟩, fun j hj => absurd hj List.not_mem_nil, ?_⟩
  have hmap : m = reserved sb := by
    funext f
    rw [Bool.eq_iff_iff, hm f]
    unfold reserved reservedAt
    by_cases h : ∃ c < sb.cgCount, GroupReserved sb c f
    · rw [if_pos h]
      exact ⟨fun _ => rfl, fun _ => .inr h⟩
    · rw [if_neg h]
      refine ⟨fun hor => ?_, fun h0 => nomatch h0⟩
      rcases hor with h0 | hex
      · cases h0
      · exact absurd hex h
  show Entered (reserved sb) [] [] m [] [] _
  rw [hmap]
  refine (Entered.start (reserved sb)).congr fun j => ?_
  refine ⟨fun h => ?_, fun h => h.elim⟩
  rcases h with h | h
  · cases h
  · cases h

end All

end NextUfs.Fsck
