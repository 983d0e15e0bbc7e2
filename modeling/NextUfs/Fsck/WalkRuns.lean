/-
  NextUfs.Fsck.WalkRuns
  ─────────────────────
  **THE RUNS OF A WALK.**
  The phases walk an inode with different functions, and each walk calls its
  function on the same runs in the same order, until the function stops it.
  What is behind an indirect block that is out of range is not walked.
    • `inodeRuns`        — the runs,
    • `Visits`           — what a function does with one run,
    • `scanInode_visits` — what a walk does with an inode, by induction on the
      levels of its trees.
-/
import NextUfs.Fsck.Phases

namespace NextUfs.Fsck

open State

/-! ## §1. The runs. -/

section Runs

variable (sb : Superblock) (d : Disk)

/-- The runs of an indirect block and of what it points to. -/
def treeRuns : Nat → Nat → Int → List (Nat × Nat)
  | 0, _, _ => []
  | ilevel + 1, blkno, isize =>
    (blkno, sb.fragsPerBlock) ::
      if outrange sb blkno sb.fragsPerBlock then []
      else
        (List.range (nif sb ilevel isize)).flatMap fun i =>
          let b := entry sb d blkno i
          if b = 0 then []
          else if 0 < ilevel then
            treeRuns ilevel b (isize - int32 ((i + 1 : Int) * sizepb sb ilevel))
          else [(b, sb.fragsPerBlock)]

/-- **The runs of an inode.** -/
def inodeRuns (dp : Inode) : List (Nat × Nat) :=
  if special dp then []
  else
    ((List.finRange 12).flatMap fun i =>
      if dp.db i = 0 then [] else [(dp.db i, directFrags sb dp.size i)]) ++
    ([0, 1, 2] : List (Fin 3)).flatMap fun slot =>
      if dp.ib slot = 0 then []
      else
        treeRuns sb d (slot + 1) (dp.ib slot)
          (dp.size - int32 (sb.blockSize * 12))

end Runs

/-! ## §2. One run, and lists. -/

section Visits

variable {ε σ : Type}

/-- **What a function does with one run**: it takes what holds after `done` to
what holds after the run too; it calls a run `SKIP` only when it is out of
range, and stops only where the runs that are left change nothing. -/
structure Visits (sb : Superblock) (func : Nat → Nat → EStateM ε σ Ret)
    (I : List (Nat × Nat) → σ → Prop) (Idle : σ → Prop) : Prop where
  step : ∀ {done b n s ret t}, I done s → func b n s = .ok ret t →
    I (done ++ [(b, n)]) t ∧ (ret = .skip → outrange sb b n = true ∨ Idle t) ∧
      (ret = .stop → Idle t)
  idle : ∀ {done t} more, Idle t → I done t → I (done ++ more) t

variable {sb : Superblock} {func : Nat → Nat → EStateM ε σ Ret} {d : Disk}
  {I : List (Nat × Nat) → σ → Prop} {Idle : σ → Prop}

/-- **A list of pointers**, each with its runs. -/
theorem scanList_visits (h : Visits sb func I Idle) {α : Type}
    {f : α → EStateM ε σ Ret} {runs : α → List (Nat × Nat)} {l : List α}
    (hf : ∀ a ∈ l, ∀ {done s ret t}, I done s → f a s = .ok ret t →
      I (done ++ runs a) t ∧ (ret = .stop → Idle t))
    {done : List (Nat × Nat)} {s t : σ} {ret : Ret} (hs : I done s)
    (hrun : scanList f l s = .ok ret t) :
    I (done ++ l.flatMap runs) t ∧ (ret = .stop → Idle t) := by
  induction l generalizing done s with
  | nil =>
    cases hrun
    rw [List.flatMap_nil, List.append_nil]
    exact ⟨hs, fun h => nomatch h⟩
  | cons a l ih =>
    obtain ⟨r, s₁, hfirst, hrest⟩ := bind_eq_ok hrun
    obtain ⟨hdone, hstop⟩ := hf a List.mem_cons_self hs hfirst
    rw [List.flatMap_cons, ← List.append_assoc]
    by_cases hr : r = .stop
    · rw [if_pos hr] at hrest
      cases hrest
      have hidle := hstop hr
      exact ⟨h.idle _ hidle hdone, fun _ => hidle⟩
    · rw [if_neg hr] at hrest
      exact ih (fun b hb => hf b (List.mem_cons_of_mem a hb)) hdone hrest

/-! ## §3. Trees and inodes. -/

/-- **One tree.** -/
theorem scanIndirect_visits (h : Visits sb func I Idle) (ilevel : Nat) :
    ∀ {blkno : Nat} {isize : Int} {done : List (Nat × Nat)} {s t : σ} {ret : Ret},
      I done s → scanIndirect sb func d ilevel blkno isize s = .ok ret t →
      I (done ++ treeRuns sb d ilevel blkno isize) t ∧ (ret = .stop → Idle t) := by
  induction ilevel with
  | zero =>
    intro blkno isize done s t ret hs hrun
    cases hrun
    show I (done ++ []) _ ∧ _
    rw [List.append_nil]
    exact ⟨hs, fun h => nomatch h⟩
  | succ ilevel ih =>
    intro blkno isize done s t ret hs hrun
    rw [scanIndirect] at hrun
    obtain ⟨n, s₁, hfirst, hrest⟩ := bind_eq_ok hrun
    obtain ⟨hdone, hskip, hstop⟩ := h.step hs hfirst
    rw [treeRuns, ← List.singleton_append, ← List.append_assoc]
    by_cases hn : n = .keepon
    · rw [if_neg (not_not_intro hn)] at hrest
      by_cases hout : outrange sb blkno sb.fragsPerBlock = true
      · rw [if_pos hout] at hrest
        cases hrest
        rw [if_pos hout, List.append_nil]
        exact ⟨hdone, fun h => nomatch h⟩
      · rw [if_neg hout] at hrest
        rw [if_neg hout]
        refine scanList_visits h (fun i _ => ?_) hdone hrest
        intro done s ret t hs hrun
        dsimp only at hrun ⊢
        by_cases hb : entry sb d blkno i = 0
        · rw [if_pos hb] at hrun
          cases hrun
          rw [if_pos hb, List.append_nil]
          exact ⟨hs, fun h => nomatch h⟩
        · rw [if_neg hb] at hrun
          rw [if_neg hb]
          by_cases hlevel : 0 < ilevel
          · rw [if_pos hlevel] at hrun
            rw [if_pos hlevel]
            exact ih hs hrun
          · rw [if_neg hlevel] at hrun
            rw [if_neg hlevel]
            obtain ⟨hdone, -, hstop⟩ := h.step hs hrun
            exact ⟨hdone, hstop⟩
    · rw [if_pos hn] at hrest
      cases hrest
      cases ret with
      | stop =>
        have hidle := hstop rfl
        exact ⟨h.idle _ hidle hdone, fun _ => hidle⟩
      | skip =>
        refine ⟨?_, fun h => nomatch h⟩
        rcases hskip rfl with hout | hidle
        · rw [if_pos hout, List.append_nil]
          exact hdone
        · exact h.idle _ hidle hdone
      | keepon => exact absurd rfl hn

/-- **One inode.** -/
theorem scanInode_visits (h : Visits sb func I Idle) {dp : Inode}
    {done : List (Nat × Nat)} {s t : σ} {ret : Ret} (hs : I done s)
    (hrun : scanInode sb func d dp s = .ok ret t) :
    I (done ++ inodeRuns sb d dp) t ∧ (ret = .stop → Idle t) := by
  unfold scanInode at hrun
  unfold inodeRuns
  by_cases hspecial : special dp = true
  · rw [if_pos hspecial] at hrun
    cases hrun
    rw [if_pos hspecial, List.append_nil]
    exact ⟨hs, fun h => nomatch h⟩
  · rw [if_neg hspecial] at hrun
    rw [if_neg hspecial, ← List.append_assoc]
    obtain ⟨r, s₁, hdirect, hrest⟩ := bind_eq_ok hrun
    have hfirst := @scanList_visits _ _ _ _ _ _ h _ _
      (fun i : Fin 12 =>
        if dp.db i = 0 then [] else [(dp.db i, directFrags sb dp.size i)]) _
      (fun i _ => by
        intro done s ret t hs hrun
        by_cases hi : dp.db i = 0
        · rw [if_pos hi] at hrun
          cases hrun
          rw [if_pos hi, List.append_nil]
          exact ⟨hs, fun h => nomatch h⟩
        · rw [if_neg hi] at hrun
          rw [if_neg hi]
          obtain ⟨hdone, -, hstop⟩ := h.step hs hrun
          exact ⟨hdone, hstop⟩) _ _ _ _ hs hdirect
    obtain ⟨hdone, hstop⟩ := hfirst
    by_cases hr : r = .stop
    · rw [if_pos hr] at hrest
      cases hrest
      have hidle := hstop hr
      exact ⟨h.idle _ hidle hdone, fun _ => hidle⟩
    · rw [if_neg hr] at hrest
      refine scanList_visits h (fun slot _ => ?_) hdone hrest
      intro done s ret t hs hrun
      by_cases hslot : dp.ib slot = 0
      · rw [if_pos hslot] at hrun
        cases hrun
        rw [if_pos hslot, List.append_nil]
        exact ⟨hs, fun h => nomatch h⟩
      · rw [if_neg hslot] at hrun
        rw [if_neg hslot]
        exact scanIndirect_visits h _ hs hrun

end Visits

end NextUfs.Fsck
