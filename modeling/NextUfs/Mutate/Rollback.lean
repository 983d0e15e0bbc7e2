/-
  NextUfs.Mutate.Rollback
  ───────────────────────
  **A REWRITE THAT RUNS OUT OF SPACE IS UNDONE.**

  Overwrite, append, truncate and pwrite build the new block tree before they
  touch the old one.  Only the building asks for space: when it is refused, at
  whichever block, data or pointers, everything that was built is given back,
  the inode has not been written, and the old tree has not been freed.

    • `freeFileStorage_notNoSpace`   — giving back never asks for space,
    • `rewriteInodeContents_noSpace` — so the building was refused,
    • `Rewrite.run_error`            — for each of the four operations,
    • `rewrite_rolledBack`           — the file and free space are as before.
-/
import NextUfs.Core.SameSpace
import NextUfs.Mutate.RewriteSpec

namespace NextUfs

open State

/-! ## §1. Giving back never asks for space. -/

/-- Any error but a refusal for want of space. -/
def NotNoSpace (e : Errno) : Prop := e ≠ .ENOSPC

theorem onDisk_raises {α : Type} {E : Errno → Prop} {x : Op α}
    (h : Raises E x) : Raises E (onDisk x) := by
  intro s
  rw [wp_onDisk]
  exact h s.disk

section Free

variable (sb : Superblock)

theorem readExact_notNoSpace (off n : Nat) :
    Raises NotNoSpace (readExact off n) := fun _ => trivial

theorem readIndirectEntry_notNoSpace (b i : Nat) :
    Raises NotNoSpace (readIndirectEntry sb b i) :=
  .ite (.throw Errno.noConfusion)
    (.bind (readExact_notNoSpace _ _) fun _ => .pure _)

theorem resolveIndirectDataBlock_notNoSpace : ∀ level b i,
    Raises NotNoSpace (resolveIndirectDataBlock sb level b i)
  | 0, _, _ => .ite (.pure _) (.throw Errno.noConfusion)
  | level + 1, b, i => by
    unfold resolveIndirectDataBlock
    exact .ite (.pure _) (.ite (readIndirectEntry_notNoSpace sb b i)
      (.bind (readIndirectEntry_notNoSpace sb b _) fun next =>
        resolveIndirectDataBlock_notNoSpace level next _))

theorem resolveInodeDataBlock_notNoSpace (ino : Inode) (lb : Nat) :
    Raises NotNoSpace (resolveInodeDataBlock sb ino lb) := by
  unfold resolveInodeDataBlock
  split
  · exact .pure _
  · cases indirectSlot sb (lb - 12) with
    | none => exact .throw Errno.noConfusion
    | some p => exact resolveIndirectDataBlock_notNoSpace sb _ _ _

/-- A run that is not in use is an error, but not this one. -/
theorem freeFragmentRun_notNoSpace (fragBase frags : Nat) :
    Raises NotNoSpace (freeFragmentRun sb fragBase frags) := by
  refine .ite (.throw Errno.noConfusion) (.of_runs fun d e d' h => ?_)
  obtain ⟨-, ⟨-, rfl⟩ | ⟨-, hstep⟩⟩ := updateGroup_error h
  · exact Errno.noConfusion
  · unfold releaseRun at hstep
    split at hstep
    · cases hstep
      exact Errno.noConfusion
    · dsimp only at hstep
      split at hstep <;> cases hstep

theorem freeIndirectMetadataTree_notNoSpace : ∀ level b,
    Raises NotNoSpace (freeIndirectMetadataTree sb level b)
  | 0, b => .ite (.pure _) (freeFragmentRun_notNoSpace sb b _)
  | level + 1, b => by
    have hfree := freeFragmentRun_notNoSpace sb b sb.fragsPerBlock
    unfold freeIndirectMetadataTree
    refine .ite (.pure _) (.ite (.bind (.forM (fun i => ?_) _)
      fun _ => hfree) hfree)
    exact .bind (readIndirectEntry_notNoSpace sb b i) fun child =>
      .ite (.pure _) (freeIndirectMetadataTree_notNoSpace level child)

/-- **Giving a file's storage back never asks for space.** -/
theorem freeFileStorage_notNoSpace :
    Raises NotNoSpace (freeFileStorage sb) := by
  intro s
  unfold freeFileStorage
  rw [wp_bind, wp_get, wp_ite]
  refine ⟨fun _ => trivial, fun _ => ?_⟩
  have hdata : ∀ lb, Raises NotNoSpace (do
      let dataFrag ← onDisk (resolveInodeDataBlock sb s.ino lb)
      if dataFrag ≠ 0 then
        onDisk (freeFragmentRun sb dataFrag
          (fragsNeeded sb s.ino.size lb))) := fun lb =>
    .bind (onDisk_raises (resolveInodeDataBlock_notNoSpace sb _ lb))
      fun _ => .ite (onDisk_raises (freeFragmentRun_notNoSpace sb _ _))
        (.pure _)
  have hslot : ∀ slot : Fin 3, Raises NotNoSpace (do
      onDisk (freeIndirectMetadataTree sb (slot + 1) (s.ino.ib slot))
      modify fun s => { s with ino := s.ino.setIb slot 0 }) := fun slot =>
    .bind (onDisk_raises (freeIndirectMetadataTree_notNoSpace sb _ _))
      fun _ => .modify _
  have hall := Raises.bind (Raises.forM hdata
    (List.range (fileBlocks sb s.ino.size))) fun _ =>
      Raises.bind (.modify fun s : Storing =>
          { s with ino := { s.ino with db := fun _ => 0 } }) fun _ =>
      Raises.bind (.forM hslot [0, 1, 2]) fun _ =>
        .modify fun s : Storing =>
          { s with ino := { s.ino with size := 0, blocks := 0 } }
  exact hall s

end Free

/-! ## §2. The building was refused. -/

section Refused

variable {sb : Superblock} {d d' : Disk} {inodeNo preferredCg : Nat}
  {inode : Inode} {data : Bytes}

/-- **A rewrite without space**: the new tree was not finished, and nothing
was done after it. -/
theorem rewriteInodeContents_noSpace
    (h : rewriteInodeContents sb inodeNo inode preferredCg data d
      = .error .ENOSPC d') :
    ∃ s, storeData sb preferredCg data (clearInodeLayout inode) d
        = .error .ENOSPC s ∧ d' = s.disk := by
  unfold rewriteInodeContents at h
  rcases bind_eq_error h with h | ⟨rc, d₁, hstore, h⟩
  · unfold runStorer at h
    split at h <;> cases h
  rcases runStorer_ok hstore with ⟨s, hs, rfl, rfl⟩ | ⟨e, s, hs, rfl, rfl⟩
  · exfalso
    rcases bind_eq_error h with h | ⟨now, d₂, htime, h⟩
    · cases h
    cases htime
    rcases bind_eq_error h with hwrite | ⟨_, d₃, hwrite, h⟩
    · -- the inode table has no place for the inode: another error
      unfold writeInodeRaw at hwrite
      split at hwrite <;> cases hwrite
    rcases bind_eq_error h with hfree | ⟨rc', d₄, hfree, h⟩
    · unfold runStorer at hfree
      split at hfree <;> cases hfree
    rcases runStorer_ok hfree with ⟨t, -, rfl, -⟩ | ⟨e, t, ht, rfl, -⟩
    · cases h
    · cases h
      exact (freeFileStorage_notNoSpace sb).error ht rfl
  · cases h
    exact ⟨s, hs, rfl⟩

/-- A cleared inode of a file is a fresh one. -/
theorem clearInodeLayout_fresh {ino : Inode} (hfast : isFastLink ino = false) :
    FreshInode (clearInodeLayout ino) :=
  ⟨clearInodeLayout_noPointers ino, hfast⟩

/-- A regular file is no link. -/
theorem isFastLink_of_reg {ino : Inode} (h : ino.mode &&& IFMT = IFREG) :
    isFastLink ino = false := by
  unfold isFastLink
  rw [h]
  rfl

end Refused

/-! ## §3. The operations. -/

section Run

variable {sb : Superblock} {ctx : WriteCtx} {path : Bytes} {d d' : Disk}

/-- After a reader a failing run has left the disk alone, or failed later. -/
theorem readOnly_bind_error {α β : Type} {x : Op α} {f : α → Op β}
    {e : Errno} (hx : ReadOnly x) (h : (x >>= f) d = .error e d') :
    d' = d ∨ ∃ a, x d = .ok a d ∧ f a d = .error e d' := by
  rcases bind_eq_error h with hfail | ⟨a, d₁, hok, hrest⟩
  · exact Or.inl (hx.error hfail)
  · obtain rfl := hx.ok hok
    exact Or.inr ⟨a, hok, hrest⟩

theorem liftCheck_readOnly {α : Type} (r : Except Errno α) :
    ReadOnly (liftCheck r) := by
  cases r with
  | error e => exact .throw e
  | ok a => exact .pure a

theorem lookupForWrite_readOnly (notReg : Errno) :
    ReadOnly (lookupForWrite sb ctx path notReg) :=
  .bind (nodeLookup_readOnly sb path false) fun _ =>
    .ite (.throw _) (.bind (liftCheck_readOnly _) fun _ => .pure _)

/-- The file an operation found is a regular one. -/
theorem lookupForWrite_reg {notReg : Errno} {node : Node}
    (h : lookupForWrite sb ctx path notReg d = .ok node d') :
    node.inode.mode &&& IFMT = IFREG := by
  unfold lookupForWrite at h
  obtain ⟨t, d₁, -, hnext⟩ := bind_eq_ok h
  split at hnext
  · cases hnext
  · rename_i hreg
    obtain ⟨_, d₂, -, hret⟩ := bind_eq_ok hnext
    cases hret
    rw [Bool.not_eq_false] at hreg
    exact eq_of_beq hreg

/-- What a rewrite that fails has come to: nothing has changed, or the file
was found and its rewriting has failed. -/
def FailedAt (sb : Superblock) (path : Bytes) (e : Errno) (d d' : Disk) :
    Prop :=
  d' = d ∨ ∃ target data, nodeLookup sb path false d = .ok target d ∧
    target.inode.mode &&& IFMT = IFREG ∧
    rewriteInodeContents sb target.inodeNo target.inode
      (target.inodeNo / sb.inodesPerGroup) data d = .error e d'

/-- The shape of the operations: check the ids, find the file, go on with
it. -/
theorem failedAt_of_steps {e notReg : Errno} {k : Node → Op Unit}
    (hk : ∀ target, k target d = .error e d' → d' = d ∨
      ∃ data, rewriteInodeContents sb target.inodeNo target.inode
        (target.inodeNo / sb.inodesPerGroup) data d = .error e d')
    (h : (do
      liftCheck (requireCtxIdsFit ctx)
      let target ← lookupForWrite sb ctx path notReg
      k target) d = .error e d') : FailedAt sb path e d d' := by
  rcases readOnly_bind_error (liftCheck_readOnly _) h with h | ⟨_, -, h⟩
  · exact Or.inl h
  rcases readOnly_bind_error (lookupForWrite_readOnly notReg) h
    with h | ⟨target, hfound, h⟩
  · exact Or.inl h
  rcases hk target h with h | ⟨data, h⟩
  · exact Or.inl h
  · exact Or.inr ⟨target, data, (lookupForWrite_ok hfound).1,
      lookupForWrite_reg hfound, h⟩

/-- **Each operation fails before it changes anything, or in the rewriting.** -/
theorem Rewrite.run_error (op : Rewrite) {e : Errno}
    (h : op.run sb ctx path d = .error e d') : FailedAt sb path e d d' := by
  -- what is kept of the file is read first
  have hread : ∀ {target : Node} {n : Nat} {f : Bytes → Bytes},
      (do
        let old ← inodeReadData sb target.inode 0 n
        rewriteInodeContents sb target.inodeNo target.inode
          (target.inodeNo / sb.inodesPerGroup) (f old)) d = .error e d' →
      d' = d ∨ ∃ data, rewriteInodeContents sb target.inodeNo target.inode
        (target.inodeNo / sb.inodesPerGroup) data d = .error e d' := by
    intro target n f hrun
    rcases readOnly_bind_error (inodeReadData_readOnly sb _ _ _) hrun
      with hsame | ⟨old, -, hrest⟩
    · exact Or.inl hsame
    · exact Or.inr ⟨f old, hrest⟩
  cases op with
  | overwrite data => exact failedAt_of_steps (fun _ hrun => Or.inr ⟨data, hrun⟩) h
  | append data =>
    refine failedAt_of_steps (fun target hrun => ?_) h
    dsimp only at hrun
    split at hrun
    · exact @hread target _ (· ++ data) hrun
    · exact Or.inr ⟨data, hrun⟩
  | truncate size =>
    have hcall : pathTruncate sb ctx path size d = .error e d' := h
    unfold pathTruncate at hcall
    split at hcall
    · cases hcall
      exact Or.inl rfl
    refine failedAt_of_steps (fun target hrun => ?_) hcall
    dsimp only at hrun
    split at hrun
    · exact @hread target _ (zeroPadded size) hrun
    · exact Or.inr ⟨_, hrun⟩
  | pwrite data offset =>
    have hcall : pathPwrite sb ctx path data offset d = .error e d' := h
    unfold pathPwrite at hcall
    split at hcall
    · cases hcall
      exact Or.inl rfl
    refine failedAt_of_steps (fun target hrun => ?_) hcall
    dsimp only at hrun
    split at hrun
    · exact @hread target _ (fun old => overlay (zeroPadded
        (max target.inode.size (offset + data.length)) old) offset data) hrun
    · exact Or.inr ⟨_, hrun⟩

/-! ## §4. The rollback. -/

/-- **A rewrite that runs out of space is undone.**  The file the path names,
and every other file, reads as before; the bitmaps and the counts of free
space of every group are what they were. -/
theorem rewrite_rolledBack {modes : Nat → UInt16} {live : Finset Nat}
    (op : Rewrite) (hgeo : SpaceGeometry sb) (hsp : FreeSpace sb modes d)
    (hown : FragsOwned sb live d)
    (h : op.run sb ctx path d = .error .ENOSPC d') :
    (∀ m ∈ live, storesBlocks (d.inodes m) = true →
      ∀ start n, outcome (inodeReadData sb (d'.inodes m) start n) d'
        = outcome (inodeReadData sb (d.inodes m) start n) d) ∧
    d'.inodes = d.inodes ∧ SameSpace sb d d' := by
  rcases op.run_error h with rfl | ⟨target, data, -, hreg, hrewrite⟩
  · exact ⟨fun _ _ _ _ _ => rfl, rfl, SameSpace.refl sb d'⟩
  obtain ⟨s, hstore, rfl⟩ := rewriteInodeContents_noSpace hrewrite
  obtain ⟨hsame, hinodes, hframe⟩ := storeData_restored hgeo hsp
    (hown.zero hgeo.toDataGeometry)
    (clearInodeLayout_fresh (isFastLink_of_reg hreg)) hstore
  refine ⟨fun m hm hblocks start n => ?_, hinodes, hsame⟩
  rw [hinodes]
  exact hown.unseen hgeo.toDataGeometry hframe hm hblocks start n

end Run

/-! ## §5. The disk with two files. -/

/-- The two files' disk with its counts per rotational position. -/
def countedFiles : Disk :=
  { filesDisk with
    cgs := fun c =>
      { filesDisk.cgs c with
        b := fun cyl pos =>
          UInt16.ofNat (posBlocks filesSb (filesDisk.cgs c) cyl pos) } }

theorem files_space_geometry : SpaceGeometry filesSb := by
  refine ⟨files_geometry, by decide, fun c hc => ?_, by decide⟩
  obtain rfl : c = 0 := Nat.lt_one_iff.mp hc
  decide

theorem countedFiles_owned : FragsOwned filesSb {2, 3, 4} countedFiles :=
  ⟨files_owned.once⟩

theorem countedFiles_space :
    FreeSpace filesSb (fun m => (filesDisk.inodes m).mode) countedFiles := by
  have hcg : ∀ c, countedFiles.cgs c = countedFiles.cgs 0 := fun _ => rfl
  refine ⟨⟨fun c hc => ?_, fun c hc => ?_, fun _ _ => rfl, rfl⟩,
    fun _ _ => rfl, fun c hc => ?_⟩
  · rw [hcg c]
    refine ⟨by decide +kernel, by decide +kernel, fun j h1 hj => ?_,
      by decide +kernel, fun cyl _ pos _ => ?_, fun i hi => ?_⟩
    · -- a block of one fragment has no shorter runs
      have : j < 1 := hj
      omega
    · show UInt16.ofNat (posBlocks filesSb (filesDisk.cgs 0) cyl pos) = _
      unfold posBlocks
      rfl
    · have : 16 ≤ i := hi
      show decide (4 ≤ i ∧ i < 16) = false
      rw [decide_eq_false_iff_not]
      omega
  · obtain rfl : c = 0 := Nat.lt_one_iff.mp hc
    constructor <;> decide +kernel
  · obtain rfl : c = 0 := Nat.lt_one_iff.mp hc
    rfl

/-- Growing `/f` to a thousand bytes takes every free block and fails at the
first pointer block; the file reads as before. -/
theorem rewrite_rolledBack_files :
    ∃ d', (Rewrite.truncate 1000).run filesSb ⟨.SU, 0, 0, []⟩ [47, 102]
        countedFiles = .error .ENOSPC d' ∧
      outcome (inodeReadData filesSb (d'.inodes 3) 0 5) d'
        = .ok [2, 2, 2, 2, 2] ∧
      SameSpace filesSb countedFiles d' := by
  have hfull : failedWith (fun e => e == .ENOSPC) ((Rewrite.truncate 1000).run
      filesSb ⟨.SU, 0, 0, []⟩ [47, 102] countedFiles) = true := by
    decide +kernel
  obtain ⟨e, d', hrun, he⟩ := exists_of_failedWith hfull
  obtain rfl : e = .ENOSPC := eq_of_beq he
  obtain ⟨hread, -, hsame⟩ := rewrite_rolledBack _ files_space_geometry
    countedFiles_space countedFiles_owned hrun
  exact ⟨d', hrun, hread 3 (by decide) (by decide) 0 5, hsame⟩

end NextUfs
