/-
  NextUfs.Mutate.Confinement
  ──────────────────────────
  **WHAT A PLAIN USER MUST BE ALLOWED TO DO.**

  Under `WRITE_USER` an operation that succeeds has found its user allowed to
  change the parent directory, to write the target, or to be its owner.  The
  directories on the way to them are searched for anybody.

    • `Permitted`              — what each request asks of its user,
    • `run_permitted`          — a request that succeeded was permitted,
    • `overwrite_unsearchable` — below a directory the user may not search.
-/
import NextUfs.Core.Resolve
import NextUfs.Mutate.Operations
import NextUfs.Mutate.RewriteSpec

namespace NextUfs

open State

/-! ## §1. Permissions. -/

section Permissions

variable (sb : Superblock) (ctx : WriteCtx) (d : Disk)

/-- `nextufs__node_check_access` allows it. -/
def MayAccess (node : Node) (mask : AccessMask) : Prop :=
  nodeCheckAccess node ctx.uid ctx.gid ctx.groups mask = .ok ()

/-- The user may search and write the directory that holds the last name of
`path`. -/
def MayChangeParent (path : Bytes) : Prop :=
  ∃ parentPath name parent, splitPath path = .ok (parentPath, name) ∧
    nodeLookup sb parentPath true d = .ok parent d ∧
    MayAccess ctx parent WX_OK

/-- The user may write what `path` names. -/
def MayWrite (path : Bytes) : Prop :=
  ∃ target, nodeLookup sb path false d = .ok target d ∧
    MayAccess ctx target W_OK

/-- The user owns what `path` names. -/
def Owns (path : Bytes) : Prop :=
  ∃ node, nodeLookup sb path false d = .ok node d ∧
    ctx.uid = node.inode.uid.toNat

/-- A directory that goes to another parent is written itself. -/
def MayMove (sourcePath targetPath : Bytes) : Prop :=
  ∀ source oldPath oldName newPath newName oldParent newParent,
    nodeLookup sb sourcePath false d = .ok source d →
    splitPath sourcePath = .ok (oldPath, oldName) →
    splitPath targetPath = .ok (newPath, newName) →
    nodeLookup sb oldPath true d = .ok oldParent d →
    nodeLookup sb newPath true d = .ok newParent d →
    nodeIsDir source = true → oldParent.inodeNo ≠ newParent.inodeNo →
    MayAccess ctx source W_OK

/-- **What a request asks of its user.** -/
def Permitted : Mutation → Prop
  | .create path _ | .mkdir path _ | .rmdir path | .link _ path
  | .symlink _ path => MayChangeParent sb ctx d path
  | .unlink path => MayChangeParent sb ctx d path ∧ MayWrite sb ctx d path
  | .rename sourcePath targetPath => sourcePath = targetPath ∨
      MayChangeParent sb ctx d sourcePath ∧
      MayChangeParent sb ctx d targetPath ∧
      MayMove sb ctx d sourcePath targetPath
  | .overwrite path _ | .append path _ | .truncate path _
  | .pwrite path _ _ => MayWrite sb ctx d path
  | .chmod path _ | .chown path _ _ => Owns sb ctx d path

end Permissions

/-! ## §2. Checks that were passed. -/

section Checks

variable {sb : Superblock} {ctx : WriteCtx} {d d' : Disk} {path : Bytes}

theorem requireUserAccess_ok (huser : ctx.policy = .USER) {node : Node}
    {mask : AccessMask} (h : requireUserAccess ctx node mask = .ok ()) :
    MayAccess ctx node mask := by
  unfold requireUserAccess at h
  rwa [if_neg (not_not.mpr huser)] at h

theorem lookupParent_ok (huser : ctx.policy = .USER) {parentPath : Bytes}
    {needDir : Bool} {parent : Node}
    (h : lookupParent sb ctx parentPath needDir d = .ok parent d') :
    nodeLookup sb parentPath true d = .ok parent d ∧ d' = d ∧
      MayAccess ctx parent WX_OK := by
  unfold lookupParent at h
  obtain ⟨node, d₁, hlook, hnext⟩ := bind_eq_ok h
  obtain rfl := (nodeLookup_readOnly sb parentPath true).ok hlook
  split at hnext
  · cases hnext
  · obtain ⟨_, d₂, hcheck, hret⟩ := bind_eq_ok hnext
    obtain ⟨haccess, rfl⟩ := liftCheck_ok hcheck
    cases hret
    exact ⟨hlook, rfl, requireUserAccess_ok huser haccess⟩

theorem lookupForWrite_mayWrite (huser : ctx.policy = .USER) {notReg : Errno}
    {target : Node}
    (h : lookupForWrite sb ctx path notReg d = .ok target d') :
    MayWrite sb ctx d path := by
  unfold lookupForWrite at h
  obtain ⟨node, d₁, hlook, hnext⟩ := bind_eq_ok h
  obtain rfl := (nodeLookup_readOnly sb path false).ok hlook
  split at hnext
  · cases hnext
  · obtain ⟨_, d₂, hcheck, -⟩ := bind_eq_ok hnext
    exact ⟨node, hlook, requireUserAccess_ok huser (liftCheck_ok hcheck).1⟩

/-- A check that comes first. -/
theorem afterCheck {α β : Type} {r : Except Errno α} {k : α → Op β} {b : β}
    (h : (liftCheck r >>= k) d = .ok b d') :
    ∃ a, r = .ok a ∧ k a d = .ok b d' := by
  obtain ⟨a, d₁, hcheck, hnext⟩ := bind_eq_ok h
  obtain ⟨hr, rfl⟩ := liftCheck_ok hcheck
  exact ⟨a, hr, hnext⟩

/-- **The start of the operations on a name**: its parent has been found and
may be changed. -/
theorem findParent_ok (huser : ctx.policy = .USER) {needDir : Bool}
    {r : Node × Bytes} (h : findParent sb ctx path needDir d = .ok r d') :
    MayChangeParent sb ctx d path ∧ d' = d := by
  unfold findParent at h
  obtain ⟨_, -, h₁⟩ := afterCheck h
  obtain ⟨⟨parentPath, name⟩, hsplit, h₂⟩ := afterCheck h₁
  obtain ⟨_, -, h₃⟩ := afterCheck h₂
  obtain ⟨parent, d₁, hparent, h₄⟩ := bind_eq_ok h₃
  obtain ⟨hlook, rfl, haccess⟩ := lookupParent_ok huser hparent
  cases h₄
  exact ⟨⟨parentPath, name, parent, hsplit, hlook, haccess⟩, rfl⟩

/-- What comes after it has found it allowed. -/
theorem afterParent (huser : ctx.policy = .USER) {needDir : Bool}
    {k : Node × Bytes → Op Unit}
    (h : (findParent sb ctx path needDir >>= k) d = .ok () d') :
    MayChangeParent sb ctx d path ∧ ∃ r, k r d = .ok () d' := by
  obtain ⟨r, d₁, hfind, hnext⟩ := bind_eq_ok h
  obtain ⟨hmay, rfl⟩ := findParent_ok huser hfind
  exact ⟨hmay, r, hnext⟩

end Checks

/-! ## §3. The operations. -/

section Run

variable {sb : Superblock} {ctx : WriteCtx} {d d' : Disk} {path : Bytes}

theorem pathUnlink_permitted (huser : ctx.policy = .USER)
    (h : pathUnlink sb ctx path d = .ok () d') :
    MayChangeParent sb ctx d path ∧ MayWrite sb ctx d path := by
  unfold pathUnlink at h
  obtain ⟨hmay, ⟨parent, name⟩, h₁⟩ := afterParent huser h
  obtain ⟨target, d₁, htarget, h₂⟩ := bind_eq_ok h₁
  obtain rfl := (nodeLookup_readOnly sb path false).ok htarget
  refine ⟨hmay, target, htarget, ?_⟩
  split at h₂
  · cases h₂
  · obtain ⟨_, -, h₃⟩ := afterCheck h₂
    obtain ⟨_, hwrite, -⟩ := afterCheck h₃
    exact requireUserAccess_ok huser hwrite

theorem pathRmdir_permitted (huser : ctx.policy = .USER)
    (h : pathRmdir sb ctx path d = .ok () d') :
    MayChangeParent sb ctx d path := by
  unfold pathRmdir at h
  obtain ⟨_, -, h₁⟩ := afterCheck h
  obtain ⟨⟨parentPath, name⟩, hsplit, h₂⟩ := afterCheck h₁
  obtain ⟨parent, d₁, hparent, -⟩ := bind_eq_ok h₂
  obtain ⟨hlook, rfl, haccess⟩ := lookupParent_ok huser hparent
  exact ⟨parentPath, name, parent, hsplit, hlook, haccess⟩

/-- **A rename asks for both parents**, and for a directory that changes its
parent. -/
theorem pathRename_permitted (huser : ctx.policy = .USER)
    {sourcePath targetPath : Bytes}
    (h : pathRename sb ctx sourcePath targetPath d = .ok () d') :
    sourcePath = targetPath ∨
      MayChangeParent sb ctx d sourcePath ∧
      MayChangeParent sb ctx d targetPath ∧
      MayMove sb ctx d sourcePath targetPath := by
  unfold pathRename at h
  obtain ⟨_, -, h₁⟩ := afterCheck h
  obtain ⟨⟨oldPath, oldName⟩, hold, h₂⟩ := afterCheck h₁
  obtain ⟨_, -, h₃⟩ := afterCheck h₂
  obtain ⟨⟨newPath, newName⟩, hnew, h₄⟩ := afterCheck h₃
  obtain ⟨_, -, h₅⟩ := afterCheck h₄
  by_cases hsame : sourcePath = targetPath
  · exact Or.inl hsame
  right
  dsimp only at h₅
  rw [if_neg hsame] at h₅
  obtain ⟨source, d₁, hsource, h₆⟩ := bind_eq_ok h₅
  obtain rfl := (nodeLookup_readOnly sb sourcePath false).ok hsource
  obtain ⟨oldParent, d₂, holdParent, h₇⟩ := bind_eq_ok h₆
  obtain ⟨holdLook, rfl, holdAccess⟩ := lookupParent_ok huser holdParent
  obtain ⟨newParent, d₃, hnewParent, h₈⟩ := bind_eq_ok h₇
  obtain ⟨hnewLook, rfl, hnewAccess⟩ := lookupParent_ok huser hnewParent
  obtain ⟨_, -, h₉⟩ := afterCheck h₈
  refine ⟨⟨oldPath, oldName, oldParent, hold, holdLook, holdAccess⟩,
    ⟨newPath, newName, newParent, hnew, hnewLook, hnewAccess⟩, ?_⟩
  intro source' oldPath' oldName' newPath' newName' oldParent' newParent'
    hsource' hold' hnew' holdLook' hnewLook' hdir hne
  -- the lookups are those of the operation
  rw [hsource] at hsource'
  rw [hold] at hold'
  rw [hnew] at hnew'
  cases hsource'
  cases hold'
  cases hnew'
  rw [holdLook] at holdLook'
  rw [hnewLook] at hnewLook'
  cases holdLook'
  cases hnewLook'
  have hmoving : nodeIsDir source = true ∧
      (oldParent.inodeNo != newParent.inodeNo) = true :=
    ⟨hdir, bne_iff_ne.mpr hne⟩
  rw [if_pos hmoving] at h₉
  obtain ⟨_, hwrite, -⟩ := afterCheck h₉
  exact requireUserAccess_ok huser hwrite

/-- The operations that change an inode's mode or owner ask for its owner. -/
theorem pathChmod_owns (huser : ctx.policy = .USER) (hroot : ctx.uid ≠ 0)
    {mode : UInt16} (h : pathChmod sb ctx path mode d = .ok () d') :
    Owns sb ctx d path := by
  unfold pathChmod at h
  obtain ⟨_, -, h₁⟩ := afterCheck h
  obtain ⟨node, d₁, hlook, h₂⟩ := bind_eq_ok h₁
  obtain rfl := (nodeLookup_readOnly sb path false).ok hlook
  obtain ⟨_, hallowed, -⟩ := afterCheck h₂
  refine ⟨node, hlook, ?_⟩
  unfold requireChmodAllowed ctxIsRoot at hallowed
  rw [if_neg (not_not.mpr huser)] at hallowed
  split at hallowed
  · rename_i hor
    exact hor.resolve_left (by simpa using hroot)
  · cases hallowed

theorem pathChown_owns (huser : ctx.policy = .USER) (hroot : ctx.uid ≠ 0)
    {uid gid : Nat} (h : pathChown sb ctx path uid gid d = .ok () d') :
    Owns sb ctx d path := by
  unfold pathChown at h
  obtain ⟨_, -, h₁⟩ := afterCheck h
  obtain ⟨_, -, h₂⟩ := afterCheck h₁
  obtain ⟨node, d₁, hlook, h₃⟩ := bind_eq_ok h₂
  obtain rfl := (nodeLookup_readOnly sb path false).ok hlook
  obtain ⟨_, hallowed, -⟩ := afterCheck h₃
  refine ⟨node, hlook, ?_⟩
  unfold requireChownAllowed ctxIsRoot at hallowed
  rw [if_neg (not_not.mpr huser), if_neg (by simpa using hroot)] at hallowed
  by_contra hother
  rw [if_pos hother] at hallowed
  cases hallowed

/-- The operations that rewrite a file ask for the file. -/
theorem afterWrite (huser : ctx.policy = .USER) {notReg : Errno}
    {k : Node → Op Unit}
    (h : (do
      liftCheck (requireCtxIdsFit ctx)
      let target ← lookupForWrite sb ctx path notReg
      k target) d = .ok () d') : MayWrite sb ctx d path := by
  obtain ⟨_, -, h⟩ := afterCheck h
  obtain ⟨target, d₁, htarget, -⟩ := bind_eq_ok h
  exact lookupForWrite_mayWrite huser htarget

/-- **A request that succeeded was permitted**, by the disk as it was. -/
theorem run_permitted (m : Mutation) (huser : ctx.policy = .USER)
    (hroot : ctx.uid ≠ 0) (h : m.run sb ctx d = .ok () d') :
    Permitted sb ctx d m := by
  cases m with
  | create path data => exact (afterParent huser h).1
  | unlink path => exact pathUnlink_permitted huser h
  | mkdir path mode => exact (afterParent huser h).1
  | rmdir path => exact pathRmdir_permitted huser h
  | link sourcePath targetPath => exact (afterParent huser h).1
  | symlink target linkPath => exact (afterParent huser h).1
  | rename sourcePath targetPath => exact pathRename_permitted huser h
  | overwrite path data => exact afterWrite huser h
  | append path data => exact afterWrite huser h
  | truncate path size =>
    have hcall : pathTruncate sb ctx path size d = .ok () d' := h
    unfold pathTruncate at hcall
    split at hcall
    · cases hcall
    · exact afterWrite huser hcall
  | pwrite path data offset =>
    have hcall : pathPwrite sb ctx path data offset d = .ok () d' := h
    unfold pathPwrite at hcall
    split at hcall
    · cases hcall
    · exact afterWrite huser hcall
  | chmod path mode => exact pathChmod_owns huser hroot h
  | chown path uid gid => exact pathChown_owns huser hroot h

end Run

/-! ## §4. A directory nobody may search. -/

/-- A plain user. -/
def userCtx : WriteCtx := ⟨.USER, 1000, 100, []⟩

/-- `filesDisk`, with a root that is its owner's alone and a file `f` that
anybody may write. -/
def closedDisk : Disk :=
  { filesDisk with
    inodes := fun m =>
      if m = 2 then { filesDisk.inodes m with mode := IFDIR ||| 0o700 }
      else if m = 3 then { filesDisk.inodes m with mode := IFREG ||| 0o666 }
      else filesDisk.inodes m }

/-- A run that has returned. -/
def succeeded (r : EStateM.Result Errno Disk Unit) : Bool :=
  match r with
  | .ok _ _ => true
  | .error _ _ => false

theorem exists_of_succeeded {r : EStateM.Result Errno Disk Unit}
    (h : succeeded r = true) : ∃ d', r = .ok () d' := by
  cases r with
  | ok a d' => exact ⟨d', rfl⟩
  | error e d' => cases h

/-- The user who overwrites `/f` may write it. -/
theorem run_permitted_overwrite :
    Permitted filesSb userCtx closedDisk (.overwrite [47, 102] [9]) := by
  have hok : succeeded ((Mutation.overwrite [47, 102] [9]).run filesSb userCtx
      closedDisk) = true := by
    decide +kernel
  obtain ⟨d', hrun⟩ := exists_of_succeeded hok
  exact run_permitted (.overwrite [47, 102] [9]) rfl (by decide) hrun

/-- **Below a directory the user may not search**: `/f` is overwritten, and
the root, in which its name is looked up, denies the user the search. -/
theorem overwrite_unsearchable :
    (∃ d', (Mutation.overwrite [47, 102] [9]).run filesSb userCtx closedDisk
      = .ok () d') ∧
      foundInode (nodeLookup filesSb [47] true closedDisk) = some 2 ∧
      nodeCheckAccess ⟨2, closedDisk.inodes 2⟩ userCtx.uid userCtx.gid
        userCtx.groups ⟨false, false, true⟩ = .error .EACCES := by
  refine ⟨exists_of_succeeded ?_, ?_, ?_⟩
  · decide +kernel
  · decide +kernel
  · decide +kernel

end NextUfs
