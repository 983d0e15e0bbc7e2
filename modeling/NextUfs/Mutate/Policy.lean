/-
  NextUfs.Mutate.Policy
  ─────────────────────
  **WHO MAY WRITE.**

  The write context of a mutation and the checks it passes before anything is
  changed: `WRITE_SU` passes them all, `WRITE_USER` is checked against owner,
  group and mode as a kernel would.

    • `nodeCheckAccess`          — mode bits,
    • `checkStickyParent`        — sticky directories,
    • `sanitizeNewInodeMode`     — mode bits a new inode may not have.
-/
import NextUfs.Core.Directory

namespace NextUfs

/-! ## §1. The context. -/

/-- `enum nextufs_write_policy`. -/
inductive WritePolicy where
  | SU | USER
  deriving DecidableEq, Repr

/-- `struct nextufs_write_ctx`. -/
structure WriteCtx where
  policy : WritePolicy
  uid : Nat
  gid : Nat
  groups : List Nat

/-- `INT16_MAX`. -/
def INT16_MAX : Nat := 32767

/-- Hand a check's verdict to the operation. -/
def liftCheck {α : Type} : Except Errno α → Op α
  | .error e => throw e
  | .ok a => return a

/-- `nextufs__ctx_is_root`. -/
def ctxIsRoot (ctx : WriteCtx) : Bool := ctx.uid == 0

/-- `nextufs__require_ctx_ids_fit`. -/
def requireCtxIdsFit (ctx : WriteCtx) : Except Errno Unit :=
  if ctx.policy ≠ .USER then .ok ()
  else if INT16_MAX < ctx.uid ∨ INT16_MAX < ctx.gid then .error .EOVERFLOW
  else .ok ()

/-- `nextufs__ctx_in_group`. -/
def ctxInGroup (ctx : WriteCtx) (gid : Nat) : Bool :=
  ctx.gid == gid || ctx.groups.any (· == gid)

/-! ## §2. Access. -/

/-- The bits of an `access` mask. -/
structure AccessMask where
  read : Bool
  write : Bool
  exec : Bool

def W_OK : AccessMask := ⟨false, true, false⟩

/-- `W_OK | X_OK`. -/
def WX_OK : AccessMask := ⟨false, true, true⟩

/-- The mask as permission bits. -/
def AccessMask.bits (mask : AccessMask) : UInt16 :=
  (if mask.read then 4 else 0) ||| (if mask.write then 2 else 0)
    ||| if mask.exec then 1 else 0

/-- `nextufs__node_check_access` with writing allowed. -/
def nodeCheckAccess (node : Node) (uid gid : Nat) (groups : List Nat)
    (mask : AccessMask) : Except Errno Unit :=
  let mode := node.inode.mode
  if mask.bits = 0 then .ok ()
  else if uid = 0 then
    if mask.exec ∧ mode &&& 0o111 = 0 then .error .EACCES else .ok ()
  else
    let perms :=
      if uid = node.inode.uid.toNat then mode >>> 6 &&& 7
      else if gid = node.inode.gid.toNat then mode >>> 3 &&& 7
      else if groups.any (· == node.inode.gid.toNat) then mode >>> 3 &&& 7
      else mode &&& 7
    if perms &&& mask.bits ≠ mask.bits then .error .EACCES else .ok ()

/-- `nextufs__require_user_access`. -/
def requireUserAccess (ctx : WriteCtx) (node : Node) (mask : AccessMask) :
    Except Errno Unit :=
  if ctx.policy ≠ .USER then .ok ()
  else nodeCheckAccess node ctx.uid ctx.gid ctx.groups mask

/-- `nextufs__require_parent_mutation`. -/
def requireParentMutation (ctx : WriteCtx) (parent : Node) :
    Except Errno Unit :=
  requireUserAccess ctx parent WX_OK

/-- `nextufs__check_sticky_parent`. -/
def checkStickyParent (ctx : WriteCtx) (parent target : Node) :
    Except Errno Unit :=
  if ctx.policy ≠ .USER then .ok ()
  else if parent.inode.mode &&& 0o1000 = 0 then .ok ()
  else if ctxIsRoot ctx then .ok ()
  else if ctx.uid = parent.inode.uid.toNat ∨
      ctx.uid = target.inode.uid.toNat then .ok ()
  else .error .EPERM

/-! ## §3. New inodes. -/

/-- `nextufs__set_new_inode_owner`. -/
def setNewInodeOwner (ctx : WriteCtx) (parent : Node) (ino : Inode) : Inode :=
  if ctx.policy = .USER then
    { ino with uid := UInt16.ofNat ctx.uid, gid := UInt16.ofNat ctx.gid }
  else { ino with uid := 0, gid := parent.inode.gid }

/-- `nextufs__sanitize_new_inode_mode`: a plain user gets no sticky bit on
what is no directory, and no set-group-id bit of a foreign group. -/
def sanitizeNewInodeMode (ctx : WriteCtx) (ino : Inode) : Inode :=
  if ctx.policy ≠ .USER ∨ ctxIsRoot ctx then ino
  else
    let mode :=
      if ino.mode &&& IFMT ≠ IFDIR then ino.mode &&& ~~~0o1000 else ino.mode
    if mode &&& 0o2000 ≠ 0 ∧ ctxInGroup ctx ino.gid.toNat = false then
      { ino with mode := mode &&& ~~~0o2000 }
    else { ino with mode := mode }

end NextUfs
