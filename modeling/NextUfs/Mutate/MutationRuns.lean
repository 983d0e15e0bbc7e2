/-
  NextUfs.Mutate.MutationRuns
  ───────────────────────────
  **RUNS OF MUTATIONS.**
  An image is worked on by one call after another, by callers of every kind, with
  time going by in between.  A call that succeeds leaves an image in order, and its
  link counts right, if they were: calls that make names and calls that change
  files without condition, calls that remove a name where the name can be taken
  out.  Renames are not among the calls.

    • `Step`               — one call that succeeds, or time that goes by,
    • `step_linked`        — a step keeps the image in order,
    • `mutations_linked`   — so does every run.
-/
import NextUfs.Mutate.LinkedRmdir

namespace NextUfs

open State Radix Bits

/-! ## §1. Time goes by. -/

section Time

variable {sb : Superblock} {live : Finset Nat} {modes : Nat → UInt16} {d : Disk}

/-- The disk at another time. -/
def atTime (d : Disk) (now : UInt32) : Disk := { d with clock := now }

/-- What the inodes claim does not depend on the time. -/
theorem atTime_kept (sb : Superblock) (live : Finset Nat) (d : Disk) (now : UInt32)
    (m : Nat) : OthersKept sb live m d (atTime d now) :=
  ⟨fun _ _ _ => rfl, fun _ _ _ f _ => SameFrag.of_data_eq rfl f⟩

/-- **Time goes by**, and the image stays in order. -/
theorem Linked.atTime (hgeo : DirGeometry sb) (h : Linked sb live modes d)
    (now : UInt32) : Linked sb live modes (atTime d now) := by
  have hgeo' := hgeo.toDataGeometry
  -- no inode changes: take one that is not allocated
  have hreserved : 0 ∉ live := fun hmem => absurd (h.real 0 hmem) (by decide)
  have hne : ∀ q ∈ live, q ≠ 0 := fun q hq heq => hreserved (heq ▸ hq)
  have hkept := atTime_kept sb live d now 0
  have hclaims : ∀ q ∈ live, ∀ f,
      inodeClaims sb (NextUfs.atTime d now) (d.inodes q) f
        = inodeClaims sb d (d.inodes q) f :=
    fun q hq f => hkept.claims hgeo' hq (hne q hq) f
  have howned : FragsOwned sb live (NextUfs.atTime d now) := by
    refine ⟨fun f => ?_⟩
    rw [← h.owned.once f]
    exact congrArg _ (Finset.sum_congr rfl fun q hq => hclaims q hq f)
  have hrange : 0 < inodeCount sb := Nat.zero_lt_of_lt (h.inRange _ h.root)
  have hcons : Consistent sb live modes (NextUfs.atTime d now) :=
    h.ofOthers hgeo hkept (h.space.of_groups rfl rfl rfl) howned (fun q hq _ => hq)
      h.root hrange (fun q hq => h.used q hq) (fun q hq _ e he => h.entryLive hq e he)
      fun hmem => absurd hmem hreserved
  exact h.sameNames hcons (fun p hp => hkept.entriesIn hgeo' hp (hne p hp))
    (fun _ _ => rfl)
    (fun p hp hdir => hkept.inside hgeo' hp (hne p hp) hdir (h.inside p hp hdir))
    fun _ _ => rfl

end Time

/-! ## §2. Steps. -/

/-- The path of a name that a call removes. -/
def Mutation.removes : Mutation → Option Bytes
  | .unlink path => some path
  | .rmdir path => some path
  | _ => none

/-- A rename. -/
def Mutation.renames : Mutation → Bool
  | .rename _ _ => true
  | _ => false

/-- **One step**: time goes by, or a call succeeds that is no rename, and that
removes a name only where the name can be taken out. -/
inductive Step (sb : Superblock) : Disk → Disk → Prop
  | tick (d : Disk) (now : UInt32) : Step sb d (atTime d now)
  | call {d d' : Disk} (op : Mutation) (ctx : WriteCtx) :
      op.run sb ctx d = .ok () d' → op.renames = false →
      (∀ path, op.removes = some path → Removable sb d path) → Step sb d d'
  | mknod {d d' : Disk} (path : Bytes) (mode : UInt16) (rdev : Nat) (ctx : WriteCtx) :
      pathMknod sb ctx path mode rdev d = .ok () d' → Step sb d d'
  | utimes {d d' : Disk} (path : Bytes) (atime mtime : UInt32) (ctx : WriteCtx) :
      pathUtimes sb ctx path atime mtime d = .ok () d' → Step sb d d'

section Run

variable {sb : Superblock} {live : Finset Nat} {modes : Nat → UInt16} {d d' : Disk}

/-- **A step keeps the image in order**, one case for each call. -/
theorem step_linked (hgeo : DirGeometry sb) (h : Linked sb live modes d)
    (hstep : Step sb d d') : ∃ live' modes', Linked sb live' modes' d' := by
  cases hstep with
  | tick now => exact ⟨live, modes, h.atTime hgeo now⟩
  | call op ctx hrun hrename hremoves =>
    have hrewrites : ∀ {path : Bytes} (r : Rewrite), r.run sb ctx path d = .ok () d' →
        ∃ live' modes', Linked sb live' modes' d' := fun r hr =>
      ⟨live, modes, rewrite_linked r hgeo h hr⟩
    cases op with
    | create path data =>
      obtain ⟨n, hn⟩ := create_linked hgeo h hrun
      exact ⟨_, _, hn⟩
    | unlink path =>
      obtain ⟨live', -, hlive⟩ := unlink_linked hgeo h (hremoves path rfl) hrun
      exact ⟨live', modes, hlive⟩
    | mkdir path mode =>
      obtain ⟨n, hn⟩ := mkdir_linked hgeo h hrun
      exact ⟨_, _, hn⟩
    | rmdir path =>
      obtain ⟨live', -, hlive⟩ := rmdir_linked hgeo h (hremoves path rfl) hrun
      exact ⟨live', modes, hlive⟩
    | link sourcePath targetPath => exact ⟨live, modes, link_linked hgeo h hrun⟩
    | symlink target linkPath =>
      obtain ⟨n, hn⟩ := symlink_linked hgeo h hrun
      exact ⟨_, _, hn⟩
    | rename sourcePath targetPath => cases hrename
    | overwrite path data => exact hrewrites (.overwrite data) hrun
    | append path data => exact hrewrites (.append data) hrun
    | truncate path size => exact hrewrites (.truncate size) hrun
    | pwrite path data offset => exact hrewrites (.pwrite data offset) hrun
    | chmod path mode => exact ⟨live, modes, chmod_linked hgeo h hrun⟩
    | chown path uid gid => exact ⟨live, modes, chown_linked hgeo h hrun⟩
  | mknod path mode rdev ctx hrun =>
    obtain ⟨n, hn⟩ := mknod_linked hgeo h hrun
    exact ⟨_, _, hn⟩
  | utimes path atime mtime ctx hrun =>
    exact ⟨live, modes, utimes_linked hgeo h hrun⟩

/-- **Every run keeps the image in order**: free space is counted, every fragment
has one owner, every directory is well formed, every name stands for an allocated
inode, and every link count is the number of names. -/
theorem mutations_linked (hgeo : DirGeometry sb)
    (h : Linked sb (allocated sb d) modes d)
    (hrun : Relation.ReflTransGen (Step sb) d d') :
    ∃ modes', Linked sb (allocated sb d') modes' d' := by
  induction hrun with
  | refl => exact ⟨modes, h⟩
  | tail _ hstep ih =>
    obtain ⟨modes', hbefore⟩ := ih
    obtain ⟨live, modes'', hafter⟩ := step_linked hgeo hbefore hstep
    rw [hafter.live_eq] at hafter
    exact ⟨modes'', hafter⟩

end Run

/-! ## §3. A run. -/

/-- The image with two files has right link counts. -/
theorem wide_linked : Linked slackSb {2, 3, 4} (fun m => (filesDisk.inodes m).mode)
    wideDisk where
  toConsistent := wide_consistent
  real := by decide
  rootDir := by decide
  rootParent := by decide +kernel
  known := by
    intro m hm
    unfold KnownKind
    revert m
    decide
  kinds := by decide
  inside p hp _ slot x hx := by
    rw [wide_direct p hp slot] at hx
    exact absurd rfl hx.1
  unique := by decide +kernel
  links := by decide +kernel

/-- The paths of the file that goes, and of the directory that comes. -/
def goingPath : Bytes := [SLASH, 103]
def comingPath : Bytes := [SLASH, 100]

/-- The record of the file follows that of the other one. -/
theorem wide_follows : FollowsLive slackSb wideDisk (wideDisk.inodes 2) [103] := by
  have hwalk := tiles_walk (dirChunk slackSb wideDisk (wideDisk.inodes 2) (0, 0))
    (dirChunk slackSb wideDisk (wideDisk.inodes 2) (0, 0)).length
    (dirChunk slackSb wideDisk (wideDisk.inodes 2) (0, 0)).length 0
  have hend : walkEnd (dirChunk slackSb wideDisk (wideDisk.inodes 2) (0, 0))
      (dirChunk slackSb wideDisk (wideDisk.inodes 2) (0, 0)).length
      (dirChunk slackSb wideDisk (wideDisk.inodes 2) (0, 0)).length 0
      = (dirChunk slackSb wideDisk (wideDisk.inodes 2) (0, 0)).length := by
    decide +kernel
  have hrecords : ((recordsFrom (dirChunk slackSb wideDisk (wideDisk.inodes 2) (0, 0))
      (dirChunk slackSb wideDisk (wideDisk.inodes 2) (0, 0)).length
      (dirChunk slackSb wideDisk (wideDisk.inodes 2) (0, 0)).length 0).map
        fun r => (r.1, r.2.shown))
      = [(0, ⟨2, 256, 1, [46]⟩), (256, ⟨2, 256, 2, [46, 46]⟩), (512, ⟨3, 256, 1, [102]⟩)]
        ++ (768, ⟨4, 256, 1, [103]⟩) :: [] := by
    decide +kernel
  rw [hend, hrecords] at hwalk
  have hplaces : ∀ y ∈ dirPlaces slackSb (wideDisk.inodes 2).size, y = (0, 0) := by
    decide
  refine ⟨(0, 0), _, _, _, ⟨by decide, hwalk, by decide, by decide, rfl, ?_,
    fun y hy hbefore => ?_⟩, ?_⟩
  · unfold Without
    decide
  · rw [hplaces y hy] at hbefore
    exact absurd hbefore (by decide)
  · intro p hp
    have hlast : lastLive [(0, (⟨2, 256, 1, [46]⟩ : Dirent)), (256, ⟨2, 256, 2, [46, 46]⟩),
        (512, ⟨3, 256, 1, [102]⟩)] = some (512, ⟨3, 256, 1, [102]⟩) := by
      decide
    rw [hlast] at hp
    cases hp
    rfl

/-- So the name can be taken out. -/
theorem wide_removable : Removable slackSb wideDisk goingPath := by
  have hsplit : splitPath goingPath = .ok ([SLASH], [103]) := by decide
  have hroot : foundInode (nodeLookup slackSb [SLASH] true wideDisk) = some 2 := by
    decide +kernel
  have hfile : foundInode (nodeLookup slackSb goingPath false wideDisk) = some 4 := by
    decide +kernel
  refine ⟨fun parentPath name parent hpath hlook => ?_, fun target hlook => ?_⟩
  · rw [hsplit] at hpath
    cases hpath
    obtain ⟨node, hnode, hnumber, hcopy⟩ := found_lookup hroot
    rw [hlook] at hnode
    cases hnode
    have hinode : parent.inode = wideDisk.inodes 2 := by
      rw [show parent.inode = wideDisk.inodes parent.inodeNo from hcopy, hnumber]
    rw [hinode]
    exact wide_follows
  · obtain ⟨node, hnode, hnumber, -⟩ := found_lookup hfile
    rw [hlook] at hnode
    cases hnode
    rw [hnumber]
    decide +kernel

/-- A file is unlinked, and a directory made, a second later. -/
theorem mutations_linked_wide :
    ∃ d₁ d₂ modes, pathUnlink slackSb superuserCtx goingPath wideDisk = .ok () d₁ ∧
      pathMkdir slackSb superuserCtx comingPath 0o755 (atTime d₁ 1) = .ok () d₂ ∧
      Linked slackSb (allocated slackSb d₂) modes d₂ := by
  have hcheck : leftWith (fun d₁ =>
      leftWith (fun _ => true)
        (pathMkdir slackSb superuserCtx comingPath 0o755 (atTime d₁ 1)))
      (pathUnlink slackSb superuserCtx goingPath wideDisk) = true := by
    decide +kernel
  have hstart := wide_linked
  rw [hstart.live_eq] at hstart
  obtain ⟨u, d₁, hgone, hcheck⟩ := exists_of_leftWith hcheck
  obtain ⟨u, d₂, hmade, -⟩ := exists_of_leftWith hcheck
  have hunlink : Step slackSb wideDisk d₁ :=
    .call (.unlink goingPath) superuserCtx hgone rfl fun path hpath => by
      cases hpath
      exact wide_removable
  have hmkdir : Step slackSb (atTime d₁ 1) d₂ :=
    .call (.mkdir comingPath 0o755) superuserCtx hmade rfl fun path hpath => by
      cases hpath
  obtain ⟨modes, hlinked⟩ := mutations_linked slack_geometry hstart
    (((Relation.ReflTransGen.single hunlink).tail (.tick d₁ 1)).tail hmkdir)
  exact ⟨d₁, d₂, modes, hgone, hmade, hlinked⟩

end NextUfs
