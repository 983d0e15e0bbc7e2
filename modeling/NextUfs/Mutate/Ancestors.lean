/-
  NextUfs.Mutate.Ancestors
  ────────────────────────
  **THE ANCESTOR CHECK OF A RENAME.**

  `nextufs__directory_has_ancestor` follows the `..` entries upwards from a
  directory until it meets the candidate, the root or an entry it cannot
  read.

    • `parentNode`, `climb`        — one step upwards, and when it is taken,
    • `returns_iff_ends`           — the loop returns exactly when the chain
      of `..` entries ends,
    • `DirTree`                    — the directories are a tree: every one has
      one name in one other, and its `.` and `..` say where it hangs,
    • `hasAncestor_of_tree`        — there the answer is whether the candidate
      lies on the way to the root,
    • `rename_not_below`           — so no directory is moved below itself,
    • `ancestor_check_iff`         — on any disk it returns exactly when it
      comes to no directory twice.
-/
import NextUfs.Lib.Links
import NextUfs.Mutate.Confinement
import NextUfs.Mutate.DirInsertion

namespace NextUfs

open State Links

/-! ## §1. The chain of `..` entries. -/

section Climb

variable (sb : Superblock) (d : Disk)

/-- The directory the `..` entry of `cur` leads to, where there is one to go
on with. -/
def parentNode (cur : Node) : Option Node :=
  match outcome (readDirectoryParentInode sb cur) d with
  | .error _ => none
  | .ok parentInode =>
    if parentInode = cur.inodeNo ∨ ¬hasInodes sb then none
    else some ⟨parentInode, d.inodes parentInode⟩

/-- The next directory the check looks at. -/
def climb (ancestorInode : Nat) (cur : Node) : Option Node :=
  if cur.inodeNo = ancestorInode ∨ cur.inodeNo = ROOT_INODE then none
  else parentNode sb d cur

end Climb

section Loop

variable {sb : Superblock} {d : Disk} {ancestor : Nat} {cur node : Node}

theorem readDirectoryParentInode_readOnly (sb : Superblock) (cur : Node) :
    ReadOnly (readDirectoryParentInode sb cur) := by
  refine .ite (.throw _) (.bind ?_ fun dirblk => ?_)
  · refine .bind (attempt_keeps (inodeReadData_readOnly sb _ _ _)) fun r => ?_
    cases r with
    | error e => exact .throw _
    | ok buf => exact .pure _
  · split
    · exact .throw _
    · refine .ite (.throw _) ?_
      split
      · exact .throw _
      · exact .ite (.throw _) (.pure _)

/-- A reader whose error is looked at. -/
theorem attempt_readOnly {α : Type} {x : Op α} (hx : ReadOnly x) (d : Disk) :
    attempt x d = .ok (outcome x d) d := by
  unfold outcome
  cases hrun : x d with
  | ok a d' =>
    obtain rfl := hx.ok hrun
    exact attempt_of_ok hrun
  | error e d' =>
    obtain rfl := hx.error hrun
    exact attempt_of_error hrun

theorem outcome_nodeGetByInode (n : Nat) (d : Disk) :
    outcome (nodeGetByInode sb n) d =
      if hasInodes sb then .ok ⟨n, d.inodes n⟩ else .error .EINVAL := by
  unfold nodeGetByInode inodeRead
  split <;> rfl

/-- **One round of the check.** -/
theorem hasAncestorLoop_succ (fuel : Nat) (cur : Node) :
    hasAncestorLoop sb ancestor (fuel + 1) cur d =
      match climb sb d ancestor cur with
      | none => .ok (decide (cur.inodeNo = ancestor)) d
      | some parent => hasAncestorLoop sb ancestor fuel parent d := by
  rw [hasAncestorLoop]
  unfold climb
  by_cases hfound : cur.inodeNo = ancestor
  · rw [if_pos hfound, if_pos (Or.inl hfound), decide_eq_true hfound]
    rfl
  rw [if_neg hfound, decide_eq_false hfound]
  by_cases hroot : cur.inodeNo = ROOT_INODE
  · rw [if_pos hroot, if_pos (Or.inr hroot)]
    rfl
  rw [if_neg hroot, if_neg (not_or.mpr ⟨hfound, hroot⟩),
    bind_of_ok (attempt_readOnly (readDirectoryParentInode_readOnly sb cur) d)]
  unfold parentNode
  cases outcome (readDirectoryParentInode sb cur) d with
  | error e => rfl
  | ok parentInode =>
    dsimp only
    by_cases hself : parentInode = cur.inodeNo
    · rw [if_pos hself, if_pos (Or.inl hself)]
      rfl
    rw [if_neg hself,
      bind_of_ok (attempt_readOnly (nodeGetByInode_readOnly sb parentInode) d),
      outcome_nodeGetByInode]
    by_cases hinodes : hasInodes sb
    · rw [if_pos hinodes, if_neg (not_or.mpr ⟨hself, not_not.mpr hinodes⟩)]
    · rw [if_neg hinodes, if_pos (Or.inr hinodes)]
      rfl

/-- The check has come to the candidate. -/
def Meets (sb : Superblock) (d : Disk) (ancestor : Nat) (cur : Node) : Prop :=
  ∃ i node, follow (climb sb d ancestor) i cur = some node ∧
    node.inodeNo = ancestor

theorem meets_of_none (h : climb sb d ancestor cur = none) :
    Meets sb d ancestor cur ↔ cur.inodeNo = ancestor := by
  constructor
  · rintro ⟨i, node, hi, hnode⟩
    cases i with
    | zero =>
      cases hi
      exact hnode
    | succ i =>
      rw [follow_succ_of_none h] at hi
      cases hi
  · exact fun hcur => ⟨0, cur, rfl, hcur⟩

theorem meets_of_some (h : climb sb d ancestor cur = some node) :
    Meets sb d ancestor cur ↔ Meets sb d ancestor node := by
  constructor
  · rintro ⟨i, place, hi, hplace⟩
    cases i with
    | zero =>
      -- the check stops at the candidate
      cases hi
      unfold climb at h
      rw [if_pos (Or.inl hplace)] at h
      cases h
    | succ i => exact ⟨i, place, by rwa [follow_succ_of_some h] at hi, hplace⟩
  · rintro ⟨i, place, hi, hplace⟩
    exact ⟨i + 1, place, by rwa [follow_succ_of_some h], hplace⟩

/-- **A chain that ends is followed to its end**: the answer is whether the
candidate was on it. -/
theorem hasAncestorLoop_of_ends (fuel : Nat) : ∀ {cur : Node},
    follow (climb sb d ancestor) fuel cur = none →
    ∃ b, hasAncestorLoop sb ancestor fuel cur d = .ok b d ∧
      (b = true ↔ Meets sb d ancestor cur) := by
  induction fuel with
  | zero =>
    intro cur h
    cases h
  | succ fuel ih =>
    intro cur h
    rw [hasAncestorLoop_succ]
    cases hclimb : climb sb d ancestor cur with
    | none => exact ⟨_, rfl, by rw [decide_eq_true_iff, meets_of_none hclimb]⟩
    | some parent =>
      rw [follow_succ_of_some hclimb] at h
      obtain ⟨b, hrun, hb⟩ := ih h
      exact ⟨b, hrun, by rw [hb, meets_of_some hclimb]⟩

/-- A chain that is longer is not. -/
theorem hasAncestorLoop_of_live (fuel : Nat) : ∀ {cur node : Node},
    follow (climb sb d ancestor) fuel cur = some node →
    hasAncestorLoop sb ancestor fuel cur d = .error .ELOOP d := by
  induction fuel with
  | zero =>
    intro cur node _
    rfl
  | succ fuel ih =>
    intro cur node h
    rw [hasAncestorLoop_succ]
    cases hclimb : climb sb d ancestor cur with
    | none =>
      rw [follow_succ_of_none hclimb] at h
      cases h
    | some parent =>
      rw [follow_succ_of_some hclimb] at h
      exact ih h

/-- The check returns after some number of rounds. -/
def Returns (sb : Superblock) (d : Disk) (cur : Node) (ancestor : Nat) : Prop :=
  ∃ fuel b d', hasAncestorLoop sb ancestor fuel cur d = .ok b d'

theorem returns_iff_ends :
    Returns sb d cur ancestor ↔ Ends (climb sb d ancestor) cur := by
  constructor
  · rintro ⟨fuel, b, d', hrun⟩
    cases hfollow : follow (climb sb d ancestor) fuel cur with
    | none => exact ⟨fuel, hfollow⟩
    | some node =>
      rw [hasAncestorLoop_of_live fuel hfollow] at hrun
      cases hrun
  · rintro ⟨fuel, hfuel⟩
    obtain ⟨b, hrun, -⟩ := hasAncestorLoop_of_ends fuel hfuel
    exact ⟨fuel, b, d, hrun⟩

/-! ## §2. Circles. -/

theorem readBe32_lt (p : Bytes) : readBe32 p < 2 ^ 32 := by
  unfold readBe32
  have h0 := (p.getD 0 0).toNat_lt
  have h1 := (p.getD 1 0).toNat_lt
  have h2 := (p.getD 2 0).toNat_lt
  have h3 := (p.getD 3 0).toNat_lt
  omega

theorem readDirent_ino_lt {buf : Bytes} {size off : Nat} {ent : Dirent}
    (h : readDirent buf size off = some ent) : ent.ino < 2 ^ 32 := by
  unfold readDirent at h
  split at h
  · cases h
  · dsimp only at h
    split at h
    · cases h
    · cases h
      exact readBe32_lt _

theorem parentInode_lt {parentInode : Nat}
    (h : outcome (readDirectoryParentInode sb cur) d = .ok parentInode) :
    parentInode < 2 ^ 32 := by
  unfold outcome at h
  split at h
  swap
  · cases h
  rename_i p d' hrun
  cases h
  unfold readDirectoryParentInode at hrun
  split at hrun
  · cases hrun
  obtain ⟨dirblk, d₁, -, hrest⟩ := bind_eq_ok hrun
  cases hfirst : readDirent dirblk DIRBLKSIZ 0 with
  | none =>
    rw [hfirst] at hrest
    cases hrest
  | some first =>
    rw [hfirst] at hrest
    dsimp only at hrest
    split at hrest
    · cases hrest
    cases hsecond : readDirent dirblk DIRBLKSIZ first.reclen with
    | none =>
      rw [hsecond] at hrest
      cases hrest
    | some second =>
      rw [hsecond] at hrest
      dsimp only at hrest
      split at hrest
      · cases hrest
      · cases hrest
        exact readDirent_ino_lt hsecond

/-- A step leads to the disk's inode of a 32-bit number. -/
theorem climb_some (h : climb sb d ancestor cur = some node) :
    node.inodeNo < 2 ^ 32 ∧ IsCopy d node := by
  unfold climb at h
  split at h
  · cases h
  unfold parentNode at h
  split at h
  · cases h
  rename_i parentInode hparent
  split at h
  · cases h
  · cases h
    exact ⟨parentInode_lt hparent, rfl⟩

theorem follow_climb_some (i : Nat) : ∀ {cur : Node},
    follow (climb sb d ancestor) (i + 1) cur = some node →
    node.inodeNo < 2 ^ 32 ∧ IsCopy d node := by
  induction i with
  | zero =>
    intro cur h
    cases hclimb : climb sb d ancestor cur with
    | none =>
      rw [follow_succ_of_none hclimb] at h
      cases h
    | some parent =>
      rw [follow_succ_of_some hclimb] at h
      cases h
      exact climb_some hclimb
  | succ i ih =>
    intro cur h
    cases hclimb : climb sb d ancestor cur with
    | none =>
      rw [follow_succ_of_none hclimb] at h
      cases h
    | some parent =>
      rw [follow_succ_of_some hclimb] at h
      exact ih h

theorem isCopy_ext {d : Disk} {node node' : Node} (h : IsCopy d node)
    (h' : IsCopy d node') (hno : node.inodeNo = node'.inodeNo) :
    node = node' := by
  obtain ⟨n, ino⟩ := node
  obtain ⟨n', ino'⟩ := node'
  obtain rfl : n = n' := hno
  obtain rfl : ino = d.inodes n := h
  obtain rfl : ino' = d.inodes n := h'
  rfl

theorem climb_numbered :
    Ends (climb sb d ancestor) cur ↔ ¬Repeats (climb sb d ancestor) cur :=
  ends_iff_not_repeats (2 ^ 32) Node.inodeNo
    (fun i _ h => (follow_climb_some i h).1)
    fun i j _ _ hi hj hno =>
      isCopy_ext (follow_climb_some i hi).2 (follow_climb_some j hj).2 hno

/-- There are 32-bit inode numbers only, so the rounds the model allows are
enough. -/
theorem directoryHasAncestor_of_ends (h : Ends (climb sb d ancestor) cur) :
    ∃ b, directoryHasAncestor sb cur ancestor d = .ok b d ∧
      (b = true ↔ Meets sb d ancestor cur) :=
  hasAncestorLoop_of_ends _ (ends_within (2 ^ 32) Node.inodeNo
    (fun i _ h => (follow_climb_some i h).1)
    (fun i j _ _ hi hj hno =>
      isCopy_ext (follow_climb_some i hi).2 (follow_climb_some j hj).2 hno)
    (climb_numbered.mp h))

end Loop

/-! ## §3. Trees of directories. -/

section Tree

variable (sb : Superblock) (d : Disk)

/-- In directory `p`, `name` stands for inode `c`. -/
def Named (p : Nat) (name : Bytes) (c : Nat) : Prop :=
  findNameInDirectory sb (d.inodes p) name d = .ok c d ∧ c ≠ 0

/-- Directory `c` hangs in `p`, under a name of its own. -/
def Holds (p c : Nat) : Prop :=
  isDirMode (d.inodes c).mode = true ∧
    ∃ name, nameIsDotOrDotdot name = false ∧ Named sb d p name c

/-- `c` is `p`, or a directory below it. -/
def Below (p c : Nat) : Prop := Relation.ReflTransGen (Holds sb d) p c

/-- A directory that hangs, through others, in the root. -/
def InTree (c : Nat) : Prop := Below sb d ROOT_INODE c

/-- `p` lies on the path from the root to `c`. -/
def OnPath (p c : Nat) : Prop := InTree sb d p ∧ Below sb d p c

/-- **The directories are a tree**, rooted at inode 2, and every `.` and `..`
in it says where its directory hangs. -/
structure DirTree : Prop where
  inodes : hasInodes sb
  root_dir : isDirMode (d.inodes ROOT_INODE).mode = true
  root_top : ∀ p, InTree sb d p → ¬Holds sb d p ROOT_INODE
  one_parent : ∀ p q c, InTree sb d p → InTree sb d q →
    Holds sb d p c → Holds sb d q c → p = q
  self : ∀ n c, InTree sb d n → Named sb d n [DOT] c → c = n
  root_up : ∀ c, Named sb d ROOT_INODE [DOT, DOT] c → c = ROOT_INODE
  up : ∀ p c q, InTree sb d p → Holds sb d p c →
    Named sb d c [DOT, DOT] q → q = p
  parent : ∀ p c, InTree sb d p → Holds sb d p c →
    outcome (readDirectoryParentInode sb ⟨c, d.inodes c⟩) d = .ok p

end Tree

namespace DirTree

variable {sb : Superblock} {d : Disk}

/-- A directory other than the root hangs in one of the tree. -/
theorem cases_inTree {c : Nat} (h : InTree sb d c) :
    c = ROOT_INODE ∨ ∃ p, InTree sb d p ∧ Holds sb d p c := by
  rcases Relation.ReflTransGen.cases_tail h with hroot | ⟨p, hp, hpc⟩
  · exact Or.inl hroot
  · exact Or.inr ⟨p, hp, hpc⟩

/-- No directory hangs in itself. -/
theorem ne_child (tree : DirTree sb d) {c : Nat} (hc : InTree sb d c) :
    ¬Holds sb d c c := by
  intro hself
  have hother : ∀ n, InTree sb d n → n ≠ c := by
    intro n hn
    induction hn with
    | refl =>
      rintro rfl
      exact tree.root_top _ hc hself
    | @tail p n hp hpn ih =>
      rintro rfl
      exact ih (tree.one_parent p n n hp hc hpn hself)
  exact hother c hc rfl

/-- What lies above a directory lies above the one it hangs in. -/
theorem onPath_child (tree : DirTree sb d) {p c a : Nat} (hp : InTree sb d p)
    (hpc : Holds sb d p c) (hne : c ≠ a) :
    OnPath sb d a c ↔ OnPath sb d a p := by
  constructor
  · rintro ⟨ha, hac⟩
    rcases Relation.ReflTransGen.cases_tail hac with heq | ⟨q, haq, hqc⟩
    · exact absurd heq hne
    · have hq : InTree sb d q := ha.trans haq
      exact ⟨ha, tree.one_parent q p c hq hp hqc hpc ▸ haq⟩
  · rintro ⟨ha, hap⟩
    exact ⟨ha, hap.tail hpc⟩

/-- Nothing lies above the root. -/
theorem onPath_root (tree : DirTree sb d) {a : Nat}
    (h : OnPath sb d a ROOT_INODE) : a = ROOT_INODE := by
  rcases Relation.ReflTransGen.cases_tail h.2 with heq | ⟨q, haq, hq⟩
  · exact heq.symm
  · exact absurd hq (tree.root_top q (h.1.trans haq))

/-- **In a tree the check climbs to the root or the candidate**, by induction
on the way down from the root. -/
theorem climb_onPath (tree : DirTree sb d) (a : Nat) {c : Nat}
    (hc : InTree sb d c) :
    Ends (climb sb d a) ⟨c, d.inodes c⟩ ∧
      (Meets sb d a ⟨c, d.inodes c⟩ ↔ OnPath sb d a c) := by
  induction hc with
  | refl =>
    have hstop : climb sb d a ⟨ROOT_INODE, d.inodes ROOT_INODE⟩ = none :=
      if_pos (Or.inr rfl)
    refine ⟨ends_of_next_none hstop, ?_⟩
    rw [meets_of_none hstop]
    constructor
    · rintro rfl
      exact ⟨.refl, .refl⟩
    · exact fun h => (tree.onPath_root h).symm
  | @tail p c hp hpc ih =>
    have hc : InTree sb d c := hp.tail hpc
    by_cases hfound : c = a
    · have hstop : climb sb d a ⟨c, d.inodes c⟩ = none := if_pos (Or.inl hfound)
      refine ⟨ends_of_next_none hstop, ?_⟩
      rw [meets_of_none hstop]
      exact ⟨fun _ => hfound ▸ ⟨hc, .refl⟩, fun _ => hfound⟩
    · have hroot : c ≠ ROOT_INODE := by
        rintro rfl
        exact tree.root_top p hp hpc
      have hloop : p ≠ c := by
        rintro rfl
        exact tree.ne_child hp hpc
      have hstep : climb sb d a ⟨c, d.inodes c⟩ = some ⟨p, d.inodes p⟩ := by
        unfold climb parentNode
        rw [if_neg (not_or.mpr ⟨hfound, hroot⟩), tree.parent p c hp hpc]
        exact if_neg (not_or.mpr ⟨hloop, not_not.mpr tree.inodes⟩)
      rw [ends_iff_of_some hstep, meets_of_some hstep,
        tree.onPath_child hp hpc hfound]
      exact ih

/-- **The answer in a tree**: whether the candidate lies on the path from the
root to the directory. -/
theorem hasAncestor_of_tree (tree : DirTree sb d) (a : Nat) {c : Nat}
    (hc : InTree sb d c) :
    ∃ b, directoryHasAncestor sb ⟨c, d.inodes c⟩ a d = .ok b d ∧
      (b = true ↔ OnPath sb d a c) := by
  obtain ⟨hends, hmeets⟩ := tree.climb_onPath a hc
  obtain ⟨b, hrun, hb⟩ := directoryHasAncestor_of_ends hends
  exact ⟨b, hrun, hb.trans hmeets⟩

/-! ## §4. A rename. -/

/-- What a lookup can return: a copy of an inode, and if it is a directory,
one of the tree. -/
def Placed (sb : Superblock) (d : Disk) (node : Node) : Prop :=
  IsCopy d node ∧ (nodeIsDir node = true → InTree sb d node.inodeNo)

theorem placed_step (tree : DirTree sb d) {current : Node} {segment : Bytes}
    {next : Nat} (hcur : Placed sb d current) (hdir : nodeIsDir current = true)
    (hfind : findNameInDirectory sb current.inode segment d = .ok next d)
    (hnext : next ≠ 0) : Placed sb d ⟨next, d.inodes next⟩ := by
  refine ⟨rfl, fun hnextDir => ?_⟩
  have hin := hcur.2 hdir
  have hnamed : Named sb d current.inodeNo segment next := by
    refine ⟨?_, hnext⟩
    rw [← show current.inode = d.inodes current.inodeNo from hcur.1]
    exact hfind
  cases hdots : nameIsDotOrDotdot segment with
  | false => exact hin.tail ⟨hnextDir, segment, hdots, hnamed⟩
  | true =>
    unfold nameIsDotOrDotdot at hdots
    rw [Bool.or_eq_true, beq_iff_eq, beq_iff_eq] at hdots
    rcases hdots with rfl | rfl
    · rw [tree.self _ next hin hnamed]
      exact hin
    · rcases cases_inTree hin with hroot | ⟨p, hp, hpc⟩
      · rw [hroot] at hnamed
        rw [tree.root_up next hnamed]
        exact .refl
      · rw [tree.up p _ next hp hpc hnamed]
        exact hp

theorem nodeLookup_placed (tree : DirTree sb d) {path : Bytes}
    {followFinal : Bool} {node : Node} {d' : Disk}
    (h : nodeLookup sb path followFinal d = .ok node d') : Placed sb d node :=
  nodeLookup_induct (P := Placed sb d) ⟨rfl, fun _ => .refl⟩
    (fun _ _ _ hcur hdir hfind hnext =>
      tree.placed_step hcur hdir hfind hnext) h

end DirTree

section Rename

variable {sb : Superblock} {ctx : WriteCtx} {d d' : Disk}

/-- The parent of a name, as an operation finds it. -/
theorem lookupParent_found {parentPath : Bytes} {needDir : Bool} {parent : Node}
    (h : lookupParent sb ctx parentPath needDir d = .ok parent d') :
    nodeLookup sb parentPath true d = .ok parent d ∧ d' = d ∧
      (needDir = true → nodeIsDir parent = true) := by
  unfold lookupParent at h
  obtain ⟨node, d₁, hlook, hnext⟩ := bind_eq_ok h
  obtain rfl := (nodeLookup_readOnly sb parentPath true).ok hlook
  split at hnext
  · cases hnext
  · rename_i hdir
    obtain ⟨_, d₂, hcheck, hret⟩ := bind_eq_ok hnext
    obtain ⟨-, rfl⟩ := liftCheck_ok hcheck
    cases hret
    refine ⟨hlook, rfl, fun hneed => ?_⟩
    by_contra hnot
    exact hdir ⟨hneed, eq_false_of_ne_true hnot⟩

/-- A run that goes on after the check has had the answer no. -/
theorem answeredNo {x : Op Bool} {k : Op Unit} {u : Unit}
    (h : (x >>= fun below => if below = true then throw Errno.EINVAL else k) d
      = .ok u d') : ∃ d₁, x d = .ok false d₁ := by
  obtain ⟨below, d₁, hx, hnext⟩ := bind_eq_ok h
  cases below with
  | false => exact ⟨d₁, hx⟩
  | true => cases hnext

/-- **A rename that succeeds has asked**: if it moved a directory, the check
said that the new parent is not below it. -/
theorem pathRename_asked {sourcePath targetPath newParentPath newName : Bytes}
    {source newParent : Node}
    (h : pathRename sb ctx sourcePath targetPath d = .ok () d')
    (hne : sourcePath ≠ targetPath)
    (hsource : nodeLookup sb sourcePath false d = .ok source d)
    (hsplit : splitPath targetPath = .ok (newParentPath, newName))
    (hparent : nodeLookup sb newParentPath true d = .ok newParent d)
    (hdir : nodeIsDir source = true) :
    nodeIsDir newParent = true ∧
      ∃ d₁, directoryHasAncestor sb newParent source.inodeNo d
        = .ok false d₁ := by
  unfold pathRename at h
  obtain ⟨_, -, h₁⟩ := afterCheck h
  obtain ⟨⟨oldPath, oldName⟩, -, h₂⟩ := afterCheck h₁
  obtain ⟨_, -, h₃⟩ := afterCheck h₂
  obtain ⟨⟨newPath, newName'⟩, hnew, h₄⟩ := afterCheck h₃
  obtain ⟨_, -, h₅⟩ := afterCheck h₄
  rw [hsplit] at hnew
  cases hnew
  dsimp only at h₅
  rw [if_neg hne] at h₅
  obtain ⟨source', d₁, hsource', h₆⟩ := bind_eq_ok h₅
  rw [hsource] at hsource'
  cases hsource'
  obtain ⟨oldParent, d₂, holdParent, h₇⟩ := bind_eq_ok h₆
  obtain ⟨-, rfl, -⟩ := lookupParent_found holdParent
  obtain ⟨newParent', d₃, hnewParent, h₈⟩ := bind_eq_ok h₇
  obtain ⟨hlook, rfl, hnewDir⟩ := lookupParent_found hnewParent
  rw [hparent] at hlook
  cases hlook
  refine ⟨hnewDir rfl, ?_⟩
  obtain ⟨_, -, h₉⟩ := afterCheck h₈
  by_cases hmoving : nodeIsDir source = true ∧
      (oldParent.inodeNo != newParent.inodeNo) = true
  · rw [if_pos hmoving] at h₉
    obtain ⟨_, -, h₁₀⟩ := afterCheck h₉
    rw [if_pos hdir] at h₁₀
    exact answeredNo h₁₀
  · rw [if_neg hmoving, if_pos hdir] at h₉
    exact answeredNo h₉

/-- **No directory is moved below itself.** -/
theorem rename_not_below (tree : DirTree sb d)
    {sourcePath targetPath newParentPath newName : Bytes}
    {source newParent : Node}
    (h : pathRename sb ctx sourcePath targetPath d = .ok () d')
    (hne : sourcePath ≠ targetPath)
    (hsource : nodeLookup sb sourcePath false d = .ok source d)
    (hsplit : splitPath targetPath = .ok (newParentPath, newName))
    (hparent : nodeLookup sb newParentPath true d = .ok newParent d)
    (hdir : nodeIsDir source = true) :
    ¬Below sb d source.inodeNo newParent.inodeNo := by
  intro hbelow
  obtain ⟨hnewDir, d₁, hno⟩ :=
    pathRename_asked h hne hsource hsplit hparent hdir
  obtain ⟨hcopy, hin⟩ := tree.nodeLookup_placed hparent
  have hpath : OnPath sb d source.inodeNo newParent.inodeNo :=
    ⟨(tree.nodeLookup_placed hsource).2 hdir, hbelow⟩
  obtain ⟨b, hrun, hb⟩ := tree.hasAncestor_of_tree source.inodeNo (hin hnewDir)
  have hnode : newParent =
      ⟨newParent.inodeNo, d.inodes newParent.inodeNo⟩ := by
    rw [← show newParent.inode = d.inodes newParent.inodeNo from hcopy]
  rw [← hnode, hno] at hrun
  cases hrun
  exact Bool.false_ne_true (hb.mpr hpath)

end Rename

/-! ## §5. The check. -/

/-- **The ancestor check returns exactly when it comes to no directory twice**
before it meets the candidate, the root or an entry that cannot be read.
Where the directories are a tree it always returns, says whether the candidate
lies on the path from the root, and no rename that succeeds moves a directory
below itself. -/
theorem ancestor_check_iff (sb : Superblock) (d : Disk) :
    (∀ cur ancestor, Returns sb d cur ancestor ↔
      ¬Repeats (climb sb d ancestor) cur) ∧
    (DirTree sb d →
      (∀ c ancestor, InTree sb d c →
        ∃ b, directoryHasAncestor sb ⟨c, d.inodes c⟩ ancestor d = .ok b d ∧
          (b = true ↔ OnPath sb d ancestor c)) ∧
      ∀ ctx sourcePath targetPath newParentPath newName source newParent d',
        pathRename sb ctx sourcePath targetPath d = .ok () d' →
        sourcePath ≠ targetPath →
        nodeLookup sb sourcePath false d = .ok source d →
        splitPath targetPath = .ok (newParentPath, newName) →
        nodeLookup sb newParentPath true d = .ok newParent d →
        nodeIsDir source = true →
        ¬Below sb d source.inodeNo newParent.inodeNo) := by
  refine ⟨fun cur ancestor => ?_, fun tree => ⟨fun c ancestor hc => ?_, ?_⟩⟩
  · rw [returns_iff_ends, climb_numbered]
  · exact tree.hasAncestor_of_tree ancestor hc
  · intro ctx sourcePath targetPath newParentPath newName source newParent d'
      hrun hne hsource hsplit hparent hdir
    exact rename_not_below tree hrun hne hsource hsplit hparent hdir

/-! ## §6. Three directories. -/

/-- What a lookup finds is in a record it has read. -/
theorem iterateBlocks_found {sb : Superblock} {ino : Inode} {d d' : Disk}
    {name : Bytes} {c : Nat} : ∀ ks,
    iterateBlocks sb ino (findNameCb name) ks d = .ok (some c) d' →
    ∃ k ∈ ks, ∃ buf, readDirBlock sb ino k d = .ok buf d ∧
      ∃ r ∈ records buf (chunkBytes sb ino.size k),
        r.2.ino = c ∧ r.2.name = name
  | [], h => by cases h
  | k :: ks, h => by
    unfold iterateBlocks at h
    obtain ⟨buf, d₁, hread, hrest⟩ := bind_eq_ok h
    obtain rfl := (readDirBlock_readOnly sb ino k).ok hread
    cases hfind : (records buf (chunkBytes sb ino.size k)).findSome? fun r =>
        if r.2.ino ≠ 0 ∧ r.2.namlen ≠ 0 then findNameCb name r.2.ino r.2.name
        else none with
    | some ino' =>
      rw [hfind] at hrest
      cases hrest
      obtain ⟨r, hr, hcb⟩ := List.exists_of_findSome?_eq_some hfind
      refine ⟨k, List.mem_cons_self, buf, hread, r, hr, ?_⟩
      split at hcb
      · unfold findNameCb at hcb
        split at hcb
        · rename_i hname
          cases hcb
          exact ⟨rfl, hname⟩
        · cases hcb
      · cases hcb
    | none =>
      rw [hfind] at hrest
      obtain ⟨k', hk', hfound⟩ := iterateBlocks_found ks hrest
      exact ⟨k', List.mem_cons_of_mem k hk', hfound⟩

theorem Named.record {sb : Superblock} {d : Disk} {p c : Nat} {name : Bytes}
    (h : Named sb d p name c) :
    ∃ k < fileBlocks sb (d.inodes p).size, ∃ buf,
      readDirBlock sb (d.inodes p) k d = .ok buf d ∧
      ∃ r ∈ records buf (chunkBytes sb (d.inodes p).size k),
        r.2.ino = c ∧ r.2.name = name := by
  obtain ⟨hrun, hne⟩ := h
  obtain ⟨found, d₁, hiter, hret⟩ := bind_eq_ok hrun
  cases found with
  | none =>
    cases hret
    exact absurd rfl hne
  | some ino =>
    cases hret
    obtain ⟨k, hk, hfound⟩ := iterateBlocks_found _ hiter
    exact ⟨k, List.mem_range.mp hk, hfound⟩

/-- A chunk of a directory with `.`, `..` and one name more. -/
def threeNames (self parent child name : UInt8) : Bytes :=
  [0, 0, 0, self, 0, 12, 0, 1, 46, 0, 0, 0,
    0, 0, 0, parent, 0, 12, 0, 2, 46, 46, 0, 0,
    0, 0, 0, child, 3, 232, 0, 1, name, 0, 0, 0]

/-- The root holds `a`, inode 3, and that holds `b`, inode 4.  The `..` entry
of `a` is `up`. -/
def nestedDisk (up : UInt8) : Disk :=
  { slackDisk with
    inodes := fun m =>
      if m = 2 ∨ m = 3 ∨ m = 4 then
        { zeroInode with
          mode := IFDIR ||| 0o755, nlink := 2, size := 1024, blocks := 2
          db := fun i => if i = 0 then m - 1 else 0 }
      else zeroInode
    data := fun i =>
      if i < 2048 then (threeNames 2 2 3 97).getD (i - 1024) 0
      else if i < 3072 then (threeNames 3 up 4 98).getD (i - 2048) 0
      else (threeNames 4 3 0 0).getD (i - 3072) 0 }

/-- Its records, by directory. -/
def nestedRecords (up : UInt8) (n : Nat) : List (Nat × Bytes) :=
  if n = 2 then [(2, [DOT]), (2, [DOT, DOT]), (3, [97])]
  else if n = 3 then [(3, [DOT]), (up.toNat, [DOT, DOT]), (4, [98])]
  else [(4, [DOT]), (3, [DOT, DOT]), (0, [0])]

theorem nested_reads (up : UInt8) (hup : up = 2 ∨ up = 4) :
    ∀ n ∈ [2, 3, 4], returnedWith
      (fun buf => (records buf 1024).map (fun r => (r.2.ino, r.2.name)) ==
        nestedRecords up n)
      (readDirBlock slackSb ((nestedDisk up).inodes n) 0 (nestedDisk up))
        = true := by
  rcases hup with rfl | rfl <;> decide +kernel

/-- A name that stands for something in one of them is in its records. -/
theorem nested_named {up : UInt8} (hup : up = 2 ∨ up = 4) {n c : Nat}
    {name : Bytes} (hn : n ∈ [2, 3, 4])
    (h : Named slackSb (nestedDisk up) n name c) :
    c ≠ 0 ∧ (c, name) ∈ nestedRecords up n := by
  refine ⟨h.2, ?_⟩
  have hsize : ((nestedDisk up).inodes n).size = 1024 := by
    simp only [List.mem_cons, List.not_mem_nil, or_false] at hn
    exact congrArg Inode.size (if_pos hn)
  obtain ⟨k, hk, buf, hread, r, hr, hino, hname⟩ := h.record
  rw [hsize] at hk hr
  obtain rfl : k = 0 := Nat.lt_one_iff.mp hk
  obtain ⟨buf', d', hrun, hbuf⟩ := exists_of_returnedWith
    (nested_reads up hup n hn)
  rw [hread] at hrun
  cases hrun
  rw [← beq_iff_eq.mp hbuf, List.mem_map]
  exact ⟨r, hr, by rw [hino, hname]⟩

/-- What hangs where, when `a` says it hangs in the root. -/
theorem nested_holds {p c : Nat} (hp : p ∈ [2, 3, 4])
    (h : Holds slackSb (nestedDisk 2) p c) : p = 2 ∧ c = 3 ∨ p = 3 ∧ c = 4 := by
  obtain ⟨-, name, hdots, hnamed⟩ := h
  obtain ⟨hne, hmem⟩ := nested_named (Or.inl rfl) hp hnamed
  simp only [List.mem_cons, List.not_mem_nil, or_false] at hp
  -- `.` and `..` do not count, nor does an entry of inode 0
  have hcases : ∀ r ∈ nestedRecords 2 p, nameIsDotOrDotdot r.2 = false →
      r.1 ≠ 0 → p = 2 ∧ r.1 = 3 ∨ p = 3 ∧ r.1 = 4 := by
    rcases hp with rfl | rfl | rfl <;> decide
  exact hcases (c, name) hmem hdots hne

theorem nested_inTree {n : Nat} (h : InTree slackSb (nestedDisk 2) n) :
    n ∈ [2, 3, 4] := by
  induction h with
  | refl => decide
  | @tail p c hp hpc ih =>
    rcases nested_holds ih hpc with ⟨-, rfl⟩ | ⟨-, rfl⟩ <;> decide

/-- **They are a tree.** -/
theorem nested_tree : DirTree slackSb (nestedDisk 2) where
  inodes := by decide
  root_dir := by decide
  root_top p hp hroot := by
    rcases nested_holds (nested_inTree hp) hroot with ⟨-, h⟩ | ⟨-, h⟩ <;> cases h
  one_parent p q c hp hq hpc hqc := by
    rcases nested_holds (nested_inTree hp) hpc with ⟨rfl, rfl⟩ | ⟨rfl, rfl⟩ <;>
      rcases nested_holds (nested_inTree hq) hqc with ⟨rfl, h⟩ | ⟨rfl, h⟩ <;>
      first | rfl | cases h
  self n c hn hnamed := by
    have hn := nested_inTree hn
    obtain ⟨-, hmem⟩ := nested_named (Or.inl rfl) hn hnamed
    simp only [List.mem_cons, List.not_mem_nil, or_false] at hn
    rcases hn with rfl | rfl | rfl <;> simpa [nestedRecords, DOT] using hmem
  root_up c hnamed := by
    obtain ⟨-, hmem⟩ := nested_named (Or.inl rfl) (by decide) hnamed
    simpa [nestedRecords, DOT, ROOT_INODE] using hmem
  up p c q hp hpc hnamed := by
    rcases nested_holds (nested_inTree hp) hpc with ⟨rfl, rfl⟩ | ⟨rfl, rfl⟩
    all_goals
      obtain ⟨-, hmem⟩ := nested_named (Or.inl rfl) (by decide) hnamed
      simpa [nestedRecords, DOT] using hmem
  parent p c hp hpc := by
    rcases nested_holds (nested_inTree hp) hpc with ⟨rfl, rfl⟩ | ⟨rfl, rfl⟩ <;>
      decide +kernel

theorem nested_below : InTree slackSb (nestedDisk 2) 3 ∧
    Below slackSb (nestedDisk 2) 3 4 := by
  have hfind : ∀ p c : Nat, ∀ name : Bytes,
      returnedWith (fun x => x == c) (findNameInDirectory slackSb
        ((nestedDisk 2).inodes p) name (nestedDisk 2)) = true → c ≠ 0 →
      Named slackSb (nestedDisk 2) p name c := by
    intro p c name hrun hne
    obtain ⟨x, d', hx, hc⟩ := exists_of_returnedWith hrun
    obtain rfl := (findNameInDirectory_readOnly slackSb _ name).ok hx
    obtain rfl := beq_iff_eq.mp hc
    exact ⟨hx, hne⟩
  constructor
  · exact .single ⟨by decide, [97], by decide,
      hfind 2 3 [97] (by decide +kernel) (by decide)⟩
  · exact .single ⟨by decide, [98], by decide,
      hfind 3 4 [98] (by decide +kernel) (by decide)⟩

theorem found_lookup {sb : Superblock} {path : Bytes} {followFinal : Bool}
    {d : Disk} {n : Nat}
    (h : foundInode (nodeLookup sb path followFinal d) = some n) :
    ∃ node, nodeLookup sb path followFinal d = .ok node d ∧
      node.inodeNo = n ∧ IsCopy d node := by
  cases hrun : nodeLookup sb path followFinal d with
  | error e d' =>
    rw [hrun] at h
    cases h
  | ok node d' =>
    obtain ⟨rfl, hcopy⟩ := nodeLookup_ok hrun
    rw [hrun] at h
    cases h
    exact ⟨node, rfl, rfl, hcopy⟩

/-- The superuser. -/
def superuserCtx : WriteCtx := ⟨.USER, 0, 0, []⟩

/-- The check finds `a` above `b`, and `/a/b` may become `/c`. -/
theorem ancestor_check_nested :
    (∃ b, directoryHasAncestor slackSb ⟨4, (nestedDisk 2).inodes 4⟩ 3
        (nestedDisk 2) = .ok b (nestedDisk 2) ∧
      (b = true ↔ OnPath slackSb (nestedDisk 2) 3 4)) ∧
    OnPath slackSb (nestedDisk 2) 3 4 ∧
    ¬Below slackSb (nestedDisk 2) 4 2 := by
  obtain ⟨hthree, hfour⟩ := nested_below
  obtain ⟨hanswer, hrename⟩ :=
    (ancestor_check_iff slackSb (nestedDisk 2)).2 nested_tree
  refine ⟨hanswer 4 3 (hthree.trans hfour), ⟨hthree, hfour⟩, ?_⟩
  have hrun : succeeded (pathRename slackSb superuserCtx [47, 97, 47, 98]
      [47, 99] (nestedDisk 2)) = true := by
    decide +kernel
  have hsource : foundInode (nodeLookup slackSb [47, 97, 47, 98] false
      (nestedDisk 2)) = some 4 := by
    decide +kernel
  have hparent : foundInode (nodeLookup slackSb [47] true (nestedDisk 2))
      = some 2 := by
    decide +kernel
  obtain ⟨d', hrun⟩ := exists_of_succeeded hrun
  obtain ⟨source, hsource, hfour, hcopy⟩ := found_lookup hsource
  obtain ⟨parent, hparent, htwo, -⟩ := found_lookup hparent
  have hdir : nodeIsDir source = true := by
    unfold nodeIsDir
    rw [show source.inode = _ from hcopy, hfour]
    decide
  have hnot := hrename superuserCtx [47, 97, 47, 98] [47, 99] [47] [99] source
    parent d' hrun (by decide) hsource rfl hparent hdir
  rwa [hfour, htwo] at hnot

/-- **Two directories whose `..` entries name each other**: the check goes
round them for ever, so it does not return on every disk. -/
theorem ancestor_check_circle :
    ¬∀ (sb : Superblock) (d : Disk) (cur : Node) (ancestor : Nat),
      nodeIsDir cur = true → Returns sb d cur ancestor := by
  intro hall
  have hreturns := hall slackSb (nestedDisk 4) ⟨3, (nestedDisk 4).inodes 3⟩ 5
    (by decide)
  rw [returns_iff_ends] at hreturns
  have hup : outcome (readDirectoryParentInode slackSb
      ⟨3, (nestedDisk 4).inodes 3⟩) (nestedDisk 4) = .ok 4 := by
    decide +kernel
  have hdown : outcome (readDirectoryParentInode slackSb
      ⟨4, (nestedDisk 4).inodes 4⟩) (nestedDisk 4) = .ok 3 := by
    decide +kernel
  have hfirst : climb slackSb (nestedDisk 4) 5 ⟨3, (nestedDisk 4).inodes 3⟩
      = some ⟨4, (nestedDisk 4).inodes 4⟩ := by
    unfold climb parentNode
    rw [hup]
    rfl
  have hsecond : climb slackSb (nestedDisk 4) 5 ⟨4, (nestedDisk 4).inodes 4⟩
      = some ⟨3, (nestedDisk 4).inodes 3⟩ := by
    unfold climb parentNode
    rw [hdown]
    rfl
  refine not_ends_of_repeats ⟨0, 2, _, by decide, rfl, ?_⟩ hreturns
  rw [follow_succ_of_some hfirst, follow_succ_of_some hsecond]
  rfl

end NextUfs
