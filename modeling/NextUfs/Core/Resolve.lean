/-
  NextUfs.Core.Resolve
  ────────────────────
  **PATH LOOKUP AND COMPONENT WALKING.**

  The reference resolver takes a path apart once.  It keeps the directory it
  has reached, expands a link there (or at the root, if the target is
  absolute) and goes on with the target's components and its own.
  `lookup_path_recursive` writes a new path instead, and starts again.

    • `nodeResolve`         — the reference,
    • `lookupLoop_agrees`   — one path, by induction on its rounds,
    • `lookupPathRecursive_agrees` — with restarts, by induction on their number,
    • `nodeLookup_below`    — a path that goes on from what is no directory,
    • `lookup_eq_resolve_iff` — the exception: without following, a path that
      ends in two slashes or more follows its last link all the same.
-/
import NextUfs.Core.Frames
import NextUfs.Core.RoundTrip
import NextUfs.Lib.Segments

namespace NextUfs

open State Segments

/-! ## §1. The reference. -/

/-- The nonempty components of a path. -/
def components (path : Bytes) : List Bytes := segments SLASH path

/-- The path ends in two slashes. -/
def EndsInSlashes (path : Bytes) : Prop := EndsTwice SLASH path

instance (path : Bytes) : Decidable (EndsInSlashes path) := by
  unfold EndsInSlashes
  infer_instance

/-- Walk components from `current`; `expand` goes on after a link. -/
def walkComponents (sb : Superblock) (followFinal : Bool)
    (expand : Node → List Bytes → Op Node) : Node → List Bytes → Op Node
  | current, [] => return current
  | current, name :: rest =>
    if nodeIsDir current = false then throw .ENOTDIR
    else do
      let next ← orIoError (findNameInDirectory sb current.inode name)
      if next = 0 then throw .ENOENT
      else
        let node ← orIoError (nodeGetByInode sb next)
        if nodeIsLnk node ∧ (rest = [] → followFinal) then
          let linkTarget ← orIoError (inodeReadlink sb node.inode MAX_PATH_LEN)
          if linkTarget.head? = some SLASH then
            let root ← orIoError (nodeGetByInode sb ROOT_INODE)
            expand root (components linkTarget ++ rest)
          else expand current (components linkTarget ++ rest)
        else walkComponents sb followFinal expand node rest

/-- Walk components with a number of expansions left. -/
def resolve (sb : Superblock) (followFinal : Bool) :
    Nat → Node → List Bytes → Op Node
  | 0 => walkComponents sb followFinal fun _ _ => throw .ELOOP
  | n + 1 => walkComponents sb followFinal (resolve sb followFinal n)

/-- **The reference resolver.** -/
def nodeResolve (sb : Superblock) (path : Bytes) (followFinal : Bool) :
    Op Node := do
  let root ← orIoError (nodeGetByInode sb ROOT_INODE)
  resolve sb followFinal MAX_LOOKUP_DEPTH root (components path)

/-! ## §2. Agreement. -/

/-- Two runs agree, unless the first gives up on a path too long for its
buffers. -/
def Agree (x y : Op Node) (d : Disk) : Prop :=
  x d = y d ∨ x d = .error .ENAMETOOLONG d

section Agree

variable {x y : Op Node} {d : Disk}

theorem Agree.refl (x : Op Node) (d : Disk) : Agree x x d := Or.inl rfl

/-- Both go through the same reader. -/
theorem Agree.bind {α : Type} {r : Op α} {f g : α → Op Node} (hr : ReadOnly r)
    (h : ∀ a, r d = .ok a d → Agree (f a) (g a) d) :
    Agree (r >>= f) (r >>= g) d := by
  unfold Agree
  cases hrun : r d with
  | error e d' =>
    rw [bind_of_error hrun, bind_of_error hrun]
    exact Or.inl rfl
  | ok a d' =>
    obtain rfl := hr.ok hrun
    rw [bind_of_ok hrun, bind_of_ok hrun]
    exact h a hrun

/-- Only the first checks a length. -/
theorem Agree.checked {path : Bytes} {f : Bytes → Op Node}
    (h : Agree (f path) y d) : Agree (checkPathLen path >>= f) y d := by
  unfold checkPathLen
  split
  · exact Or.inr rfl
  · exact h

theorem Agree.appended {pfx segment : Bytes} {f : Bytes → Op Node}
    (h : ∀ pfx', components pfx' = components pfx ++ components segment →
      Agree (f pfx') y d) : Agree (appendPathComponent pfx segment >>= f) y d := by
  unfold appendPathComponent
  split
  · rename_i hroot
    apply Agree.checked
    apply h
    rw [show components (SLASH :: segment) = components segment from
      segments_cons_sep segment]
    rcases hroot with rfl | rfl <;> rfl
  · apply Agree.checked
    apply h
    exact segments_append pfx segment

end Agree

/-! ## §3. Reaching a node by its path. -/

/-- A walk from the root along `pfx` goes on from `node`. -/
def Reaches (sb : Superblock) (d : Disk) (root : Node) (pfx : Bytes)
    (node : Node) : Prop :=
  ∀ followFinal expand rest,
    walkComponents sb followFinal expand root (components pfx ++ rest) d =
      walkComponents sb followFinal expand node rest d

section Walk

variable {sb : Superblock} {d : Disk} {root current node : Node}
  {pfx pfx' segment : Bytes} {next : Nat}

theorem Reaches.start : Reaches sb d root [SLASH] root := fun _ _ _ => rfl

/-- A component that is no link. -/
theorem Reaches.step (h : Reaches sb d root pfx current)
    (hdir : ¬nodeIsDir current = false)
    (hfind : orIoError (findNameInDirectory sb current.inode segment) d =
      .ok next d) (hnext : next ≠ 0)
    (hnode : orIoError (nodeGetByInode sb next) d = .ok node d)
    (hlink : ¬nodeIsLnk node = true)
    (hpfx : components pfx' = components pfx ++ [segment]) :
    Reaches sb d root pfx' node := by
  intro followFinal expand rest
  rw [hpfx, List.append_assoc, h]
  show walkComponents sb followFinal expand current (segment :: rest) d = _
  rw [walkComponents, if_neg hdir, bind_of_ok hfind]
  simp only [if_neg hnext]
  rw [bind_of_ok hnode, if_neg (fun hc => hlink hc.1)]

/-- What `strsep` does to a string. -/
theorem strsep_cases (c : Bytes) :
    (SLASH ∉ c ∧ strsep c = (c, none))
      ∨ ∃ seg rest, SLASH ∉ seg ∧ c = seg ++ SLASH :: rest
        ∧ strsep c = (seg, some rest) := by
  induction c with
  | nil => exact Or.inl ⟨List.not_mem_nil, rfl⟩
  | cons x c ih =>
    by_cases hx : x = SLASH
    · subst hx
      exact Or.inr ⟨[], c, List.not_mem_nil, rfl, rfl⟩
    · have htake : (x :: c).takeWhile (· ≠ SLASH) =
          x :: c.takeWhile (· ≠ SLASH) :=
        List.takeWhile_cons_of_pos (by simpa using hx)
      have hdrop : (x :: c).dropWhile (· ≠ SLASH) = c.dropWhile (· ≠ SLASH) :=
        List.dropWhile_cons_of_pos (by simpa using hx)
      have hstep : strsep (x :: c) = (x :: (strsep c).1, (strsep c).2) := by
        unfold strsep
        rw [htake, hdrop]
      rw [hstep]
      rcases ih with ⟨hc, hrun⟩ | ⟨seg, rest, hseg, rfl, hrun⟩
      · rw [hrun]
        refine Or.inl ⟨?_, rfl⟩
        simp only [List.mem_cons, not_or]
        exact ⟨fun h => hx h.symm, hc⟩
      · rw [hrun]
        refine Or.inr ⟨x :: seg, rest, ?_, rfl, rfl⟩
        simp only [List.mem_cons, not_or]
        exact ⟨fun h => hx h.symm, hseg⟩

/-- The components of the path a link is replaced by. -/
theorem components_linkPath (pfx linkTarget remainder : Bytes) :
    components (linkPath pfx linkTarget remainder) =
      if linkTarget.head? = some SLASH then
        components linkTarget ++ components remainder
      else components pfx ++ (components linkTarget ++ components remainder) := by
  have htail : ∀ front : Bytes, components
      (front ++ if remainder = [] then [] else SLASH :: remainder) =
      components front ++ components remainder := by
    intro front
    by_cases hr : remainder = []
    · subst hr
      rw [if_pos rfl, List.append_nil]
      show _ = components front ++ []
      rw [List.append_nil]
    · rw [if_neg hr]
      exact segments_append front remainder
  unfold linkPath
  dsimp only
  split
  · exact htail linkTarget
  · show components (pfx ++ SLASH :: _) = _
    rw [← htail linkTarget]
    exact segments_append pfx _

/-- The path a link is replaced by ends as what follows the link. -/
theorem endsInSlashes_linkPath {pfx linkTarget remainder : Bytes}
    (hne : remainder ≠ []) : EndsInSlashes (linkPath pfx linkTarget remainder) ↔
      EndsInSlashes (SLASH :: remainder) := by
  have hlen : 2 ≤ (SLASH :: remainder).length := by
    have hpos := List.length_pos_of_ne_nil hne
    simp only [List.length_cons]
    omega
  unfold linkPath
  rw [if_neg hne]
  dsimp only
  split
  · exact endsTwice_append linkTarget hlen
  · rw [show pfx ++ SLASH :: (linkTarget ++ SLASH :: remainder) =
      (pfx ++ SLASH :: linkTarget) ++ SLASH :: remainder by simp]
    exact endsTwice_append _ hlen

/-! ## §4. The walk. -/

/-- A loop that has walked the last component. -/
theorem lookupLoop_none {followFinal : Bool} {restart : Bytes → Op Node}
    (fuel : Nat) (pfx : Bytes) (node : Node) :
    lookupLoop sb followFinal restart fuel pfx node none = return node := by
  cases fuel <;> rfl

/-- And one with a slash left behind it. -/
theorem lookupLoop_nil {followFinal : Bool} {restart : Bytes → Op Node}
    (fuel : Nat) (pfx : Bytes) (node : Node) :
    lookupLoop sb followFinal restart fuel pfx node (some []) = return node := by
  cases fuel with
  | zero => rfl
  | succ fuel => cases fuel <;> rfl

/-- **What one round takes off the path**: a piece without slashes; what is left
has the other components, and ends as the path does. -/
theorem strsep_piece (c : Bytes) :
    ∃ seg cursor, SLASH ∉ seg ∧ strsep c = (seg, cursor)
      ∧ components c = components seg ++ components (cursor.getD [])
      ∧ (EndsInSlashes c ↔ EndsInSlashes (SLASH :: cursor.getD []))
      ∧ ∀ rest, cursor = some rest → rest.length < c.length := by
  rcases strsep_cases c with ⟨hc, hrun⟩ | ⟨seg, rest, hs, rfl, hrun⟩
  · refine ⟨c, none, hc, hrun, ?_, ?_, fun rest h => by cases h⟩
    · show components c = components c ++ []
      rw [List.append_nil]
    · have hno : ¬EndsInSlashes [SLASH] := by decide
      have hno' : ¬EndsInSlashes c := not_endsTwice_of_notMem hc
      exact ⟨fun h => absurd h hno', fun h => absurd h hno⟩
  · refine ⟨seg, some rest, hs, hrun, segments_append seg rest,
      endsTwice_piece hs, ?_⟩
    rintro _ ⟨⟩
    rw [List.length_append, List.length_cons]
    omega

/-- **The two follow the same links**: those with a component behind them, and
the last one. -/
theorem followed_iff {followFinal t : Bool} {remainder : Bytes}
    (ht : t = true ↔ followFinal = true ∨ EndsInSlashes (SLASH :: remainder)) :
    (remainder = [] → followFinal = true) ↔
      (components remainder = [] → t = true) := by
  by_cases hr : remainder = []
  · subst hr
    have hno : ¬EndsInSlashes [SLASH] := by decide
    rw [ht]
    simp [hno, show components [] = [] from rfl]
  · by_cases hcr : components remainder = []
    · have hyes : EndsInSlashes (SLASH :: remainder) :=
        endsTwice_of_segments_nil hcr hr
      rw [ht]
      simp [hr, hyes]
    · simp [hr, hcr]

section Loop

variable {followFinal t : Bool} {restart : Bytes → Op Node}
  {expand : Bool → Node → List Bytes → Op Node}

/-- **A link**: the path it is replaced by goes on where the reference does. -/
theorem restart_agrees {linkTarget remainder : Bytes}
    (hroot : orIoError (nodeGetByInode sb ROOT_INODE) d = .ok root d)
    (hrestart : ∀ path t,
      (t = true ↔ followFinal = true ∨ EndsInSlashes path) →
      Agree (restart path) (expand t root (components path)) d)
    (hexpand : ∀ t pfx current, Reaches sb d root pfx current → ∀ rest,
      expand t root (components pfx ++ rest) d = expand t current rest d)
    (hreach : Reaches sb d root pfx current)
    (ht : t = true ↔ followFinal = true ∨ EndsInSlashes (SLASH :: remainder))
    (hfollow : remainder = [] → followFinal = true) :
    Agree (restart (linkPath pfx linkTarget remainder))
      (if linkTarget.head? = some SLASH then do
        let root ← orIoError (nodeGetByInode sb ROOT_INODE)
        expand t root (components linkTarget ++ components remainder)
      else expand t current (components linkTarget ++ components remainder)) d := by
  -- the new path is followed in the same way
  have ht' : t = true ↔ followFinal = true
      ∨ EndsInSlashes (linkPath pfx linkTarget remainder) := by
    by_cases hr : remainder = []
    · have hff := hfollow hr
      rw [ht]
      simp [hff]
    · rw [endsInSlashes_linkPath hr]
      exact ht
  have hgo := hrestart (linkPath pfx linkTarget remainder) t ht'
  rw [components_linkPath] at hgo
  by_cases habs : linkTarget.head? = some SLASH
  · rw [if_pos habs] at hgo
    rw [if_pos habs]
    unfold Agree at hgo ⊢
    rw [bind_of_ok hroot]
    exact hgo
  · rw [if_neg habs] at hgo
    rw [if_neg habs]
    unfold Agree at hgo ⊢
    rw [hexpand t pfx current hreach] at hgo
    exact hgo

/-- **One path**: the loop walks the components of what is left, following the
last one if it is told to or if the text ends in two slashes. -/
theorem lookupLoop_agrees
    (hroot : orIoError (nodeGetByInode sb ROOT_INODE) d = .ok root d)
    (hrestart : ∀ path t,
      (t = true ↔ followFinal = true ∨ EndsInSlashes path) →
      Agree (restart path) (expand t root (components path)) d)
    (hexpand : ∀ t pfx current, Reaches sb d root pfx current → ∀ rest,
      expand t root (components pfx ++ rest) d = expand t current rest d)
    (fuel : Nat) : ∀ pfx current c, c.length < fuel →
    Reaches sb d root pfx current →
    (components c ≠ [] →
      (t = true ↔ followFinal = true ∨ EndsInSlashes c)) →
    Agree (lookupLoop sb followFinal restart fuel pfx current (some c))
      (walkComponents sb t (expand t) current (components c)) d := by
  induction fuel with
  | zero =>
    intro pfx current c hlen
    exact absurd hlen (Nat.not_lt_zero _)
  | succ fuel ih =>
    intro pfx current c hlen hreach hfollow
    obtain ⟨seg, cursor, hseg, hsep, hcomponents, hlast, hcursor⟩ :=
      strsep_piece c
    have hshort : ∀ rest, cursor = some rest → rest.length < fuel :=
      fun rest h => Nat.lt_of_lt_of_le (hcursor rest h) (Nat.le_of_lt_succ hlen)
    unfold lookupLoop
    simp only [hsep]
    by_cases hempty : seg = []
    · -- a slash is skipped
      subst hempty
      rw [if_pos rfl, hcomponents]
      show Agree _ (walkComponents sb t (expand t) current
        (components (cursor.getD []))) d
      cases cursor with
      | none =>
        rw [lookupLoop_none]
        exact Agree.refl _ d
      | some rest =>
        apply ih pfx current rest (hshort rest rfl) hreach
        intro hne
        rw [hcomponents] at hfollow
        rw [hfollow hne, hlast]
        show _ ∨ EndsInSlashes (SLASH :: rest) ↔ _
        rw [show EndsInSlashes (SLASH :: rest) ↔ EndsInSlashes rest from
          endsTwice_cons_sep hne]
    rw [if_neg hempty]
    have hname : components seg = [seg] := segments_single hseg hempty
    rw [hname] at hcomponents
    have ht := hfollow (by rw [hcomponents]; simp)
    rw [hlast] at ht
    rw [hcomponents]
    show Agree _ (walkComponents sb t (expand t) current
      (seg :: components (cursor.getD []))) d
    unfold walkComponents
    by_cases hdir : nodeIsDir current = false
    · rw [if_pos hdir, if_pos hdir]
      exact Agree.refl _ d
    rw [if_neg hdir, if_neg hdir]
    apply Agree.bind (orIoError_keeps (findNameInDirectory_readOnly sb _ _))
    intro next hfind
    by_cases hnext : next = 0
    · rw [if_pos hnext, if_pos hnext]
      exact Agree.refl _ d
    rw [if_neg hnext, if_neg hnext]
    apply Agree.bind (orIoError_keeps (nodeGetByInode_readOnly sb next))
    intro node hnode
    generalize hrem : cursor.getD [] = remainder at *
    by_cases hlong : MAX_PATH_LEN ≤ remainder.length
    · rw [if_pos hlong]
      exact Or.inr rfl
    rw [if_neg hlong]
    have hsame := followed_iff ht
    by_cases hlink : nodeIsLnk node = true ∧
        (components remainder = [] → t = true)
    · have hlink' : nodeIsLnk node = true ∧
          (remainder = [] → followFinal = true) := ⟨hlink.1, hsame.2 hlink.2⟩
      rw [if_pos hlink, if_pos hlink']
      apply Agree.bind (orIoError_keeps (inodeReadlink_readOnly sb _ _))
      intro linkTarget _
      apply Agree.checked
      exact restart_agrees hroot hrestart hexpand hreach ht hlink'.2
    · have hlink' : ¬(nodeIsLnk node = true ∧
          (remainder = [] → followFinal = true)) :=
        fun h => hlink ⟨h.1, hsame.1 h.2⟩
      rw [if_neg hlink, if_neg hlink']
      apply Agree.appended
      intro pfx' hpfx'
      rw [hname] at hpfx'
      cases cursor with
      | none =>
        subst hrem
        rw [lookupLoop_none]
        exact Agree.refl _ d
      | some rest =>
        obtain rfl : rest = remainder := hrem
        by_cases hstop : nodeIsLnk node = true
        · -- a last link that is not followed
          have hr : rest = [] := by
            by_contra hr
            exact hlink' ⟨hstop, fun h => absurd h hr⟩
          rw [hr, lookupLoop_nil]
          exact Agree.refl _ d
        · have hreach' := hreach.step hdir hfind hnext hnode hstop hpfx'
          apply ih pfx' node rest (hshort rest rfl) hreach'
          intro hne
          rw [ht, show EndsInSlashes (SLASH :: rest) ↔
            EndsInSlashes rest from endsTwice_cons_sep hne]

end Loop

/-- **With restarts**: the code resolves what the reference does, following
the last link if it is told to or if the path ends in two slashes. -/
theorem lookupPathRecursive_agrees {followFinal : Bool}
    (hroot : orIoError (nodeGetByInode sb ROOT_INODE) d = .ok root d)
    (depth : Nat) : ∀ path t,
    (t = true ↔ followFinal = true ∨ EndsInSlashes path) →
    Agree (lookupPathRecursive sb followFinal (depth + 1) path)
      (resolve sb t depth root (components path)) d := by
  -- one level, over what happens after a link
  have hlevel : ∀ (depth : Nat) (expand : Bool → Node → List Bytes → Op Node),
      (∀ path t, (t = true ↔ followFinal = true ∨ EndsInSlashes path) →
        Agree (lookupPathRecursive sb followFinal depth path)
          (expand t root (components path)) d) →
      (∀ t pfx current, Reaches sb d root pfx current → ∀ rest,
        expand t root (components pfx ++ rest) d = expand t current rest d) →
      ∀ path t, (t = true ↔ followFinal = true ∨ EndsInSlashes path) →
        Agree (lookupPathRecursive sb followFinal (depth + 1) path)
          (walkComponents sb t (expand t) root (components path)) d := by
    intro depth expand hrestart hexpand path t ht
    unfold lookupPathRecursive
    have hstart : Agree (if path.dropWhile (· = SLASH) = [] then return root
        else lookupLoop sb followFinal
          (lookupPathRecursive sb followFinal depth)
          ((path.dropWhile (· = SLASH)).length + 2) [SLASH] root
          (some (path.dropWhile (· = SLASH))))
        (walkComponents sb t (expand t) root (components path)) d := by
      have hcomponents : components (path.dropWhile (· = SLASH)) =
          components path := segments_dropWhile path
      rw [← hcomponents]
      split
      · rename_i hnil
        rw [hnil]
        exact Agree.refl _ d
      · apply lookupLoop_agrees hroot hrestart hexpand
        · omega
        · exact Reaches.start
        · intro hne
          rw [ht]
          have hends : EndsInSlashes path ↔
              EndsInSlashes (path.dropWhile (· = SLASH)) :=
            endsTwice_dropWhile hne
          rw [hends]
    unfold Agree at hstart ⊢
    rw [bind_of_ok hroot]
    exact hstart
  induction depth with
  | zero =>
    exact hlevel 0 (fun _ _ _ => throw .ELOOP) (fun _ _ _ => Or.inl rfl)
      fun _ _ _ _ _ => rfl
  | succ depth ih =>
    apply hlevel (depth + 1) (fun t => resolve sb t depth) ih
    intro t pfx current hreach rest
    cases depth with
    | zero => exact hreach t _ rest
    | succ depth => exact hreach t _ rest

end Walk

/-! ## §5. The last link. -/

/-- The run ends at a symbolic link. -/
def EndsAtLink (r : EStateM.Result Errno Disk Node) : Prop :=
  ∃ node d', r = .ok node d' ∧ nodeIsLnk node = true

theorem not_lnk_of_dir {node : Node} (h : nodeIsDir node = true) :
    nodeIsLnk node = false := by
  unfold nodeIsDir isDirMode at h
  unfold nodeIsLnk
  rw [beq_iff_eq] at h
  rw [h]
  decide

section LastLink

variable {sb : Superblock} {d : Disk} {root : Node}

/-- Following the last link changes nothing where there is none. -/
theorem walkComponents_follow {follow nofollow : Node → List Bytes → Op Node}
    (hexpand : ∀ current comps, follow current comps d = nofollow current comps d
      ∨ EndsAtLink (nofollow current comps d)) (comps : List Bytes) :
    ∀ current, walkComponents sb true follow current comps d =
        walkComponents sb false nofollow current comps d
      ∨ EndsAtLink (walkComponents sb false nofollow current comps d) := by
  induction comps with
  | nil =>
    intro current
    exact Or.inl rfl
  | cons name rest ih =>
    intro current
    rw [walkComponents, walkComponents]
    by_cases hdir : nodeIsDir current = false
    · rw [if_pos hdir, if_pos hdir]
      exact Or.inl rfl
    rw [if_neg hdir, if_neg hdir]
    cases hfind : orIoError (findNameInDirectory sb current.inode name) d with
    | error e d' =>
      rw [bind_of_error hfind, bind_of_error hfind]
      exact Or.inl rfl
    | ok next d' =>
    obtain rfl := (orIoError_keeps (findNameInDirectory_readOnly sb _ _)).ok hfind
    rw [bind_of_ok hfind, bind_of_ok hfind]
    by_cases hnext : next = 0
    · rw [if_pos hnext, if_pos hnext]
      exact Or.inl rfl
    rw [if_neg hnext, if_neg hnext]
    cases hnode : orIoError (nodeGetByInode sb next) d' with
    | error e d' =>
      rw [bind_of_error hnode, bind_of_error hnode]
      exact Or.inl rfl
    | ok node d' =>
    obtain rfl := (orIoError_keeps (nodeGetByInode_readOnly sb next)).ok hnode
    rw [bind_of_ok hnode, bind_of_ok hnode]
    by_cases hlink : nodeIsLnk node = true
    case neg =>
      rw [if_neg (fun h => hlink h.1), if_neg (fun h => hlink h.1)]
      exact ih node
    by_cases hrest : rest = []
    · -- the last component is a link
      subst hrest
      have hstop : ¬(nodeIsLnk node = true ∧ ([] = ([] : List Bytes) →
          (false : Bool) = true)) := fun h => absurd (h.2 rfl) (by simp)
      rw [if_neg hstop]
      exact Or.inr ⟨node, d', rfl, hlink⟩
    · have hgo : ∀ b : Bool, nodeIsLnk node = true ∧ (rest = [] → b = true) :=
        fun b => ⟨hlink, fun h => absurd h hrest⟩
      rw [if_pos (hgo true), if_pos (hgo false)]
      cases hread : orIoError (inodeReadlink sb node.inode MAX_PATH_LEN) d' with
      | error e d' =>
        rw [bind_of_error hread, bind_of_error hread]
        exact Or.inl rfl
      | ok linkTarget d' =>
      obtain rfl := (orIoError_keeps (inodeReadlink_readOnly sb _ _)).ok hread
      rw [bind_of_ok hread, bind_of_ok hread]
      split
      · cases hroot : orIoError (nodeGetByInode sb ROOT_INODE) d' with
        | error e d' =>
          rw [bind_of_error hroot, bind_of_error hroot]
          exact Or.inl rfl
        | ok root d' =>
          obtain rfl :=
            (orIoError_keeps (nodeGetByInode_readOnly sb ROOT_INODE)).ok hroot
          rw [bind_of_ok hroot, bind_of_ok hroot]
          exact hexpand root _
      · exact hexpand current _

theorem resolve_follow (n : Nat) : ∀ current comps,
    resolve sb true n current comps d = resolve sb false n current comps d
      ∨ EndsAtLink (resolve sb false n current comps d) := by
  induction n with
  | zero =>
    intro current comps
    exact walkComponents_follow (fun _ _ => Or.inl rfl) comps current
  | succ n ih =>
    intro current comps
    exact walkComponents_follow ih comps current

/-- A walk that follows its last link does not end at one. -/
theorem walkComponents_not_lnk {expand : Node → List Bytes → Op Node}
    (hroot : orIoError (nodeGetByInode sb ROOT_INODE) d = .ok root d)
    (hrootDir : nodeIsDir root = true)
    (hexpand : ∀ current comps, nodeIsDir current = true →
      ¬EndsAtLink (expand current comps d)) (comps : List Bytes) :
    ∀ current, nodeIsLnk current = false →
      ¬EndsAtLink (walkComponents sb true expand current comps d) := by
  induction comps with
  | nil =>
    rintro current hcur ⟨node, d', hrun, hlink⟩
    cases hrun
    rw [hcur] at hlink
    cases hlink
  | cons name rest ih =>
    intro current _
    rw [walkComponents]
    by_cases hdir : nodeIsDir current = false
    · rw [if_pos hdir]
      rintro ⟨node, d', hrun, -⟩
      cases hrun
    rw [if_neg hdir]
    rintro ⟨last, d', hrun, hlast⟩
    obtain ⟨next, d₁, hfind, hrest⟩ := bind_eq_ok hrun
    obtain rfl := (orIoError_keeps (findNameInDirectory_readOnly sb _ _)).ok hfind
    split at hrest
    · cases hrest
    obtain ⟨node, d₂, hnode, hstep⟩ := bind_eq_ok hrest
    obtain rfl := (orIoError_keeps (nodeGetByInode_readOnly sb next)).ok hnode
    split at hstep
    · obtain ⟨linkTarget, d₃, hread, hexp⟩ := bind_eq_ok hstep
      obtain rfl := (orIoError_keeps (inodeReadlink_readOnly sb _ _)).ok hread
      split at hexp
      · rw [bind_of_ok hroot] at hexp
        exact hexpand root _ hrootDir ⟨last, d', hexp, hlast⟩
      · have hcurDir : nodeIsDir current = true := by simpa using hdir
        exact hexpand current _ hcurDir ⟨last, d', hexp, hlast⟩
    · rename_i hlink
      have hnot : nodeIsLnk node = false := by
        rw [← Bool.not_eq_true]
        exact fun h => hlink ⟨h, fun _ => rfl⟩
      exact ih node hnot ⟨last, d', hstep, hlast⟩

theorem resolve_not_lnk
    (hroot : orIoError (nodeGetByInode sb ROOT_INODE) d = .ok root d)
    (hrootDir : nodeIsDir root = true) (n : Nat) : ∀ current comps,
    nodeIsDir current = true →
      ¬EndsAtLink (resolve sb true n current comps d) := by
  induction n with
  | zero =>
    intro current comps hcur
    apply walkComponents_not_lnk hroot hrootDir _ comps current
      (not_lnk_of_dir hcur)
    rintro _ _ _ ⟨node, d', hrun, -⟩
    cases hrun
  | succ n ih =>
    intro current comps hcur
    exact walkComponents_not_lnk hroot hrootDir ih comps current
      (not_lnk_of_dir hcur)

theorem resolve_nil (sb : Superblock) (t : Bool) (n : Nat) (current : Node) :
    resolve sb t n current [] = return current := by
  cases n <;> rfl

/-- Only a directory has components below it. -/
theorem resolve_dir {t : Bool} {n : Nat} {current node : Node}
    {comps : List Bytes} {d' : Disk} (hne : comps ≠ [])
    (hrun : resolve sb t n current comps d = .ok node d') :
    nodeIsDir current = true := by
  obtain ⟨name, rest, rfl⟩ := List.exists_cons_of_ne_nil hne
  by_contra hdir
  have hdir : nodeIsDir current = false := by simpa using hdir
  cases n with
  | zero =>
    unfold resolve at hrun
    rw [walkComponents, if_pos hdir] at hrun
    cases hrun
  | succ n =>
    unfold resolve at hrun
    rw [walkComponents, if_pos hdir] at hrun
    cases hrun

theorem nodeResolve_of_root {path : Bytes} {t : Bool}
    (hroot : orIoError (nodeGetByInode sb ROOT_INODE) d = .ok root d) :
    nodeResolve sb path t d =
      resolve sb t MAX_LOOKUP_DEPTH root (components path) d := by
  unfold nodeResolve
  rw [bind_of_ok hroot]

end LastLink

/-- **Path lookup is component walking**, whenever no path outgrows its
buffer, except in one case: it was told not to follow a last link, the path
ends in two slashes or more, and its last component is a link. -/
theorem lookup_eq_resolve_iff (sb : Superblock) (path : Bytes)
    (followFinal : Bool) (d : Disk)
    (hfits : nodeLookup sb path followFinal d ≠ .error .ENAMETOOLONG d) :
    nodeLookup sb path followFinal d = nodeResolve sb path followFinal d ↔
      followFinal = true ∨ ¬EndsInSlashes path ∨ components path = []
        ∨ ¬EndsAtLink (nodeResolve sb path false d) := by
  cases hroot : orIoError (nodeGetByInode sb ROOT_INODE) d with
  | error e d' =>
    -- the root inode cannot be read
    have hcode : nodeLookup sb path followFinal d = .error e d' := by
      unfold nodeLookup lookupPathRecursive
      rw [bind_of_error hroot]
    have href : ∀ t, nodeResolve sb path t d = .error e d' := by
      intro t
      unfold nodeResolve
      rw [bind_of_error hroot]
    constructor
    · intro _
      refine Or.inr (Or.inr (Or.inr ?_))
      rw [href]
      rintro ⟨node, d', hrun, -⟩
      cases hrun
    · intro _
      rw [hcode, href]
  | ok root d' =>
  obtain rfl :=
    (orIoError_keeps (nodeGetByInode_readOnly sb ROOT_INODE)).ok hroot
  have hagree : ∀ t, (t = true ↔ followFinal = true ∨ EndsInSlashes path) →
      nodeLookup sb path followFinal d' = nodeResolve sb path t d' := by
    intro t ht
    have h := lookupPathRecursive_agrees hroot MAX_LOOKUP_DEPTH path t ht
    unfold Agree at h
    unfold nodeLookup at hfits ⊢
    rw [nodeResolve_of_root hroot]
    exact h.resolve_right hfits
  constructor
  · intro heq
    by_contra hno
    simp only [not_or, not_not] at hno
    obtain ⟨hff, hends, hne, hlink⟩ := hno
    have hff : followFinal = false := by simpa using hff
    have htrue := hagree true (by simp [hends])
    subst hff
    rw [← heq, htrue] at hlink
    -- the walk that follows would end at a link
    obtain ⟨node, d₁, hrun, hlnk⟩ := hlink
    rw [nodeResolve_of_root hroot] at hrun
    have hdir := resolve_dir hne hrun
    exact resolve_not_lnk hroot hdir MAX_LOOKUP_DEPTH root _ hdir
      ⟨node, d₁, hrun, hlnk⟩
  · intro h
    by_cases hff : followFinal = true
    · exact hagree followFinal (by simp [hff])
    have hff : followFinal = false := by simpa using hff
    subst hff
    by_cases hends : EndsInSlashes path
    · rw [hagree true (by simp [hends]), nodeResolve_of_root hroot,
        nodeResolve_of_root hroot]
      rcases h with h | h | h | h
      · cases h
      · exact absurd hends h
      · rw [h, resolve_nil, resolve_nil]
      · rw [nodeResolve_of_root hroot] at h
        exact (resolve_follow MAX_LOOKUP_DEPTH root _).resolve_right h
    · exact hagree false (by simp [hends])

/-! ## §6. A path below what is no directory. -/

section Below

variable {sb : Superblock} {d : Disk} {name : Bytes} {t : Bool}

/-- A walk that follows its last link and ends at what is no directory cannot
go on from there. -/
theorem walkComponents_below {expand expand' : Node → List Bytes → Op Node}
    (hexpand : ∀ current comps node, expand current comps d = .ok node d →
      nodeIsDir node = false →
      expand' current (comps ++ [name]) d = .error .ENOTDIR d)
    (comps : List Bytes) : ∀ {current node : Node},
    walkComponents sb true expand current comps d = .ok node d →
    nodeIsDir node = false →
    walkComponents sb t expand' current (comps ++ [name]) d
      = .error .ENOTDIR d := by
  induction comps with
  | nil =>
    intro current node hrun hnode
    cases hrun
    rw [List.nil_append, walkComponents, if_pos hnode]
    rfl
  | cons comp rest ih =>
    intro current node hrun hnode
    rw [walkComponents] at hrun
    by_cases hdir : nodeIsDir current = false
    · rw [if_pos hdir] at hrun
      cases hrun
    rw [if_neg hdir] at hrun
    obtain ⟨next, d₁, hfind, hfound⟩ := bind_eq_ok hrun
    have hd := (orIoError_keeps (findNameInDirectory_readOnly sb _ _)).ok hfind
    rw [show d₁ = d from hd] at hfind hfound
    rw [List.cons_append, walkComponents, if_neg hdir, bind_of_ok hfind]
    by_cases hnext : next = 0
    · rw [if_pos hnext] at hfound
      cases hfound
    rw [if_neg hnext] at hfound ⊢
    obtain ⟨child, d₂, hget, hstep⟩ := bind_eq_ok hfound
    have hd := (orIoError_keeps (nodeGetByInode_readOnly sb next)).ok hget
    rw [show d₂ = d from hd] at hget hstep
    rw [bind_of_ok hget]
    by_cases hlink : nodeIsLnk child = true
    · rw [if_pos ⟨hlink, fun _ => rfl⟩] at hstep
      rw [if_pos ⟨hlink, fun hnil => absurd hnil (by simp)⟩]
      obtain ⟨linkTarget, d₃, hread, hgo⟩ := bind_eq_ok hstep
      have hd := (orIoError_keeps (inodeReadlink_readOnly sb _ _)).ok hread
      rw [show d₃ = d from hd] at hread hgo
      rw [bind_of_ok hread]
      by_cases habs : linkTarget.head? = some SLASH
      · rw [if_pos habs] at hgo ⊢
        obtain ⟨root, d₄, hroot, hexp⟩ := bind_eq_ok hgo
        have hd := (orIoError_keeps (nodeGetByInode_readOnly sb _)).ok hroot
        rw [show d₄ = d from hd] at hroot hexp
        rw [bind_of_ok hroot, ← List.append_assoc]
        exact hexpand root _ node hexp hnode
      · rw [if_neg habs] at hgo ⊢
        rw [← List.append_assoc]
        exact hexpand current _ node hgo hnode
    · rw [if_neg fun h => hlink h.1] at hstep ⊢
      exact ih hstep hnode

/-- **Below what is no directory there is nothing**, and the error says so. -/
theorem resolve_below (n : Nat) : ∀ {current node : Node} {comps : List Bytes},
    resolve sb true n current comps d = .ok node d → nodeIsDir node = false →
    resolve sb t n current (comps ++ [name]) d = .error .ENOTDIR d := by
  induction n with
  | zero =>
    intro current node comps hrun hnode
    exact walkComponents_below (fun _ _ _ h => by cases h) comps hrun hnode
  | succ n ih =>
    intro current node comps hrun hnode
    exact walkComponents_below (fun _ _ _ h hdir => ih h hdir) comps hrun hnode

/-- So its lookup does not say that there is nothing there. -/
theorem nodeLookup_below {parentPath path : Bytes} {parent : Node}
    (hparent : nodeLookup sb parentPath true d = .ok parent d)
    (hdir : nodeIsDir parent = false)
    (hcomps : components path = components parentPath ++ [name])
    (hends : ¬EndsInSlashes path) :
    nodeLookup sb path false d ≠ .error .ENOENT d := by
  cases hroot : orIoError (nodeGetByInode sb ROOT_INODE) d with
  | error e d' =>
    unfold nodeLookup lookupPathRecursive at hparent
    rw [bind_of_error hroot] at hparent
    cases hparent
  | ok root d' =>
    have hd := (orIoError_keeps (nodeGetByInode_readOnly sb ROOT_INODE)).ok hroot
    rw [show d' = d from hd] at hroot
    have hreach : resolve sb true MAX_LOOKUP_DEPTH root (components parentPath) d
        = .ok parent d := by
      have hagree := @lookupPathRecursive_agrees sb d root true hroot
        MAX_LOOKUP_DEPTH parentPath true ⟨fun _ => Or.inl rfl, fun _ => rfl⟩
      rcases hagree with heq | hlong
      · rw [← heq]
        exact hparent
      · unfold nodeLookup at hparent
        rw [hlong] at hparent
        cases hparent
    have hagree := @lookupPathRecursive_agrees sb d root false hroot
      MAX_LOOKUP_DEPTH path false ⟨fun h => absurd h Bool.false_ne_true, fun h =>
        h.elim id fun htwice => absurd htwice hends⟩
    unfold nodeLookup
    rcases hagree with heq | hlong
    · rw [heq, hcomps, resolve_below _ hreach hdir]
      exact fun h => by cases h
    · rw [hlong]
      exact fun h => by cases h

/-- A path that is split at its last slash. -/
theorem components_split {path parentPath name : Bytes} {m n : Nat}
    (h : pathSplit path m n = .ok (parentPath, name)) :
    components path = components parentPath ++ [name] ∧ ¬EndsInSlashes path := by
  unfold pathSplit at h
  dsimp only at h
  split at h
  · cases h
  rename_i hname
  have hhead : path.head? = some SLASH := by
    by_contra hne
    exact hname (Or.inl hne)
  have hne : (path.reverse.takeWhile (· ≠ SLASH)).reverse ≠ [] := fun hnil =>
    hname (Or.inr hnil)
  -- the path is what stands before its last slash, and the name
  obtain ⟨before, last, hpath, hlast, hnone⟩ := exists_lastSegment
    (List.mem_of_head? hhead)
  rw [hlast] at h hne
  subst hpath
  have htake : (before ++ SLASH :: last).take
      ((before ++ SLASH :: last).length - last.length - 1) = before := by
    rw [List.length_append, List.length_cons]
    have : before.length + (last.length + 1) - last.length - 1 = before.length := by
      omega
    rw [this, List.take_left']
    rfl
  have hsegs : components (before ++ SLASH :: last)
      = components before ++ [last] := by
    unfold components
    rw [segments_append, segments_single hnone hne]
  constructor
  · rw [hsegs]
    rw [htake] at h
    split at h
    · cases h
    split at h
    · rename_i hnil
      split at h
      · cases h
      · cases h
        rw [hnil]
        rfl
    · split at h
      · cases h
      · cases h
        rfl
  · exact not_endsTwice_segment hnone hne

end Below

/-! ## §7. A link with slashes after it. -/

/-- Geometry of a disk of two fragments. -/
def linkSb : Superblock :=
  { smallSb with
    fragCount := 2, blockSize := 64, fragSize := 64, fragsPerGroup := 2 }

/-- Its root names itself twice and a link `l`, whose target is the root. -/
def linkDisk : Disk where
  cstotal := 0
  sbTime := 0
  csum := fun _ => 0
  cgs := fun _ =>
    { link := 0, rlink := 0, time := 0, cgx := 0, ncyl := 1, niblk := 4
      ndblk := 2, cs := 0, rotor := 0, frotor := 0, irotor := 0
      frsum := fun _ => 0, btot := fun _ => 0, b := fun _ _ => 0
      iused := fun i => decide (i < 4), magic := CG_MAGIC
      free := fun _ => false }
  inodes := fun m =>
    if m = 2 then
      { zeroInode with
        mode := IFDIR ||| 0o755, nlink := 2, size := 36, blocks := 1
        db := fun i => if i = 0 then 1 else 0 }
    else if m = 3 then
      { zeroInode with
        mode := IFLNK ||| 0o777, nlink := 1, size := 1, flags := IC_FASTLINK
        db := fun i => if i = 0 then 0x2f000000 else 0 }
    else zeroInode
  data := fun i =>
    if 64 ≤ i ∧ i < 100 then
      ([0, 0, 0, 2, 0, 12, 0, 1, 46, 0, 0, 0,
        0, 0, 0, 2, 0, 12, 0, 2, 46, 46, 0, 0,
        0, 0, 0, 3, 0, 12, 0, 1, 108, 0, 0, 0] : Bytes).getD (i - 64) 0
    else 0
  clock := 0

/-- The inode a lookup has found. -/
def foundInode (r : EStateM.Result Errno Disk Node) : Option Nat :=
  match r with
  | .ok node _ => some node.inodeNo
  | .error _ _ => none

/-- `/l/` without following is the link, to both. -/
theorem lookup_eq_resolve_link :
    nodeLookup linkSb [47, 108, 47] false linkDisk =
      nodeResolve linkSb [47, 108, 47] false linkDisk := by
  have hfound : foundInode (nodeLookup linkSb [47, 108, 47] false linkDisk) =
      some 3 := by decide +kernel
  apply (lookup_eq_resolve_iff linkSb [47, 108, 47] false linkDisk ?_).2
  · exact Or.inr (Or.inl (by decide))
  · intro hlong
    rw [hlong] at hfound
    cases hfound

/-- **Two slashes**: `/l//` without following is the link to the reference,
and the root, where the link points, to the code. -/
theorem lookup_follows_link :
    foundInode (nodeLookup linkSb [47, 108, 47, 47] false linkDisk) = some 2
      ∧ foundInode (nodeResolve linkSb [47, 108, 47, 47] false linkDisk) =
        some 3 := by
  constructor <;> decide +kernel

end NextUfs
