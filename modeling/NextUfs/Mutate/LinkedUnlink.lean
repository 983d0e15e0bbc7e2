/-
  NextUfs.Mutate.LinkedUnlink
  ───────────────────────────
  **UNLINK, AND LINK COUNTS.**
  An unlink takes a name out of a directory and then gives the inode back, when it
  has no other link.  The code goes by the link count that is stored, in sixteen
  bits.

    • `Removable`          — the name can be taken out, and its inode's names are
      counted,
    • `Linked.linkLess`    — an inode with other names,
    • `Linked.withoutFile` — and one that had only this name,
    • `unlink_linked`      — the link counts are right after an unlink.
-/
import NextUfs.Mutate.LinkedRemovals

namespace NextUfs

open State Radix Bits

/-! ## §1. What is asked of a removal. -/

/-- The allocated inodes, as the bitmaps have them. -/
def allocated (sb : Superblock) (d : Disk) : Finset Nat :=
  (Finset.range (inodeCount sb)).filter fun m =>
    ROOT_INODE ≤ m ∧ inodeUsed sb d m = true

theorem Linked.live_eq {sb : Superblock} {live : Finset Nat} {modes : Nat → UInt16}
    {d : Disk} (h : Linked sb live modes d) : live = allocated sb d := by
  ext m
  unfold allocated
  rw [Finset.mem_filter, Finset.mem_range]
  constructor
  · intro hm
    have hrange := h.inRange m hm
    exact ⟨hrange, h.real m hm, (h.used m hrange).mpr (.inl hm)⟩
  · rintro ⟨hrange, hreal, hused⟩
    exact ((h.used m hrange).mp hused).resolve_right (by omega)

/-- **What the path names can be removed**: the record of the name follows the one
it is joined to, and the sixteen bits of the link count hold the names of the
inode. -/
structure Removable (sb : Superblock) (d : Disk) (path : Bytes) : Prop where
  follows : ∀ parentPath name parent, splitPath path = .ok (parentPath, name) →
    nodeLookup sb parentPath true d = .ok parent d →
    FollowsLive sb d parent.inode name
  counted : ∀ target, nodeLookup sb path false d = .ok target d →
    nameCount sb (allocated sb d) d target.inodeNo < 2 ^ 16

section Unlink

variable {sb : Superblock} {live : Finset Nat} {modes : Nat → UInt16}
  {ctx : WriteCtx} {d d₁ d₂ d' e e' : Disk} {path name : Bytes}
  {parent target node : Node} {m p : Nat} {ino : Inode}

/-- A name taken out by an operation stands for the inode it has looked up. -/
theorem removeName_ok {m : Nat} (h : removeName sb parent name m d = .ok node d') :
    removeDirent sb parent name d = .ok (node, m) d' := by
  unfold removeName at h
  obtain ⟨⟨node', removed⟩, d₁, hremove, hret⟩ := bind_eq_ok h
  dsimp only at hret
  split at hret
  · cases hret
  · next hsame =>
    cases hret
    rw [not_not.mp hsame] at hremove
    exact hremove

/-- **What an unlink that succeeds has done.** -/
theorem pathUnlink_steps (hrun : pathUnlink sb ctx path d = .ok () d') :
    ∃ parent name target node d₁,
      findParent sb ctx path true d = .ok (parent, name) d ∧
      nodeLookup sb path false d = .ok target d ∧ nodeIsDir target = false ∧
      removeDirent sb parent name d = .ok (node, target.inodeNo) d₁ ∧
      removeLinkedInode sb target d₁ = .ok () d' := by
  unfold pathUnlink at hrun
  obtain ⟨⟨parent, name⟩, e₁, hparent, hrun₁⟩ := bind_eq_ok hrun
  have he₁ : e₁ = d := (findParent_found hparent).1
  rw [he₁] at hparent hrun₁
  obtain ⟨target, e₂, hlook, hrun₂⟩ := bind_eq_ok hrun₁
  have he₂ : e₂ = d := (nodeLookup_readOnly sb path false).ok hlook
  rw [he₂] at hlook hrun₂
  by_cases hdir : nodeIsDir target = true
  · rw [if_pos hdir] at hrun₂
    cases hrun₂
  rw [if_neg hdir] at hrun₂
  obtain ⟨_, e₃, hcheck, hrun₃⟩ := bind_eq_ok hrun₂
  rw [(liftCheck_ok hcheck).2] at hrun₃
  obtain ⟨_, e₄, hcheck', hrun₄⟩ := bind_eq_ok hrun₃
  rw [(liftCheck_ok hcheck').2] at hrun₄
  obtain ⟨node, d₁, hremove, hlast⟩ := bind_eq_ok hrun₄
  exact ⟨parent, name, target, node, d₁, hparent, hlook, Bool.eq_false_iff.mpr hdir,
    removeName_ok hremove, hlast⟩

/-- **A link goes, or the inode**: what the code does with an inode that has lost a
name. -/
theorem removeLinkedInode_cases (hrun : removeLinkedInode sb target e = .ok () e') :
    target.inode.nlink ≠ 0 ∧
      ((target.inode.nlink - 1 ≠ 0 ∧ e' = withInode e target.inodeNo
          { target.inode with nlink := target.inode.nlink - 1, ctime := e.clock }) ∨
        (target.inode.nlink - 1 = 0 ∧ ∃ e₁,
          ((isSpecialMode target.inode.mode = true ∧ e₁ = e) ∨
            (isSpecialMode target.inode.mode = false ∧ ∃ s,
              freeFileStorage sb ⟨e, { target.inode with
                nlink := target.inode.nlink - 1 }, 0⟩ = .ok () s ∧ e₁ = s.disk)) ∧
          (do
            writeInodeRaw sb target.inodeNo clearedInode
            freeInodeInGroup sb target.inodeNo target.inode.mode) e₁ = .ok () e')) := by
  unfold removeLinkedInode at hrun
  by_cases hzero : target.inode.nlink = 0
  · rw [if_pos hzero] at hrun
    cases hrun
  rw [if_neg hzero] at hrun
  refine ⟨hzero, ?_⟩
  dsimp only at hrun
  by_cases hlast : target.inode.nlink - 1 = 0
  · rw [if_pos hlast] at hrun
    refine .inr ⟨hlast, ?_⟩
    by_cases hspecial : isSpecialMode target.inode.mode = false
    · rw [if_pos hspecial] at hrun
      obtain ⟨⟨rc, ino⟩, e₁, hstore, hrun₁⟩ := bind_eq_ok hrun
      obtain ⟨_, e₂, hcheck, hrest⟩ := bind_eq_ok hrun₁
      obtain ⟨hrc, he₂⟩ := liftCheck_ok hcheck
      rw [he₂] at hrest
      rcases runStorer_ok hstore with ⟨s, hs, heq, he₁⟩ | ⟨x, s, hs, heq, he₁⟩
      · exact ⟨e₁, .inr ⟨hspecial, s, hs, he₁⟩, hrest⟩
      · rw [Prod.mk.injEq] at heq
        rw [heq.1] at hrc
        cases hrc
    · rw [if_neg hspecial] at hrun
      rw [Bool.not_eq_false] at hspecial
      exact ⟨e, .inl ⟨hspecial, rfl⟩, hrun⟩
  · rw [if_neg hlast] at hrun
    obtain ⟨now, e₁, hnow, hwrite⟩ := bind_eq_ok hrun
    cases hnow
    exact .inl ⟨hlast, writeInodeRaw_ok hwrite⟩

/-- Sixteen bits hold the names of an inode: its link count is their number. -/
theorem Linked.nlink_toNat (h : Linked sb live modes d) {m : Nat} (hm : m ∈ live)
    (hcount : nameCount sb live d m < 2 ^ 16) :
    (d.inodes m).nlink.toNat = nameCount sb live d m := by
  rw [h.links m hm]
  exact Nat.mod_eq_of_lt hcount

/-- The entries of a directory that has been looked up, and that their names are
different ones. -/
theorem Linked.lookup_entries (hgeo : DirGeometry sb) (h : Linked sb live modes d)
    {follow : Bool} (hlook : nodeLookup sb path follow d = .ok target d)
    (hdir : nodeIsDir target = true) :
    entriesIn sb d target.inodeNo = dirEntries sb d target.inode ∧
      ((dirEntries sb d target.inode).map Prod.snd).Nodup := by
  obtain ⟨hlive, hcopy⟩ := h.lookup hgeo hlook
  have hsame : d.inodes target.inodeNo = target.inode := hcopy.symm
  have heq : entriesIn sb d target.inodeNo = dirEntries sb d target.inode := by
    rw [entriesIn_of_dir (by rw [hsame]; exact hdir), hsame]
  refine ⟨heq, ?_⟩
  rw [← heq]
  exact h.unique _ hlive

/-- **An inode with other names has a link less**, and the link counts are right
again. -/
theorem Linked.linkLess (hgeo : DirGeometry sb) (h : Linked sb live modes d)
    (hremoved : NameRemoved sb live modes p name m d d₁) (hm : m ∈ live) (hp : p ∈ live)
    (hlay : SameLayout (d₁.inodes m) ino)
    (hnlink : ino.nlink = (d₁.inodes m).nlink - 1) :
    Linked sb live modes (withInode d₁ m ino) := by
  refine h.unmade hremoved (fun _ hq => hq)
    (hremoved.ordered.restamped hgeo hm hlay) (fun q _ => hlay.entriesIn q)
    (fun q _ => hlay.kinds q)
    (fun q _ _ hin => hlay.inside hgeo.toDataGeometry hin) fun q hq => ?_
  have hcount := hremoved.count hp q
  rw [nameCount_congr fun p _ => hlay.entriesIn p]
  by_cases hqm : q = m
  · rw [hqm, if_pos rfl] at hcount
    rw [hqm, show (withInode d₁ m ino).inodes m = ino from Function.update_self ..,
      hnlink, hremoved.links, h.links m hm, ← hcount, UInt16.ofNat_add]
    exact UInt16.add_sub_cancel _ _
  · rw [if_neg fun heq => hqm heq.symm, Nat.add_zero] at hcount
    rw [show (withInode d₁ m ino).inodes q = d₁.inodes q from
      Function.update_of_ne hqm .., hremoved.links, hcount]
    exact h.links q hq

/-- **What a file claims is given back** when its last link goes. -/
theorem NameRemoved.given (hgeo : DirGeometry sb)
    (h : NameRemoved sb live modes p name target.inodeNo d d₁)
    (hm : target.inodeNo ∈ live) (hone : d₁.inodes target.inodeNo = target.inode)
    (hknown : KnownKind target.inode.mode) (hfile : nodeIsDir target = false)
    (hgiven : (isSpecialMode target.inode.mode = true ∧ d₂ = d₁) ∨
      (isSpecialMode target.inode.mode = false ∧ ∃ s,
        freeFileStorage sb ⟨d₁, { target.inode with
          nlink := target.inode.nlink - 1 }, 0⟩ = .ok () s ∧ d₂ = s.disk)) :
    Given sb d₁ d₂ (inodeClaims sb d₁ (d₁.inodes target.inodeNo)) := by
  rw [hone]
  rcases hgiven with ⟨hspecial, rfl⟩ | ⟨hstored, s, hs, rfl⟩
  · exact (Given.refl sb d₂).congr fun f => (isSpecialMode_claims hspecial d₂ f).symm
  · generalize hino : ({ target.inode with
      nlink := target.inode.nlink - 1 } : Inode) = ino at hs
    have hlay : SameLayout target.inode ino := by
      rw [← hino]
      exact ⟨rfl, rfl⟩
    have hmode : ino.mode = target.inode.mode := by rw [← hino]
    have hback := freeFileStorage_given hgeo.toSpaceGeometry
      h.ordered.space.magic (hknown.congr hlay.kind)
      (by rw [hmode]; exact hstored) (fun hblocks => ?_) hs
    · exact hback.congr fun f => hlay.inodeClaims d₁ f
    · rw [hlay.storesBlocks] at hblocks
      have hfreeable := h.ordered.files _ hm (by rw [hone]; exact hfile) (by
        rw [hone]
        exact hblocks)
      rw [hone] at hfreeable
      exact hlay.freeable hfreeable

/-- **A file that is gone** held no names: the link counts are right without it. -/
theorem Linked.withoutFile (h : Linked sb live modes d)
    (hremoved : NameRemoved sb live modes p name m d d₁) (hm : m ∈ live) (hp : p ∈ live)
    (hfile : isDirMode (d₁.inodes m).mode = false)
    (hdropped : InodeDropped sb live modes m d₁ d₂) :
    Linked sb (live.erase m) modes d₂ := by
  have hold : ∀ q ∈ live.erase m, q ∈ live ∧ q ≠ m := fun q hq =>
    ⟨Finset.mem_of_mem_erase hq, Finset.ne_of_mem_erase hq⟩
  refine h.unmade hremoved (Finset.erase_subset _ _) hdropped.ordered
    (fun q hq => hdropped.entries q (hold q hq).1 (hold q hq).2)
    (fun q hq => by rw [hdropped.inodes q (hold q hq).2])
    (fun q hq hdir hin => hdropped.inside q (hold q hq).1 (hold q hq).2 hdir hin)
    fun q hq => ?_
  obtain ⟨hq, hqm⟩ := hold q hq
  have hsame := hremoved.count hp q
  rw [if_neg fun heq => hqm heq.symm, Nat.add_zero] at hsame
  have herase := nameCount_erase sb d₁ hm q
  rw [entriesIn_of_file hfile, namesFor_nil, Nat.add_zero, hsame] at herase
  rw [hdropped.inodes q hqm, hremoved.links, nameCount_congr fun p hp =>
    hdropped.entries p (hold p hp).1 (hold p hp).2, herase]
  exact h.links q hq

/-- **An unlink leaves the link counts right.** -/
theorem unlink_linked (hgeo : DirGeometry sb) (h : Linked sb live modes d)
    (hremovable : Removable sb d path)
    (hrun : pathUnlink sb ctx path d = .ok () d') :
    ∃ live' ⊆ live, Linked sb live' modes d' := by
  obtain ⟨parent, name, target, node, d₁, hparent, hlook, hfile, hremove, hlast⟩ :=
    pathUnlink_steps hrun
  obtain ⟨-, hneed, parentPath, hsplit, hplook⟩ := findParent_found hparent
  have hdir := hneed rfl
  obtain ⟨hplive, hpcopy⟩ := h.lookup hgeo hplook
  obtain ⟨hlive, hcopy⟩ := h.lookup hgeo hlook
  have hpsame : d.inodes parent.inodeNo = parent.inode := hpcopy.symm
  have htsame : d.inodes target.inodeNo = target.inode := hcopy.symm
  have hne : target.inodeNo ≠ parent.inodeNo := by
    intro heq
    have hsame : target.inode = parent.inode := by
      rw [← htsame, heq, hpsame]
    unfold nodeIsDir at hfile hdir
    rw [hsame, hdir] at hfile
    cases hfile
  obtain ⟨hremoved, -, -⟩ := name_removed hgeo h.toConsistent
    (h.lookup_ordered hgeo hplook hdir) (h.lookup_entries hgeo hplook hdir).2
    (hremovable.follows parentPath name parent hsplit hplook) hremove
  have hone : d₁.inodes target.inodeNo = target.inode :=
    (hremoved.inodes _ hne).trans htsame
  obtain ⟨-, ⟨-, rfl⟩ | ⟨hnone, d₂, hgiven, hgive⟩⟩ := removeLinkedInode_cases hlast
  · -- there are other names
    refine ⟨live, fun _ hq => hq, h.linkLess hgeo hremoved hlive hplive ?_ ?_⟩
    · rw [hone]
      exact ⟨rfl, rfl⟩
    · rw [hone]
  · -- it was the last name
    have hnlink : target.inode.nlink = 1 := by
      have hcancel := UInt16.sub_add_cancel target.inode.nlink 1
      rw [hnone, UInt16.zero_add] at hcancel
      exact hcancel.symm
    have hgone : nameCount sb live d₁ target.inodeNo = 0 := by
      have hcounted := hremovable.counted target hlook
      rw [← h.live_eq] at hcounted
      have hlinks := h.nlink_toNat hlive hcounted
      rw [htsame, hnlink, show (1 : UInt16).toNat = 1 from rfl] at hlinks
      have hcount := hremoved.count hplive target.inodeNo
      rw [if_pos rfl] at hcount
      omega
    have hknown : KnownKind target.inode.mode := by
      have hknown := h.known _ hlive
      rw [htsame] at hknown
      exact hknown
    have hroot : ROOT_INODE < target.inodeNo := by
      refine Nat.lt_of_le_of_ne (h.real _ hlive) fun heq => ?_
      have hisDir := h.rootDir
      rw [heq, htsame] at hisDir
      unfold nodeIsDir at hfile
      rw [hisDir] at hfile
      cases hfile
    have hmode : isDirMode target.inode.mode = isDirMode (modes target.inodeNo) := by
      rw [h.kinds _ hlive, htsame]
    have hdropped := inode_dropped hgeo hremoved.ordered hlive hroot
      (fun q hq _ => unnamed_of_count hgone q hq) hmode
      (hremoved.given hgeo hlive hone hknown hfile hgiven) hgive
    exact ⟨live.erase target.inodeNo, Finset.erase_subset _ _,
      h.withoutFile hremoved hlive hplive (by rw [hone]; exact hfile) hdropped⟩

end Unlink

end NextUfs
