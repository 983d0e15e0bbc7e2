/-
  NextUfs.Mutate.InodeChanges
  ───────────────────────────
  **ONE INODE CHANGES, AND THE IMAGE STAYS IN ORDER.**
  The operations write one inode after another.  What a step does to the others
  is always the same: nothing, neither to them nor to what they claim.  So the
  image is in order after the step if the inode that has changed is.

    • `OthersKept`            — the other inodes are as they were,
    • `Consistent.ofOthers`   — the image is in order if the inode is,
    • `Consistent.restamped`  — an inode with another mode, owner, link count or
      time,
    • `Consistent.changeFile` — a file with other storage,
    • `Consistent.addInode`   — an inode more, a directory or not,
    • `Consistent.dropInode`  — an inode less.
-/
import NextUfs.Mutate.NameCounts
import NextUfs.Mutate.SymlinkTarget

namespace NextUfs

open State Radix Bits

/-! ## §1. The other inodes. -/

/-- **The inodes but `m` are as they were**, and so is what they claim. -/
structure OthersKept (sb : Superblock) (live : Finset Nat) (m : Nat)
    (d d' : Disk) : Prop where
  inodes : ∀ q ∈ live, q ≠ m → d'.inodes q = d.inodes q
  frags : ∀ q ∈ live, q ≠ m → ∀ f, 0 < inodeClaims sb d (d.inodes q) f →
    SameFrag sb d d' f

/-- **Inode `m` is in order** on a disk: a file's storage can be given back, and a
directory is in order and names allocated inodes only. -/
structure InOrder (sb : Superblock) (live : Finset Nat) (modes : Nat → UInt16)
    (d : Disk) (m : Nat) : Prop where
  file : isDirMode (d.inodes m).mode = false → storesBlocks (d.inodes m) = true →
    Freeable sb d (d.inodes m)
  dir : isDirMode (d.inodes m).mode = true →
    OrderedDir sb live modes d ⟨m, d.inodes m⟩
  entries : ∀ e ∈ entriesIn sb d m, e.1 ∈ live

section Others

variable {sb : Superblock} {live live' : Finset Nat} {modes modes' : Nat → UInt16}
  {d d' : Disk} {m q : Nat}

theorem Consistent.inOrder (h : Consistent sb live modes d) (hm : m ∈ live) :
    InOrder sb live modes d m :=
  ⟨h.files m hm, h.dirs m hm, h.entryLive hm⟩

/-- The other inodes claim what they claimed. -/
theorem OthersKept.claims (hkept : OthersKept sb live m d d')
    (hgeo : DataGeometry sb) (hq : q ∈ live) (hne : q ≠ m) (f : Nat) :
    inodeClaims sb d' (d'.inodes q) f = inodeClaims sb d (d.inodes q) f := by
  rw [hkept.inodes q hq hne]
  exact inodeClaims_congr hgeo (hkept.frags q hq hne) f

/-- The other directories have the entries they had. -/
theorem OthersKept.entriesIn (hkept : OthersKept sb live m d d')
    (hgeo : DataGeometry sb) (hq : q ∈ live) (hne : q ≠ m) :
    NextUfs.entriesIn sb d' q = NextUfs.entriesIn sb d q := by
  unfold NextUfs.entriesIn
  rw [hkept.inodes q hq hne]
  by_cases hdir : isDirMode (d.inodes q).mode = true
  · rw [if_pos hdir, if_pos hdir]
    refine dirEntries_same hgeo fun f hf => hkept.frags q hq hne f ?_
    rw [inodeClaims_of_dir hdir]
    exact hf
  · rw [if_neg hdir, if_neg hdir]

/-- The other inodes are in order. -/
theorem OthersKept.inOrder (hkept : OthersKept sb live m d d')
    (hgeo : DirGeometry sb) (h : InOrder sb live modes d q)
    (hspace : FreeSpace sb modes' d') (howned : FragsOwned sb live' d')
    (hq : q ∈ live) (hq' : q ∈ live') (hne : q ≠ m)
    (hnamed : ∀ e ∈ NextUfs.entriesIn sb d q, e.1 ∈ live') :
    InOrder sb live' modes' d' q := by
  have hgeo' := hgeo.toDataGeometry
  have hsame := hkept.inodes q hq hne
  refine ⟨fun hdir hblocks => ?_, fun hdir => ?_, ?_⟩
  · have hle := howned.claims_le hq'
    rw [hsame] at hdir hblocks hle ⊢
    have hfrags := hkept.frags q hq hne
    unfold inodeClaims at hfrags hle
    simp only [if_pos hblocks] at hfrags hle
    exact (h.file hdir hblocks).moved hgeo' hfrags hle
  · rw [hsame] at hdir ⊢
    refine (h.dir hdir).moved hgeo hspace howned hq' hsame fun f hf =>
      hkept.frags q hq hne f ?_
    rw [inodeClaims_of_dir hdir]
    exact hf
  · rw [hkept.entriesIn hgeo' hq hne]
    exact hnamed

/-- **The image is in order** if its other inodes have been kept, and inode `m` is
in order or no longer allocated. -/
theorem Consistent.ofOthers (hgeo : DirGeometry sb)
    (h : Consistent sb live modes d) (hkept : OthersKept sb live m d d')
    (hspace : FreeSpace sb modes' d') (howned : FragsOwned sb live' d')
    (hold : ∀ q ∈ live', q ≠ m → q ∈ live) (hroot : ROOT_INODE ∈ live')
    (hrange : m < inodeCount sb)
    (hused : ∀ q < inodeCount sb,
      inodeUsed sb d' q = true ↔ q ∈ live' ∨ q < ROOT_INODE)
    (hnamed : ∀ q ∈ live', q ≠ m → ∀ e ∈ NextUfs.entriesIn sb d q, e.1 ∈ live')
    (hself : m ∈ live' → InOrder sb live' modes' d' m) :
    Consistent sb live' modes' d' := by
  have hall : ∀ q ∈ live', InOrder sb live' modes' d' q := by
    intro q hq
    by_cases hne : q = m
    · rw [hne] at hq ⊢
      exact hself hq
    · exact hkept.inOrder hgeo (h.inOrder (hold q hq hne)) hspace howned
        (hold q hq hne) hq hne (hnamed q hq hne)
  refine ⟨hspace, howned, h.numbers, fun q hq => ?_, hused, hroot,
    fun q hq => (hall q hq).file, fun q hq => (hall q hq).dir,
    fun q hq hdir => ?_⟩
  · by_cases hne : q = m
    · rw [hne]
      exact hrange
    · exact h.inRange q (hold q hq hne)
  · have hentries := (hall q hq).entries
    rw [entriesIn_of_dir hdir] at hentries
    exact hentries

/-- A step that changes only what was free, and what `m` claimed, keeps the
others. -/
theorem Consistent.othersKept (h : Consistent sb live modes d) (hm : m ∈ live)
    (hinodes : ∀ q ∈ live, q ≠ m → d'.inodes q = d.inodes q)
    (hframe : ∀ f, freeAt sb d f = 0 → inodeClaims sb d (d.inodes m) f = 0 →
      SameFrag sb d d' f) : OthersKept sb live m d d' :=
  ⟨hinodes, fun _ hq hne f hf => hframe f (h.owned.claimed hq hf)
    (h.owned.other hm hq hne hf)⟩

/-- Pointer blocks that have not changed are where they were. -/
theorem InodeInside.moved {ino ino' : Inode} (h : InodeInside sb d ino)
    (hgeo : DataGeometry sb) (hib : ino'.ib = ino.ib)
    (hsame : ∀ f, 0 < metaFrags sb d ino f → SameFrag sb d d' f) :
    InodeInside sb d' ino' := by
  intro slot
  rw [hib]
  refine TreeInside.congr (sameTree_of_frags hgeo fun f hf => hsame f ?_) (h slot)
  exact hf.trans_le (treeFrags_le_metaFrags sb d ino slot f)

/-- The other directories have their pointer blocks. -/
theorem OthersKept.inside (hkept : OthersKept sb live m d d')
    (hgeo : DataGeometry sb) (hq : q ∈ live) (hne : q ≠ m)
    (hdir : isDirMode (d.inodes q).mode = true)
    (h : InodeInside sb d (d.inodes q)) : InodeInside sb d' (d'.inodes q) := by
  rw [hkept.inodes q hq hne]
  refine h.moved hgeo rfl fun f hf => hkept.frags q hq hne f ?_
  rw [inodeClaims_of_dir hdir]
  exact hf.trans_le (metaFrags_le_claims sb d (d.inodes q) f)

end Others

/-! ## §2. Attributes. -/

/-- **An inode with other attributes**: its kind, its size and its storage are the
same. -/
structure SameLayout (ino ino' : Inode) : Prop where
  kind : ino'.mode &&& IFMT = ino.mode &&& IFMT
  layout : ino' = { ino' with
    size := ino.size, db := ino.db, ib := ino.ib, flags := ino.flags
    blocks := ino.blocks }

section Layout

variable {sb : Superblock} {live : Finset Nat} {modes : Nat → UInt16}
  {d : Disk} {m : Nat} {ino ino' : Inode}

theorem SameLayout.isDirMode (h : SameLayout ino ino') :
    NextUfs.isDirMode ino'.mode = NextUfs.isDirMode ino.mode := by
  unfold NextUfs.isDirMode
  rw [h.kind]

theorem SameLayout.storesBlocks (h : SameLayout ino ino') :
    NextUfs.storesBlocks ino' = NextUfs.storesBlocks ino := by
  unfold NextUfs.storesBlocks isFastLink
  rw [h.kind, congrArg Inode.flags h.layout]

theorem SameLayout.blockClaims (h : SameLayout ino ino') (d : Disk) (f : Nat) :
    NextUfs.blockClaims sb d ino' f = NextUfs.blockClaims sb d ino f := by
  rw [h.layout]
  rfl

theorem SameLayout.inodeClaims (h : SameLayout ino ino') (d : Disk) (f : Nat) :
    NextUfs.inodeClaims sb d ino' f = NextUfs.inodeClaims sb d ino f := by
  unfold NextUfs.inodeClaims
  rw [h.storesBlocks, h.blockClaims]

theorem SameLayout.dirEntries (h : SameLayout ino ino') (d : Disk) :
    NextUfs.dirEntries sb d ino' = NextUfs.dirEntries sb d ino := by
  rw [h.layout]
  rfl

theorem SameLayout.freeable (h : SameLayout ino ino')
    (hfree : Freeable sb d ino) : Freeable sb d ino' := by
  rw [h.layout]
  exact ⟨hfree.owned, hfree.runs, hfree.inside⟩

/-- The entries of every directory are what they were. -/
theorem SameLayout.entriesIn (h : SameLayout (d.inodes m) ino') (p : Nat) :
    NextUfs.entriesIn sb (withInode d m ino') p = NextUfs.entriesIn sb d p := by
  have hsame : SameLayout (d.inodes p) ((withInode d m ino').inodes p) := by
    by_cases hp : p = m
    · rw [hp]
      show SameLayout (d.inodes m) (Function.update d.inodes m ino' m)
      rw [Function.update_self]
      exact h
    · show SameLayout (d.inodes p) (Function.update d.inodes m ino' p)
      rw [Function.update_of_ne hp]
      exact ⟨rfl, rfl⟩
  unfold NextUfs.entriesIn
  rw [hsame.isDirMode, hsame.dirEntries]
  rfl

/-- **An inode gets other attributes.** -/
theorem Consistent.restamped (hgeo : DirGeometry sb)
    (h : Consistent sb live modes d) (hm : m ∈ live)
    (hlay : SameLayout (d.inodes m) ino') :
    Consistent sb live modes (withInode d m ino') := by
  have hself : (withInode d m ino').inodes m = ino' := Function.update_self ..
  have hother : ∀ q, q ≠ m → (withInode d m ino').inodes q = d.inodes q :=
    fun q hq => Function.update_of_ne hq ..
  have hsame : ∀ f, SameFrag sb d (withInode d m ino') f :=
    SameFrag.of_data_eq rfl
  have hspace : FreeSpace sb modes (withInode d m ino') :=
    h.space.of_groups rfl rfl rfl
  have hclaims : ∀ f, inodeClaims sb (withInode d m ino') ino' f
      = inodeClaims sb d (d.inodes m) f := fun f =>
    (inodeClaims_congr hgeo.toDataGeometry (fun f _ => hsame f) f).trans
      (hlay.inodeClaims d f)
  have howned : FragsOwned sb live (withInode d m ino') := by
    refine h.owned.replace hgeo.toDataGeometry hm (fun q _ hq => hother q hq)
      (fun f _ _ => hsame f) fun f => ?_
    rw [hself, hclaims]
    rfl
  refine h.ofOthers hgeo (h.othersKept hm (fun q _ hq => hother q hq)
    fun f _ _ => hsame f) hspace howned (fun q hq _ => hq) h.root
    (h.inRange m hm) h.used (fun q hq _ => h.entryLive hq) fun _ => ?_
  refine ⟨fun hdir hblocks => ?_, fun hdir => ?_, ?_⟩
  · rw [hself] at hdir hblocks ⊢
    rw [hlay.isDirMode] at hdir
    rw [hlay.storesBlocks] at hblocks
    have hfree := hlay.freeable (h.files m hm hdir hblocks)
    exact ⟨hfree.owned, hfree.runs, hfree.inside⟩
  · rw [hself] at hdir ⊢
    have hdir' := hdir
    rw [hlay.isDirMode] at hdir'
    have hord := h.dirs m hm hdir'
    refine ⟨hspace, howned, hm, hself, hdir, ?_, ?_, ?_⟩
    · rw [hlay.layout]
      exact hord.runs
    · rw [hlay.layout]
      exact hord.sectors
    · rw [hlay.layout]
      exact hord.chunks
  · rw [hlay.entriesIn]
    exact h.entryLive hm

end Layout

/-! ## §3. Storage. -/

section Storage

variable {sb : Superblock} {live : Finset Nat} {modes modes' : Nat → UInt16}
  {d d' : Disk} {m n : Nat} {ino : Inode}

/-- **A file gets other storage**: what it claims has come from free space, and
what it claimed has gone there. -/
theorem Consistent.changeFile (hgeo : DirGeometry sb)
    (h : Consistent sb live modes d) (hm : m ∈ live)
    (hinodes : d'.inodes = Function.update d.inodes m ino)
    (hused : ∀ q, inodeUsed sb d' q = inodeUsed sb d q)
    (hspace : FreeSpace sb modes d')
    (hframe : ∀ f, freeAt sb d f = 0 → inodeClaims sb d (d.inodes m) f = 0 →
      SameFrag sb d d' f)
    (hclaims : ∀ f, freeAt sb d' f + inodeClaims sb d' ino f
      = freeAt sb d f + inodeClaims sb d (d.inodes m) f)
    (hkind : isDirMode ino.mode = false)
    (hfile : storesBlocks ino = true → Freeable sb d' ino) :
    Consistent sb live modes d' := by
  have hself : d'.inodes m = ino := by
    rw [hinodes]
    exact Function.update_self ..
  have hother : ∀ q ∈ live, q ≠ m → d'.inodes q = d.inodes q := fun q _ hq => by
    rw [hinodes]
    exact Function.update_of_ne hq ..
  have howned : FragsOwned sb live d' :=
    h.owned.replace hgeo.toDataGeometry hm hother hframe fun f => by
      rw [hself]
      exact hclaims f
  refine h.ofOthers hgeo (h.othersKept hm hother hframe) hspace howned
    (fun q hq _ => hq) h.root (h.inRange m hm) (fun q hq => ?_)
    (fun q hq _ => h.entryLive hq) fun _ => ?_
  · rw [hused]
    exact h.used q hq
  · refine ⟨fun _ hblocks => ?_, fun hdir => ?_, ?_⟩
    · rw [hself] at hblocks ⊢
      exact hfile hblocks
    · rw [hself, hkind] at hdir
      cases hdir
    · rw [entriesIn_of_file (by rw [hself]; exact hkind)]
      exact fun e he => by cases he

/-- What the inodes of an image do not claim may change. -/
theorem Consistent.newKept (h : Consistent sb live modes d) (hnew : n ∉ live)
    (hinodes : d'.inodes = Function.update d.inodes n ino)
    (hframe : ∀ f, freeAt sb d f = 0 → SameFrag sb d d' f) :
    OthersKept sb live n d d' :=
  ⟨fun q hq _ => by
      rw [hinodes]
      exact Function.update_of_ne (fun heq : q = n => hnew (heq ▸ hq)) ..,
    fun _ hq _ f hf => hframe f (h.owned.claimed hq hf)⟩

/-- **An inode more**, that was not in use, with storage that was free. -/
theorem Consistent.addInode (hgeo : DirGeometry sb)
    (h : Consistent sb live modes d) (hn : n < inodeCount sb) (hnew : n ∉ live)
    (hinodes : d'.inodes = Function.update d.inodes n ino)
    (hused : ∀ q, inodeUsed sb d' q = if q = n then true else inodeUsed sb d q)
    (hspace : FreeSpace sb modes' d')
    (hframe : ∀ f, freeAt sb d f = 0 → SameFrag sb d d' f)
    (hclaims : ∀ f, freeAt sb d' f + inodeClaims sb d' ino f = freeAt sb d f)
    (hself : FragsOwned sb (insert n live) d' →
      InOrder sb (insert n live) modes' d' n) :
    Consistent sb (insert n live) modes' d' := by
  have hkept := h.newKept hnew hinodes hframe
  have hino : d'.inodes n = ino := by
    rw [hinodes]
    exact Function.update_self ..
  have howned : FragsOwned sb (insert n live) d' := by
    refine ⟨fun f => ?_⟩
    have hsum : ∑ q ∈ live, inodeClaims sb d' (d'.inodes q) f
        = ∑ q ∈ live, inodeClaims sb d (d.inodes q) f :=
      Finset.sum_congr rfl fun q hq => hkept.claims hgeo.toDataGeometry hq
        (fun heq : q = n => hnew (heq ▸ hq)) f
    have honce := h.owned.once f
    have htaken := hclaims f
    rw [Finset.sum_insert hnew, hsum, hino]
    omega
  refine h.ofOthers hgeo hkept hspace howned
    (fun q hq hne => (Finset.mem_insert.mp hq).resolve_left hne)
    (Finset.mem_insert_of_mem h.root) hn (fun q hq => ?_)
    (fun q hq hne e he => Finset.mem_insert_of_mem (h.entryLive
      ((Finset.mem_insert.mp hq).resolve_left hne) e he)) fun _ => hself howned
  rw [hused, Finset.mem_insert]
  by_cases hqn : q = n
  · rw [if_pos hqn]
    exact ⟨fun _ => Or.inl (Or.inl hqn), fun _ => rfl⟩
  · rw [if_neg hqn, h.used q hq]
    exact or_congr_left (or_iff_right hqn).symm

/-- **An inode less**: it has no names, and what it claimed is free. -/
theorem Consistent.dropInode (hgeo : DirGeometry sb)
    (h : Consistent sb live modes d) (hm : m ∈ live) (hroot : ROOT_INODE < m)
    (hinodes : ∀ q ∈ live, q ≠ m → d'.inodes q = d.inodes q)
    (hused : ∀ q, inodeUsed sb d' q = if q = m then false else inodeUsed sb d q)
    (hspace : FreeSpace sb modes' d')
    (hframe : ∀ f, freeAt sb d f = 0 → inodeClaims sb d (d.inodes m) f = 0 →
      SameFrag sb d d' f)
    (hclaims : ∀ f, freeAt sb d' f
      = freeAt sb d f + inodeClaims sb d (d.inodes m) f)
    (hunnamed : ∀ q ∈ live, q ≠ m → ∀ e ∈ entriesIn sb d q, e.1 ≠ m) :
    Consistent sb (live.erase m) modes' d' := by
  have hkept := h.othersKept hm hinodes hframe
  have howned : FragsOwned sb (live.erase m) d' := by
    refine ⟨fun f => ?_⟩
    have hsum : ∑ q ∈ live.erase m, inodeClaims sb d' (d'.inodes q) f
        = ∑ q ∈ live.erase m, inodeClaims sb d (d.inodes q) f := by
      refine Finset.sum_congr rfl fun q hq => ?_
      obtain ⟨hne, hmem⟩ := Finset.mem_erase.mp hq
      exact hkept.claims hgeo.toDataGeometry hmem hne f
    have hsplit := Finset.add_sum_erase live
      (fun q => inodeClaims sb d (d.inodes q) f) hm
    have honce := h.owned.once f
    have hgiven := hclaims f
    rw [hsum]
    omega
  refine h.ofOthers hgeo hkept hspace howned
    (fun q hq _ => Finset.mem_of_mem_erase hq)
    (Finset.mem_erase.mpr ⟨hroot.ne, h.root⟩) (h.inRange m hm) (fun q hq => ?_)
    (fun q hq hne e he => Finset.mem_erase.mpr
      ⟨hunnamed q (Finset.mem_of_mem_erase hq) hne e he,
        h.entryLive (Finset.mem_of_mem_erase hq) e he⟩)
    fun hmem => absurd rfl (Finset.ne_of_mem_erase hmem)
  rw [hused, Finset.mem_erase]
  by_cases hqm : q = m
  · rw [if_pos hqm]
    refine ⟨fun hfalse => absurd hfalse Bool.false_ne_true, fun hor => ?_⟩
    rcases hor with hmem | hlow
    · exact absurd hqm hmem.1
    · rw [hqm] at hlow
      exact absurd hlow (Nat.not_lt.mpr hroot.le)
  · rw [if_neg hqm, h.used q hq]
    exact or_congr_left (and_iff_right hqm).symm

end Storage

end NextUfs
