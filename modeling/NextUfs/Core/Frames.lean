/-
  NextUfs.Core.Frames
  ───────────────────
  **WHAT EACH OPERATION LEAVES ALONE.**

  Readers and lookups leave the disk as it was; the allocator and the code
  that frees storage leave the data area and the inode table as they were.

    • `nodeLookup_ok`         — a path lookup changes nothing and returns a
      copy of an inode,
    • `freeFileStorage_keeps` — freeing storage moves free bits only.
-/
import NextUfs.Core.Path
import NextUfs.Core.TreeSpec

namespace NextUfs

open State

/-! ## §1. Readers. -/

/-- The disk stays as it was. -/
def sameDisk : Frame Disk where
  rel d d' := d' = d
  refl _ := rfl
  trans h₁ h₂ := h₂.trans h₁

/-- Every run of `x` leaves the disk as it was. -/
abbrev ReadOnly {α : Type} (x : Op α) : Prop := Keeps sameDisk x

theorem attempt_keeps {α : Type} {F : Frame Disk} {x : Op α}
    (hx : Keeps F x) : Keeps F (attempt x) := by
  intro d
  have h := hx d
  unfold attempt wp at *
  dsimp only
  cases hrun : x d with
  | ok a d' =>
    rw [hrun] at h
    exact h
  | error e d' =>
    rw [hrun] at h
    exact h

theorem orIoError_keeps {α : Type} {F : Frame Disk} {x : Op α} (hx : Keeps F x) :
    Keeps F (orIoError x) := by
  refine .bind (attempt_keeps hx) fun r => ?_
  cases r with
  | ok a => exact .pure a
  | error e => exact .throw Errno.EIO

section ReadOnly

variable (sb : Superblock)

theorem readExact_readOnly (off n : Nat) : ReadOnly (readExact off n) :=
  .bind .get fun _ => .pure _

theorem readIndirectEntry_readOnly (b i : Nat) :
    ReadOnly (readIndirectEntry sb b i) :=
  .ite (.throw _) (.bind (readExact_readOnly _ _) fun _ => .pure _)

theorem resolveIndirectBlockFrag_readOnly : ∀ level b i,
    ReadOnly (resolveIndirectBlockFrag sb level b i)
  | 0, _, _ => .throw _
  | level + 1, b, i => by
    unfold resolveIndirectBlockFrag
    refine .ite (.throw _) (.bind (attempt_keeps (readIndirectEntry_readOnly sb b _))
      fun r => ?_)
    cases r with
    | error e => exact .throw _
    | ok next =>
      exact .ite (.pure _) (.ite (.pure _)
        (resolveIndirectBlockFrag_readOnly level _ _))

theorem resolveFileBlockFrag_readOnly (ino : Inode) (lb : Nat) :
    ReadOnly (resolveFileBlockFrag sb ino lb) := by
  unfold resolveFileBlockFrag
  split
  · exact .pure _
  · cases indirectSlot sb (lb - 12) with
    | none => exact .throw _
    | some p => exact resolveIndirectBlockFrag_readOnly sb _ _ _

theorem readBlocks_readOnly (ino : Inode) : ∀ fuel lb off rem,
    ReadOnly (readBlocks sb ino fuel lb off rem)
  | 0, _, _, _ => .pure _
  | fuel + 1, lb, off, rem => by
    have hrest : ∀ bytes : Bytes, ReadOnly (do
        let rest ← readBlocks sb ino fuel (lb + 1) 0
          (rem - min (sb.blockSize - off) rem)
        return bytes ++ rest) := fun bytes =>
      .bind (readBlocks_readOnly ino fuel _ _ _) fun _ => .pure _
    unfold readBlocks
    exact .ite (.pure _) (.bind (resolveFileBlockFrag_readOnly sb ino lb)
      fun frag => .ite (.bind (.pure _) hrest)
        (.bind (readExact_readOnly _ _) hrest))

theorem inodeReadData_readOnly (ino : Inode) (start n : Nat) :
    ReadOnly (inodeReadData sb ino start n) :=
  .ite (.pure _) (readBlocks_readOnly sb ino _ _ _ _)

theorem readDirBlock_readOnly (dirino : Inode) (k : Nat) :
    ReadOnly (readDirBlock sb dirino k) := by
  refine .bind (attempt_keeps (inodeReadData_readOnly sb dirino _ _)) fun r => ?_
  cases r with
  | error e => exact .throw _
  | ok buf => exact .pure _

theorem iterateBlocks_readOnly {β : Type} (dirino : Inode)
    (cb : Nat → Bytes → Option β) : ∀ ks,
    ReadOnly (iterateBlocks sb dirino cb ks)
  | [] => .pure _
  | k :: rest => by
    refine .bind (readDirBlock_readOnly sb dirino k) fun buf => ?_
    split
    · exact .pure _
    · exact iterateBlocks_readOnly dirino cb rest

theorem findNameInDirectory_readOnly (dirino : Inode) (name : Bytes) :
    ReadOnly (findNameInDirectory sb dirino name) := by
  refine .bind (iterateBlocks_readOnly sb dirino _ _) fun r => ?_
  cases r with
  | none => exact .pure _
  | some ino => exact .pure _

theorem inodeRead_readOnly (inodeNo : Nat) :
    ReadOnly (inodeRead sb inodeNo) :=
  .ite (.bind .get fun _ => .pure _) (.throw _)

theorem nodeGetByInode_readOnly (inodeNo : Nat) :
    ReadOnly (nodeGetByInode sb inodeNo) :=
  .bind (inodeRead_readOnly sb inodeNo) fun _ => .pure _

theorem inodeReadlink_readOnly (ino : Inode) (outSize : Nat) :
    ReadOnly (inodeReadlink sb ino outSize) := by
  refine .ite (.throw _) (.ite (.pure _)
    (.bind (attempt_keeps (inodeReadData_readOnly sb ino _ _)) fun r => ?_))
  cases r with
  | error e => exact .throw _
  | ok out => exact .pure _

theorem checkPathLen_readOnly (path : Bytes) : ReadOnly (checkPathLen path) :=
  .ite (.throw _) (.pure _)

theorem lookupLoop_readOnly {followFinal : Bool} {restart : Bytes → Op Node}
    (hrestart : ∀ path, ReadOnly (restart path)) : ∀ fuel pfx current cursor,
    ReadOnly (lookupLoop sb followFinal restart fuel pfx current cursor)
  | 0, _, _, _ => .pure _
  | _ + 1, _, _, none => .pure _
  | fuel + 1, pfx, current, some path => by
    have hnext : ∀ pfx node, ReadOnly (lookupLoop sb followFinal restart fuel
        pfx node (strsep path).2) := fun pfx node =>
      lookupLoop_readOnly hrestart fuel pfx node (strsep path).2
    unfold lookupLoop
    refine .ite (hnext _ _) (.ite (.throw _) (.bind
      (orIoError_keeps (findNameInDirectory_readOnly sb _ _)) fun next =>
        .ite (.throw _) (.bind (orIoError_keeps (nodeGetByInode_readOnly sb next))
          fun node => .ite (.throw _) (.ite ?_ ?_))))
    · exact .bind (orIoError_keeps (inodeReadlink_readOnly sb _ _)) fun link =>
        .bind (checkPathLen_readOnly _) fun path => hrestart path
    · exact .bind (.ite (checkPathLen_readOnly _) (checkPathLen_readOnly _))
        fun pfx => hnext pfx node

theorem lookupPathRecursive_readOnly (followFinal : Bool) : ∀ depth path,
    ReadOnly (lookupPathRecursive sb followFinal depth path)
  | 0, _ => .throw _
  | depth + 1, _ => .bind (orIoError_keeps (nodeGetByInode_readOnly sb ROOT_INODE))
      fun _ => .ite (.pure _) (lookupLoop_readOnly sb
        (lookupPathRecursive_readOnly followFinal depth) _ _ _ _)

/-- **A lookup changes nothing.** -/
theorem nodeLookup_readOnly (path : Bytes) (followFinal : Bool) :
    ReadOnly (nodeLookup sb path followFinal) :=
  lookupPathRecursive_readOnly sb followFinal _ path

end ReadOnly

/-! ## §2. What a lookup returns. -/

section Lookup

variable {sb : Superblock} {d : Disk}

/-- After a reader the run goes on from the same disk. -/
theorem wp_bind_readOnly {α β : Type} {x : Op α} {f : α → Op β}
    {Q : β → Disk → Prop} (hx : ReadOnly x)
    (h : ∀ a, x d = .ok a d → wp (f a) Q (fun _ _ => True) d) :
    wp (x >>= f) Q (fun _ _ => True) d := by
  rw [State.wp_bind]
  unfold wp
  cases hrun : x d with
  | error e d' => trivial
  | ok a d' =>
    obtain rfl := hx.ok hrun
    exact h a hrun

theorem orIoError_ok {α : Type} {x : Op α} {a : α} {d' : Disk}
    (h : orIoError x d = .ok a d') : x d = .ok a d' := by
  obtain ⟨r, d₁, hr, hnext⟩ := bind_eq_ok h
  rcases attempt_ok hr with ⟨b, rfl, hb⟩ | ⟨e, rfl, he⟩
  · cases hnext
    exact hb
  · cases hnext

/-- The node is a copy of the table's entry. -/
def IsCopy (d : Disk) (node : Node) : Prop :=
  node.inode = d.inodes node.inodeNo

theorem nodeGetByInode_isCopy {inodeNo : Nat} {node : Node} {d' : Disk}
    (h : nodeGetByInode sb inodeNo d = .ok node d') :
    node = ⟨inodeNo, d.inodes inodeNo⟩ := by
  obtain ⟨ino, d₁, hread, hret⟩ := bind_eq_ok h
  unfold inodeRead at hread
  split at hread
  · cases hread
    cases hret
    rfl
  · cases hread

section Invariant

variable {P : Node → Prop}

/-- **An invariant of a step of the walk**: what holds of a directory holds of
whatever a name in it stands for. -/
theorem lookupLoop_induct {followFinal : Bool} {restart : Bytes → Op Node}
    (hstep : ∀ current segment next, P current → nodeIsDir current = true →
      findNameInDirectory sb current.inode segment d = .ok next d →
      next ≠ 0 → P ⟨next, d.inodes next⟩)
    (hrestart : ∀ path, wp (restart path) (fun node _ => P node)
      (fun _ _ => True) d) : ∀ fuel pfx current cursor, P current →
    wp (lookupLoop sb followFinal restart fuel pfx current cursor)
      (fun node _ => P node) (fun _ _ => True) d
  | 0, _, _, _, hcur => hcur
  | _ + 1, _, _, none, hcur => hcur
  | fuel + 1, pfx, current, some path, hcur => by
    have hnext : ∀ pfx current cursor, P current →
        wp (lookupLoop sb followFinal restart fuel pfx current cursor)
          (fun node _ => P node) (fun _ _ => True) d :=
      lookupLoop_induct hstep hrestart fuel
    unfold lookupLoop
    dsimp only
    rw [wp_ite]
    refine ⟨fun _ => hnext _ _ _ hcur, fun _ => ?_⟩
    rw [wp_ite]
    refine ⟨fun _ => trivial, fun hdir => ?_⟩
    refine wp_bind_readOnly
      (orIoError_keeps (findNameInDirectory_readOnly sb _ _)) fun next hfind => ?_
    rw [wp_ite]
    refine ⟨fun _ => trivial, fun hzero => ?_⟩
    refine wp_bind_readOnly
      (orIoError_keeps (nodeGetByInode_readOnly sb next)) fun node hnode => ?_
    rw [wp_ite]
    refine ⟨fun _ => trivial, fun _ => ?_⟩
    rw [wp_ite]
    constructor
    · intro _
      refine wp_bind_readOnly (orIoError_keeps (inodeReadlink_readOnly sb _ _))
        fun link _ => wp_bind_readOnly (checkPathLen_readOnly _)
          fun path _ => ?_
      exact hrestart path
    · intro _
      have happend : ReadOnly (appendPathComponent pfx (strsep path).1) :=
        .ite (checkPathLen_readOnly _) (checkPathLen_readOnly _)
      refine wp_bind_readOnly happend fun pfx _ => hnext _ _ _ ?_
      rw [nodeGetByInode_isCopy (orIoError_ok hnode)]
      exact hstep current _ next hcur (eq_true_of_ne_false hdir)
        (orIoError_ok hfind) hzero

theorem lookupPathRecursive_induct
    (hroot : P ⟨ROOT_INODE, d.inodes ROOT_INODE⟩)
    (hstep : ∀ current segment next, P current → nodeIsDir current = true →
      findNameInDirectory sb current.inode segment d = .ok next d →
      next ≠ 0 → P ⟨next, d.inodes next⟩)
    (followFinal : Bool) : ∀ depth path,
    wp (lookupPathRecursive sb followFinal depth path)
      (fun node _ => P node) (fun _ _ => True) d
  | 0, _ => trivial
  | depth + 1, path => by
    unfold lookupPathRecursive
    refine wp_bind_readOnly
      (orIoError_keeps (nodeGetByInode_readOnly sb ROOT_INODE))
      fun root hget => ?_
    have hstart : P root := by
      rw [nodeGetByInode_isCopy (orIoError_ok hget)]
      exact hroot
    dsimp only
    rw [wp_ite]
    refine ⟨fun _ => hstart, fun _ => ?_⟩
    exact lookupLoop_induct hstep
      (lookupPathRecursive_induct hroot hstep followFinal depth) _ _ _ _ hstart

/-- **What holds of the root and is kept by every step holds of the node a
lookup returns.** -/
theorem nodeLookup_induct (hroot : P ⟨ROOT_INODE, d.inodes ROOT_INODE⟩)
    (hstep : ∀ current segment next, P current → nodeIsDir current = true →
      findNameInDirectory sb current.inode segment d = .ok next d →
      next ≠ 0 → P ⟨next, d.inodes next⟩)
    {path : Bytes} {followFinal : Bool} {node : Node} {d' : Disk}
    (h : nodeLookup sb path followFinal d = .ok node d') : P node := by
  have hP := wp_ok (lookupPathRecursive_induct hroot hstep followFinal _ path) h
  exact hP

end Invariant

/-- **A lookup returns a copy of an inode of the table**, and the disk as it
was. -/
theorem nodeLookup_ok {path : Bytes} {followFinal : Bool} {node : Node}
    {d' : Disk} (h : nodeLookup sb path followFinal d = .ok node d') :
    d' = d ∧ IsCopy d node := by
  refine ⟨(nodeLookup_readOnly sb path followFinal).ok h, ?_⟩
  exact nodeLookup_induct (P := IsCopy d) rfl (fun _ _ _ _ _ _ _ => rfl) h

end Lookup

/-! ## §3. The allocator. -/

/-- The data area and the inode table stay as they were. -/
def sameContents : Frame Disk where
  rel d d' := d'.data = d.data ∧ d'.inodes = d.inodes
  refl _ := ⟨rfl, rfl⟩
  trans h₁ h₂ := ⟨h₂.1.trans h₁.1, h₂.2.trans h₁.2⟩

/-- What keeps the disk keeps its contents. -/
theorem ReadOnly.sameContents {α : Type} {x : Op α} (h : ReadOnly x) :
    Keeps sameContents x := by
  intro d
  refine wp_mono (h d) ?_ ?_
  · rintro _ d' rfl
    exact ⟨rfl, rfl⟩
  · rintro _ d' rfl
    exact ⟨rfl, rfl⟩

theorem updateGroup_keeps {α : Type} (c : Nat)
    (f : UInt32 → Cg → Except Errno (GroupUpdate α)) :
    Keeps sameContents (updateGroup c f) := by
  refine .of_runs (fun d a d' h => ?_) fun d e d' h => ?_
  · obtain ⟨u, -, -, -, rfl⟩ := updateGroup_ok h
    exact ⟨rfl, rfl⟩
  · rw [(updateGroup_error h).1]
    exact ⟨rfl, rfl⟩

theorem freeFragmentRun_keeps (sb : Superblock) (fragBase frags : Nat) :
    Keeps sameContents (freeFragmentRun sb fragBase frags) :=
  .ite (.throw _) (updateGroup_keeps _ _)

/-! ## §4. Freeing a file's storage. -/

/-- A frame of the disk, seen by the writer. -/
def storingFrame (F : Frame Disk) : Frame Storing where
  rel s t := F.rel s.disk t.disk
  refl s := F.refl s.disk
  trans := F.trans

theorem onDisk_keeps {α : Type} {F : Frame Disk} {x : Op α}
    (h : Keeps F x) : Keeps (storingFrame F) (onDisk x) := by
  intro s
  rw [wp_onDisk]
  exact h s.disk

theorem resolveIndirectDataBlock_readOnly (sb : Superblock) :
    ∀ level b i, ReadOnly (resolveIndirectDataBlock sb level b i)
  | 0, _, _ => .ite (.pure _) (.throw _)
  | level + 1, b, i => by
    unfold resolveIndirectDataBlock
    exact .ite (.pure _) (.ite (readIndirectEntry_readOnly sb b i)
      (.bind (readIndirectEntry_readOnly sb b _) fun next =>
        resolveIndirectDataBlock_readOnly sb level next _))

theorem resolveInodeDataBlock_readOnly (sb : Superblock) (ino : Inode)
    (lb : Nat) : ReadOnly (resolveInodeDataBlock sb ino lb) := by
  unfold resolveInodeDataBlock
  split
  · exact .pure _
  · cases indirectSlot sb (lb - 12) with
    | none => exact .throw _
    | some p => exact resolveIndirectDataBlock_readOnly sb _ _ _

theorem freeIndirectMetadataTree_keeps (sb : Superblock) : ∀ level b,
    Keeps sameContents (freeIndirectMetadataTree sb level b)
  | 0, b => .ite (.pure _) (freeFragmentRun_keeps sb b _)
  | level + 1, b => by
    have hfree := freeFragmentRun_keeps sb b sb.fragsPerBlock
    unfold freeIndirectMetadataTree
    refine .ite (.pure _) (.ite (.bind (.forM (fun i => ?_) _)
      fun _ => hfree) hfree)
    exact .bind (readIndirectEntry_readOnly sb b i).sameContents
      fun child => .ite (.pure _)
        (freeIndirectMetadataTree_keeps sb level child)

/-- **Freeing storage moves free bits only**: no byte of the data area and no
entry of the inode table changes. -/
theorem freeFileStorage_keeps (sb : Superblock) :
    Keeps (storingFrame sameContents) (freeFileStorage sb) := by
  intro s
  unfold freeFileStorage
  rw [wp_bind, wp_get, wp_ite]
  refine ⟨fun _ => ⟨rfl, rfl⟩, fun _ => ?_⟩
  have hdata : ∀ lb, Keeps (storingFrame sameContents) (do
      let dataFrag ← onDisk (resolveInodeDataBlock sb s.ino lb)
      if dataFrag ≠ 0 then
        onDisk (freeFragmentRun sb dataFrag
          (fragsNeeded sb s.ino.size lb))) := fun lb =>
    .bind (onDisk_keeps (resolveInodeDataBlock_readOnly sb _ lb).sameContents)
      fun _ => .ite (onDisk_keeps (freeFragmentRun_keeps sb _ _)) (.pure _)
  have hslot : ∀ slot : Fin 3, Keeps (storingFrame sameContents) (do
      onDisk (freeIndirectMetadataTree sb (slot + 1) (s.ino.ib slot))
      modify fun s => { s with ino := s.ino.setIb slot 0 }) := fun slot =>
    .bind (onDisk_keeps (freeIndirectMetadataTree_keeps sb _ _))
      fun _ => .modify fun _ => ⟨rfl, rfl⟩
  have hall := Keeps.bind (Keeps.forM hdata
    (List.range (fileBlocks sb s.ino.size))) fun _ =>
      Keeps.bind (.modify (g := fun s : Storing =>
          { s with ino := { s.ino with db := fun _ => 0 } })
        fun _ => ⟨rfl, rfl⟩) fun _ =>
      Keeps.bind (.forM hslot [0, 1, 2]) fun _ =>
        .modify (g := fun s : Storing =>
          { s with ino := { s.ino with size := 0, blocks := 0 } })
          fun _ => ⟨rfl, rfl⟩
  exact hall s

end NextUfs
