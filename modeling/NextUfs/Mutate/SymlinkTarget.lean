/-
  NextUfs.Mutate.SymlinkTarget
  ────────────────────────────
  **THE TARGET OF A SYMBOLIC LINK.**

  A target of at most sixty bytes is packed into the pointers of the inode, a
  longer one is stored like a file.  The writer goes by the length, the reader
  and the code that frees storage go by a flag.

    • `pointerBytes_store`  — what is packed is unpacked,
    • `pathSymlink_run`     — what a call that succeeds has done,
    • `HoldsTarget`         — an inode that holds its target, either way,
    • `unlink_frees`        — an unlink of the last name of a link gives back
      what the link claims,
    • `symlink_roundTrip`   — the new link reads back, and what was taken for
      its target is given back,
    • `symlink_dirGrows`    — a parent without room for the name takes a
      fragment, and keeps it.
-/
import Mathlib.Data.List.TakeWhile
import NextUfs.Mutate.Consistent

namespace NextUfs

open State Radix Bits

/-! ## §1. Bytes in pointers. -/

section Pack

/-- Four bytes make a number that makes the four bytes. -/
theorem writeBe32_readBe32 {bytes : Bytes} {off : Nat}
    (h : off + 4 ≤ bytes.length) :
    writeBe32 (readBe32 (bytes.drop off)) = (bytes.drop off).take 4 := by
  obtain ⟨a, b, c, e, rest, hdrop⟩ : ∃ a b c e rest,
      bytes.drop off = a :: b :: c :: e :: rest := by
    match hd : bytes.drop off, (show 4 ≤ (bytes.drop off).length by
      rw [List.length_drop]; omega) with
    | a :: b :: c :: e :: rest, _ => exact ⟨a, b, c, e, rest, rfl⟩
  rw [hdrop]
  have ha := a.toNat_lt
  have hb := b.toNat_lt
  have hc := c.toNat_lt
  have he := e.toNat_lt
  unfold writeBe32 readBe32
  simp only [List.getD_cons_zero, List.getD_cons_succ, List.take_succ_cons,
    List.take_zero, List.cons.injEq, and_true]
  refine ⟨?_, ?_, ?_, ?_⟩ <;>
  · apply UInt8.toNat_inj.mp
    rw [UInt8.toNat_ofNat']
    omega

/-- Words one after another. -/
theorem flatMap_words (bytes : Bytes) (off : Nat) : ∀ n,
    (List.range n).flatMap (fun i => (bytes.drop (off + i * 4)).take 4)
      = (bytes.drop off).take (n * 4)
  | 0 => by simp
  | n + 1 => by
    rw [List.range_succ, List.flatMap_append, flatMap_words bytes off n,
      List.flatMap_singleton, Nat.add_mul, List.take_add, List.drop_drop,
      Nat.one_mul]

theorem flatMap_finRange {n : Nat} (g : Nat → Bytes) :
    (List.finRange n).flatMap (fun i : Fin n => g i) = (List.range n).flatMap g := by
  rw [← List.map_coe_finRange_eq_range, List.flatMap_map]

/-- **What is packed is unpacked**, and zeros behind it. -/
theorem pointerBytes_store (ino : Inode) {target : Bytes}
    (h : target.length ≤ 60) :
    pointerBytes (storeInlineSymlink ino target) = zeroPadded 60 target := by
  have hlen : (zeroPadded 60 target).length = 60 := by
    unfold zeroPadded
    rw [List.length_append, List.length_replicate]
    omega
  have hwords : ∀ n off, off + n * 4 ≤ 60 →
      (List.finRange n).flatMap (fun i : Fin n => writeBe32 (readBe32
          ((zeroPadded 60 target).drop (off + i * 4))))
        = ((zeroPadded 60 target).drop off).take (n * 4) := by
    intro n off hfits
    rw [← flatMap_words, ← flatMap_finRange]
    apply List.flatMap_congr
    intro i _
    exact writeBe32_readBe32 (by omega)
  have hdb := hwords 12 0 (by omega)
  have hib := hwords 3 48 (by omega)
  simp only [Nat.zero_add, List.drop_zero] at hdb
  unfold pointerBytes storeInlineSymlink
  dsimp only
  have htail : ((zeroPadded 60 target).drop 48).take (3 * 4)
      = (zeroPadded 60 target).drop 48 :=
    List.take_of_length_le (by rw [List.length_drop, hlen])
  rw [hdb, hib, htail]
  exact List.take_append_drop 48 _

/-- A string without NUL is a C string as it is. -/
theorem cString_of_notMem {bytes : Bytes} (h : (0 : UInt8) ∉ bytes) :
    cString bytes = bytes := by
  refine List.takeWhile_eq_self_iff.mpr fun b hb => ?_
  exact decide_eq_true fun hzero : b = 0 => h (hzero ▸ hb)

end Pack

/-! ## §2. The new inode. -/

section New

variable {ctx : WriteCtx} {parent : Node} {size : Nat} {now : UInt32}

/-- The inode of a new link. -/
def newLink (ctx : WriteCtx) (parent : Node) (size : Nat) (now : UInt32) :
    Inode :=
  newInode ctx parent (IFLNK ||| 0o777) 1 size now

/-- The mode of a link is left as it is. -/
theorem sanitize_link {ino : Inode} (hmode : ino.mode = IFLNK ||| 0o777) :
    sanitizeNewInodeMode ctx ino = ino := by
  have hsticky : (if ino.mode &&& IFMT ≠ IFDIR then ino.mode &&& ~~~0o1000
      else ino.mode) = ino.mode := by
    rw [hmode]
    decide
  have hsgid : ¬(ino.mode &&& 0o2000 ≠ 0 ∧
      ctxInGroup ctx ino.gid.toNat = false) := by
    rw [hmode]
    exact fun h => absurd h.1 (by decide)
  unfold sanitizeNewInodeMode
  split
  · rfl
  · dsimp only
    rw [hsticky, if_neg hsgid]

theorem newLink_fields (ctx : WriteCtx) (parent : Node) (size : Nat)
    (now : UInt32) :
    (newLink ctx parent size now).mode = IFLNK ||| 0o777 ∧
      (newLink ctx parent size now).nlink = 1 ∧
      (newLink ctx parent size now).flags = 0 ∧
      (newLink ctx parent size now).size = size ∧
      NoPointers (newLink ctx parent size now) := by
  have howner : ∀ ino : Inode, (setNewInodeOwner ctx parent ino).mode = ino.mode ∧
      (setNewInodeOwner ctx parent ino).nlink = ino.nlink ∧
      (setNewInodeOwner ctx parent ino).flags = ino.flags ∧
      (setNewInodeOwner ctx parent ino).db = ino.db ∧
      (setNewInodeOwner ctx parent ino).ib = ino.ib := by
    intro ino
    unfold setNewInodeOwner
    split <;> exact ⟨rfl, rfl, rfl, rfl, rfl⟩
  obtain ⟨hmode, hnlink, hflags, hdb, hib⟩ := howner
    { clearedInode with mode := IFLNK ||| 0o777, nlink := 1 }
  unfold newLink newInode
  rw [sanitize_link hmode]
  exact ⟨hmode, hnlink, hflags, rfl, fun i => congrFun hdb i,
    fun slot => congrFun hib slot⟩

/-- The inode of a new link with its target in its pointers. -/
def inlineLink (ctx : WriteCtx) (parent : Node) (target : Bytes)
    (now : UInt32) : Inode :=
  storeInlineSymlink
    { newLink ctx parent target.length now with flags := IC_FASTLINK } target

theorem mode_link {mode : UInt16} (h : mode = IFLNK ||| 0o777) :
    mode &&& IFMT = IFLNK ∧ isDirMode mode = false ∧
      isSpecialMode mode = false := by
  rw [h]
  decide

theorem isFastLink_iff {ino : Inode} (h : ino.mode = IFLNK ||| 0o777) :
    isFastLink ino = (ino.flags &&& IC_FASTLINK != 0) := by
  unfold isFastLink
  rw [(mode_link h).1]
  rfl

end New

/-! ## §3. The call. -/

/-- The inode, and the disk, when the target has been stored: in the pointers
of the inode, or in blocks. -/
def TargetStored (sb : Superblock) (ctx : WriteCtx) (parent : Node)
    (target : Bytes) (d₁ d₂ : Disk) (ino : Inode) : Prop :=
  if target.length ≤ 60 then
    ino = inlineLink ctx parent target d₁.clock ∧ d₂ = d₁
  else
    ∃ s, storeData sb (parent.inodeNo / sb.inodesPerGroup) target
        (newLink ctx parent target.length d₁.clock) d₁ = .ok () s ∧
      ino = s.ino ∧ d₂ = s.disk

/-- The disk with an inode written. -/
def withInode (d : Disk) (n : Nat) (ino : Inode) : Disk :=
  { d with inodes := Function.update d.inodes n ino }

section Run

variable {sb : Superblock} {ctx : WriteCtx} {d d' : Disk}
  {target linkPath : Bytes}

/-- A step that succeeded needed no cleaning up. -/
theorem orCleanup_ok {α : Type} {x : Op α} {cleanup : Op Unit} {a : α}
    (h : orCleanup x cleanup d = .ok a d') : x d = .ok a d' := by
  unfold orCleanup at h
  cases hx : x d with
  | ok b s =>
    rw [hx] at h
    exact h
  | error e s =>
    rw [hx] at h
    dsimp only at h
    cases hc : cleanup s with
    | ok b s' =>
      rw [hc] at h
      cases h
    | error e' s' =>
      rw [hc] at h
      cases h

/-- The end of a call: the inode is written, the name added. -/
theorem finish_ok {rc : Except Errno Unit} {parent : Node} {name : Bytes}
    {n : Nat} {ino : Inode} {e : Disk}
    (h : orCleanup
      (do
        liftCheck rc
        writeInodeRaw sb n ino
        let _ ← insertDirent sb parent name n)
      (discardNewInode sb n ino) e = .ok () d') :
    rc = .ok () ∧ ∃ node,
      insertDirent sb parent name n (withInode e n ino) = .ok node d' := by
  obtain ⟨_, e₁, hcheck, hrun⟩ := bind_eq_ok (orCleanup_ok h)
  obtain ⟨hrc, he₁⟩ := liftCheck_ok hcheck
  obtain ⟨_, e₂, hwrite, hrun⟩ := bind_eq_ok hrun
  have he₂ : e₂ = withInode e n ino := by
    rw [writeInodeRaw_ok hwrite, he₁]
    rfl
  obtain ⟨node, e₃, hinsert, hret⟩ := bind_eq_ok hrun
  have he₃ : e₃ = d' := by
    cases hret
    rfl
  rw [he₂, he₃] at hinsert
  exact ⟨hrc, node, hinsert⟩

/-- **What a call that succeeds has done.** -/
theorem pathSymlink_run (hrun : pathSymlink sb ctx target linkPath d = .ok () d') :
    ∃ parent name n ino d₁ d₂ node,
      findParent sb ctx linkPath false d = .ok (parent, name) d ∧
      nodeIsDir parent = true ∧
      allocateInodeInGroup sb (parent.inodeNo / sb.inodesPerGroup)
        (IFLNK ||| 0o777) d = .ok n d₁ ∧
      TargetStored sb ctx parent target d₁ d₂ ino ∧
      insertDirent sb parent name n (withInode d₂ n ino) = .ok node d' := by
  unfold pathSymlink at hrun
  obtain ⟨⟨parent, name⟩, e₁, hparent, hrun⟩ := bind_eq_ok hrun
  have he₁ : e₁ = d := (findParent_found hparent).1
  rw [he₁] at hparent hrun
  obtain ⟨_, e₂, habsent, hrun⟩ := bind_eq_ok hrun
  have hdir := parent_isDir hparent habsent
  have he₂ : e₂ = d := (requireAbsent_ok habsent).1
  rw [he₂] at hrun
  obtain ⟨n, d₁, halloc, hrun⟩ := bind_eq_ok hrun
  obtain ⟨now, e₃, hnow, hrun⟩ := bind_eq_ok hrun
  have hclock : now = d₁.clock ∧ e₃ = d₁ := by
    cases hnow
    exact ⟨rfl, rfl⟩
  rw [hclock.1, hclock.2] at hrun
  have hdone : ∀ {rc ino d₂}, orCleanup
      (do
        liftCheck rc
        writeInodeRaw sb n ino
        let _ ← insertDirent sb parent name n)
      (discardNewInode sb n ino) d₂ = .ok () d' →
      (rc = .ok () → TargetStored sb ctx parent target d₁ d₂ ino) →
      ∃ parent name n ino d₁ d₂ node,
        findParent sb ctx linkPath false d = .ok (parent, name) d ∧
        nodeIsDir parent = true ∧
        allocateInodeInGroup sb (parent.inodeNo / sb.inodesPerGroup)
          (IFLNK ||| 0o777) d = .ok n d₁ ∧
        TargetStored sb ctx parent target d₁ d₂ ino ∧
        insertDirent sb parent name n (withInode d₂ n ino) = .ok node d' := by
    intro rc ino d₂ hend hstored
    obtain ⟨hrc, node, hinsert⟩ := finish_ok hend
    exact ⟨parent, name, n, ino, d₁, d₂, node, hparent, hdir, halloc,
      hstored hrc, hinsert⟩
  -- where the target goes
  by_cases hshort : target.length ≤ 60
  · dsimp only at hrun
    rw [if_pos hshort] at hrun
    refine hdone hrun fun _ => ?_
    unfold TargetStored
    rw [if_pos hshort]
    exact ⟨rfl, rfl⟩
  · dsimp only at hrun
    rw [if_neg hshort] at hrun
    obtain ⟨⟨rc, ino⟩, d₂, hstore, hend⟩ := bind_eq_ok hrun
    refine hdone hend fun hrc => ?_
    unfold TargetStored
    rw [if_neg hshort]
    rcases runStorer_ok hstore with ⟨s, hs, heq, hd⟩ | ⟨e, s, hs, heq, hd⟩
    · rw [Prod.mk.injEq] at heq
      exact ⟨s, hs, heq.2, hd⟩
    · rw [Prod.mk.injEq] at heq
      rw [heq.1] at hrc
      cases hrc

end Run

/-! ## §4. The link, and its storage. -/

/-- **An inode that is a link to `target`**, with its storage taken from free
space between `d` and `d'`. -/
structure HoldsTarget (sb : Superblock) (target : Bytes) (d d' : Disk)
    (ino : Inode) : Prop where
  mode : ino.mode = IFLNK ||| 0o777
  nlink : ino.nlink = 1
  size : ino.size = target.length
  fast : isFastLink ino = decide (target.length ≤ 60)
  books : BooksKept sb d d'
  frame : ∀ f, freeAt sb d f = 0 → SameFrag sb d d' f
  claims : ∀ f, freeAt sb d' f + inodeClaims sb d' ino f = freeAt sb d f
  freeable : storesBlocks ino = true → Freeable sb d' ino
  inline : target.length ≤ 60 → pointerBytes ino = zeroPadded 60 target
  holds : 60 < target.length → HoldsFile sb d' ino target

section Target

variable {sb : Superblock} {ctx : WriteCtx} {parent : Node} {target : Bytes}
  {d d₁ d₂ : Disk} {ino : Inode}

/-- A link stores blocks unless its target is in its pointers. -/
theorem storesBlocks_link (hmode : ino.mode = IFLNK ||| 0o777) :
    storesBlocks ino = !isFastLink ino := by
  unfold storesBlocks
  rw [(mode_link hmode).1]
  simp

/-- A target in the pointers takes no fragment. -/
theorem inlineLink_holdsTarget (sb : Superblock) (ctx : WriteCtx)
    (parent : Node) (d : Disk) (hshort : target.length ≤ 60) :
    HoldsTarget sb target d d (inlineLink ctx parent target d.clock) := by
  obtain ⟨hmode, hnlink, -, hsize, -⟩ :=
    newLink_fields ctx parent target.length d.clock
  have hmode' : (inlineLink ctx parent target d.clock).mode
      = IFLNK ||| 0o777 := hmode
  have hfast : isFastLink (inlineLink ctx parent target d.clock) = true := by
    rw [isFastLink_iff hmode']
    exact (by decide : (IC_FASTLINK &&& IC_FASTLINK != 0) = true)
  have hstores : storesBlocks (inlineLink ctx parent target d.clock)
      = false := by
    rw [storesBlocks_link hmode', hfast]
    rfl
  refine ⟨hmode, hnlink, hsize, ?_, BooksKept.refl sb d,
    fun f _ => SameFrag.refl sb d f, fun f => ?_, fun h => ?_,
    fun _ => pointerBytes_store _ hshort, fun h => ?_⟩
  · rw [hfast, decide_eq_true hshort]
  · unfold inodeClaims
    rw [hstores]
    rfl
  · rw [hstores] at h
    cases h
  · omega

/-- A target in blocks is stored as a file's data is. -/
theorem stored_holdsTarget (hgeo : DataGeometry sb)
    (hzero : freeAt sb d 0 = 0) (hlong : 60 < target.length) {cg : Nat}
    {now : UInt32} {s : Storing}
    (hrun : storeData sb cg target (newLink ctx parent target.length now) d
      = .ok () s) :
    HoldsTarget sb target d s.disk s.ino := by
  obtain ⟨hmode, hnlink, hflags, -, hnew⟩ :=
    newLink_fields ctx parent target.length now
  obtain ⟨hstored, hsize⟩ := storeData_stored hgeo hzero hnew hrun
  have hmode' : s.ino.mode = IFLNK ||| 0o777 := by
    rw [hstored.fields]
    exact hmode
  have hfast : isFastLink s.ino = false := by
    rw [isFastLink_iff hmode', hstored.fields]
    dsimp only
    rw [hflags]
    rfl
  refine ⟨hmode', ?_, hsize, ?_, hstored.books, hstored.frame, fun f => ?_,
    fun _ => hstored.freeable_done hsize, fun h => ?_,
    fun _ => hstored.holdsFile hsize⟩
  · rw [hstored.fields]
    exact hnlink
  · rw [hfast, decide_eq_false (by omega)]
  · have hconserved := hstored.conserved f
    unfold inodeClaims
    rw [storesBlocks_link hmode', hfast, Bool.not_false, if_pos rfl]
    unfold blockClaims
    rw [hsize]
    omega
  · omega

/-- **Either way the inode holds its target.** -/
theorem TargetStored.holdsTarget (hgeo : DataGeometry sb)
    (hzero : freeAt sb d₁ 0 = 0)
    (h : TargetStored sb ctx parent target d₁ d₂ ino) :
    HoldsTarget sb target d₁ d₂ ino := by
  unfold TargetStored at h
  split at h
  · next hshort =>
    rw [h.1, h.2]
    exact inlineLink_holdsTarget sb ctx parent d₁ hshort
  · next hlong =>
    obtain ⟨s, hrun, hino, hd⟩ := h
    rw [hino, hd]
    exact stored_holdsTarget hgeo hzero (by omega) hrun

end Target

/-! ## §5. The link is read. -/

section Read

variable {sb : Superblock} {target : Bytes} {d d' e : Disk} {ino : Inode}
  {outSize : Nat}

/-- **A link reads back as its target**, into a buffer that is larger, while
the fragments it claims are as they were. -/
theorem HoldsTarget.inodeReadlink_eq (hgeo : DataGeometry sb)
    (h : HoldsTarget sb target d d' ino) (hne : target ≠ [])
    (hnul : (0 : UInt8) ∉ target) (hsize : target.length < outSize)
    (hsame : ∀ f, 0 < inodeClaims sb d' ino f → SameFrag sb d' e f) :
    inodeReadlink sb ino outSize e = .ok target e := by
  have hpos : 0 < target.length := List.length_pos_iff.mpr hne
  have hlink : ¬((ino.mode &&& IFMT == IFLNK) = false ∨ outSize = 0) := by
    rw [(mode_link h.mode).1]
    simp
    omega
  unfold inodeReadlink
  rw [if_neg hlink]
  by_cases hshort : target.length ≤ 60
  · have hdecode : decodeInlineSymlink ino outSize = target := by
      unfold decodeInlineSymlink
      rw [h.fast, h.size, if_neg (by simp [hshort]; exact ⟨hne, by omega⟩),
        h.inline hshort, Nat.min_eq_left (by omega)]
      unfold zeroPadded
      rw [List.take_left]
    rw [if_pos (by rw [hdecode]; exact hne), hdecode, cString_of_notMem hnul]
    rfl
  · have hdecode : decodeInlineSymlink ino outSize = [] := by
      unfold decodeInlineSymlink
      rw [h.fast, if_pos (.inl (decide_eq_false hshort))]
    have hfast : isFastLink ino = false := by
      rw [h.fast, decide_eq_false hshort]
    have hclaims : ∀ f, 0 < blockClaims sb d' ino f → SameFrag sb d' e f := by
      intro f hf
      refine hsame f ?_
      unfold inodeClaims
      rwa [storesBlocks_link h.mode, hfast, Bool.not_false, if_pos rfl]
    have hread : inodeReadData sb ino 0 (outSize - 1) e = .ok target e := by
      have hthen := (h.holds (by omega)).inodeReadData_eq hgeo 0 (outSize - 1)
      rw [List.drop_zero, List.take_of_length_le (by omega)] at hthen
      have hnow := inodeReadData_congr hgeo hclaims 0 (outSize - 1)
      unfold outcome at hnow
      rw [hthen] at hnow
      cases hrun : inodeReadData sb ino 0 (outSize - 1) e with
      | error x e' =>
        rw [hrun] at hnow
        cases hnow
      | ok bytes e' =>
        rw [hrun] at hnow
        dsimp only at hnow
        rw [Except.ok.inj hnow, (inodeReadData_eq_ok hgeo.blockSize_pos hrun).2]
    rw [if_neg (by rw [hdecode]; exact fun hn => hn rfl)]
    rw [bind_of_ok (attempt_of_ok hread)]
    dsimp only
    rw [cString_of_notMem hnul]
    rfl

end Read

/-! ## §6. The link is made. -/

/-- The inodes of the disk are those of its groups. -/
theorem inode_group_iff {sb : Superblock} (hgeo : DirGeometry sb) {m : Nat} :
    m < inodeCount sb ↔ m / sb.inodesPerGroup < sb.cgCount := by
  unfold inodeCount
  exact (Nat.div_lt_iff_lt_mul hgeo.inodesPerGroup_pos).symm

section Made

variable {sb : Superblock} {live : Finset Nat} {modes : Nat → UInt16}
  {d d₁ d₂ : Disk} {n c : Nat} {target : Bytes} {ino : Inode}

/-- **The image with the new inode is in order.** -/
theorem Consistent.newLink (hgeo : DirGeometry sb)
    (h : Consistent sb live modes d) (hn : n < inodeCount sb)
    (htaken : InodeTaken sb d d₁ n (IFLNK ||| 0o777))
    (hlink : HoldsTarget sb target d₁ d₂ ino) :
    Consistent sb (insert n live) (Function.update modes n (IFLNK ||| 0o777))
      (withInode d₂ n ino) := by
  have hfree : ∀ f, freeAt sb d₁ f = freeAt sb d f := fun f => by
    unfold freeAt
    rw [htaken.free]
  have hinodes : (withInode d₂ n ino).inodes = Function.update d.inodes n ino :=
    congrArg (fun t : Nat → Inode => Function.update t n ino)
      (hlink.books.inodes.trans htaken.inodes)
  refine h.newInode hgeo hn htaken.unused hinodes (fun m => ?_) ?_
    (fun f hf => ?_) (fun f => ?_) ?_ ?_
  · rw [← htaken.iused m]
    exact congrFun (hlink.books.iused _) _
  · exact (hlink.books.space _ (htaken.space modes h.space)).of_groups
      rfl rfl rfl
  · have hsame := hlink.frame f (by rw [hfree, hf])
    exact (SameFrag.of_data_eq htaken.data f).trans hsame
  · rw [← hfree f]
    exact hlink.claims f
  · rw [hlink.mode]
    exact (mode_link rfl).2.1
  · exact fun hblocks => ⟨(hlink.freeable hblocks).owned,
      (hlink.freeable hblocks).runs, (hlink.freeable hblocks).inside⟩

/-- The inode that was allocated is one of the disk. -/
theorem Consistent.allocated {parent : Node} (hgeo : DirGeometry sb)
    (h : Consistent sb live modes d) (hparent : parent.inodeNo ∈ live)
    {mode : UInt16} (halloc : allocateInodeInGroup sb
      (parent.inodeNo / sb.inodesPerGroup) mode d = .ok n d₁) :
    InodeTaken sb d d₁ n mode ∧ n < inodeCount sb ∧ n ∉ live ∧ n ≠ 0 := by
  have htaken := wp_ok (allocateInodeInGroup_spec
    ((inode_group_iff hgeo).mp (h.inRange _ hparent)) mode d) halloc
  have hn := (inode_group_iff hgeo).mpr htaken.group
  have hnew := h.unused hn htaken.unused
  refine ⟨htaken, hn, hnew.1, fun hzero => ?_⟩
  have hroot := hnew.2
  rw [hzero] at hroot
  exact absurd hroot (by decide)

end Made

/-! ## §7. The link is removed. -/

section Removed

variable {sb : Superblock} {live : Finset Nat} {modes : Nat → UInt16}
  {ctx : WriteCtx} {path : Bytes} {e e' : Disk} {link : Node} {ino : Inode}

/-- What a link stores, in its pointers or in blocks, is given back. -/
theorem freeFileStorage_link (hgeo : SpaceGeometry sb)
    (hread : GroupsReadable sb e) (hmode : ino.mode = IFLNK ||| 0o777)
    (hfree : storesBlocks ino = true → Freeable sb e ino) {s : Storing}
    (hrun : freeFileStorage sb ⟨e, ino, 0⟩ = .ok () s) :
    Given sb e s.disk (inodeClaims sb e ino) := by
  have hstores := storesBlocks_link hmode
  by_cases hfast : isFastLink ino = true
  · have hnone : inodeClaims sb e ino = fun _ => 0 := by
      funext f
      unfold inodeClaims
      rw [hstores, hfast]
      rfl
    unfold freeFileStorage at hrun
    rw [bind_get, if_pos hfast] at hrun
    cases hrun
    rw [hnone]
    exact Given.refl sb e
  · rw [Bool.not_eq_true] at hfast
    have hblocks : storesBlocks ino = true := by rw [hstores, hfast]; rfl
    have hall : inodeClaims sb e ino = blockClaims sb e ino := by
      funext f
      unfold inodeClaims
      rw [if_pos hblocks]
    rw [hall]
    exact (wp_ok (freeFileStorage_spec hgeo hread hfast (hfree hblocks))
      hrun).2.2

/-- **The last name of a link is gone**: its inode and what it claims are given
back. -/
theorem removeLinkedInode_frees (hgeo : DirGeometry sb)
    (hspace : FreeSpace sb modes e) (hmode : link.inode.mode = IFLNK ||| 0o777)
    (hnlink : link.inode.nlink = 1)
    (hused : inodeUsed sb e link.inodeNo = true)
    (hgroup : link.inodeNo / sb.inodesPerGroup < sb.cgCount)
    (hfree : storesBlocks link.inode = true → Freeable sb e link.inode)
    (hrun : removeLinkedInode sb link e = .ok () e') (f : Nat) :
    freeAt sb e' f = freeAt sb e f + inodeClaims sb e link.inode f := by
  have hone : ¬link.inode.nlink = 0 := by
    rw [hnlink]
    decide
  have hlast : link.inode.nlink - 1 = 0 := by
    rw [hnlink]
    rfl
  have hspecial : isSpecialMode link.inode.mode = false := by
    rw [hmode]
    exact (mode_link rfl).2.2
  unfold removeLinkedInode at hrun
  rw [if_neg hone] at hrun
  dsimp only at hrun
  rw [if_pos hlast, if_pos hspecial] at hrun
  obtain ⟨⟨rc, ino⟩, e₁, hstore, hrun⟩ := bind_eq_ok hrun
  obtain ⟨_, e₂, hcheck, hrun⟩ := bind_eq_ok hrun
  obtain ⟨hrc, he₂⟩ := liftCheck_ok hcheck
  obtain ⟨_, e₃, hwrite, hgive⟩ := bind_eq_ok hrun
  have he₃ := writeInodeRaw_ok hwrite
  rw [he₂] at he₃
  rcases runStorer_ok hstore with ⟨s, hs, heq, he₁⟩ | ⟨x, s, hs, heq, he₁⟩
  · have hgiven := @freeFileStorage_link sb e
      { link.inode with nlink := link.inode.nlink - 1 } hgeo.toSpaceGeometry
      hspace.magic hmode
      (fun hblocks => ⟨(hfree hblocks).owned, (hfree hblocks).runs,
        (hfree hblocks).inside⟩) s hs
    -- the disk with the inode cleared has the groups the freeing has left
    have hspace' : FreeSpace sb modes e₃ := by
      rw [he₃, he₁]
      exact (hgiven.books.space modes hspace).of_groups rfl rfl rfl
    have hused' : inodeUsed sb e₃ link.inodeNo = true := by
      rw [he₃, he₁, ← hused]
      exact congrFun (hgiven.books.iused _) _
    obtain ⟨e₄, hrun', hinode⟩ := freeInodeInGroup_spec hgeo.toValidGeometry
      hspace' hgroup hused' link.inode.mode
    have he₄ : e' = e₄ := by
      have heq' := hgive.symm.trans hrun'
      injection heq'
    have hfree₃ : freeAt sb e' f = freeAt sb e₃ f := by
      rw [he₄]
      unfold freeAt
      rw [hinode.free]
    rw [hfree₃, he₃, he₁]
    exact hgiven.free f
  · rw [Prod.mk.injEq] at heq
    rw [heq.1] at hrc
    cases hrc

/-- What an unlink that succeeds has done: the name is gone, then the link. -/
theorem pathUnlink_run (hlook : nodeLookup sb path false e = .ok link e)
    (hrun : pathUnlink sb ctx path e = .ok () e') :
    ∃ parent name parentPath node e₁, nodeIsDir parent = true ∧
      nodeLookup sb parentPath true e = .ok parent e ∧
      removeDirent sb parent name e = .ok (node, link.inodeNo) e₁ ∧
      removeLinkedInode sb link e₁ = .ok () e' := by
  unfold pathUnlink at hrun
  obtain ⟨⟨parent, name⟩, e₁, hparent, hrun⟩ := bind_eq_ok hrun
  obtain ⟨he₁, hneed, parentPath, -, hlookup⟩ := findParent_found hparent
  rw [he₁] at hrun
  dsimp only at hrun
  rw [bind_of_ok hlook] at hrun
  split at hrun
  · cases hrun
  obtain ⟨_, e₂, hcheck, hrun⟩ := bind_eq_ok hrun
  rw [(liftCheck_ok hcheck).2] at hrun
  obtain ⟨_, e₃, hcheck', hrun⟩ := bind_eq_ok hrun
  rw [(liftCheck_ok hcheck').2] at hrun
  obtain ⟨node, e₄, hremove, hlast⟩ := bind_eq_ok hrun
  unfold removeName at hremove
  obtain ⟨⟨node', removed⟩, e₅, hremove, hret⟩ := bind_eq_ok hremove
  dsimp only at hret
  split at hret
  · cases hret
  · next hsame =>
    have he₅ : e₅ = e₄ := by
      cases hret
      rfl
    rw [not_not.mp hsame, he₅] at hremove
    exact ⟨parent, name, parentPath, node', e₄, hneed rfl, hlookup, hremove,
      hlast⟩

/-- **An unlink of the last name of a link** gives back what the link claims,
and nothing else. -/
theorem unlink_frees (hgeo : DirGeometry sb) (h : Consistent sb live modes e)
    (hlook : nodeLookup sb path false e = .ok link e)
    (hmode : link.inode.mode = IFLNK ||| 0o777) (hnlink : link.inode.nlink = 1)
    (hrun : pathUnlink sb ctx path e = .ok () e') (f : Nat) :
    freeAt sb e' f = freeAt sb e f + inodeClaims sb e link.inode f := by
  obtain ⟨hlive, hcopy⟩ := h.lookup hgeo hlook
  obtain ⟨parent, name, parentPath, node, e₁, hdir, hlookup, hremove, hlast⟩ :=
    pathUnlink_run hlook hrun
  obtain ⟨hplive, hpcopy⟩ := h.lookup hgeo hlookup
  have hord := h.lookup_ordered hgeo hlookup hdir
  have hnotDir : isDirMode link.inode.mode = false := by
    rw [hmode]
    exact (mode_link rfl).2.1
  have hne : link.inodeNo ≠ parent.inodeNo := by
    intro heq
    unfold nodeIsDir at hdir
    rw [hpcopy, ← heq, ← hcopy, hnotDir] at hdir
    cases hdir
  have hchange := removeDirent_change hgeo hord hremove
  have howned := hchange.owned hgeo.toDataGeometry h.owned hplive hpcopy.symm hdir
  have hsame : ∀ g, 0 < inodeClaims sb e link.inode g → SameFrag sb e e₁ g := by
    intro g hg
    rw [hcopy] at hg
    exact hchange.sameFrag h.owned hplive hlive hne hg
  have hkept : e₁.inodes link.inodeNo = link.inode := by
    rw [hchange.inodes _ hne]
    exact hcopy.symm
  -- the storage of the link is where it was
  have hfreeable : storesBlocks link.inode = true →
      Freeable sb e₁ link.inode := by
    intro hblocks
    have hold : Freeable sb e link.inode := by
      rw [hcopy] at hblocks hnotDir ⊢
      exact h.files _ hlive hnotDir hblocks
    have hle := howned.claims_le hlive
    rw [hkept] at hle
    unfold inodeClaims at hsame hle
    simp only [if_pos hblocks] at hsame hle
    exact hold.moved hgeo.toDataGeometry hsame hle
  have hused : inodeUsed sb e₁ link.inodeNo = true := by
    have hbefore := (h.used _ (h.inRange _ hlive)).mpr (.inl hlive)
    unfold inodeUsed at hbefore ⊢
    rw [hchange.iused]
    exact hbefore
  rw [removeLinkedInode_frees hgeo (hchange.space modes h.space) hmode hnlink
    hused ((inode_group_iff hgeo).mp (h.inRange _ hlive)) hfreeable hlast f,
    inodeClaims_congr hgeo.toDataGeometry hsame f,
    removeDirent_free hgeo hremove f]

end Removed

/-! ## §8. The round trip. -/

/-- Inode `n` and the fragments it claims are on `e` as they are on `d`. -/
structure SameInode (sb : Superblock) (n : Nat) (d e : Disk) : Prop where
  inode : e.inodes n = d.inodes n
  frags : ∀ f, 0 < inodeClaims sb d (d.inodes n) f → SameFrag sb d e f

section RoundTrip

variable {sb : Superblock} {live : Finset Nat} {modes : Nat → UInt16}
  {ctx : WriteCtx} {d d' : Disk} {target linkPath : Bytes}

/-- **A symbolic link, made and removed.**  From when it has been made, and as
long as its inode and what that claims stay as they are, the link reads back as
its target, and an unlink gives back exactly what was taken for the target; a
target of at most sixty bytes takes nothing.  What the call takes besides is
what the parent directory claims more. -/
theorem symlink_roundTrip (hgeo : DirGeometry sb)
    (h : Consistent sb live modes d) (hne : target ≠ [])
    (hnul : (0 : UInt8) ∉ target)
    (hrun : pathSymlink sb ctx target linkPath d = .ok () d') :
    ∃ parent name n,
      findParent sb ctx linkPath false d = .ok (parent, name) d ∧ n ∉ live ∧
      Consistent sb (insert n live)
        (Function.update modes n (IFLNK ||| 0o777)) d' ∧
      (n, name) ∈ dirEntries sb d' (d'.inodes parent.inodeNo) ∧
      (∀ f, freeAt sb d' f + inodeClaims sb d' (d'.inodes n) f
          + inodeClaims sb d' (d'.inodes parent.inodeNo) f
        = freeAt sb d f + inodeClaims sb d (d.inodes parent.inodeNo) f) ∧
      (target.length ≤ 60 → ∀ f, inodeClaims sb d' (d'.inodes n) f = 0) ∧
      ∀ e, SameInode sb n d' e →
        (∀ outSize, target.length < outSize →
          inodeReadlink sb (e.inodes n) outSize e = .ok target e) ∧
        ∀ live' modes' ctx' path link e', Consistent sb live' modes' e →
          nodeLookup sb path false e = .ok link e → link.inodeNo = n →
          pathUnlink sb ctx' path e = .ok () e' →
          ∀ f, freeAt sb e' f
            = freeAt sb e f + inodeClaims sb d' (d'.inodes n) f := by
  obtain ⟨parent, name, n, ino, d₁, d₂, node, hparent, hdir, halloc, hstored,
    hinsert⟩ := pathSymlink_run hrun
  have hgeo' := hgeo.toDataGeometry
  obtain ⟨-, -, parentPath, -, hlookup⟩ := findParent_found hparent
  obtain ⟨hplive, hpcopy⟩ := h.lookup hgeo hlookup
  obtain ⟨htaken, hn, hnew, hn0⟩ := h.allocated hgeo hplive halloc
  have hpn : parent.inodeNo ≠ n := fun heq => hnew (heq ▸ hplive)
  have hfree : ∀ f, freeAt sb d₁ f = freeAt sb d f := fun f => by
    unfold freeAt
    rw [htaken.free]
  have hlink := hstored.holdsTarget hgeo'
    ((hfree 0).trans (h.owned.zero hgeo'))
  -- the inode is written, then the name added
  have hmade := h.newLink hgeo hn htaken hlink
  have hinodes : d₂.inodes = d.inodes := hlink.books.inodes.trans htaken.inodes
  have hself : (withInode d₂ n ino).inodes n = ino := Function.update_self ..
  have hparent₃ : (withInode d₂ n ino).inodes parent.inodeNo = parent.inode :=
    (Function.update_of_ne hpn ..).trans (by rw [hinodes]; exact hpcopy.symm)
  have hplive' := Finset.mem_insert_of_mem (a := parent.inodeNo) (b := n) hplive
  have hord : OrderedDir sb (insert n live) (Function.update modes n (IFLNK ||| 0o777))
      (withInode d₂ n ino) parent := by
    have hord := hmade.dirs _ hplive' (by rw [hparent₃]; exact hdir)
    rw [hparent₃] at hord
    exact hord
  obtain ⟨hdone, hchange, hnamed⟩ := hmade.addName hgeo hord
    (Finset.mem_insert_self n live) hn0 hinsert
  have hsame : ∀ f, 0 < inodeClaims sb (withInode d₂ n ino) ino f →
      SameFrag sb (withInode d₂ n ino) d' f := fun f hf =>
    hchange.sameFrag hmade.owned hplive' (Finset.mem_insert_self n live)
      hpn.symm (by rw [hself]; exact hf)
  have hino : d'.inodes n = ino := (hchange.inodes n hpn.symm).trans hself
  have hclaims : inodeClaims sb d' (d'.inodes n) = inodeClaims sb d₂ ino := by
    funext f
    rw [hino]
    exact inodeClaims_congr hgeo' hsame f
  refine ⟨parent, name, n, hparent, hnew, hdone, ?_, fun f => ?_,
    fun hshort f => ?_, fun e hsame' => ⟨fun outSize hsize => ?_, ?_⟩⟩
  · rw [hchange.current]
    exact hnamed
  · have hparentClaims : inodeClaims sb (withInode d₂ n ino) parent.inode f
        = inodeClaims sb d parent.inode f := by
      refine inodeClaims_congr hgeo' (fun g hg => ?_) f
      rw [hpcopy] at hg
      exact (SameFrag.of_data_eq htaken.data g).trans
        (hlink.frame g ((hfree g).trans (h.owned.claimed hplive hg)))
    have hbalance := hchange.inodeClaims hparent₃ hdir f
    rw [hparent₃, hparentClaims, hpcopy] at hbalance
    have htook : freeAt sb (withInode d₂ n ino) f + inodeClaims sb d₂ ino f
        = freeAt sb d f := (hlink.claims f).trans (hfree f)
    rw [hclaims]
    omega
  · have hstores : storesBlocks ino = false := by
      rw [storesBlocks_link hlink.mode, hlink.fast, decide_eq_true hshort]
      rfl
    rw [hclaims]
    unfold inodeClaims
    rw [hstores]
    rfl
  · rw [hsame'.inode, hino]
    refine hlink.inodeReadlink_eq hgeo' hne hnul hsize fun f hf => ?_
    exact (hsame f hf).trans (hsame'.frags f (by rw [hclaims]; exact hf))
  · intro live' modes' ctx' path link e' he hlook hnum hunlink f
    have hfound : link.inode = ino := by
      rw [(he.lookup hgeo hlook).2, hnum, hsame'.inode, hino]
    rw [unlink_frees hgeo he hlook (by rw [hfound]; exact hlink.mode)
      (by rw [hfound]; exact hlink.nlink) hunlink f, hfound, ← hino]
    rw [inodeClaims_congr hgeo' hsame'.frags f]

end RoundTrip

/-! ## §9. A directory whose records are wide. -/

/-- Without pointer blocks the data area has no say in what is claimed. -/
theorem inodeClaims_direct {sb : Superblock} {ino : Inode}
    (hib : ∀ slot, ino.ib slot = 0) (d d' : Disk) (f : Nat) :
    inodeClaims sb d' ino f = inodeClaims sb d ino f := by
  have hblock : blockAt sb d' ino = blockAt sb d ino := by
    funext lb
    refine blockOf_congr (fun slot i _ => ?_) lb
    unfold slotTrees
    rw [hib, treeAt_zero_root, treeAt_zero_root]
  have hmeta : metaFrags sb d' ino f = metaFrags sb d ino f := by
    refine Finset.sum_congr rfl fun slot _ => ?_
    rw [hib, treeFrags_zero_root, treeFrags_zero_root]
  unfold inodeClaims blockClaims dataFrags
  rw [hmeta, hblock]

/-- The records of the root, each of a quarter of its chunk. -/
def wideRecord : Nat → Bytes
  | 0 => [0, 0, 0, 2, 1, 0, 0, 1, 46]
  | 1 => [0, 0, 0, 2, 1, 0, 0, 2, 46, 46]
  | 2 => [0, 0, 0, 3, 1, 0, 0, 1, 102]
  | _ => [0, 0, 0, 4, 1, 0, 0, 1, 103]

/-- The disk with two files, with that root. -/
def wideDisk : Disk :=
  { slackDisk with
    data := fun i =>
      if 1024 ≤ i ∧ i < 2048 then
        (wideRecord ((i - 1024) / 256)).getD ((i - 1024) % 256) 0
      else 0 }

theorem wide_direct : ∀ m ∈ ({2, 3, 4} : Finset Nat), ∀ slot,
    (wideDisk.inodes m).ib slot = 0 := by
  decide

theorem wide_owned : FragsOwned slackSb {2, 3, 4} wideDisk := by
  refine ⟨fun f => ?_⟩
  have hclaims : ∑ m ∈ {2, 3, 4}, inodeClaims slackSb wideDisk
        (wideDisk.inodes m) f
      = ∑ m ∈ {2, 3, 4}, inodeClaims slackSb slackDisk (wideDisk.inodes m) f :=
    Finset.sum_congr rfl fun m hm =>
      inodeClaims_direct (wide_direct m hm) slackDisk wideDisk f
  rw [hclaims]
  exact slack_owned.once f

/-- **It is in order.** -/
theorem wide_consistent :
    Consistent slackSb {2, 3, 4} (fun m => (filesDisk.inodes m).mode)
      wideDisk := by
  have hspace : FreeSpace slackSb (fun m => (filesDisk.inodes m).mode)
      wideDisk := slack_space.of_groups rfl rfl rfl
  have hdirs : ∀ m ∈ ({2, 3, 4} : Finset Nat),
      isDirMode (wideDisk.inodes m).mode = true → m = 2 := by
    decide
  refine ⟨hspace, wide_owned, by decide, by decide, by decide, by decide,
    fun m hm _ hblocks => ?_, fun m hm hdir => ?_, fun m hm hdir => ?_⟩
  · have hle := wide_owned.claims_le hm
    unfold inodeClaims at hle
    simp only [if_pos hblocks] at hle
    have hruns : ∀ m ∈ ({2, 3, 4} : Finset Nat),
        fileBlocks slackSb (wideDisk.inodes m).size = 1 ∧
        blockAt slackSb wideDisk (wideDisk.inodes m) 0
          + fragsNeeded slackSb (wideDisk.inodes m).size 0 ≤ 16 ∧
        fragsNeeded slackSb (wideDisk.inodes m).size 0 = 1 := by
      decide +kernel
    obtain ⟨hblocks, hfits, hone⟩ := hruns m hm
    refine ⟨hle, fun lb hlb _ => ?_, fun slot x hx => ?_⟩
    · obtain rfl : lb = 0 := by omega
      rw [hone] at hfits ⊢
      refine ⟨Nat.one_pos, ?_, hfits⟩
      rw [show slackSb.fragsPerBlock = 1 from rfl, Nat.mod_one]
    · rw [wide_direct m hm slot] at hx
      exact absurd rfl hx.1
  · obtain rfl := hdirs m hm hdir
    have hwalk : ∀ x ∈ dirPlaces slackSb (wideDisk.inodes 2).size,
        walkEnd (dirChunk slackSb wideDisk (wideDisk.inodes 2) x)
            (dirChunk slackSb wideDisk (wideDisk.inodes 2) x).length
            (dirChunk slackSb wideDisk (wideDisk.inodes 2) x).length 0
          = (dirChunk slackSb wideDisk (wideDisk.inodes 2) x).length ∧
        ∀ r ∈ records (dirChunk slackSb wideDisk (wideDisk.inodes 2) x)
            (dirChunk slackSb wideDisk (wideDisk.inodes 2) x).length,
          ¬TooShort r.2 := by
      decide +kernel
    refine ⟨hspace, wide_owned, by decide, rfl, by decide, fun lb hlb => ?_,
      by decide +kernel,
      fun x hx => ⟨_, wellChunk_of_walk (hwalk x hx).1 (hwalk x hx).2⟩⟩
    obtain rfl : lb = 0 := Nat.lt_one_iff.mp hlb
    constructor <;> decide +kernel
  · obtain rfl := hdirs m hm hdir
    decide +kernel

/-- The path of a name that fits behind a wide record, and of one that does
not. -/
def shortPath : Bytes := [SLASH, 108]
def longPath : Bytes := SLASH :: List.replicate 255 108

/-- A target of a hundred bytes in fragment 4, which an unlink gives back. -/
theorem symlink_roundTrip_wide :
    ∃ d' d'' n, pathSymlink slackSb superuserCtx (List.replicate 100 97)
        shortPath wideDisk = .ok () d' ∧
      pathUnlink slackSb superuserCtx shortPath d' = .ok () d'' ∧
      inodeReadlink slackSb (d'.inodes n) 1024 d'
        = .ok (List.replicate 100 97) d' ∧
      (∀ f, freeAt slackSb d'' f
        = freeAt slackSb d' f + inodeClaims slackSb d' (d'.inodes n) f) ∧
      freeAt slackSb d' 4 = 0 ∧ freeAt slackSb d'' 4 = 1 := by
  have hcheck : leftWith (fun d' =>
      returnedWith (fun link => decide (link.inodeNo = 5))
        (nodeLookup slackSb shortPath false d') &&
      leftWith (fun d'' => decide (
          (∀ e ∈ dirEntries slackSb d' (d'.inodes 2), e.1 < 6 ∧ 2 ≤ e.1) ∧
            freeAt slackSb d' 4 = 0 ∧ freeAt slackSb d'' 4 = 1))
        (pathUnlink slackSb superuserCtx shortPath d'))
      (pathSymlink slackSb superuserCtx (List.replicate 100 97) shortPath
        wideDisk) = true := by
    decide +kernel
  have hroot : returnedWith (fun p => p.1.inodeNo == 2)
      (findParent slackSb superuserCtx shortPath false wideDisk) = true := by
    decide +kernel
  obtain ⟨p, s, hp, hroot⟩ := exists_of_returnedWith hroot
  obtain ⟨u, d', hmade, hcheck⟩ := exists_of_leftWith hcheck
  obtain ⟨hlooked, hremoved⟩ := Bool.and_eq_true_iff.mp hcheck
  obtain ⟨link, s', hlook, hlink⟩ := exists_of_returnedWith hlooked
  obtain ⟨u, d'', hgone, hleft⟩ := exists_of_leftWith hremoved
  obtain ⟨hentries, htaken, hgiven⟩ := of_decide_eq_true hleft
  obtain ⟨parent, name, n, hparent, hnew, hdone, hnamed, -, -, hlater⟩ :=
    symlink_roundTrip slack_geometry wide_consistent (by decide) (by decide)
      hmade
  obtain ⟨hread, hunlink⟩ := hlater d'
    ⟨rfl, fun f _ => SameFrag.refl slackSb d' f⟩
  have hpeq : parent.inodeNo = 2 := by
    rw [hparent] at hp
    cases hp
    exact beq_iff_eq.mp hroot
  -- the only inode in the directory that is not an old one
  have hn : n = 5 := by
    rw [hpeq] at hnamed
    have hrange := hentries _ hnamed
    simp only [Finset.mem_insert, Finset.mem_singleton] at hnew
    omega
  have hstay : s' = d' := (nodeLookup_readOnly slackSb shortPath false).ok hlook
  rw [hstay] at hlook
  have hsize : (List.replicate 100 (97 : UInt8)).length < 1024 := by
    rw [List.length_replicate]
    omega
  exact ⟨d', d'', n, hmade, hgone, hread 1024 hsize,
    hunlink _ _ _ _ _ _ hdone hlook
      ((of_decide_eq_true hlink).trans hn.symm) hgone, htaken, hgiven⟩

/-- **A name that does not fit makes the directory grow**: a target in the
pointers, and one fragment is taken that the unlink does not give back. -/
theorem symlink_dirGrows :
    Consistent slackSb {2, 3, 4} (fun m => (filesDisk.inodes m).mode)
        wideDisk ∧
      ∃ d' d'', pathSymlink slackSb superuserCtx [97] longPath wideDisk
          = .ok () d' ∧
        pathUnlink slackSb superuserCtx longPath d' = .ok () d'' ∧
        freeAt slackSb wideDisk 4 = 1 ∧ freeAt slackSb d' 4 = 0 ∧
        freeAt slackSb d'' 4 = 0 := by
  have hrun : leftWith (fun d' =>
      leftWith (fun d'' => decide (freeAt slackSb wideDisk 4 = 1 ∧
          freeAt slackSb d' 4 = 0 ∧ freeAt slackSb d'' 4 = 0))
        (pathUnlink slackSb superuserCtx longPath d'))
      (pathSymlink slackSb superuserCtx [97] longPath wideDisk) = true := by
    decide +kernel
  refine ⟨wide_consistent, ?_⟩
  obtain ⟨u, d', hmade, hrun⟩ := exists_of_leftWith hrun
  obtain ⟨u, d'', hgone, hrun⟩ := exists_of_leftWith hrun
  exact ⟨d', d'', hmade, hgone, of_decide_eq_true hrun⟩

end NextUfs
