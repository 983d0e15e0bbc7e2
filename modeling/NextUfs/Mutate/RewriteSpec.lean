/-
  NextUfs.Mutate.RewriteSpec
  ──────────────────────────
  **A REWRITTEN FILE HAS ITS NEW CONTENT.**

  The content each operation is to leave is stated byte by byte (`Rewrite`
  and its `content`); the code edits buffers.  New storage is allocated before
  the old is freed, and freeing changes no byte, so the new content is what
  was stored and nobody else sees a difference.

    • `rewriteInodeContents_ok` — the step all four operations share,
    • `Rewrite.run_ok`          — each operation passes it its content,
    • `rewrite_readBack`        — the file and every other inode afterwards.
-/
import NextUfs.Core.Frames
import NextUfs.Core.RoundTrip
import NextUfs.Mutate.Rewrite

namespace NextUfs

open Bits Radix State

/-! ## §1. The shared step. -/

section Contents

variable {sb : Superblock} {d d' : Disk} {inodeNo : Nat} {inode : Inode}
  {data : Bytes}

theorem runStorer_ok {x : Storer Unit} {rc : Except Errno Unit × Inode}
    (h : runStorer x inode d = .ok rc d') :
    (∃ s, x ⟨d, inode, 0⟩ = .ok () s ∧ rc = (.ok (), s.ino) ∧ d' = s.disk) ∨
      ∃ e s, x ⟨d, inode, 0⟩ = .error e s ∧ rc = (.error e, s.ino) ∧
        d' = s.disk := by
  unfold runStorer at h
  cases hx : x ⟨d, inode, 0⟩ with
  | ok _ s =>
    rw [hx] at h
    cases h
    exact Or.inl ⟨s, rfl, rfl, rfl⟩
  | error e s =>
    rw [hx] at h
    cases h
    exact Or.inr ⟨e, s, rfl, rfl, rfl⟩

theorem writeInodeRaw_ok {ino : Inode} {a : Unit}
    (h : writeInodeRaw sb inodeNo ino d = .ok a d') :
    d' = { d with inodes := Function.update d.inodes inodeNo ino } := by
  unfold writeInodeRaw at h
  split at h
  · cases h
    rfl
  · cases h

theorem liftCheck_ok {α : Type} {r : Except Errno α} {a : α}
    (h : liftCheck r d = .ok a d') : r = .ok a ∧ d' = d := by
  cases r with
  | error e => cases h
  | ok b =>
    cases h
    exact ⟨rfl, rfl⟩

theorem clearInodeLayout_noPointers (ino : Inode) :
    NoPointers (clearInodeLayout ino) :=
  ⟨fun _ => rfl, fun _ => rfl⟩

/-- The inode of a file that has been stored, with new times. -/
def stamped (s : Storing) : Inode :=
  { s.ino with
    mtime := s.disk.clock, ctime := s.disk.clock, atime := s.disk.clock }

/-- **The steps of a rewrite that succeeds**: the content is stored for a cleared
inode, the inode is written, and the old storage is freed. -/
theorem rewriteInodeContents_steps {preferredCg : Nat}
    (h : rewriteInodeContents sb inodeNo inode preferredCg data d
      = .ok () d') :
    ∃ s t, storeData sb preferredCg data (clearInodeLayout inode) d = .ok () s ∧
      freeFileStorage sb ⟨{ s.disk with
        inodes := Function.update s.disk.inodes inodeNo (stamped s) }, inode, 0⟩
        = .ok () t ∧
      d' = t.disk := by
  unfold rewriteInodeContents at h
  obtain ⟨rc, d₁, hstore, h⟩ := bind_eq_ok h
  rcases runStorer_ok hstore with ⟨s, hs, rfl, rfl⟩ | ⟨e, s, hs, rfl, rfl⟩
  · obtain ⟨now, d₂, htime, h⟩ := bind_eq_ok h
    cases htime
    obtain ⟨_, d₃, hwrite, h⟩ := bind_eq_ok h
    obtain rfl := writeInodeRaw_ok hwrite
    obtain ⟨rc', d₄, hfree, h⟩ := bind_eq_ok h
    obtain ⟨hrc, rfl⟩ := liftCheck_ok h
    rcases runStorer_ok hfree with ⟨t, ht, -, hd⟩ | ⟨e, t, -, heq, -⟩
    · exact ⟨s, t, hs, ht, hd⟩
    · rw [Prod.mk.injEq] at heq
      rw [heq.1] at hrc
      cases hrc
  · cases h

/-- **What a rewrite that succeeded left**: the inode holds the new content,
no other inode changed, and neither did any fragment that was not free. -/
theorem rewriteInodeContents_ok {preferredCg : Nat} (hgeo : DataGeometry sb)
    (hzero : freeAt sb d 0 = 0)
    (h : rewriteInodeContents sb inodeNo inode preferredCg data d
      = .ok () d') :
    HoldsFile sb d' (d'.inodes inodeNo) data ∧
      (∀ m, m ≠ inodeNo → d'.inodes m = d.inodes m) ∧
      ∀ f, freeAt sb d f = 0 → SameFrag sb d d' f := by
  obtain ⟨s, t, hs, hfree, rfl⟩ := rewriteInodeContents_steps h
  obtain ⟨hstored, hsize⟩ := storeData_stored hgeo hzero
    (clearInodeLayout_noPointers inode) hs
  -- the old storage is freed after the inode points at the new one
  obtain ⟨hdata, hinodes⟩ := (freeFileStorage_keeps sb).ok hfree
  dsimp only at hdata hinodes
  have hself := congrFun hinodes inodeNo
  rw [Function.update_self] at hself
  refine ⟨?_, fun m hm => ?_, fun f hf => ?_⟩
  · rw [hself]
    exact (hstored.holdsFile hsize).of_eq hdata rfl rfl rfl
  · rw [hinodes, Function.update_of_ne hm, hstored.books.inodes]
  · exact (hstored.frame f hf).trans (SameFrag.of_data_eq hdata f)

end Contents

/-! ## §2. The operations. -/

/-- A rewrite of a file. -/
inductive Rewrite where
  | overwrite (data : Bytes)
  | append (data : Bytes)
  | truncate (size : Nat)
  | pwrite (data : Bytes) (offset : Nat)

/-- The operation of the library. -/
def Rewrite.run (sb : Superblock) (ctx : WriteCtx) (path : Bytes) :
    Rewrite → Op Unit
  | overwrite data => pathOverwriteFile sb ctx path data
  | append data => pathAppendFile sb ctx path data
  | truncate size => pathTruncate sb ctx path size
  | pwrite data offset => pathPwrite sb ctx path data offset

/-- The bytes of `old` as a file of `n` bytes: cut, or extended by zeros. -/
def resized (n : Nat) (old : Bytes) : Bytes :=
  (List.range n).map fun i => old.getD i 0

/-- **The content a rewrite is to leave** in a file that held `old`. -/
def Rewrite.content (old : Bytes) : Rewrite → Bytes
  | overwrite data => data
  | append data => old ++ data
  | truncate size => resized size old
  | pwrite data offset =>
    (List.range (max old.length (offset + data.length))).map fun i =>
      if offset ≤ i ∧ i < offset + data.length then data.getD (i - offset) 0
      else old.getD i 0

theorem zeroPadded_eq {n : Nat} {bytes : Bytes} (h : bytes.length ≤ n) :
    zeroPadded n bytes = resized n bytes := by
  unfold zeroPadded resized
  refine List.ext_getElem (by simp; omega) fun i h1 h2 => ?_
  simp only [List.getElem_map, List.getElem_range]
  by_cases hi : i < bytes.length
  · rw [List.getElem_append_left hi]
    simp [List.getD_eq_getElem?_getD, hi]
  · rw [List.getElem_append_right (by omega), List.getElem_replicate,
      List.getD_eq_getElem?_getD, List.getElem?_eq_none (by omega)]
    rfl

/-- A prefix of a file is all that a shorter one needs of it. -/
theorem resized_take {n : Nat} {old : Bytes} :
    resized n (old.take (min old.length n)) = resized n old := by
  refine List.map_congr_left fun i hi => ?_
  have hi := List.mem_range.mp hi
  simp only [List.getD_eq_getElem?_getD, List.getElem?_take]
  split
  · rfl
  · rw [List.getElem?_eq_none (by omega)]

/-- The copied bytes lie over the old ones. -/
theorem overlay_eq {old data : Bytes} {offset : Nat} :
    overlay (zeroPadded (max old.length (offset + data.length)) old) offset
        data
      = (Rewrite.pwrite data offset).content old := by
  rw [zeroPadded_eq (Nat.le_max_left _ _)]
  unfold overlay resized Rewrite.content
  refine List.ext_getElem (by simp; omega) fun i h1 h2 => ?_
  have hi : i < max old.length (offset + data.length) := by simpa using h2
  simp only [List.getElem_map, List.getElem_range]
  by_cases hlt : i < offset
  · rw [if_neg (by omega), List.getElem_append_left (by simp; omega),
      List.getElem_append_left (by simp; omega), List.getElem_take,
      List.getElem_map, List.getElem_range]
  · by_cases hin : i < offset + data.length
    · rw [if_pos (by omega), List.getElem_append_left (by simp; omega),
        List.getElem_append_right (by simp; omega)]
      have hlen : min offset (max old.length (offset + data.length))
          = offset := by omega
      simp only [List.length_take, List.length_map, List.length_range, hlen]
      simp [List.getD_eq_getElem?_getD, show i - offset < data.length by omega]
    · rw [if_neg (by omega), List.getElem_append_right (by simp; omega)]
      have hlen : min offset (max old.length (offset + data.length))
          = offset := by omega
      simp only [List.getElem_drop, List.getElem_map, List.getElem_range,
        List.length_append, List.length_take, List.length_map,
        List.length_range, hlen]
      congr 1
      omega

section Run

variable {sb : Superblock} {ctx : WriteCtx} {path : Bytes} {d d' : Disk}
  {target : Node} {old : Bytes}

/-- The file an operation found. -/
theorem lookupForWrite_ok {notReg : Errno} {node : Node}
    (h : lookupForWrite sb ctx path notReg d = .ok node d') :
    nodeLookup sb path false d = .ok node d ∧ d' = d := by
  unfold lookupForWrite at h
  obtain ⟨t, d₁, hlook, hnext⟩ := bind_eq_ok h
  obtain rfl := (nodeLookup_readOnly sb path false).ok hlook
  split at hnext
  · cases hnext
  · obtain ⟨_, d₂, hcheck, hret⟩ := bind_eq_ok hnext
    obtain ⟨-, rfl⟩ := liftCheck_ok hcheck
    cases hret
    exact ⟨hlook, rfl⟩

/-- What reading the start of the file returned. -/
theorem readPrefix_ok (hbs : 0 < sb.blockSize) {bytes : Bytes} {n : Nat}
    (hold : outcome (inodeReadData sb target.inode 0 target.inode.size) d
      = .ok old)
    (h : inodeReadData sb target.inode 0 n d = .ok bytes d') :
    bytes = old.take n ∧ d' = d := by
  obtain ⟨rfl, rfl⟩ := inodeReadData_eq_ok hbs h
  refine ⟨?_, rfl⟩
  unfold outcome at hold
  cases hrun : inodeReadData sb target.inode 0 target.inode.size d' with
  | error e d₁ =>
    rw [hrun] at hold
    cases hold
  | ok all d₁ =>
    rw [hrun] at hold
    cases hold
    obtain ⟨rfl, -⟩ := inodeReadData_eq_ok hbs hrun
    unfold readLength
    rw [Nat.sub_zero, Nat.min_self]
    rcases Nat.le_total n target.inode.size with hle | hle
    · rw [fileBytes_take hle, Nat.min_eq_right hle]
    · rw [List.take_of_length_le (by rwa [fileBytes_length]),
        Nat.min_eq_left hle]

theorem old_length (hbs : 0 < sb.blockSize)
    (hold : outcome (inodeReadData sb target.inode 0 target.inode.size) d
      = .ok old) : old.length = target.inode.size := by
  unfold outcome at hold
  cases hrun : inodeReadData sb target.inode 0 target.inode.size d with
  | error e d₁ =>
    rw [hrun] at hold
    cases hold
  | ok all d₁ =>
    rw [hrun] at hold
    cases hold
    obtain ⟨rfl, -⟩ := inodeReadData_eq_ok hbs hrun
    rw [fileBytes_length]
    unfold readLength
    omega

/-- **Each operation rewrites its file to its content.** -/
theorem Rewrite.run_ok (op : Rewrite) (hbs : 0 < sb.blockSize)
    (hlook : nodeLookup sb path false d = .ok target d)
    (hold : outcome (inodeReadData sb target.inode 0 target.inode.size) d
      = .ok old)
    (h : op.run sb ctx path d = .ok () d') :
    rewriteInodeContents sb target.inodeNo target.inode
      (target.inodeNo / sb.inodesPerGroup) (op.content old) d = .ok () d' := by
  have hlen := old_length hbs hold
  -- the code finds the same file
  have hfind : ∀ {notReg : Errno} {node : Node} {d₁ : Disk},
      lookupForWrite sb ctx path notReg d = .ok node d₁ →
      node = target ∧ d₁ = d := by
    intro notReg node d₁ hnode
    obtain ⟨hsame, rfl⟩ := lookupForWrite_ok hnode
    rw [hlook] at hsame
    cases hsame
    exact ⟨rfl, rfl⟩
  have hzero : target.inode.size = 0 → old = [] := by
    intro h0
    exact List.eq_nil_of_length_eq_zero (hlen.trans h0)
  -- and its ids were checked first
  have hstart : ∀ {notReg : Errno} {k : Node → Op Unit},
      (do
        liftCheck (requireCtxIdsFit ctx)
        let node ← lookupForWrite sb ctx path notReg
        k node) d = .ok () d' → k target d = .ok () d' := by
    intro notReg k hrun
    obtain ⟨_, d₀, hids, hnext⟩ := bind_eq_ok hrun
    obtain ⟨-, rfl⟩ := liftCheck_ok hids
    obtain ⟨node, d₁, hnode, hrest⟩ := bind_eq_ok hnext
    obtain ⟨rfl, rfl⟩ := hfind hnode
    exact hrest
  cases op with
  | overwrite data => exact hstart h
  | append data =>
    have hrun := hstart h
    dsimp only at hrun
    split at hrun
    · obtain ⟨bytes, d₂, hread, hwrite⟩ := bind_eq_ok hrun
      obtain ⟨rfl, rfl⟩ := readPrefix_ok hbs hold hread
      rw [← hlen, List.take_length] at hwrite
      exact hwrite
    · rename_i hempty
      obtain rfl := hzero (by simpa using hempty)
      exact hrun
  | truncate size =>
    have hcall : pathTruncate sb ctx path size d = .ok () d' := h
    unfold pathTruncate at hcall
    split at hcall
    · cases hcall
    have hrun := hstart hcall
    dsimp only at hrun
    have hbuf : zeroPadded size (old.take (min old.length size))
        = (Rewrite.truncate size).content old := by
      rw [zeroPadded_eq (by simp), resized_take]
      rfl
    split at hrun
    · obtain ⟨bytes, d₂, hread, hwrite⟩ := bind_eq_ok hrun
      obtain ⟨rfl, rfl⟩ := readPrefix_ok hbs hold hread
      rw [← hlen, hbuf] at hwrite
      exact hwrite
    · rename_i hnone
      rw [← hlen, not_not] at hnone
      rw [hnone, List.take_zero] at hbuf
      rw [← hbuf]
      exact hrun
  | pwrite data offset =>
    have hcall : pathPwrite sb ctx path data offset d = .ok () d' := h
    unfold pathPwrite at hcall
    split at hcall
    · cases hcall
    have hrun := hstart hcall
    dsimp only at hrun
    split at hrun
    · obtain ⟨bytes, d₂, hread, hwrite⟩ := bind_eq_ok hrun
      obtain ⟨rfl, rfl⟩ := readPrefix_ok hbs hold hread
      rw [← hlen, List.take_length, overlay_eq] at hwrite
      exact hwrite
    · rename_i hempty
      obtain rfl := hzero (not_not.mp hempty)
      rw [← hlen] at hrun
      rw [← overlay_eq]
      exact hrun

/-- **A rewritten file reads back as its new content**, its size is that
content's length, and every other inode and its data are as they were. -/
theorem rewrite_readBack {live : Finset Nat} (op : Rewrite)
    (hgeo : DataGeometry sb) (hown : FragsOwned sb live d)
    (hlook : nodeLookup sb path false d = .ok target d)
    (hold : outcome (inodeReadData sb target.inode 0 target.inode.size) d
      = .ok old)
    (h : op.run sb ctx path d = .ok () d') :
    (d'.inodes target.inodeNo).size = (op.content old).length ∧
    (∀ start n, inodeReadData sb (d'.inodes target.inodeNo) start n d'
      = .ok (((op.content old).drop start).take n) d') ∧
    ∀ m ∈ live, m ≠ target.inodeNo → d'.inodes m = d.inodes m ∧
      (storesBlocks (d.inodes m) = true → ∀ start n,
        outcome (inodeReadData sb (d'.inodes m) start n) d'
          = outcome (inodeReadData sb (d.inodes m) start n) d) := by
  obtain ⟨hfile, hothers, hframe⟩ := rewriteInodeContents_ok hgeo
    (hown.zero hgeo) (op.run_ok hgeo.blockSize_pos hlook hold h)
  refine ⟨hfile.size, hfile.inodeReadData_eq hgeo, fun m hm hne => ?_⟩
  refine ⟨hothers m hne, fun hblocks start n => ?_⟩
  rw [hothers m hne]
  exact hown.unseen hgeo hframe hm hblocks start n

end Run

/-! ## §3. A disk with two files. -/

/-- Geometry of a disk of sixteen fragments. -/
def filesSb : Superblock :=
  { smallSb with
    fragCount := 16, blockSize := 64, fragSize := 64, inodesPerGroup := 8
    fragsPerGroup := 16 }

/-- The records of its root: itself, itself, `f` and `g`. -/
def filesRoot : Bytes :=
  [0, 0, 0, 2, 0, 12, 0, 1, 46, 0, 0, 0,
    0, 0, 0, 2, 0, 12, 0, 2, 46, 46, 0, 0,
    0, 0, 0, 3, 0, 12, 0, 1, 102, 0, 0, 0,
    0, 0, 0, 4, 0, 12, 0, 1, 103, 0, 0, 0]

/-- Its disk: fragment 0 is metadata, 1 the root, 2 the file `f` of five bytes,
3 the file `g` of two. -/
def filesDisk : Disk where
  cstotal := ⟨1, 12, 3, 0⟩
  sbTime := 0
  csum := fun _ => ⟨1, 12, 3, 0⟩
  cgs := fun _ =>
    { link := 0, rlink := 0, time := 0, cgx := 0, ncyl := 1, niblk := 8
      ndblk := 16, cs := ⟨1, 12, 3, 0⟩, rotor := 0, frotor := 0, irotor := 0
      frsum := fun _ => 0
      btot := fun cyl => if cyl = 0 then 12 else 0
      b := fun _ _ => 0
      iused := fun i => decide (i < 5)
      magic := CG_MAGIC
      free := fun i => decide (4 ≤ i ∧ i < 16) }
  inodes := fun m =>
    if m = 2 then
      { zeroInode with
        mode := IFDIR ||| 0o755, nlink := 2, size := 48, blocks := 1
        db := fun i => if i = 0 then 1 else 0 }
    else if m = 3 then
      { zeroInode with
        mode := IFREG ||| 0o644, nlink := 1, size := 5, blocks := 1
        db := fun i => if i = 0 then 2 else 0 }
    else if m = 4 then
      { zeroInode with
        mode := IFREG ||| 0o644, nlink := 1, size := 2, blocks := 1
        db := fun i => if i = 0 then 3 else 0 }
    else zeroInode
  data := fun i =>
    if 64 ≤ i ∧ i < 112 then filesRoot.getD (i - 64) 0
    else UInt8.ofNat (i / 64)
  clock := 0

/-- Its root. -/
def filesRootNode : Node := ⟨2, filesDisk.inodes 2⟩

theorem files_geometry : DataGeometry filesSb := by
  constructor
  · constructor <;> decide
  all_goals decide

theorem files_owned : FragsOwned filesSb {2, 3, 4} filesDisk := by
  constructor
  intro f
  by_cases hf : f < 16
  · have hall : ∀ f < 16, freeAt filesSb filesDisk f + reservedAt filesSb f
        + ∑ m ∈ {2, 3, 4}, inodeClaims filesSb filesDisk (filesDisk.inodes m) f
        = if f < filesSb.fragCount then 1 else 0 := by
      decide +kernel
    exact hall f hf
  · have hfree : freeAt filesSb filesDisk f = 0 := if_neg hf
    have hreserved : reservedAt filesSb f = 0 := by
      refine if_neg fun h => ?_
      obtain ⟨c, hc, -, hend⟩ := h
      obtain rfl : c = 0 := Nat.lt_one_iff.mp hc
      have : f < 1 := hend
      omega
    have hclaims : ∀ m ∈ ({2, 3, 4} : Finset Nat),
        inodeClaims filesSb filesDisk (filesDisk.inodes m) f = 0 := by
      intro m hm
      simp only [Finset.mem_insert, Finset.mem_singleton] at hm
      rcases hm with rfl | rfl | rfl <;>
        exact inodeClaims_past (n := 16) (fun _ => rfl) (by decide) (by omega)
    rw [hfree, hreserved, Finset.sum_eq_zero hclaims]
    exact (if_neg hf).symm

/-- Two bytes written to `/f` past its end: the gap is zeros, and `g` stays as
it was. -/
theorem rewrite_readBack_files :
    ∃ d', (Rewrite.pwrite [9, 9] 70).run filesSb ⟨.SU, 0, 0, []⟩ [47, 102]
        filesDisk = .ok () d' ∧
      (d'.inodes 3).size = 72 ∧
      inodeReadData filesSb (d'.inodes 3) 3 200 d'
        = .ok ([2, 2] ++ List.replicate 65 0 ++ [9, 9]) d' ∧
      outcome (inodeReadData filesSb (d'.inodes 4) 0 2) d' = .ok [3, 3] := by
  have hok : returnedWith (fun _ => true) ((Rewrite.pwrite [9, 9] 70).run
      filesSb ⟨.SU, 0, 0, []⟩ [47, 102] filesDisk) = true := by
    decide +kernel
  obtain ⟨⟨⟩, d', hrun, -⟩ := exists_of_returnedWith hok
  have hlook : nodeLookup filesSb [47, 102] false filesDisk
      = .ok ⟨3, filesDisk.inodes 3⟩ filesDisk := by
    have hnode : returnedWith (fun node : Node => node.inodeNo == 3)
        (nodeLookup filesSb [47, 102] false filesDisk) = true := by
      decide +kernel
    obtain ⟨node, d₁, hfound, hno⟩ := exists_of_returnedWith hnode
    obtain ⟨rfl, hcopy⟩ := nodeLookup_ok hfound
    rw [hfound]
    obtain ⟨inodeNo, inode⟩ := node
    obtain rfl : inodeNo = 3 := eq_of_beq hno
    obtain rfl : inode = filesDisk.inodes 3 := hcopy
    rfl
  have hold : outcome (inodeReadData filesSb (filesDisk.inodes 3) 0 5)
      filesDisk = .ok [2, 2, 2, 2, 2] := by
    rfl
  obtain ⟨hsize, hread, hother⟩ := rewrite_readBack _ files_geometry
    files_owned hlook hold hrun
  refine ⟨d', hrun, hsize, hread 3 200, ?_⟩
  exact (hother 4 (by decide) (by decide)).2 (by decide) 0 2

end NextUfs
