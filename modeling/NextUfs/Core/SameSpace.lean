/-
  NextUfs.Core.SameSpace
  ──────────────────────
  **FREE SPACE AS IT WAS.**

  Two disks have the same free space when every bitmap and every count of it
  is the same: the counts of the groups, their entries of the summary table
  and the superblock totals.  The counts follow from the bitmaps, so a file
  that is stored and freed again, or whose store fails halfway, leaves no
  trace in any of them.

    • `SameSpace`               — the relation,
    • `FreeSpace.same`          — the bitmaps settle the counts,
    • `storeData_restored`      — a store that fails,
    • `freeFileStorage_restores` — a store that is freed again.
-/
import NextUfs.Core.InodeBits
import NextUfs.Core.StoreFailure

namespace NextUfs

open Bits State

/-! ## §1. Free space and its counts. -/

/-- **The same free space**: bitmaps, counters, summary entries and totals,
and the entries of `cg_frsum` that count nothing. -/
structure SameSpace (sb : Superblock) (d d' : Disk) : Prop extends
    SameCounters sb d d' where
  free : ∀ c < sb.cgCount, (d'.cgs c).free = (d.cgs c).free
  uncounted : ∀ c < sb.cgCount, ∀ j, ¬CountsRuns sb j →
    (d'.cgs c).frsum j = (d.cgs c).frsum j

theorem SameSpace.refl (sb : Superblock) (d : Disk) : SameSpace sb d d where
  cs _ _ := rfl
  frsum _ _ _ _ _ := rfl
  btot _ _ _ _ := rfl
  b _ _ _ _ _ _ := rfl
  csum _ _ := rfl
  total := rfl
  free _ _ := rfl
  uncounted _ _ _ _ := rfl

/-! ## §2. The bitmaps settle the counts. -/

/-- **The bitmaps settle the counts**: when the books are kept and the same
fragments are free, free space is as it was. -/
theorem FreeSpace.same {sb : Superblock} {modes : Nat → UInt16}
    {d d' : Disk} (hgeo : SpaceGeometry sb) (hsp : FreeSpace sb modes d)
    (hbooks : BooksKept sb d d')
    (hfree : ∀ f, freeAt sb d' f = freeAt sb d f) : SameSpace sb d d' := by
  have hsp' := hbooks.space modes hsp
  have hcounters : SameCounters sb d d' := by
    refine sameCounters hgeo hsp hsp' hfree (fun m _ => ?_) fun _ _ _ => rfl
    unfold inodeUsed
    rw [hbooks.iused]
  exact ⟨hcounters, fun c hc => hsp.free_eq hgeo hsp' hfree hc,
    fun c _ => hbooks.frsum c⟩

/-! ## §3. A file that is stored and freed. -/

section Restore

variable {sb : Superblock} {modes : Nat → UInt16} {d : Disk} {ino : Inode}
  {data : List UInt8} {s : Storing} {preferredCg : Nat}

/-- A fresh inode: it points nowhere, and its pointer area is not a link. -/
structure FreshInode (ino : Inode) : Prop where
  pointers : NoPointers ino
  fast : isFastLink ino = false

/-- What a whole file took can be given back. -/
theorem Stored.freeable_done (h : Stored sb d ino data
      (fileBlocks sb data.length) s) (hsize : s.ino.size = data.length) :
    Freeable sb s.disk s.ino := by
  refine ⟨fun f => ?_, fun lb hlb _ => ?_, h.inside⟩
  · have hsum := h.conserved f
    have hle := freeAt_le sb d f
    unfold blockClaims
    rw [hsize]
    omega
  · rw [hsize] at hlb ⊢
    exact h.runs lb hlb

/-- **Storing a file and freeing it again leaves free space as it was**,
whatever the depth of its block tree and the length of its tail; the freeing
succeeds and the inode points nowhere. -/
theorem freeFileStorage_restores (hgeo : SpaceGeometry sb)
    (hsp : FreeSpace sb modes d) (hzero : freeAt sb d 0 = 0)
    (hfresh : FreshInode ino)
    (hrun : storeData sb preferredCg data ino d = .ok () s) (frags : Nat) :
    ∃ t, freeFileStorage sb ⟨s.disk, s.ino, frags⟩ = .ok () t ∧
      SameSpace sb d t.disk ∧ NoPointers t.ino ∧ t.ino.size = 0 := by
  obtain ⟨hstored, hsize⟩ := storeData_stored hgeo.toDataGeometry hzero
    hfresh.pointers hrun
  have hfast : isFastLink s.ino = false := by
    rw [hstored.fields]
    exact hfresh.fast
  have hfree := @freeFileStorage_spec sb s.disk hgeo
    (hstored.books.space modes hsp).magic s.ino frags hfast
    (hstored.freeable_done hsize)
  cases hout : freeFileStorage sb ⟨s.disk, s.ino, frags⟩ with
  | error e t =>
    -- a file that was stored has no block past the map
    exfalso
    obtain ⟨hspan, -⟩ := wp_error hfree hout
    rw [hsize] at hspan
    exact hstored.block (mapSpan sb) hspan (blockAt_past le_rfl)
  | ok a t =>
    obtain ⟨-, hino, hgiven⟩ := wp_ok hfree hout
    refine ⟨t, rfl, hsp.same hgeo (hstored.books.trans hgiven.books)
      fun f => ?_, ?_, ?_⟩
    · have hsum := hstored.conserved f
      rw [hgiven.free f]
      unfold blockClaims
      rw [hsize]
      omega
    · rw [hino]
      exact ⟨fun _ => rfl, fun _ => rfl⟩
    · rw [hino]
      rfl

/-! ## §4. A store that fails. -/

/-- **A store that fails leaves free space as it was**, and no byte in use has
changed. -/
theorem storeData_restored (hgeo : SpaceGeometry sb)
    (hsp : FreeSpace sb modes d) (hzero : freeAt sb d 0 = 0)
    (hfresh : FreshInode ino) {e : Errno}
    (hrun : storeData sb preferredCg data ino d = .error e s) :
    SameSpace sb d s.disk ∧ s.disk.inodes = d.inodes ∧
      ∀ f, freeAt sb d f = 0 → SameFrag sb d s.disk f := by
  obtain ⟨hfree, hbooks, hframe, -⟩ := storeData_error hgeo hsp hzero
    hfresh.pointers hfresh.fast hrun
  exact ⟨hsp.same hgeo hbooks hfree, hbooks.inodes, hframe⟩

end Restore

/-! ## §5. A disk in order. -/

/-- The small disk with its counts per rotational position. -/
def countedDisk : Disk :=
  { smallDisk with
    cgs := fun c =>
      { smallDisk.cgs c with
        b := fun cyl pos =>
          UInt16.ofNat (posBlocks smallSb (smallDisk.cgs c) cyl pos) } }

theorem small_space_geometry : SpaceGeometry smallSb := by
  refine ⟨small_geometry, by decide, fun c hc => ?_, by decide⟩
  obtain rfl : c = 0 := Nat.lt_one_iff.mp hc
  decide

theorem counted_space : FreeSpace smallSb (fun _ => IFREG) countedDisk := by
  have hcg : ∀ c, countedDisk.cgs c = countedDisk.cgs 0 := fun _ => rfl
  refine ⟨⟨fun c hc => ?_, fun c hc => ?_, fun _ _ => rfl, rfl⟩,
    fun _ _ => rfl, fun c hc => ?_⟩
  · rw [hcg c]
    refine ⟨by decide +kernel, by decide +kernel, fun j h1 hj => ?_,
      by decide +kernel, fun cyl _ pos _ => ?_, fun i hi => ?_⟩
    · -- a block of one fragment has no shorter runs
      have : j < 1 := hj
      omega
    · show UInt16.ofNat (posBlocks smallSb (smallDisk.cgs 0) cyl pos) = _
      unfold posBlocks
      rfl
    · have : 32 ≤ i := hi
      show decide (2 ≤ i ∧ i < 32) = false
      rw [decide_eq_false_iff_not]
      omega
  · obtain rfl : c = 0 := Nat.lt_one_iff.mp hc
    constructor <;> decide
  · obtain rfl : c = 0 := Nat.lt_one_iff.mp hc
    rfl

/-- Fifty bytes take thirteen blocks and a pointer block, and give them
back. -/
theorem freeFileStorage_restores_counted :
    ∃ s t, storeData smallSb 0 (List.replicate 50 7) zeroInode countedDisk
        = .ok () s ∧
      freeFileStorage smallSb ⟨s.disk, s.ino, 0⟩ = .ok () t ∧
      (s.disk.cgs 0).cs.nbfree = 16 ∧ SameSpace smallSb countedDisk t.disk := by
  have hok : (match storeData smallSb 0 (List.replicate 50 7) zeroInode
      countedDisk with
    | .ok _ s => (s.disk.cgs 0).cs.nbfree == 16
    | .error _ _ => false) = true := by
    decide +kernel
  cases hrun : storeData smallSb 0 (List.replicate 50 7) zeroInode
      countedDisk with
  | error e s =>
    rw [hrun] at hok
    cases hok
  | ok _ s =>
    rw [hrun] at hok
    obtain ⟨t, hfree, hsame, -⟩ := freeFileStorage_restores
      small_space_geometry counted_space (by decide)
      ⟨⟨fun _ => rfl, fun _ => rfl⟩, by decide⟩ hrun 0
    exact ⟨s, t, rfl, hfree, eq_of_beq hok, hsame⟩

end NextUfs
