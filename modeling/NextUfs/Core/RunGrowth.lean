/-
  NextUfs.Core.RunGrowth
  ──────────────────────
  **A RUN THAT GROWS.**

  A run of fragments becomes longer in three ways: it was not there and is
  allocated, the fragments behind it are free and are taken, or it moves to a
  longer run.  Whatever the way, free space gives the new run and gets the old
  one, the old bytes are in the new run, and no fragment that was in use
  changes.

    • `RunGrown`              — what all ways have in common,
    • `RunTaken.grown`        — a run allocated,
    • `extendFragmentRun_grown`, `reallocateFragmentRun_grown`.
-/
import NextUfs.Core.Space

namespace NextUfs

open Bits Radix State

/-- From `d` to `d'` the run of `m` fragments at `a` has become the run of `n`
at `b`. -/
structure RunGrown (sb : Superblock) (d d' : Disk) (a m b n : Nat) : Prop where
  fits : RunFits sb b n
  free : ∀ f, freeAt sb d' f + covers b n f = freeAt sb d f + covers a m f
  bytes : ∀ i < m * sb.fragSize,
    d'.data (b * sb.fragSize + i) = d.data (a * sb.fragSize + i)
  same : ∀ f, freeAt sb d f = 0 → SameFrag sb d d' f
  books : BooksKept sb d d'

section Grown

variable {sb : Superblock} {modes : Nat → UInt16} {d d' : Disk}
  {a m b n preferredCg : Nat}

/-- A run that is long enough. -/
theorem RunGrown.refl (h : RunFits sb a n) : RunGrown sb d d a n a n :=
  ⟨h, fun _ => rfl, fun _ _ => rfl, fun f _ => SameFrag.refl sb d f,
    BooksKept.refl sb d⟩

/-- A run allocated where there was none. -/
theorem RunTaken.grown (h : RunTaken sb d d' b n) (a : Nat) :
    RunGrown sb d d' a 0 b n := by
  refine ⟨h.fits, fun f => ?_, fun i hi => ?_,
    fun f _ => SameFrag.of_data_eq h.data f, h.books⟩
  · rw [h.free f, covers_eq_zero (by omega), Nat.add_zero]
  · rw [Nat.zero_mul] at hi
    exact absurd hi (Nat.not_lt_zero i)

/-- A run and what is behind it. -/
theorem covers_append (a m k f : Nat) :
    covers a (m + k) f = covers a m f + covers (a + m) k f := by
  unfold covers
  split_ifs <;> omega

/-- **A run extended in place.** -/
theorem extendFragmentRun_grown (hgeo : SpaceGeometry sb)
    (hsp : FreeSpace sb modes d) (hfits : RunFits sb a m)
    (hclear : ∀ i < m, freeAt sb d (a + i) = 0)
    (h : extendFragmentRun sb a m n d = .ok () d') :
    RunGrown sb d d' a m a n := by
  have hvalid := hgeo.toValidGeometry
  obtain ⟨hlt, hle, hone, u, hu, rfl⟩ := extendFragmentRun_ok h
  have hpos := hfits.pos
  have hdisk := hfits.disk
  have hc := hgeo.group_lt (show a < sb.fragCount by omega)
  have hsplit := Nat.div_add_mod' a sb.fragsPerGroup
  -- no fragment of the run is free in its group's bitmap
  have halloc : RunAllocated sb d a m := by
    intro i hi
    have hbit := hclear i hi
    rw [freeAt_run hvalid hfits hi] at hbit
    cases hb : (d.cgs (a / sb.fragsPerGroup)).free
        (a % sb.fragsPerGroup + i) with
    | false => rfl
    | true =>
      rw [hb] at hbit
      cases hbit
  have hbooks : ∀ modes', FreeSpace sb modes' d →
      Accounted sb modes' (d.withGroup (a / sb.fragsPerGroup) u) :=
    fun modes' hsp' =>
      accounted_extend hvalid hsp'.accounted hc hpos halloc h
  unfold growRun at hu
  dsimp only at hu
  split at hu
  · cases hu
  rename_i hset
  rw [Bool.not_eq_false] at hset
  -- the fragments taken lie before the end of their group
  have hend : a % sb.fragsPerGroup + n
      ≤ (d.cgs (a / sb.fragsPerGroup)).ndblk := by
    by_contra hpast
    have hlast := (allSet_iff ..).mp hset (n - m - 1) (by omega)
    have hfalse := (hsp.accounted.frags _ hc).pastEnd
      (a % sb.fragsPerGroup + m + (n - m - 1)) (by omega)
    rw [hfalse] at hlast
    cases hlast
  rw [hsp.ndblk _ hc] at hend
  unfold cgFrags at hend
  have hstart := hgeo.groups_start _ hc
  have hfits' : RunFits sb a n := by
    refine ⟨by omega, ?_, by omega⟩
    rw [← hvalid.mod_mod]
    exact hone
  have htaken := @freeAt_clear Unit sb d (a / sb.fragsPerGroup)
    (a % sb.fragsPerGroup + m) (n - m) u (by omega) (by omega) hset (by
      cases hu
      rfl)
  refine ⟨hfits', fun f => ?_, fun i _ => rfl,
    fun f _ => SameFrag.of_data_eq rfl f, .withGroup ?_ hbooks⟩
  · have hcovers := covers_append a m (n - m) f
    rw [Nat.add_sub_cancel' hlt.le] at hcovers
    have hf := htaken f
    rw [← Nat.add_assoc, hsplit] at hf
    omega
  · cases hu
    exact ⟨rfl, rfl, rfl, fun j hj => frsumAfter_uncounted hj⟩

/-- **A run moved to a longer one.** -/
theorem reallocateFragmentRun_grown (hgeo : SpaceGeometry sb)
    (hsp : FreeSpace sb modes d) (hfits : RunFits sb a m)
    (hclear : ∀ i < m, freeAt sb d (a + i) = 0) (hlt : m ≤ n)
    (h : reallocateFragmentRun sb a m n preferredCg d = .ok b d') :
    RunGrown sb d d' a m b n := by
  obtain ⟨d₁, halloc, hrelease⟩ := reallocateFragmentRun_ok h
  have htaken := wp_ok (allocateFragsAnycg_spec hgeo.toDataGeometry
    preferredCg d n) halloc
  have hbytes : ((d.read (a * sb.fragSize) (m * sb.fragSize)
      ++ List.replicate (n * sb.fragSize - m * sb.fragSize) 0).take
        (n * sb.fragSize)).length = n * sb.fragSize := by
    have hle := Nat.mul_le_mul_right sb.fragSize hlt
    rw [List.length_take, List.length_append, read_length,
      List.length_replicate]
    omega
  generalize hwritten : (d.read (a * sb.fragSize) (m * sb.fragSize)
      ++ List.replicate (n * sb.fragSize - m * sb.fragSize) 0).take
        (n * sb.fragSize) = bytes at hrelease hbytes
  have hbooks := htaken.books.trans
    (BooksKept.write sb d₁ (b * sb.fragSize) bytes)
  have hclear' : ∀ i < m, freeAt sb (d₁.write (b * sb.fragSize) bytes) (a + i)
      = 0 := by
    intro i hi
    have hfree := htaken.free (a + i)
    rw [hclear i hi] at hfree
    rw [freeAt_write]
    omega
  obtain ⟨d₂, hrun, hgiven⟩ := freeFragmentRun_spec hgeo
    (fun c hc => (hbooks.space modes hsp).magic c hc) hfits hclear'
  rw [hrun] at hrelease
  cases hrelease
  refine ⟨htaken.fits, fun f => ?_, fun i hi => ?_, fun f hf => ?_,
    hbooks.trans hgiven.books⟩
  · have hgive := hgiven.free f
    have htake := htaken.free f
    rw [freeAt_write] at hgive
    omega
  · have hle := Nat.mul_le_mul_right sb.fragSize hlt
    rw [hgiven.data, write_data_of_mem (by omega), Nat.add_sub_cancel_left,
      ← hwritten, List.getD_eq_getElem?_getD, List.getElem?_take_of_lt (by omega),
      List.getElem?_append_left (by rw [read_length]; exact hi),
      ← List.getD_eq_getElem?_getD, read_getD hi]
  · -- the new run was free
    have hout : f < b ∨ b + n ≤ f := by
      by_contra hin
      have hfree := htaken.wasFree (i := f - b) (by omega)
      rw [Nat.add_sub_cancel' (by omega)] at hfree
      omega
    have hsame := @sameFrag_write sb d₁ b n 0 f bytes (by omega) hout
    rw [Nat.add_zero] at hsame
    exact ((SameFrag.of_data_eq htaken.data f).trans hsame).trans
      (SameFrag.of_data_eq hgiven.data f)

end Grown

end NextUfs
