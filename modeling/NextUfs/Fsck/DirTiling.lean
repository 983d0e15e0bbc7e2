/-
  NextUfs.Fsck.DirTiling
  ──────────────────────
  **LENGTHS THAT TILE A RANGE.**

  Where the lengths of the records lead from one offset to another, in steps of
  at least a header, the walk of `swap_dirblock` does the same on every range:
  it swaps the headers there and goes on behind it.

    • `Tiled`                     — lengths that lead from `lo` to `hi`,
    • `TiledBy.swapRange_append`  — the walk goes on behind a tiled range,
    • `TiledBy.swapped`           — the range is tiled afterwards, for the walk back,
    • `TiledBy.back`              — and the walk back undoes the walk.
-/
import NextUfs.Fsck.DirSwap

namespace NextUfs.Fsck

open Window

/-! ## §1. Tilings. -/

/-- The lengths lead from `lo` to `hi`, each of them at least a header. -/
inductive Tiled (len : Nat → Nat) : Nat → Nat → Prop
  | done (hi : Nat) : Tiled len hi hi
  | step {lo hi : Nat} : 8 ≤ len lo → Tiled len (lo + len lo) hi →
      Tiled len lo hi

namespace Tiled

variable {len len' : Nat → Nat} {lo mid hi : Nat}

theorem le (h : Tiled len lo hi) : lo ≤ hi := by
  induction h with
  | done => exact Nat.le_refl _
  | step _ _ ih => omega

theorem append (h : Tiled len lo mid) (h' : Tiled len mid hi) :
    Tiled len lo hi := by
  induction h with
  | done => exact h'
  | step h8 _ ih => exact .step h8 (ih h')

/-- The first header of a range that is not empty. -/
theorem first (h : Tiled len lo hi) (hlt : lo < hi) :
    8 ≤ len lo ∧ Tiled len (lo + len lo) hi := by
  cases h with
  | done => omega
  | step h8 hrest => exact ⟨h8, hrest⟩

/-- Only the lengths at headers that have room matter. -/
theorem congr (h : Tiled len lo hi)
    (heq : ∀ o, lo ≤ o → o + 8 ≤ hi → len' o = len o) : Tiled len' lo hi := by
  induction h with
  | done => exact .done _
  | @step lo hi h8 hrest ih =>
    have hle := hrest.le
    have hlo := heq lo (Nat.le_refl _) (by omega)
    refine .step (by rw [hlo]; exact h8) ?_
    rw [hlo]
    exact ih fun o ho => heq o (by omega)

/-- The same tiling at another place. -/
theorem shift (h : Tiled len lo hi) {d : Nat}
    (heq : ∀ o, lo ≤ o → o + 8 ≤ hi → len' (d + o) = len o) :
    Tiled len' (d + lo) (d + hi) := by
  induction h with
  | done => exact .done _
  | @step lo hi h8 hrest ih =>
    have hle := hrest.le
    have hlo := heq lo (Nat.le_refl _) (by omega)
    refine .step (by rw [hlo]; exact h8) ?_
    rw [hlo, Nat.add_assoc]
    exact ih fun o ho => heq o (by omega)

end Tiled

/-! ## §2. The walk over a range. -/

/-- The walk of `swap_dirblock` over `[lo, hi)`. -/
def swapRange (pass : Bool) (lo hi : Nat) (buf : Nat → UInt8) : Nat → UInt8 :=
  swapFrom pass hi (hi - lo) lo buf

section Range

variable {pass : Bool} {size fuel lo hi off : Nat} {buf f g : Nat → UInt8}

theorem swapRange_local (pass : Bool) (lo hi : Nat) :
    Window.Local (swapRange pass lo hi) lo hi :=
  swapFrom_local pass hi (hi - lo) lo

theorem swapRange_end (h : hi < lo + 8) : swapRange pass lo hi buf = buf :=
  swapFrom_end h

/-- More rounds than the range has bytes change nothing. -/
theorem swapFrom_eq_range :
    ∀ {fuel lo : Nat} {buf : Nat → UInt8}, hi ≤ lo + fuel →
      swapFrom pass hi fuel lo buf = swapRange pass lo hi buf := by
  have key : ∀ fuel fuel' lo (buf : Nat → UInt8), hi ≤ lo + fuel →
      hi ≤ lo + fuel' →
      swapFrom pass hi fuel lo buf = swapFrom pass hi fuel' lo buf := by
    intro fuel
    induction fuel with
    | zero =>
      intro fuel' lo buf hfuel _
      rw [swapFrom_end (by omega), swapFrom_end (by omega)]
    | succ fuel ih =>
      intro fuel' lo buf hfuel hfuel'
      by_cases h8 : lo + 8 ≤ hi
      · obtain ⟨fuel', rfl⟩ : ∃ f, fuel' = f + 1 := ⟨fuel' - 1, by omega⟩
        rw [swapFrom_step h8, swapFrom_step h8]
        split
        · rfl
        · exact ih fuel' _ _ (by omega) (by omega)
      · rw [swapFrom_end (by omega), swapFrom_end (by omega)]
  intro fuel lo buf hfuel
  exact key fuel (hi - lo) lo buf hfuel (by omega)

/-- One step of the walk over a range. -/
theorem swapRange_step (h8 : 8 ≤ reclenAt pass lo buf)
    (hin : lo + reclenAt pass lo buf ≤ hi) :
    swapRange pass lo hi buf
      = swapRange pass (lo + reclenAt pass lo buf) hi (swapHeader lo buf) := by
  unfold swapRange
  obtain ⟨fuel, hfuel⟩ : ∃ f, hi - lo = f + 1 := ⟨hi - lo - 1, by omega⟩
  rw [hfuel, swapFrom_step (by omega), if_neg (by omega),
    swapFrom_eq_range (by omega)]
  rfl

/-- Lengths further on are not those of the header that is swapped. -/
theorem reclenAt_swapHeader (h : lo + 8 ≤ off) :
    reclenAt pass off (swapHeader lo buf) = reclenAt pass off buf :=
  reclenAt_congr ((swapHeader_local lo).keeps buf (by omega))

/-- The length at a header that has been swapped, for the walk back. -/
theorem reclenAt_back (pass : Bool) (off : Nat) (buf : Nat → UInt8) :
    reclenAt (!pass) off (swapHeader off buf) = reclenAt pass off buf := by
  cases pass with
  | true =>
    show le16 (swapHeader off (swapHeader off buf)) (off + 4) = _
    rw [swapHeader_swapHeader]
    rfl
  | false => rfl

/-- The lengths the walk goes by in `buf` are those of the tiling. -/
def Shows (len : Nat → Nat) (pass : Bool) (lo hi : Nat)
    (buf : Nat → UInt8) : Prop :=
  ∀ o, lo ≤ o → o + 8 ≤ hi → reclenAt pass o buf = len o

variable {len : Nat → Nat}

theorem Shows.rest (h : Shows len pass lo hi buf) (h8 : 8 ≤ len lo) :
    Shows len pass (lo + len lo) hi (swapHeader lo buf) := by
  intro o ho hend
  rw [reclenAt_swapHeader (by omega)]
  exact h o (by omega) hend

/-- The first step over a tiled range. -/
theorem Shows.step (h : Shows len pass lo hi buf) (h8 : 8 ≤ len lo)
    (hin : lo + len lo ≤ hi) (hle : hi ≤ size) :
    swapRange pass lo size buf
      = swapRange pass (lo + len lo) size (swapHeader lo buf) := by
  have hlen := h lo (Nat.le_refl _) (by omega)
  rw [swapRange_step (by omega) (by omega), hlen]

/-- The first length, for the walk back. -/
theorem Shows.first (h : Shows len pass lo hi buf) (h8 : 8 ≤ len lo)
    (hin : lo + len lo ≤ hi) :
    reclenAt (!pass) lo
        (swapRange pass (lo + len lo) hi (swapHeader lo buf)) = len lo := by
  have hlocal := swapRange_local pass (lo + len lo) hi
  rw [reclenAt_congr (hlocal.keeps _ (by omega)), reclenAt_back]
  exact h lo (Nat.le_refl _) (by omega)

/-- **Behind a tiled range the walk goes on.** -/
theorem Shows.append (ht : Tiled len lo hi) (h : Shows len pass lo hi buf)
    (hle : hi ≤ size) :
    swapRange pass lo size buf
      = swapRange pass hi size (swapRange pass lo hi buf) := by
  induction ht generalizing buf with
  | done hi =>
    have hnone : swapRange pass hi hi buf = buf := swapRange_end (by omega)
    rw [hnone]
  | @step lo hi h8 hrest ih =>
    rw [h.step h8 hrest.le hle, h.step h8 hrest.le (Nat.le_refl hi)]
    exact ih (h.rest h8) hle

/-- **The range is tiled afterwards**, for the walk back. -/
theorem Shows.swapped (ht : Tiled len lo hi) (h : Shows len pass lo hi buf) :
    Tiled (fun o => reclenAt (!pass) o (swapRange pass lo hi buf)) lo hi := by
  induction ht generalizing buf with
  | done hi => exact .done hi
  | @step lo hi h8 hrest ih =>
    have hlater := ih (h.rest h8)
    have hfirst := h.first h8 hrest.le
    rw [h.step h8 hrest.le (Nat.le_refl hi)]
    refine .step (by rw [hfirst]; exact h8) ?_
    rw [hfirst]
    exact hlater

/-- **The walk back undoes the walk** over a tiled range. -/
theorem Shows.back (ht : Tiled len lo hi) (h : Shows len pass lo hi buf) :
    swapRange (!pass) lo hi (swapRange pass lo hi buf) = buf := by
  induction ht generalizing buf with
  | done hi =>
    have hnone : ∀ p (f : Nat → UInt8), swapRange p hi hi f = f :=
      fun _ _ => swapRange_end (by omega)
    rw [hnone, hnone]
  | @step lo hi h8 hrest ih =>
    have hend := hrest.le
    have hlocal := swapRange_local pass (lo + len lo) hi
    have hfirst := h.first h8 hend
    rw [h.step h8 hrest.le (Nat.le_refl hi),
      swapRange_step (by omega) (by omega), hfirst,
      (swapHeader_local lo).comm hlocal (by omega), swapHeader_swapHeader]
    refine ih fun o ho hroom => h o (by omega) hroom

end Range

/-! ## §3. Tilings by the lengths of a buffer. -/

/-- The lengths the walk goes by tile the range. -/
def TiledBy (pass : Bool) (buf : Nat → UInt8) (lo hi : Nat) : Prop :=
  Tiled (fun o => reclenAt pass o buf) lo hi

namespace TiledBy

variable {pass : Bool} {size lo mid hi : Nat} {buf f g : Nat → UInt8}

theorem le (h : TiledBy pass buf lo hi) : lo ≤ hi := Tiled.le h

theorem shows (pass : Bool) (buf : Nat → UInt8) (lo hi : Nat) :
    Shows (fun o => reclenAt pass o buf) pass lo hi buf :=
  fun _ _ _ => rfl

theorem append (h : TiledBy pass buf lo mid) (h' : TiledBy pass buf mid hi) :
    TiledBy pass buf lo hi :=
  Tiled.append h h'

theorem congr (h : TiledBy pass f lo hi) (hs : Same f g lo hi) :
    TiledBy pass g lo hi :=
  Tiled.congr h fun o ho hroom =>
    reclenAt_congr (hs.mono (by omega) (by omega)).symm

/-- **Behind a tiled range the walk goes on.** -/
theorem swapRange_append (h : TiledBy pass buf lo hi) (hle : hi ≤ size) :
    swapRange pass lo size buf
      = swapRange pass hi size (swapRange pass lo hi buf) :=
  Shows.append h (shows pass buf lo hi) hle

/-- **The range is tiled afterwards**, for the walk back. -/
theorem swapped (h : TiledBy pass buf lo hi) :
    TiledBy (!pass) (swapRange pass lo hi buf) lo hi :=
  Shows.swapped h (shows pass buf lo hi)

/-- **The walk back undoes the walk.** -/
theorem back (h : TiledBy pass buf lo hi) :
    swapRange (!pass) lo hi (swapRange pass lo hi buf) = buf :=
  Shows.back h (shows pass buf lo hi)

/-- The first length of a range that is not empty, before and after. -/
theorem first (h : TiledBy pass buf lo hi) (hlt : lo < hi) :
    8 ≤ reclenAt pass lo buf ∧ lo + reclenAt pass lo buf ≤ hi ∧
      reclenAt (!pass) lo (swapRange pass lo hi buf) = reclenAt pass lo buf := by
  obtain ⟨h8, hrest⟩ := Tiled.first h hlt
  have hin : lo + reclenAt pass lo buf ≤ hi := hrest.le
  refine ⟨h8, hin, ?_⟩
  rw [swapRange_step h8 hin]
  exact (shows pass buf lo hi).first h8 hin

/-- **A walk in step**: on a tiled range that it reaches the walk does what it
does there alone. -/
theorem in_step (hreach : TiledBy pass buf lo mid)
    (h : TiledBy pass buf mid hi) (hle : hi ≤ size) :
    Same (swapRange pass lo size buf) (swapRange pass mid hi buf) mid hi := by
  have hbefore := hreach.le
  have hkeep : Same (swapRange pass lo mid buf) buf mid hi :=
    (swapRange_local pass lo mid).keeps buf (by omega)
  have htile := h.congr hkeep.symm
  rw [hreach.swapRange_append (h.le.trans hle), htile.swapRange_append hle]
  exact ((swapRange_local pass hi size).keeps _ (by omega)).trans
    ((swapRange_local pass mid hi).inside _ _ hkeep)

end TiledBy

end NextUfs.Fsck
