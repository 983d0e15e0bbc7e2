/-
  NextUfs.Lib.Fields
  ──────────────────
  **NUMBERS AND TEXTS AT FIXED PLACES OF A BYTE AREA.**

  A disk structure is decoded by offset: big-endian numbers of a few bytes and
  texts that end at a zero byte or where their field does.

    • `beAt`, `putBe`     — a number read from, and written to, its bytes,
    • `beAt_putBe`        — what was written is read, cut to the field,
    • `beAt_putBe_out`    — any other field stays,
    • `textAt`, `putText` — a text with its end, and what is read back.
-/
import Mathlib.Algebra.Group.Nat.Defs
import NextUfs.Lib.Window

namespace NextUfs.Fields

open Window

/-! ## §1. Numbers. -/

/-- The number in the `n` bytes from `off` on, most significant first. -/
def beAt (f : Nat → UInt8) (off : Nat) : Nat → Nat
  | 0 => 0
  | n + 1 => beAt f off n * 2 ^ 8 + (f (off + n)).toNat

/-- The last `n` bytes of a number, most significant first. -/
def beBytes : Nat → Nat → List UInt8
  | 0, _ => []
  | n + 1, v => beBytes n (v / 2 ^ 8) ++ [UInt8.ofNat v]

/-- The area with a number put into the `n` bytes from `off` on. -/
def putBe (f : Nat → UInt8) (off n v : Nat) : Nat → UInt8 :=
  store f off (beBytes n v)

section Numbers

variable {f g : Nat → UInt8} {off off' n n' v : Nat}

@[simp] theorem length_beBytes (n v : Nat) : (beBytes n v).length = n := by
  induction n generalizing v with
  | zero => rfl
  | succ n ih =>
    show (beBytes n (v / 2 ^ 8) ++ [_]).length = n + 1
    rw [List.length_append, ih]
    rfl

theorem beAt_lt (f : Nat → UInt8) (off n : Nat) : beAt f off n < 2 ^ (8 * n) := by
  induction n with
  | zero => exact Nat.one_pos
  | succ n ih =>
    have hbyte := (f (off + n)).toNat_lt
    have hpow : 2 ^ (8 * (n + 1)) = 2 ^ (8 * n) * 2 ^ 8 := by
      rw [← Nat.pow_add]
      rfl
    show beAt f off n * 2 ^ 8 + _ < _
    omega

/-- A number depends on its bytes. -/
theorem beAt_congr (h : Same f g off (off + n)) : beAt f off n = beAt g off n := by
  induction n with
  | zero => rfl
  | succ n ih =>
    show beAt f off n * 2 ^ 8 + _ = beAt g off n * 2 ^ 8 + _
    rw [ih (h.mono (Nat.le_refl _) (by omega)), h (off + n) (by omega) (by omega)]

/-- Equal numbers have equal bytes. -/
theorem beAt_inj (h : beAt f off n = beAt g off n) : Same f g off (off + n) := by
  induction n with
  | zero => exact fun i hlo hhi => absurd hhi (by omega)
  | succ n ih =>
    have hsplit : beAt f off n * 2 ^ 8 + (f (off + n)).toNat =
        beAt g off n * 2 ^ 8 + (g (off + n)).toNat := h
    have hf := (f (off + n)).toNat_lt
    have hg := (g (off + n)).toNat_lt
    intro i hlo hhi
    by_cases hi : i = off + n
    · subst hi
      exact UInt8.toNat_inj.1 (by omega)
    · exact ih (by omega) i hlo (by omega)

/-- **What was written is read**, cut to the width of the field. -/
theorem beAt_putBe (f : Nat → UInt8) (off n v : Nat) :
    beAt (putBe f off n v) off n = v % 2 ^ (8 * n) := by
  induction n generalizing v with
  | zero => exact (Nat.mod_one v).symm
  | succ n ih =>
    -- the last byte follows the others
    have hput : putBe f off (n + 1) v =
        store (putBe f off n (v / 2 ^ 8)) (off + n) [UInt8.ofNat v] := by
      have h := store_append f off (beBytes n (v / 2 ^ 8)) [UInt8.ofNat v]
      rwa [length_beBytes] at h
    have hfront : Same (putBe f off (n + 1) v) (putBe f off n (v / 2 ^ 8))
        off (off + n) := by
      intro i _ hhi
      rw [hput]
      exact store_out (Or.inl hhi)
    have hlast : putBe f off (n + 1) v (off + n) = UInt8.ofNat v := by
      rw [hput]
      exact store_in (k := 0) (show 0 < [UInt8.ofNat v].length by simp)
    have hpow : 2 ^ (8 * (n + 1)) = 2 ^ 8 * 2 ^ (8 * n) := by
      rw [← Nat.pow_add, show 8 * (n + 1) = 8 + 8 * n by omega]
    show beAt (putBe f off (n + 1) v) off n * 2 ^ 8
      + (putBe f off (n + 1) v (off + n)).toNat = _
    rw [beAt_congr hfront, ih, hlast, hpow, Nat.mod_mul,
      UInt8.toNat_ofNat']
    omega

theorem beAt_putBe_of_lt (hv : v < 2 ^ (8 * n)) :
    beAt (putBe f off n v) off n = v := by
  rw [beAt_putBe, Nat.mod_eq_of_lt hv]

theorem putBe_local (off n v : Nat) :
    Window.Local (fun f => putBe f off n v) off (off + n) := by
  have h := store_local off (beBytes n v)
  rwa [length_beBytes] at h

theorem putBe_out {i : Nat} (h : i < off ∨ off + n ≤ i) :
    putBe f off n v i = f i :=
  (putBe_local off n v).outside f i h

/-- A field away from what is written stays. -/
theorem beAt_store_out {bs : List UInt8}
    (h : off + n ≤ off' ∨ off' + bs.length ≤ off) :
    beAt (store f off' bs) off n = beAt f off n :=
  beAt_congr ((store_local off' bs).keeps f (by omega))

theorem beAt_putBe_out (h : off + n ≤ off' ∨ off' + n' ≤ off) :
    beAt (putBe f off' n' v) off n = beAt f off n :=
  beAt_congr ((putBe_local off' n' v).keeps f (by omega))

end Numbers

/-! ## §2. Texts. -/

/-- A text: bytes before a terminating zero. -/
def CString : Type := { s : List UInt8 // 0 ∉ s }

/-- The bytes of a field of `n` bytes up to the first zero. -/
def textAt (f : Nat → UInt8) (off n : Nat) : List UInt8 :=
  (load f off n).takeWhile (· ≠ 0)

/-- The area with a text put at `off`, cut so that a zero of a field of `n`
bytes that was clear remains behind it. -/
def putText (f : Nat → UInt8) (off n : Nat) (s : List UInt8) : Nat → UInt8 :=
  store f off (s.take (n - 1))

section Texts

variable {f g : Nat → UInt8} {off n : Nat} {s : List UInt8}

theorem textAt_congr (h : Same f g off (off + n)) : textAt f off n = textAt g off n := by
  unfold textAt
  rw [load_congr h]

/-- **The text is read back** from a field that was clear. -/
theorem textAt_putText (hs : 0 ∉ s) (hn : 0 < n)
    (hclear : ∀ i, off ≤ i → i < off + n → f i = 0) :
    textAt (putText f off n s) off n = s.take (n - 1) := by
  have hlen : (s.take (n - 1)).length < n := by
    rw [List.length_take]
    omega
  have hload : load (putText f off n s) off n =
      s.take (n - 1) ++ List.replicate (n - (s.take (n - 1)).length) 0 := by
    apply List.ext_getElem
    · rw [length_load, List.length_append, List.length_replicate]
      omega
    · intro k hk hk'
      rw [length_load] at hk
      rw [getElem_load]
      unfold putText
      by_cases hin : k < (s.take (n - 1)).length
      · rw [store_in hin, List.getElem_append_left hin]
      · rw [store_out (by omega), List.getElem_append_right (by omega),
          List.getElem_replicate]
        exact hclear _ (by omega) (by omega)
  have hne : ∀ b ∈ s.take (n - 1), decide (b ≠ 0) = true := by
    intro b hb
    have hb0 : b ≠ 0 := fun h => hs (h ▸ List.mem_of_mem_take hb)
    exact decide_eq_true hb0
  unfold textAt
  rw [hload, List.takeWhile_append_of_pos hne,
    show n - (s.take (n - 1)).length = (n - (s.take (n - 1)).length - 1) + 1 by
      omega,
    List.replicate_succ, List.takeWhile_cons_of_neg (by decide),
    List.append_nil]

end Texts

end NextUfs.Fields
