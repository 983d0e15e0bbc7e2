/-
  NextUfs.Lib.HostFile
  ────────────────────
  **BYTE FILES AND THE WRITES ISSUED TO THEM.**

  A `ByteFile` is what `pread` and `pwrite` see: a size and the bytes below it.
  A `HostFile` is a file together with the writes issued to it since it was
  opened, so that the file as it stands after any number of them can be named.

    • `Reads`             — the bytes some place shows over a range,
    • `pread_eq_some`     — a read succeeds exactly when every byte is there,
    • `byteAt_pwrite_*`   — what a write changes and what it leaves,
    • `AllCuts`           — what holds of the file after every prefix of the
      writes.
-/
import Mathlib.Algebra.Group.Nat.Defs
import Mathlib.Data.List.Basic

namespace NextUfs.Host

/-! ## §1. Ranges of bytes. -/

/-- `bs` is what `f`, which has a byte at some offsets, shows on `[off, off + n)`. -/
def Reads (f : Nat → Option UInt8) (off n : Nat) (bs : List UInt8) : Prop :=
  bs.length = n ∧ ∀ k < n, f (off + k) = bs[k]?

namespace Reads

variable {f g : Nat → Option UInt8} {off n m : Nat} {bs cs : List UInt8}

@[simp] theorem zero : Reads f off 0 bs ↔ bs = [] := by
  simp [Reads]

theorem append (hb : Reads f off n bs) (hc : Reads f (off + n) m cs) :
    Reads f off (n + m) (bs ++ cs) := by
  obtain ⟨hbl, hb⟩ := hb
  obtain ⟨hcl, hc⟩ := hc
  refine ⟨by simp [hbl, hcl], fun k hk => ?_⟩
  by_cases hkn : k < n
  · rw [hb k hkn, List.getElem?_append_left (by omega)]
  · have hck := hc (k - n) (by omega)
    rw [show off + n + (k - n) = off + k by omega] at hck
    rw [hck, List.getElem?_append_right (by omega), hbl]

/-- A range is read piece by piece. -/
theorem split (h : Reads f off (n + m) bs) :
    Reads f off n (bs.take n) ∧ Reads f (off + n) m (bs.drop n) := by
  obtain ⟨hl, hb⟩ := h
  constructor
  · refine ⟨by simp; omega, fun k hk => ?_⟩
    rw [hb k (by omega), List.getElem?_take_of_lt hk]
  · refine ⟨by simp; omega, fun k hk => ?_⟩
    rw [Nat.add_assoc, hb (n + k) (by omega), List.getElem?_drop]

theorem congr (h : Reads f off n bs)
    (hfg : ∀ k < n, g (off + k) = f (off + k)) : Reads g off n bs :=
  ⟨h.1, fun k hk => by rw [hfg k hk, h.2 k hk]⟩

theorem congr_iff (hfg : ∀ k < n, g (off + k) = f (off + k)) :
    Reads g off n bs ↔ Reads f off n bs := by
  constructor
  · intro h
    exact h.congr fun k hk => (hfg k hk).symm
  · intro h
    exact h.congr hfg

/-- Every byte of the range is there. -/
theorem some (h : Reads f off n bs) {k : Nat} (hk : k < n) :
    ∃ b, bs[k]? = .some b ∧ f (off + k) = .some b := by
  have hlt : k < bs.length := by
    rw [h.1]
    exact hk
  refine ⟨bs[k], by simp [hlt], ?_⟩
  rw [h.2 k hk]
  simp [hlt]

/-- A range of one value. -/
theorem replicate {b : UInt8} (h : ∀ k < n, f (off + k) = .some b) :
    Reads f off n bs ↔ bs = List.replicate n b := by
  constructor
  · rintro ⟨hl, hb⟩
    apply List.ext_getElem?
    intro k
    by_cases hk : k < n
    · rw [← hb k hk, h k hk]
      simp [hk]
    · rw [List.getElem?_eq_none (by omega), List.getElem?_eq_none (by simp; omega)]
  · rintro rfl
    refine ⟨by simp, fun k hk => ?_⟩
    rw [h k hk]
    simp [hk]

end Reads

/-! ## §2. Files. -/

/-- A regular file: its length and its bytes. -/
structure ByteFile where
  size : Nat
  byte : Nat → UInt8

/-- One past the last offset a signed 64-bit file offset can name. -/
def OFFSET_END : Nat := 2 ^ 63

namespace ByteFile

/-- The byte at an offset, if the file has one there. -/
def byteAt (f : ByteFile) (i : Nat) : Option UInt8 :=
  if i < f.size ∧ i < OFFSET_END then some (f.byte i) else none

/-- Read exactly `len` bytes, or fail at the end of the file. -/
def pread (f : ByteFile) (off : Nat) : Nat → Option (List UInt8)
  | 0 => some []
  | len + 1 => do
    let b ← f.byteAt off
    let rest ← f.pread (off + 1) len
    return b :: rest

/-- Write all of `data`; a gap before it is filled with zeros. -/
def pwrite (f : ByteFile) (off : Nat) (data : List UInt8) : ByteFile where
  size := if data = [] then f.size else max f.size (off + data.length)
  byte := fun i =>
    if off ≤ i ∧ i < off + data.length then data.getD (i - off) 0
    else if i < f.size then f.byte i
    else 0

/-- **A read succeeds** exactly when the file has every byte of its range, and
gives these bytes. -/
theorem pread_eq_some (f : ByteFile) (len : Nat) :
    ∀ (off : Nat) (bs : List UInt8), f.pread off len = some bs ↔
      Reads f.byteAt off len bs := by
  induction len with
  | zero =>
    intro off bs
    simp [pread, eq_comm]
  | succ len ih =>
    intro off bs
    constructor
    · intro h
      simp only [pread, bind, Option.bind_eq_some_iff, pure,
        Option.some.injEq] at h
      obtain ⟨b, hb, rest, hrest, rfl⟩ := h
      obtain ⟨hlen, hbytes⟩ := (ih (off + 1) rest).1 hrest
      refine ⟨by simp [hlen], fun k hk => ?_⟩
      cases k with
      | zero => simpa using hb
      | succ k =>
        have hk' := hbytes k (by omega)
        rw [show off + 1 + k = off + (k + 1) by omega] at hk'
        simpa using hk'
    · rintro ⟨hlen, hbytes⟩
      cases bs with
      | nil => simp at hlen
      | cons b rest =>
        have hb : f.byteAt off = some b := by simpa using hbytes 0 (by omega)
        have hrest : f.pread (off + 1) len = some rest := by
          apply (ih (off + 1) rest).2
          refine ⟨by simpa using hlen, fun k hk => ?_⟩
          have hk' := hbytes (k + 1) (by omega)
          rw [show off + (k + 1) = off + 1 + k by omega] at hk'
          simpa using hk'
        simp [pread, hb, hrest]

/-- A byte that is written, in a file of any size. -/
theorem byte_pwrite_in {f : ByteFile} {off i : Nat} {data : List UInt8}
    (hoff : off ≤ i) (hi : i < off + data.length) :
    (f.pwrite off data).byte i = data.getD (i - off) 0 :=
  if_pos ⟨hoff, hi⟩

/-- A byte of the file that is not written. -/
theorem byte_pwrite_out {f : ByteFile} {off i : Nat} {data : List UInt8}
    (hi : i < f.size) (hout : i < off ∨ off + data.length ≤ i) :
    (f.pwrite off data).byte i = f.byte i := by
  show (if off ≤ i ∧ i < off + data.length then _ else
    if i < f.size then f.byte i else 0) = f.byte i
  rw [if_neg (by omega), if_pos hi]

/-- A write does not shorten the file. -/
theorem size_le_pwrite (f : ByteFile) (off : Nat) (data : List UInt8) :
    f.size ≤ (f.pwrite off data).size := by
  show f.size ≤ if data = [] then f.size else max f.size (off + data.length)
  split
  · exact Nat.le_refl _
  · exact Nat.le_max_left _ _

/-- What is written is in the file. -/
theorem end_le_pwrite {f : ByteFile} {off : Nat} {data : List UInt8}
    (hdata : data ≠ []) : off + data.length ≤ (f.pwrite off data).size := by
  show off + data.length ≤
    if data = [] then f.size else max f.size (off + data.length)
  rw [if_neg hdata]
  exact Nat.le_max_right _ _

theorem byteAt_lt {f : ByteFile} {i : Nat} {b : UInt8}
    (h : f.byteAt i = some b) : i < f.size ∧ i < OFFSET_END := by
  unfold byteAt at h
  split at h
  · assumption
  · cases h

/-- A byte that is written. -/
theorem byteAt_pwrite_in {f : ByteFile} {off i : Nat} {data : List UInt8}
    (hoff : off ≤ i) (hi : i < off + data.length) (hend : i < OFFSET_END) :
    (f.pwrite off data).byteAt i = data[i - off]? := by
  have hne : data ≠ [] := by
    rintro rfl
    simp at hi
    omega
  have hlt : i - off < data.length := by omega
  have hsize : i < (f.pwrite off data).size := by
    show i < if data = [] then f.size else max f.size (off + data.length)
    rw [if_neg hne]
    omega
  unfold byteAt
  rw [if_pos ⟨hsize, hend⟩]
  show some (if off ≤ i ∧ i < off + data.length then data.getD (i - off) 0
    else if i < f.size then f.byte i else 0) = _
  rw [if_pos ⟨hoff, hi⟩]
  simp [hlt]

/-- A byte that was there and is not written stays. -/
theorem byteAt_pwrite_out {f : ByteFile} {off i : Nat} {data : List UInt8}
    {b : UInt8} (h : f.byteAt i = some b)
    (hout : ¬(off ≤ i ∧ i < off + data.length)) :
    (f.pwrite off data).byteAt i = some b := by
  obtain ⟨hsize, hend⟩ := byteAt_lt h
  have hsize' : i < (f.pwrite off data).size := by
    show i < if data = [] then f.size else max f.size (off + data.length)
    split <;> omega
  unfold byteAt at h ⊢
  rw [if_pos ⟨hsize, hend⟩] at h
  rw [if_pos ⟨hsize', hend⟩]
  show some (if off ≤ i ∧ i < off + data.length then data.getD (i - off) 0
    else if i < f.size then f.byte i else 0) = _
  rw [if_neg hout, if_pos hsize]
  exact h

/-- A byte that was there is there after any write. -/
theorem byteAt_pwrite_isSome {f : ByteFile} {i : Nat} (off : Nat)
    (data : List UInt8) (h : (f.byteAt i).isSome) :
    ((f.pwrite off data).byteAt i).isSome := by
  obtain ⟨b, hb⟩ := Option.isSome_iff_exists.1 h
  by_cases hin : off ≤ i ∧ i < off + data.length
  · have hlt : i - off < data.length := by omega
    rw [byteAt_pwrite_in hin.1 hin.2 (byteAt_lt hb).2]
    simp [hlt]
  · rw [byteAt_pwrite_out hb hin]
    rfl

/-- A range every byte of which is there can be read. -/
theorem pread_isSome {f : ByteFile} {len : Nat} :
    ∀ {off : Nat}, (∀ k < len, (f.byteAt (off + k)).isSome) →
      ∃ bs, f.pread off len = some bs := by
  induction len with
  | zero =>
    intro off _
    exact ⟨[], rfl⟩
  | succ len ih =>
    intro off h
    obtain ⟨b, hb⟩ := Option.isSome_iff_exists.1 (h 0 (by omega))
    obtain ⟨rest, hrest⟩ := ih fun k hk => by
      have hk' := h (k + 1) (by omega)
      rwa [show off + (k + 1) = off + 1 + k by omega] at hk'
    rw [Nat.add_zero] at hb
    exact ⟨b :: rest, by simp [pread, hb, hrest]⟩

end ByteFile

/-! ## §3. Files with a record of their writes. -/

/-- One write a process has issued. -/
structure Write where
  off : Nat
  data : List UInt8
  deriving DecidableEq, Repr

/-- A file as it was when it was opened, and the writes issued since. -/
structure HostFile where
  start : ByteFile
  issued : List Write

/-- The file after some writes, in their order. -/
def replay (f : ByteFile) (ws : List Write) : ByteFile :=
  ws.foldl (fun g w => g.pwrite w.off w.data) f

namespace HostFile

/-- What the file holds now. -/
def contents (h : HostFile) : ByteFile := replay h.start h.issued

/-- What the file holds if only the first `k` writes were carried out. -/
def cut (h : HostFile) (k : Nat) : ByteFile := replay h.start (h.issued.take k)

/-- Issue one more write. -/
def pwrite (h : HostFile) (off : Nat) (data : List UInt8) : HostFile :=
  { h with issued := h.issued ++ [⟨off, data⟩] }

@[simp] theorem contents_pwrite (h : HostFile) (off : Nat)
    (data : List UInt8) :
    (h.pwrite off data).contents = h.contents.pwrite off data := by
  simp [contents, pwrite, replay]

@[simp] theorem start_pwrite (h : HostFile) (off : Nat) (data : List UInt8) :
    (h.pwrite off data).start = h.start := rfl

@[simp] theorem issued_pwrite (h : HostFile) (off : Nat) (data : List UInt8) :
    (h.pwrite off data).issued = h.issued ++ [⟨off, data⟩] := rfl

/-- All the writes done: the file as it is. -/
theorem cut_length (h : HostFile) : h.cut h.issued.length = h.contents := by
  simp [cut, contents]

/-- A later write does not change what a shorter prefix leaves. -/
theorem cut_pwrite {h : HostFile} {off k : Nat} {data : List UInt8}
    (hk : k ≤ h.issued.length) : (h.pwrite off data).cut k = h.cut k := by
  unfold cut
  rw [issued_pwrite, List.take_append_of_le_length hk]
  rfl

/-- `P` holds of every prefix of the writes that has at least `k₀` of them: of
its last write and of the file it leaves. -/
def AllCuts (P : Option Write → ByteFile → Prop) (k₀ : Nat)
    (h : HostFile) : Prop :=
  ∀ k, k₀ ≤ k → k ≤ h.issued.length → P (h.issued.take k).getLast? (h.cut k)

theorem AllCuts.here {P : Option Write → ByteFile → Prop} {h : HostFile}
    (hP : P h.issued.getLast? h.contents) :
    AllCuts P h.issued.length h := by
  intro k hlow hhigh
  obtain rfl : k = h.issued.length := by omega
  rw [List.take_length, cut_length]
  exact hP

/-- One more write adds one more prefix. -/
theorem AllCuts.pwrite {P : Option Write → ByteFile → Prop} {k₀ off : Nat}
    {h : HostFile} {data : List UInt8} (hall : AllCuts P k₀ h)
    (hP : P (some ⟨off, data⟩) (h.contents.pwrite off data)) :
    AllCuts P k₀ (h.pwrite off data) := by
  intro k hlow hhigh
  rw [issued_pwrite, List.length_append] at hhigh
  by_cases hk : k ≤ h.issued.length
  · rw [cut_pwrite hk, issued_pwrite, List.take_append_of_le_length hk]
    exact hall k hlow hk
  · -- the prefix that ends with the new write
    have hlen : k = (h.pwrite off data).issued.length := by
      rw [issued_pwrite, List.length_append]
      simp only [List.length_singleton] at hhigh ⊢
      omega
    rw [hlen, List.take_length, cut_length, issued_pwrite, contents_pwrite,
      List.getLast?_concat]
    exact hP

end HostFile

end NextUfs.Host
