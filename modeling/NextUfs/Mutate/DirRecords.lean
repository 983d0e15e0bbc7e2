/-
  NextUfs.Mutate.DirRecords
  ─────────────────────────
  **RECORDS THAT TILE A BUFFER.**

  A directory's bytes are read record by record, each telling where the next
  one starts.  `Tiles buf limit off stop rs` says that the records `rs`, read
  with `limit` as the end of the buffer, lie end to end from `off` to `stop`.

    • `readDirent_eq_some` — what a record is made of,
    • `Tiles.append`, `Tiles.split` — tilings put together and taken apart,
    • `Tiles.unique`       — a buffer is tiled in one way,
    • `Tiles.congr`        — only the bytes of the records matter,
    • `Tiles.records`      — the walk of the source sees the tiling.

  The name of a record that is not in use is never looked at, so a tiling does
  not show it.
-/
import NextUfs.Mutate.DirMutate
import NextUfs.Core.FragData

namespace NextUfs

/-! ## §1. Bytes of a buffer. -/

section Buffers

variable {buf buf' data : Bytes} {off i : Nat}

theorem getD_drop (buf : Bytes) (off i : Nat) :
    (buf.drop off).getD i 0 = buf.getD (off + i) 0 := by
  simp [List.getD_eq_getElem?_getD]

theorem overlay_length (h : off + data.length ≤ buf.length) :
    (overlay buf off data).length = buf.length := by
  unfold overlay
  simp only [List.length_append, List.length_take, List.length_drop]
  omega

/-- The bytes of a buffer with some of them overlaid. -/
theorem overlay_getD (h : off + data.length ≤ buf.length) (i : Nat) :
    (overlay buf off data).getD i 0
      = if off ≤ i ∧ i < off + data.length then data.getD (i - off) 0
        else buf.getD i 0 := by
  have htake : (buf.take off).length = off := by
    rw [List.length_take]
    omega
  unfold overlay
  simp only [List.getD_eq_getElem?_getD]
  split
  · rename_i hin
    rw [List.getElem?_append_left (by simp; omega),
      List.getElem?_append_right (by omega), htake]
  · rename_i hout
    by_cases hlt : i < off
    · rw [List.getElem?_append_left (by simp; omega),
        List.getElem?_append_left (by omega), List.getElem?_take_of_lt hlt]
    · rw [List.getElem?_append_right (by simp; omega), List.getElem?_drop]
      simp only [List.length_append, htake]
      congr 2
      omega

theorem overlay_getD_of_mem (h : off + data.length ≤ buf.length)
    (hi : off ≤ i ∧ i < off + data.length) :
    (overlay buf off data).getD i 0 = data.getD (i - off) 0 := by
  rw [overlay_getD h, if_pos hi]

theorem overlay_getD_of_not_mem (h : off + data.length ≤ buf.length)
    (hi : ¬(off ≤ i ∧ i < off + data.length)) :
    (overlay buf off data).getD i 0 = buf.getD i 0 := by
  rw [overlay_getD h, if_neg hi]

theorem overlay_drop (buf data : Bytes) (h : off ≤ buf.length) :
    (overlay buf off data).drop off
      = data ++ buf.drop (off + data.length) := by
  unfold overlay
  rw [List.append_assoc]
  exact List.drop_left' (List.length_take_of_le h)

/-- Two buffers have the same bytes in `[a, b)`. -/
def SameBytes (buf buf' : Bytes) (a b : Nat) : Prop :=
  ∀ i, a ≤ i → i < b → buf'.getD i 0 = buf.getD i 0

theorem SameBytes.mono {a b a' b' : Nat} (h : SameBytes buf buf' a b)
    (ha : a ≤ a') (hb : b' ≤ b) : SameBytes buf buf' a' b' :=
  fun i h1 h2 => h i (by omega) (by omega)

/-- A piece of a buffer is its bytes. -/
theorem SameBytes.piece {n : Nat} (h : SameBytes buf buf' off (off + n))
    (hlen : off + n ≤ buf.length) (hlen' : off + n ≤ buf'.length) :
    (buf'.drop off).take n = (buf.drop off).take n := by
  refine List.ext_getElem (by simp; omega) fun i h1 h2 => ?_
  have hi : i < n := by
    rw [List.length_take] at h2
    omega
  have hbyte := h (off + i) (by omega) (by omega)
  rw [← getD_drop, ← getD_drop] at hbyte
  have hin : i < (buf.drop off).length := by
    rw [List.length_drop]
    omega
  have hin' : i < (buf'.drop off).length := by
    rw [List.length_drop]
    omega
  simp only [List.getElem_take]
  simpa only [List.getD_eq_getElem?_getD, List.getElem?_eq_getElem hin,
    List.getElem?_eq_getElem hin', Option.getD_some] using hbyte

theorem bytes_ext (hlen : buf.length = buf'.length)
    (h : ∀ i < buf.length, buf.getD i 0 = buf'.getD i 0) : buf = buf' := by
  refine List.ext_getElem hlen fun i h1 h2 => ?_
  have hbyte := h i h1
  simpa only [List.getD_eq_getElem?_getD, List.getElem?_eq_getElem h1,
    List.getElem?_eq_getElem h2, Option.getD_some] using hbyte

theorem getD_piece {n : Nat} (hi : i < n) :
    ((buf.drop off).take n).getD i 0 = buf.getD (off + i) 0 := by
  rw [← getD_drop]
  simp only [List.getD_eq_getElem?_getD, List.getElem?_take_of_lt hi]

/-! ## §2. Numbers in a buffer. -/

theorem readBe32_drop (buf : Bytes) (off : Nat) :
    readBe32 (buf.drop off)
      = (buf.getD off 0).toNat * 2 ^ 24 + (buf.getD (off + 1) 0).toNat * 2 ^ 16
        + (buf.getD (off + 2) 0).toNat * 2 ^ 8
        + (buf.getD (off + 3) 0).toNat := by
  unfold readBe32
  simp only [getD_drop, Nat.add_zero]

theorem readBe16_drop (buf : Bytes) (off : Nat) :
    readBe16 (buf.drop off)
      = (buf.getD off 0).toNat * 2 ^ 8 + (buf.getD (off + 1) 0).toNat := by
  unfold readBe16
  simp only [getD_drop, Nat.add_zero]

theorem readBe32_congr (h : SameBytes buf buf' off (off + 4)) :
    readBe32 (buf'.drop off) = readBe32 (buf.drop off) := by
  rw [readBe32_drop, readBe32_drop, h off (by omega) (by omega),
    h (off + 1) (by omega) (by omega), h (off + 2) (by omega) (by omega),
    h (off + 3) (by omega) (by omega)]

theorem readBe16_congr (h : SameBytes buf buf' off (off + 2)) :
    readBe16 (buf'.drop off) = readBe16 (buf.drop off) := by
  rw [readBe16_drop, readBe16_drop, h off (by omega) (by omega),
    h (off + 1) (by omega) (by omega)]

theorem readBe16_lt (p : Bytes) : readBe16 p < 2 ^ 16 := by
  unfold readBe16
  have h0 := (p.getD 0 0).toNat_lt
  have h1 := (p.getD 1 0).toNat_lt
  omega

theorem readBe16_writeBe16 {v : Nat} (h : v < 2 ^ 16) (rest : Bytes) :
    readBe16 (writeBe16 v ++ rest) = v := by
  show (UInt8.ofNat (v / 2 ^ 8)).toNat * 2 ^ 8 + (UInt8.ofNat v).toNat = v
  simp only [UInt8.toNat_ofNat']
  omega

theorem readBe32_writeBe32_append {v : Nat} (h : v < 2 ^ 32) (rest : Bytes) :
    readBe32 (writeBe32 v ++ rest) = v := by
  have hread := readBe32_writeBe32 h
  exact hread

end Buffers

/-! ## §3. One record. -/

section Record

variable {buf buf' : Bytes} {limit off : Nat} {ent : Dirent}

/-- **What a record is made of.** -/
theorem readDirent_eq_some :
    readDirent buf limit off = some ent ↔
      off + 8 ≤ limit ∧ 8 ≤ ent.reclen ∧ off + ent.reclen ≤ limit ∧
        off + 8 + ent.namlen ≤ limit ∧ ent.ino = readBe32 (buf.drop off) ∧
        ent.reclen = readBe16 (buf.drop (off + 4)) ∧
        ent.namlen = readBe16 (buf.drop (off + 6)) ∧
        ent.name = (buf.drop (off + 8)).take ent.namlen := by
  unfold readDirent
  dsimp only
  constructor
  · intro h
    split at h
    · cases h
    split at h
    · cases h
    · rename_i hbuf hrec
      cases h
      refine ⟨by omega, ?_, ?_, ?_, rfl, rfl, rfl, rfl⟩
      all_goals
        dsimp only
        omega
  · rintro ⟨hbuf, hmin, hrec, hname, hino, hreclen, hnamlen, hbytes⟩
    rw [← hreclen, ← hnamlen, ← hino, ← hbytes, if_neg (by omega),
      if_neg (by omega)]

/-- A longer buffer shows the same record. -/
theorem readDirent_mono {limit' : Nat} (hle : limit ≤ limit')
    (h : readDirent buf limit off = some ent) :
    readDirent buf limit' off = some ent := by
  rw [readDirent_eq_some] at h ⊢
  obtain ⟨h1, h2, h3, h4, h5⟩ := h
  exact ⟨by omega, h2, by omega, by omega, h5⟩

/-- A record at some place of a buffer. -/
theorem readDirent_drop {base : Nat} :
    readDirent (buf.drop base) limit off = some ent ↔
      readDirent buf (base + limit) (base + off) = some ent := by
  rw [readDirent_eq_some, readDirent_eq_some]
  simp only [List.drop_drop, Nat.add_assoc, Nat.add_le_add_iff_left]

/-- The record as a tiling shows it. -/
def Dirent.shown (ent : Dirent) : Dirent :=
  if ent.ino = 0 then { ent with name := [] } else ent

/-- The name of a record in use lies inside it. -/
def NameInside (ent : Dirent) : Prop :=
  ent.ino ≠ 0 → 8 + ent.namlen ≤ ent.reclen

instance (ent : Dirent) : Decidable (NameInside ent) := by
  unfold NameInside
  infer_instance

@[simp] theorem shown_ino (ent : Dirent) : ent.shown.ino = ent.ino := by
  unfold Dirent.shown
  split <;> rfl

@[simp] theorem shown_reclen (ent : Dirent) :
    ent.shown.reclen = ent.reclen := by
  unfold Dirent.shown
  split <;> rfl

@[simp] theorem shown_namlen (ent : Dirent) :
    ent.shown.namlen = ent.namlen := by
  unfold Dirent.shown
  split <;> rfl

theorem shown_of_live (h : ent.ino ≠ 0) : ent.shown = ent := if_neg h

theorem nameInside_shown : NameInside ent.shown ↔ NameInside ent := by
  unfold NameInside
  rw [shown_ino, shown_reclen, shown_namlen]

/-- **Only the bytes of a record matter** to what is shown of it. -/
theorem readDirent_congr (hname : NameInside ent)
    (hsame : SameBytes buf buf' off (off + ent.reclen))
    (hlen : limit ≤ buf.length) (hlen' : limit ≤ buf'.length)
    (h : readDirent buf limit off = some ent) :
    ∃ ent', readDirent buf' limit off = some ent' ∧
      ent'.shown = ent.shown := by
  obtain ⟨hbuf, hmin, hrec, hfits, hino, hreclen, hnamlen, hbytes⟩ :=
    readDirent_eq_some.mp h
  refine ⟨{ ent with name := (buf'.drop (off + 8)).take ent.namlen },
    readDirent_eq_some.mpr ⟨hbuf, hmin, hrec, hfits, ?_, ?_, ?_, rfl⟩, ?_⟩
  · rw [readBe32_congr (hsame.mono le_rfl (by omega))]
    exact hino
  · rw [readBe16_congr (hsame.mono (by omega) (by omega))]
    exact hreclen
  · rw [readBe16_congr (hsame.mono (by omega) (by omega))]
    exact hnamlen
  · by_cases hlive : ent.ino = 0
    · unfold Dirent.shown
      rw [if_pos hlive, if_pos hlive]
    · -- the name of a record in use is among its bytes
      have hin := hname hlive
      rw [(hsame.mono (by omega) (by omega)).piece (by omega) (by omega),
        ← hbytes]

/-- A record with another length. -/
theorem readDirent_setReclen {n : Nat} (hlen : limit ≤ buf.length)
    (h : readDirent buf limit off = some ent) (hmin : 8 ≤ n)
    (hlt : n < 2 ^ 16) (hend : off + n ≤ limit) :
    readDirent (overlay buf (off + 4) (writeBe16 n)) limit off
      = some { ent with reclen := n } := by
  obtain ⟨hbuf, -, -, hfits, hino, -, hnamlen, hbytes⟩ :=
    readDirent_eq_some.mp h
  have htwo : (writeBe16 n).length = 2 := rfl
  have hsame : ∀ {a b}, b ≤ off + 4 ∨ off + 6 ≤ a →
      SameBytes buf (overlay buf (off + 4) (writeBe16 n)) a b := by
    intro a b hab i h1 h2
    exact overlay_getD_of_not_mem (by omega) (by omega)
  have hlen' := @overlay_length buf (writeBe16 n) (off + 4) (by omega)
  refine readDirent_eq_some.mpr ⟨hbuf, hmin, hend, hfits, ?_, ?_, ?_, ?_⟩
  · rw [readBe32_congr (hsame (Or.inl le_rfl))]
    exact hino
  · rw [overlay_drop _ _ (by omega)]
    exact (readBe16_writeBe16 hlt _).symm
  · rw [readBe16_congr (hsame (Or.inr le_rfl))]
    exact hnamlen
  · rw [(hsame (Or.inr (by omega))).piece (by dsimp only; omega)
      (by dsimp only; omega)]
    exact hbytes

/-- A record whose inode number is cleared. -/
theorem readDirent_clear (hlen : limit ≤ buf.length)
    (h : readDirent buf limit off = some ent) :
    readDirent (overlay buf off (writeBe32 0)) limit off
      = some { ent with ino := 0 } := by
  obtain ⟨hbuf, hmin, hrec, hfits, -, hreclen, hnamlen, hbytes⟩ :=
    readDirent_eq_some.mp h
  have hfour : (writeBe32 0).length = 4 := rfl
  have hsame : ∀ {a b}, off + 4 ≤ a →
      SameBytes buf (overlay buf off (writeBe32 0)) a b := by
    intro a b hab i h1 h2
    exact overlay_getD_of_not_mem (by omega) (by omega)
  have hlen' := @overlay_length buf (writeBe32 0) off (by omega)
  refine readDirent_eq_some.mpr ⟨hbuf, hmin, hrec, hfits, ?_, ?_, ?_, ?_⟩
  · rw [overlay_drop _ _ (by omega)]
    exact (readBe32_writeBe32_append (Nat.two_pow_pos 32) _).symm
  · rw [readBe16_congr (hsame le_rfl)]
    exact hreclen
  · rw [readBe16_congr (hsame (by omega))]
    exact hnamlen
  · rw [(hsame (by omega)).piece (by dsimp only; omega) (by dsimp only; omega)]
    exact hbytes

end Record

/-- What a walk sees was read at its place. -/
theorem mem_recordsFrom {buf : Bytes} {limit : Nat} {r : Nat × Dirent} :
    ∀ {fuel off : Nat}, r ∈ recordsFrom buf limit fuel off →
      readDirent buf limit r.1 = some r.2
  | 0, _, h => absurd h List.not_mem_nil
  | fuel + 1, off, h => by
    unfold recordsFrom at h
    split at h
    · cases hread : readDirent buf limit off with
      | none =>
        rw [hread] at h
        exact absurd h List.not_mem_nil
      | some ent =>
        rw [hread] at h
        rcases List.mem_cons.mp h with rfl | h
        · exact hread
        · exact mem_recordsFrom h
    · exact absurd h List.not_mem_nil

/-- Only the bytes up to the end of the buffer are read. -/
theorem readDirent_take (buf : Bytes) (limit off : Nat) :
    readDirent (buf.take limit) limit off = readDirent buf limit off := by
  have hsame : ∀ {a b}, b ≤ limit → SameBytes buf (buf.take limit) a b := by
    intro a b hb i h1 h2
    simp only [List.getD_eq_getElem?_getD,
      List.getElem?_take_of_lt (show i < limit by omega)]
  unfold readDirent
  split
  · rfl
  · rename_i hbuf
    dsimp only
    rw [readBe16_congr (hsame (by omega)), readBe16_congr (hsame (by omega)),
      readBe32_congr (hsame (by omega))]
    split
    · rfl
    · rename_i hfits
      rw [List.drop_take, List.take_take, Nat.min_eq_left (by omega)]

theorem records_take (buf : Bytes) (limit : Nat) :
    records (buf.take limit) limit = records buf limit := by
  have hfrom : ∀ fuel off, recordsFrom (buf.take limit) limit fuel off
      = recordsFrom buf limit fuel off := by
    intro fuel
    induction fuel with
    | zero => exact fun _ => rfl
    | succ fuel ih =>
      intro off
      unfold recordsFrom
      rw [readDirent_take]
      simp only [ih]
  exact hfrom _ _

/-- Zeros hold no record. -/
theorem readDirent_zeros (n limit off : Nat) :
    readDirent (List.replicate n 0) limit off = none := by
  refine Option.eq_none_iff_forall_not_mem.mpr fun ent hent => ?_
  obtain ⟨-, hmin, -, -, -, hreclen, -⟩ := readDirent_eq_some.mp hent
  have hzero : ∀ i, (List.replicate n (0 : UInt8)).getD i 0 = 0 := by
    intro i
    rw [List.getD_eq_getElem?_getD, List.getElem?_replicate]
    split <;> rfl
  rw [readBe16_drop, hzero, hzero] at hreclen
  have : ent.reclen = 0 := hreclen
  omega

/-! ## §4. Tilings. -/

/-- **The records `rs` lie end to end from `off` to `stop`.** -/
inductive Tiles (buf : Bytes) (limit : Nat) :
    Nat → Nat → List (Nat × Dirent) → Prop
  | nil (off : Nat) : Tiles buf limit off off []
  | cons {off stop : Nat} {ent : Dirent} {rest : List (Nat × Dirent)} :
      readDirent buf limit off = some ent →
      Tiles buf limit (off + ent.reclen) stop rest →
      Tiles buf limit off stop ((off, ent.shown) :: rest)

namespace Tiles

variable {buf buf' : Bytes} {limit off mid stop : Nat}
  {rs rs' : List (Nat × Dirent)}

theorem le (h : Tiles buf limit off stop rs) : off ≤ stop := by
  induction h with
  | nil => exact le_rfl
  | cons _ _ ih => omega

/-- **Tilings put together.** -/
theorem append (h : Tiles buf limit off mid rs)
    (h' : Tiles buf limit mid stop rs') :
    Tiles buf limit off stop (rs ++ rs') := by
  induction h with
  | nil => exact h'
  | cons hread _ ih => exact .cons hread (ih h')

/-- **A tiling taken apart.** -/
theorem split : ∀ {rs : List (Nat × Dirent)} {off : Nat},
    Tiles buf limit off stop (rs ++ rs') →
      ∃ mid, Tiles buf limit off mid rs ∧ Tiles buf limit mid stop rs'
  | [], off, h => ⟨off, .nil off, h⟩
  | _ :: rs, _, h => by
    cases h with
    | cons hread hrest =>
      obtain ⟨mid, h1, h2⟩ := split hrest
      exact ⟨mid, .cons hread h1, h2⟩

/-- The first record of a tiling. -/
theorem head {r : Nat × Dirent} (h : Tiles buf limit off stop (r :: rs)) :
    ∃ ent, readDirent buf limit off = some ent ∧ r = (off, ent.shown) ∧
      Tiles buf limit (off + r.2.reclen) stop rs := by
  cases h with
  | cons hread hrest =>
    refine ⟨_, hread, rfl, ?_⟩
    rw [shown_reclen]
    exact hrest

/-- **A buffer is tiled in one way.** -/
theorem unique (h : Tiles buf limit off stop rs) :
    ∀ {rs'}, Tiles buf limit off stop rs' → rs' = rs := by
  induction h with
  | nil =>
    intro rs' h'
    cases h' with
    | nil => rfl
    | cons hread hrest =>
      obtain ⟨-, hmin, -⟩ := readDirent_eq_some.mp hread
      have := hrest.le
      omega
  | cons hread hrest ih =>
    intro rs' h'
    cases h' with
    | nil =>
      obtain ⟨-, hmin, -⟩ := readDirent_eq_some.mp hread
      have := hrest.le
      omega
    | cons hread' hrest' =>
      rw [hread] at hread'
      cases hread'
      rw [ih hrest']

/-- A tiling begins with every tiling of a first part. -/
theorem cut {front : List (Nat × Dirent)} (h : Tiles buf limit off mid front) :
    ∀ {rs}, Tiles buf limit off stop rs → mid ≤ stop →
      ∃ rs', rs = front ++ rs' ∧ Tiles buf limit mid stop rs' := by
  induction h with
  | nil => exact fun h' _ => ⟨_, rfl, h'⟩
  | cons hread hrest ih =>
    intro rs h' hle
    obtain ⟨-, hmin, -⟩ := readDirent_eq_some.mp hread
    have hfront := hrest.le
    cases h' with
    | nil => omega
    | cons hread' hrest' =>
      rw [hread] at hread'
      cases hread'
      obtain ⟨rs', rfl, h''⟩ := ih hrest' hle
      exact ⟨rs', rfl, h''⟩

/-- A longer buffer is tiled the same way. -/
theorem mono {limit' : Nat} (hle : limit ≤ limit')
    (h : Tiles buf limit off stop rs) : Tiles buf limit' off stop rs := by
  induction h with
  | nil => exact .nil _
  | cons hread _ ih => exact .cons (readDirent_mono hle hread) ih

/-- The tiling of a piece of a buffer. -/
theorem shift {base : Nat}
    (h : Tiles (buf.drop base) limit off stop rs) :
    Tiles buf (base + limit) (base + off) (base + stop)
      (rs.map fun r => (base + r.1, r.2)) := by
  induction h with
  | nil => exact .nil _
  | cons hread _ ih =>
    refine .cons (readDirent_drop.mp hread) ?_
    rwa [Nat.add_assoc]

/-- Where the records of a tiling are. -/
theorem mem (h : Tiles buf limit off stop rs) {r : Nat × Dirent}
    (hr : r ∈ rs) :
    off ≤ r.1 ∧ r.1 + r.2.reclen ≤ stop ∧ r.1 + 8 ≤ limit ∧
      8 ≤ r.2.reclen := by
  induction h with
  | nil => cases hr
  | cons hread hrest ih =>
    obtain ⟨hbuf, hmin, -⟩ := readDirent_eq_some.mp hread
    rcases List.mem_cons.mp hr with rfl | hr
    · have := hrest.le
      refine ⟨le_rfl, ?_, hbuf, ?_⟩
      · rw [shown_reclen]
        exact this
      · rw [shown_reclen]
        exact hmin
    · obtain ⟨h1, h2⟩ := ih hr
      exact ⟨by omega, h2⟩

/-- **Only the bytes of the records matter.** -/
theorem congr (hlen : limit ≤ buf.length) (hlen' : limit ≤ buf'.length)
    (h : Tiles buf limit off stop rs) (hname : ∀ r ∈ rs, NameInside r.2)
    (hsame : SameBytes buf buf' off stop) : Tiles buf' limit off stop rs := by
  induction h with
  | nil => exact .nil _
  | cons hread hrest ih =>
    have hle := hrest.le
    obtain ⟨ent', hread', hshown⟩ := readDirent_congr
      (nameInside_shown.mp (hname _ List.mem_cons_self))
      (hsame.mono le_rfl hle) hlen hlen' hread
    rw [← hshown]
    refine .cons hread' ?_
    have hreclen : ent'.reclen = _ :=
      (shown_reclen ent').symm.trans ((congrArg Dirent.reclen hshown).trans
        (shown_reclen _))
    rw [hreclen]
    exact ih (fun r hr => hname r (List.mem_cons_of_mem _ hr))
      (hsame.mono (by omega) le_rfl)

/-- The walk from the start of a tiling that ends where the buffer does. -/
theorem recordsFrom (h : Tiles buf limit off stop rs) (hstop : stop = limit) :
    ∀ {fuel : Nat}, limit ≤ off + fuel →
      (recordsFrom buf limit fuel off).map (fun r => (r.1, r.2.shown)) = rs := by
  induction h with
  | nil off =>
    intro fuel _
    cases fuel with
    | zero => rfl
    | succ fuel =>
      unfold NextUfs.recordsFrom
      rw [if_neg (by omega)]
      rfl
  | cons hread hrest ih =>
    intro fuel hfuel
    obtain ⟨hbuf, hmin, -⟩ := readDirent_eq_some.mp hread
    cases fuel with
    | zero => omega
    | succ fuel =>
      unfold NextUfs.recordsFrom
      rw [if_pos (by omega), hread]
      dsimp only
      rw [List.map_cons, ih hstop (by omega)]

/-- **The walk of the source sees the tiling.** -/
theorem records (h : Tiles buf limit 0 limit rs) :
    (records buf limit).map (fun r => (r.1, r.2.shown)) = rs :=
  h.recordsFrom rfl (by omega)

end Tiles

/-- Where a record of a tiling stands among the others. -/
theorem Tiles.around {buf : Bytes} {limit off stop : Nat}
    {pre post : List (Nat × Dirent)} {v : Nat × Dirent}
    (h : Tiles buf limit off stop (pre ++ v :: post)) :
    Tiles buf limit off v.1 pre ∧
      (∃ ent, readDirent buf limit v.1 = some ent ∧ v.2 = ent.shown) ∧
      Tiles buf limit (v.1 + v.2.reclen) stop post := by
  obtain ⟨mid, hpre, hrest⟩ := h.split
  obtain ⟨ent, hread, hv, hpost⟩ := hrest.head
  obtain rfl : v.1 = mid := congrArg Prod.fst hv
  exact ⟨hpre, ⟨ent, hread, congrArg Prod.snd hv⟩, hpost⟩

/-- A record in use is shown as it is read. -/
theorem read_of_shown {buf : Bytes} {limit : Nat} {v : Nat × Dirent}
    (hlive : v.2.ino ≠ 0)
    (h : ∃ ent, readDirent buf limit v.1 = some ent ∧ v.2 = ent.shown) :
    readDirent buf limit v.1 = some v.2 := by
  obtain ⟨ent, hread, hv⟩ := h
  rw [hv, shown_ino] at hlive
  rw [hv, shown_of_live hlive]
  exact hread

/-- Where a walk ends. -/
def walkEnd (buf : Bytes) (limit : Nat) : Nat → Nat → Nat
  | 0, off => off
  | fuel + 1, off =>
    if off < limit then
      match readDirent buf limit off with
      | none => off
      | some ent => walkEnd buf limit fuel (off + ent.reclen)
    else off

/-- A walk tiles what it passes. -/
theorem tiles_walk (buf : Bytes) (limit fuel : Nat) : ∀ off,
    Tiles buf limit off (walkEnd buf limit fuel off)
      ((recordsFrom buf limit fuel off).map fun r => (r.1, r.2.shown)) := by
  induction fuel with
  | zero => exact fun off => .nil off
  | succ fuel ih =>
    intro off
    unfold walkEnd recordsFrom
    split
    · cases hread : readDirent buf limit off with
      | none => exact .nil off
      | some ent => exact .cons hread (ih _)
    · exact .nil off

/-! ## §5. Entries. -/

/-- The entries of records in use: inode number and name. -/
def entriesOf (rs : List (Nat × Dirent)) : List (Nat × Bytes) :=
  rs.filterMap fun r =>
    if r.2.ino = 0 then none else some (r.2.ino, r.2.name)

theorem entriesOf_append (rs rs' : List (Nat × Dirent)) :
    entriesOf (rs ++ rs') = entriesOf rs ++ entriesOf rs' :=
  List.filterMap_append

theorem entriesOf_cons_live {r : Nat × Dirent} (h : r.2.ino ≠ 0)
    (rs : List (Nat × Dirent)) :
    entriesOf (r :: rs) = (r.2.ino, r.2.name) :: entriesOf rs := by
  unfold entriesOf
  rw [List.filterMap_cons_some (by rw [if_neg h])]

theorem entriesOf_cons_free {r : Nat × Dirent} (h : r.2.ino = 0)
    (rs : List (Nat × Dirent)) : entriesOf (r :: rs) = entriesOf rs := by
  unfold entriesOf
  rw [List.filterMap_cons_none (by rw [if_pos h])]

theorem entriesOf_frees {rs : List (Nat × Dirent)}
    (h : ∀ r ∈ rs, r.2.ino = 0) : entriesOf rs = [] :=
  List.filterMap_eq_nil_iff.mpr fun r hr => if_pos (h r hr)

theorem mem_entriesOf {rs : List (Nat × Dirent)} {e : Nat × Bytes} :
    e ∈ entriesOf rs ↔
      ∃ r ∈ rs, r.2.ino ≠ 0 ∧ (r.2.ino, r.2.name) = e := by
  unfold entriesOf
  rw [List.mem_filterMap]
  constructor
  · rintro ⟨r, hr, h⟩
    split at h
    · cases h
    · rename_i hlive
      exact ⟨r, hr, hlive, Option.some.inj h⟩
  · rintro ⟨r, hr, hlive, h⟩
    exact ⟨r, hr, by rw [if_neg hlive, h]⟩

/-- A tiling shows the entries. -/
theorem entriesOf_shown (rs : List (Nat × Dirent)) :
    entriesOf (rs.map fun r => (r.1, r.2.shown)) = entriesOf rs := by
  unfold entriesOf
  rw [List.filterMap_map]
  refine List.filterMap_congr fun r _ => ?_
  show (if r.2.shown.ino = 0 then none
    else some (r.2.shown.ino, r.2.shown.name)) = _
  rw [shown_ino]
  split
  · rfl
  · rename_i hlive
    rw [shown_of_live hlive]

/-- **A chunk is partitioned into records**, and those in use are `es`: each
record, with its name when it is in use, has its own bytes. -/
def Partitioned (c : Bytes) (es : List (Nat × Bytes)) : Prop :=
  ∃ rs, Tiles c c.length 0 c.length rs ∧ (∀ r ∈ rs, NameInside r.2) ∧
    entriesOf rs = es

/-- A chunk the walk passes to its end is partitioned. -/
theorem partitioned_of_walk {c : Bytes}
    (hend : walkEnd c c.length c.length 0 = c.length)
    (hname : ∀ r ∈ records c c.length, NameInside r.2) :
    Partitioned c (entriesOf (records c c.length)) := by
  have htiles := tiles_walk c c.length c.length 0
  rw [hend] at htiles
  refine ⟨_, htiles, fun r hr => ?_, entriesOf_shown _⟩
  obtain ⟨r', hr', rfl⟩ := List.mem_map.mp hr
  exact nameInside_shown.mpr (hname r' hr')

/-- The entries the walk of the source sees in a chunk. -/
def chunkEntries (c : Bytes) : List (Nat × Bytes) :=
  entriesOf (records c c.length)

/-- A partitioned chunk is partitioned into what the walk sees. -/
theorem Partitioned.entries {c : Bytes} {es : List (Nat × Bytes)}
    (h : Partitioned c es) : chunkEntries c = es := by
  obtain ⟨rs, htiles, -, rfl⟩ := h
  rw [← htiles.records, entriesOf_shown]
  rfl

end NextUfs
