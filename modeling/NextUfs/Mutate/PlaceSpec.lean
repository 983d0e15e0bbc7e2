/-
  NextUfs.Mutate.PlaceSpec
  ────────────────────────
  **ONE RECORD CARVED OUT OF ANOTHER.**

  `placeDirent` puts a new record where a record that is not in use stands, or
  into the slack behind one that is.  The slack is the record's length less
  what its name needs, as a 64-bit number: it is what it should be unless the
  record is shorter than its name needs.

    • `room`, `TooShort`    — the room the code sees, and where it is wrong,
    • `placeDirent_isSome`  — a record is taken for its room alone,
    • `placeDirent_carved`  — the new record ends where the old one did, and
      which bytes change,
    • `placed_wellChunk`    — the old record's place is tiled by what it
      becomes and the new record.
-/
import NextUfs.Mutate.DirRecords

namespace NextUfs

/-! ## §1. Room. -/

/-- The room for a new record that the code sees in a record. -/
def room (ent : Dirent) : Nat :=
  if ent.ino = 0 then ent.reclen
  else (ent.reclen + 2 ^ 64 - direntSize ent.namlen) % 2 ^ 64

/-- A record in use that is shorter than its name needs. -/
def TooShort (ent : Dirent) : Prop :=
  ent.ino ≠ 0 ∧ ent.reclen < direntSize ent.namlen

instance (ent : Dirent) : Decidable (TooShort ent) := by
  unfold TooShort
  infer_instance

/-- There is room in a record for one of `need` bytes. -/
def HasRoom (need : Nat) (ent : Dirent) : Prop :=
  if ent.ino = 0 then need ≤ ent.reclen
  else direntSize ent.namlen + need ≤ ent.reclen

instance (need : Nat) (ent : Dirent) : Decidable (HasRoom need ent) := by
  unfold HasRoom
  infer_instance

theorem direntSize_pos (n : Nat) : 8 + n + 1 ≤ direntSize n := by
  unfold direntSize
  omega

theorem direntSize_le (n : Nat) : direntSize n ≤ 12 + n := by
  unfold direntSize
  omega

section Room

variable {ent : Dirent} {need : Nat}

theorem tooShort_shown : TooShort ent.shown ↔ TooShort ent := by
  unfold TooShort
  rw [shown_ino, shown_reclen, shown_namlen]

theorem room_shown : room ent.shown = room ent := by
  unfold room
  rw [shown_ino, shown_reclen, shown_namlen]

/-- The slack is the record's length less what its name needs. -/
theorem room_of_fits (hrec : ent.reclen < 2 ^ 16) (h : ¬TooShort ent) :
    room ent + (if ent.ino = 0 then 0 else direntSize ent.namlen)
      = ent.reclen := by
  unfold room
  split
  · exact Nat.add_zero _
  · rename_i hlive
    have hfits : direntSize ent.namlen ≤ ent.reclen := by
      by_contra hlt
      exact h ⟨hlive, by omega⟩
    rw [show ent.reclen + 2 ^ 64 - direntSize ent.namlen
      = ent.reclen - direntSize ent.namlen + 2 ^ 64 by omega,
      Nat.add_mod_right, Nat.mod_eq_of_lt (by omega)]
    omega

/-- Of a record that is too short it wraps. -/
theorem room_of_tooShort (hnam : ent.namlen < 2 ^ 16) (h : TooShort ent) :
    2 ^ 64 - 2 ^ 17 ≤ room ent := by
  have hle := direntSize_le ent.namlen
  obtain ⟨hlive, hshort⟩ := h
  unfold room
  rw [if_neg hlive, Nat.mod_eq_of_lt (by omega)]
  omega

/-- **What the code takes for room** is room, or a record that is too
short. -/
theorem need_le_room_iff (hrec : ent.reclen < 2 ^ 16)
    (hnam : ent.namlen < 2 ^ 16) (hneed : need ≤ 2 ^ 64 - 2 ^ 17) :
    need ≤ room ent ↔ HasRoom need ent ∨ TooShort ent := by
  by_cases hshort : TooShort ent
  · have hle := room_of_tooShort hnam hshort
    exact ⟨fun _ => Or.inr hshort, fun _ => by omega⟩
  · have hroom := room_of_fits hrec hshort
    unfold HasRoom
    split
    · rename_i hfree
      rw [if_pos hfree] at hroom
      constructor
      · intro h
        exact Or.inl (by omega)
      · rintro (h | h)
        · omega
        · exact absurd h hshort
    · rename_i hlive
      rw [if_neg hlive] at hroom
      constructor
      · intro h
        exact Or.inl (by omega)
      · rintro (h | h)
        · omega
        · exact absurd h hshort

end Room

/-! ## §2. The bytes of a record. -/

/-- The bytes of a record of `reclen` bytes. -/
def rawDirent (ino reclen : Nat) (name : Bytes) : Bytes :=
  writeBe32 ino ++ writeBe16 reclen ++ writeBe16 name.length ++ name
    ++ List.replicate (reclen - (8 + name.length)) 0

section Raw

variable {ino reclen : Nat} {name : Bytes}

theorem writeDirentRaw_ok {bytes : Bytes}
    (h : writeDirentRaw ino reclen name = .ok bytes) :
    name.length ≤ 255 ∧ bytes = rawDirent ino reclen name := by
  unfold writeDirentRaw at h
  split at h
  · cases h
  · cases h
    exact ⟨by omega, rfl⟩

theorem rawDirent_length (h : 8 + name.length ≤ reclen) :
    (rawDirent ino reclen name).length = reclen := by
  unfold rawDirent writeBe32 writeBe16
  simp only [List.length_append, List.length_cons, List.length_nil,
    List.length_replicate]
  omega

/-- **A record that was written is read back**, wherever it stands. -/
theorem readDirent_raw {buf : Bytes} {limit off : Nat}
    (hino : ino < 2 ^ 32) (hreclen : reclen < 2 ^ 16)
    (hname : 8 + name.length ≤ reclen) (hlimit : off + reclen ≤ limit)
    (hbuf : off + reclen ≤ buf.length)
    (hbytes : ∀ i < reclen, buf.getD (off + i) 0
      = (rawDirent ino reclen name).getD i 0) :
    readDirent buf limit off = some ⟨ino, reclen, name.length, name⟩ := by
  have hlen : (rawDirent ino reclen name).length = reclen :=
    rawDirent_length hname
  have hraw : buf.drop off
      = rawDirent ino reclen name ++ buf.drop (off + reclen) := by
    have hsplit := List.take_append_drop reclen (buf.drop off)
    rw [List.drop_drop] at hsplit
    rw [← hsplit]
    congr 1
    have hsame : SameBytes (rawDirent ino reclen name) (buf.drop off) 0
        (0 + reclen) := by
      intro i _ hi
      rw [getD_drop]
      exact hbytes i (by omega)
    have hpiece := hsame.piece (by omega) (by rw [List.length_drop]; omega)
    rw [List.drop_zero, List.drop_zero, List.take_of_length_le hlen.le]
      at hpiece
    exact hpiece
  have hdrop : ∀ k, buf.drop (off + k)
      = (rawDirent ino reclen name ++ buf.drop (off + reclen)).drop k := by
    intro k
    rw [← List.drop_drop, hraw]
  have hend : off + 8 + name.length ≤ limit := by omega
  have hmin : 8 ≤ reclen := by omega
  refine readDirent_eq_some.mpr ⟨by omega, hmin, hlimit, hend, ?_, ?_, ?_, ?_⟩
  · rw [hraw]
    unfold rawDirent
    simp only [List.append_assoc]
    exact (readBe32_writeBe32_append hino _).symm
  · rw [hdrop 4]
    exact (readBe16_writeBe16 hreclen _).symm
  · rw [hdrop 6]
    exact (readBe16_writeBe16 (show name.length < 2 ^ 16 by omega) _).symm
  · rw [hdrop 8]
    show name = (name ++ List.replicate _ 0 ++ buf.drop _).take name.length
    rw [List.append_assoc, List.take_left]

end Raw

/-! ## §3. Placing. -/

/-- Where the new record starts. -/
def newOffset (r : Nat × Dirent) : Nat :=
  r.1 + if r.2.ino = 0 then 0 else direntSize r.2.namlen

/-- The bytes a record taken for its room may lose: all of it when it is not in
use, else its length and its slack. -/
def SlotByte (r : Nat × Dirent) (i : Nat) : Prop :=
  if r.2.ino = 0 then r.1 ≤ i ∧ i < r.1 + r.2.reclen
  else (r.1 + 4 ≤ i ∧ i < r.1 + 6) ∨
    (newOffset r ≤ i ∧ i < r.1 + r.2.reclen)

section Place

variable {name block new : Bytes} {newInode limit : Nat} {r : Nat × Dirent}

/-- A record is taken for its room alone. -/
theorem placeDirent_isSome (name : Bytes) (newInode : Nat) (block : Bytes)
    (r : Nat × Dirent) :
    (placeDirent name newInode block r).isSome = true ↔
      direntSize name.length ≤ room r.2 := by
  unfold placeDirent room
  dsimp only
  split
  · split
    · rename_i h
      exact ⟨fun _ => h, fun _ => rfl⟩
    · rename_i h
      exact ⟨fun hsome => Bool.noConfusion hsome, fun hle => absurd hle h⟩
  · split
    · rename_i h
      exact ⟨fun _ => h, fun _ => rfl⟩
    · rename_i h
      exact ⟨fun hsome => Bool.noConfusion hsome, fun hle => absurd hle h⟩

theorem except_map_eq_ok {x : Except Errno Bytes} {f : Bytes → Bytes}
    (h : x.map f = .ok new) : ∃ bytes, x = .ok bytes ∧ new = f bytes := by
  cases x with
  | error e => cases h
  | ok bytes =>
    cases h
    exact ⟨bytes, rfl, rfl⟩

/-- What is placed: the record in use shortened, then the new record. -/
theorem placeDirent_eq (hrec : r.2.reclen < 2 ^ 16) (hshort : ¬TooShort r.2)
    (h : placeDirent name newInode block r = some (.ok new)) :
    name.length ≤ 255 ∧ direntSize name.length ≤ room r.2 ∧
      new = overlay
        (if r.2.ino = 0 then block
          else overlay block (r.1 + 4) (writeBe16 (direntSize r.2.namlen)))
        (newOffset r) (rawDirent newInode (room r.2) name) := by
  have hneed := (placeDirent_isSome name newInode block r).mp (by rw [h]; rfl)
  have hroom := room_of_fits hrec hshort
  unfold placeDirent at h
  dsimp only at h
  by_cases hfree : r.2.ino = 0
  · have hall : room r.2 = r.2.reclen := by
      rw [if_pos hfree] at hroom
      exact hroom
    rw [if_pos hfree, if_pos (hall ▸ hneed)] at h
    obtain ⟨bytes, hraw, rfl⟩ := except_map_eq_ok (Option.some.inj h)
    obtain ⟨hname, rfl⟩ := writeDirentRaw_ok hraw
    refine ⟨hname, hneed, ?_⟩
    rw [if_pos hfree, hall, newOffset, if_pos hfree, Nat.add_zero]
  · have hslack : (r.2.reclen + 2 ^ 64 - direntSize r.2.namlen) % 2 ^ 64
        = room r.2 := by
      unfold room
      rw [if_neg hfree]
    rw [if_neg hfree] at hroom
    rw [if_neg hfree, hslack, if_pos hneed,
      Nat.mod_eq_of_lt (show room r.2 < 2 ^ 16 by omega)] at h
    obtain ⟨bytes, hraw, rfl⟩ := except_map_eq_ok (Option.some.inj h)
    obtain ⟨hname, rfl⟩ := writeDirentRaw_ok hraw
    refine ⟨hname, hneed, ?_⟩
    rw [if_neg hfree, newOffset, if_neg hfree]

/-- **The new record ends where the old one did**, and only bytes the old one
may lose change. -/
theorem placeDirent_carved
    (hread : readDirent block limit r.1 = some r.2)
    (hlen : limit ≤ block.length) (hshort : ¬TooShort r.2)
    (h : placeDirent name newInode block r = some (.ok new)) :
    newOffset r + room r.2 = r.1 + r.2.reclen ∧
      new.length = block.length ∧
      ∀ i, ¬SlotByte r i → new.getD i 0 = block.getD i 0 := by
  obtain ⟨hbuf, hmin, hrec, -, -, hreclen, -, -⟩ := readDirent_eq_some.mp hread
  have hlt : r.2.reclen < 2 ^ 16 := by
    rw [hreclen]
    exact readBe16_lt _
  obtain ⟨hname, hneed, rfl⟩ := placeDirent_eq hlt hshort h
  have hroom := room_of_fits hlt hshort
  have hpos := direntSize_pos name.length
  have hend : newOffset r + room r.2 = r.1 + r.2.reclen := by
    unfold newOffset
    omega
  have hraw : (rawDirent newInode (room r.2) name).length = room r.2 :=
    rawDirent_length (by omega)
  by_cases hfree : r.2.ino = 0
  · rw [if_pos hfree]
    refine ⟨hend, overlay_length (by omega), fun i hi => ?_⟩
    refine overlay_getD_of_not_mem (by omega) fun hin => hi ?_
    unfold SlotByte
    rw [if_pos hfree]
    unfold newOffset at hin hend
    rw [if_pos hfree] at hin hend
    omega
  · rw [if_neg hfree]
    have htwo : (writeBe16 (direntSize r.2.namlen)).length = 2 := rfl
    have hfirst : (overlay block (r.1 + 4)
        (writeBe16 (direntSize r.2.namlen))).length = block.length :=
      overlay_length (by omega)
    refine ⟨hend, (overlay_length (by omega)).trans hfirst, fun i hi => ?_⟩
    unfold SlotByte at hi
    rw [if_neg hfree] at hi
    rw [overlay_getD_of_not_mem (by omega) (by omega),
      overlay_getD_of_not_mem (by omega) (by omega)]

/-- The bytes with a new record in the room of record `r`. -/
def placed (c : Bytes) (r : Nat × Dirent) (newInode : Nat) (name : Bytes) :
    Bytes :=
  overlay
    (if r.2.ino = 0 then c
      else overlay c (r.1 + 4) (writeBe16 (direntSize r.2.namlen)))
    (newOffset r) (rawDirent newInode (room r.2) name)

end Place

/-! ## §4. Tilings. -/

/-- The length of every record in use is at least what its name needs. -/
def Fitting (rs : List (Nat × Dirent)) : Prop := ∀ r ∈ rs, ¬TooShort r.2

/-- **A chunk is well formed**: partitioned into records as long as their names
need, those in use being `es`. -/
def WellChunk (c : Bytes) (es : List (Nat × Bytes)) : Prop :=
  ∃ rs, Tiles c c.length 0 c.length rs ∧ Fitting rs ∧ entriesOf rs = es

section Tiling

variable {c name : Bytes} {newInode : Nat} {pre post rs : List (Nat × Dirent)}
  {r : Nat × Dirent} {es : List (Nat × Bytes)}

/-- A record as long as its name needs has its name inside. -/
theorem nameInside_of_fits {ent : Dirent} (h : ¬TooShort ent) :
    NameInside ent := by
  intro hlive
  have hpos := direntSize_pos ent.namlen
  by_contra hout
  exact h ⟨hlive, by omega⟩

theorem Fitting.nameInside (h : Fitting rs) : ∀ r ∈ rs, NameInside r.2 :=
  fun r hr => nameInside_of_fits (h r hr)

theorem WellChunk.partitioned (h : WellChunk c es) : Partitioned c es := by
  obtain ⟨rs, htiles, hfits, hentries⟩ := h
  exact ⟨rs, htiles, hfits.nameInside, hentries⟩

/-- A chunk the walk passes to its end is well formed. -/
theorem wellChunk_of_walk (hend : walkEnd c c.length c.length 0 = c.length)
    (hfits : ∀ r ∈ records c c.length, ¬TooShort r.2) :
    WellChunk c (entriesOf (records c c.length)) := by
  have htiles := tiles_walk c c.length c.length 0
  rw [hend] at htiles
  refine ⟨_, htiles, fun r hr => ?_, entriesOf_shown _⟩
  obtain ⟨r', hr', rfl⟩ := List.mem_map.mp hr
  show ¬TooShort r'.2.shown
  rw [tooShort_shown]
  exact hfits r' hr'

/-- Where the new record lies, when it is in the room of a record of a
tiling. -/
theorem newOffset_room (hsmall : c.length < 2 ^ 16)
    (h : Tiles c c.length 0 c.length (pre ++ r :: post))
    (hfits : Fitting (pre ++ r :: post)) :
    r.1 ≤ newOffset r ∧ newOffset r + room r.2 = r.1 + r.2.reclen ∧
      r.1 + r.2.reclen ≤ c.length := by
  obtain ⟨-, hend, -, -⟩ := h.mem (r := r) (by simp)
  have hroom := room_of_fits (show r.2.reclen < 2 ^ 16 by omega)
    (hfits r (by simp))
  refine ⟨?_, ?_, hend⟩
  · unfold newOffset
    omega
  · unfold newOffset
    omega

/-- **What the old record becomes and the new record** lie where the old one
did. -/
theorem placed_tiles (hsmall : c.length < 2 ^ 16)
    (h : Tiles c c.length 0 c.length (pre ++ r :: post))
    (hfits : Fitting (pre ++ r :: post)) (hlive : newInode ≠ 0)
    (hino : newInode < 2 ^ 32) (hneed : direntSize name.length ≤ room r.2) :
    (placed c r newInode name).length = c.length ∧
      SameBytes c (placed c r newInode name) 0 r.1 ∧
      SameBytes c (placed c r newInode name) (r.1 + r.2.reclen) c.length ∧
      ∃ mid, Tiles (placed c r newInode name) c.length r.1
          (r.1 + r.2.reclen) mid ∧ Fitting mid ∧
        entriesOf mid = entriesOf [r] ++ [(newInode, name)] := by
  obtain ⟨hle, hroom, hend⟩ := newOffset_room hsmall h hfits
  obtain ⟨-, hread, -⟩ := h.around
  have hpos := direntSize_pos name.length
  have hraw : (rawDirent newInode (room r.2) name).length = room r.2 :=
    rawDirent_length (by omega)
  have hnew : ∀ {buf : Bytes}, buf.length = c.length →
      readDirent (overlay buf (newOffset r)
          (rawDirent newInode (room r.2) name)) c.length (newOffset r)
        = some ⟨newInode, room r.2, name.length, name⟩ := by
    intro buf hlen
    have hlen' : (overlay buf (newOffset r)
        (rawDirent newInode (room r.2) name)).length = buf.length :=
      overlay_length (by omega)
    refine readDirent_raw hino (by omega) (by omega) (by omega) (by omega)
      fun i hi => ?_
    rw [overlay_getD_of_mem (by omega) (by omega), Nat.add_sub_cancel_left]
  have hshort : ¬TooShort ⟨newInode, room r.2, name.length, name⟩ :=
    fun hbad => absurd hneed (by have := hbad.2; dsimp only at this; omega)
  unfold placed
  by_cases hfree : r.2.ino = 0
  · -- a record that is not in use is the new record
    rw [if_pos hfree]
    have hat : newOffset r = r.1 := by
      unfold newOffset
      rw [if_pos hfree, Nat.add_zero]
    have hout : ∀ {a b}, b ≤ r.1 ∨ r.1 + r.2.reclen ≤ a →
        SameBytes c (overlay c (newOffset r)
          (rawDirent newInode (room r.2) name)) a b := by
      intro a b hab i h1 h2
      exact overlay_getD_of_not_mem (by omega) (by omega)
    refine ⟨overlay_length (by omega), hout (Or.inl le_rfl), hout (Or.inr le_rfl),
      [(newOffset r, Dirent.shown ⟨newInode, room r.2, name.length, name⟩)],
      ?_, ?_, ?_⟩
    · have htile := Tiles.cons (hnew rfl) (.nil _)
      dsimp only at htile
      rw [hroom, hat] at htile
      rw [hat]
      exact htile
    · intro x hx
      rw [List.mem_singleton.mp hx, shown_of_live hlive]
      exact hshort
    · rw [entriesOf_cons_free hfree, shown_of_live (by exact hlive),
        entriesOf_cons_live (by exact hlive)]
      rfl
  · -- a record in use is cut to what its name needs
    rw [if_neg hfree]
    have hread := read_of_shown hfree hread
    obtain ⟨hbuf, hmin, hrec, -⟩ := readDirent_eq_some.mp hread
    have hused := direntSize_pos r.2.namlen
    have hat : newOffset r = r.1 + direntSize r.2.namlen := by
      unfold newOffset
      rw [if_neg hfree]
    have htwo : (writeBe16 (direntSize r.2.namlen)).length = 2 := rfl
    have hcut : (overlay c (r.1 + 4)
        (writeBe16 (direntSize r.2.namlen))).length = c.length :=
      overlay_length (by omega)
    have hout : ∀ {a b}, b ≤ r.1 ∨ r.1 + r.2.reclen ≤ a →
        SameBytes c (overlay (overlay c (r.1 + 4)
            (writeBe16 (direntSize r.2.namlen))) (newOffset r)
          (rawDirent newInode (room r.2) name)) a b := by
      intro a b hab i h1 h2
      rw [overlay_getD_of_not_mem (by omega) (by omega),
        overlay_getD_of_not_mem (by omega) (by omega)]
    have hlen : (overlay (overlay c (r.1 + 4)
            (writeBe16 (direntSize r.2.namlen))) (newOffset r)
          (rawDirent newInode (room r.2) name)).length = c.length :=
      (overlay_length (by omega)).trans hcut
    have hshorter : readDirent (overlay c (r.1 + 4)
          (writeBe16 (direntSize r.2.namlen))) c.length r.1
        = some { r.2 with reclen := direntSize r.2.namlen } :=
      readDirent_setReclen le_rfl hread (by omega) (by omega) (by omega)
    have hfirst : Tiles (overlay c (r.1 + 4)
          (writeBe16 (direntSize r.2.namlen))) c.length r.1 (newOffset r)
        [(r.1, Dirent.shown { r.2 with reclen := direntSize r.2.namlen })] := by
      rw [hat]
      exact .cons hshorter (.nil _)
    have hfirstfits : ¬TooShort { r.2 with reclen := direntSize r.2.namlen } :=
      fun hbad => absurd hbad.2 (lt_irrefl _)
    refine ⟨hlen, hout (Or.inl le_rfl), hout (Or.inr le_rfl),
      [(r.1, Dirent.shown { r.2 with reclen := direntSize r.2.namlen })]
        ++ [(newOffset r,
          Dirent.shown ⟨newInode, room r.2, name.length, name⟩)], ?_, ?_, ?_⟩
    · apply Tiles.append
      · apply hfirst.congr hcut.ge hlen.ge
        · intro x hx
          rw [List.mem_singleton.mp hx, shown_of_live (by exact hfree)]
          exact nameInside_of_fits hfirstfits
        · intro i h1 h2
          exact overlay_getD_of_not_mem (by omega) (by omega)
      · have htile := Tiles.cons (hnew hcut) (.nil _)
        dsimp only at htile
        rwa [hroom] at htile
    · intro x hx
      rcases List.mem_append.mp hx with hx | hx
      · rw [List.mem_singleton.mp hx, shown_of_live (by exact hfree)]
        exact hfirstfits
      · rw [List.mem_singleton.mp hx, shown_of_live (by exact hlive)]
        exact hshort
    · rw [entriesOf_append, shown_of_live (by exact hfree),
        shown_of_live (by exact hlive), entriesOf_cons_live (by exact hfree),
        entriesOf_cons_live (by exact hlive), entriesOf_cons_live hfree]
      rfl

/-- **A chunk with a new record is well formed**, and has one entry more. -/
theorem placed_wellChunk (hsmall : c.length < 2 ^ 16)
    (h : Tiles c c.length 0 c.length (pre ++ r :: post))
    (hfits : Fitting (pre ++ r :: post)) (hlive : newInode ≠ 0)
    (hino : newInode < 2 ^ 32) (hneed : direntSize name.length ≤ room r.2) :
    WellChunk (placed c r newInode name)
      (entriesOf pre ++ (entriesOf [r] ++ [(newInode, name)])
        ++ entriesOf post) := by
  obtain ⟨hlen, hbefore, hafter, mid, hmid, hmidfits, hentries⟩ :=
    placed_tiles hsmall h hfits hlive hino hneed
  obtain ⟨hpre, -, hpost⟩ := h.around
  have hprefits : Fitting pre := fun x hx =>
    hfits x (List.mem_append_left _ hx)
  have hpostfits : Fitting post := fun x hx =>
    hfits x (List.mem_append_right _ (List.mem_cons_of_mem _ hx))
  refine ⟨pre ++ mid ++ post, ?_, ?_, ?_⟩
  · rw [hlen]
    exact ((hpre.congr le_rfl hlen.ge hprefits.nameInside hbefore).append
      hmid).append (hpost.congr le_rfl hlen.ge hpostfits.nameInside hafter)
  · intro x hx
    rcases List.mem_append.mp hx with hx | hx
    · rcases List.mem_append.mp hx with hx | hx
      · exact hprefits x hx
      · exact hmidfits x hx
    · exact hpostfits x hx
  · rw [entriesOf_append, entriesOf_append, hentries]

end Tiling

end NextUfs
