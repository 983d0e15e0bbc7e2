/-
  NextUfs.Vdi.ReadBack
  ────────────────────
  **READ AFTER WRITE.**

  `Wrote` says that a range of the guest disk holds some data and that every
  other byte that was shown is shown still.  A round of the write loop
  establishes it for a chunk, the loop for a whole write, and a run of writes
  leaves at every offset the latest byte written there.

    • `writeLoop_wrote` — one write, by induction on its rounds,
    • `writes_read`     — a run of writes, and any read after it,
    • `writes_read_needs_areas` — two images on which a write of one byte
      changes another.
-/
import NextUfs.Vdi.WriteSpec

namespace NextUfs.Vdi

open Host State

/-! ## §1. One write. -/

/-- The image after `data` has been written at `g`. -/
structure Wrote (c c' : Chain) (g : Nat) (data : List UInt8) : Prop where
  sound : Sound c'
  header : c'.image.toHeader = c.image.toHeader
  parents : c'.parents = c.parents
  written : ∀ k < data.length, byteAt c'.images (g + k) = data[k]?
  kept : ∀ i x, byteAt c.images i = some x →
    ¬(g ≤ i ∧ i < g + data.length) → byteAt c'.images i = some x

theorem Wrote.nil {c : Chain} (hs : Sound c) (g : Nat) : Wrote c c g [] where
  sound := hs
  header := rfl
  parents := rfl
  written := fun k hk => absurd hk (Nat.not_lt_zero k)
  kept := fun _ _ hx _ => hx

/-- Two adjacent pieces. -/
theorem Wrote.append {c u c' : Chain} {g : Nat} {front back : List UInt8}
    (hfront : Wrote c u g front)
    (hback : Wrote u c' (g + front.length) back) :
    Wrote c c' g (front ++ back) where
  sound := hback.sound
  header := hback.header.trans hfront.header
  parents := hback.parents.trans hfront.parents
  written := by
    intro k hk
    rw [List.length_append] at hk
    by_cases hkf : k < front.length
    · rw [List.getElem?_append_left hkf]
      have hx : byteAt u.images (g + k) = some front[k] := by
        rw [hfront.written k hkf]
        simp [hkf]
      rw [hback.kept (g + k) _ hx (by omega)]
      simp [hkf]
    · have hw := hback.written (k - front.length) (by omega)
      rw [show g + front.length + (k - front.length) = g + k by omega] at hw
      rw [hw, List.getElem?_append_right (by omega)]
  kept := by
    intro i x hx hout
    rw [List.length_append] at hout
    apply hback.kept i x
    · apply hfront.kept i x hx
      omega
    · omega

theorem writeChunk_wrote {c u : Chain} {g : Nat} {data : List UInt8}
    (hs : Sound c) (hfirst : HeaderFirst c.image.toHeader)
    (hin : g + data.length ≤ c.image.diskSize) (hne : data ≠ [])
    (hrun : writeChunk g data c = .ok () u) :
    Wrote c u g (data.take (c.image.chunkLen g data.length)) := by
  have hpos : 0 < data.length := List.length_pos_of_ne_nil hne
  have hg : g < c.image.diskSize := by omega
  have hle := chunkLen_le (v := c.image) (g := g) (n := data.length)
  have htake : (data.take (c.image.chunkLen g data.length)).length =
      c.image.chunkLen g data.length := by
    rw [List.length_take]
    omega
  have hcases := @writeChunk_cases c g data hs hg
  rw [hrun] at hcases
  rcases hcases with ⟨e, he⟩ | ⟨buf, -, -, -, he⟩ | ⟨w, hw, halloc, hok⟩
  · cases he
  · cases he
  cases hok
  -- the publication, if there is one, shows what was shown
  have hbefore : Sound w ∧ w.image.toHeader = c.image.toHeader
      ∧ w.parents = c.parents
      ∧ ∀ i x, byteAt c.images i = some x → byteAt w.images i = some x := by
    rcases hw with rfl | ⟨buf, hfills, hroom, hzero, rfl⟩
    · exact ⟨hs, rfl, rfl, fun _ _ hx => hx⟩
    · refine ⟨published_sound hs hroom, rfl, rfl, fun i x hx => ?_⟩
      apply published_bytes hs hfirst _ hroom hzero hfills hx
      exact (hs.wellFormed.blockIndex_eq hg).2
  obtain ⟨hws, hheader, hparents, hkeep⟩ := hbefore
  have hsize : w.image.blockSize = c.image.blockSize := by rw [hheader]
  have hdisk : w.image.diskSize = c.image.diskSize := by rw [hheader]
  have hlen : w.image.chunkLen g data.length = c.image.chunkLen g data.length := by
    rw [hheader]
  obtain ⟨hwritten, hkept⟩ := chunkWritten_bytes hws
    (hdisk ▸ hg) (hsize ▸ halloc)
  rw [hlen] at hwritten hkept
  constructor
  · exact chunkWritten_sound hws
  · exact hheader
  · exact hparents
  · intro k hk
    rw [htake] at hk
    rw [hwritten k hk (by omega), List.getElem?_take_of_lt hk]
  · intro i x hx hout
    rw [htake] at hout
    exact hkept i x (hkeep i x hx) hout

theorem writeLoop_wrote (fuel : Nat) : ∀ {c c' : Chain} {g : Nat}
    {data : List UInt8}, Sound c → HeaderFirst c.image.toHeader →
    g + data.length ≤ c.image.diskSize → data.length ≤ fuel →
    writeLoop fuel g data c = .ok () c' → Wrote c c' g data := by
  induction fuel with
  | zero =>
    intro c c' g data hs _ _ hfuel hrun
    obtain rfl : data = [] := List.length_eq_zero_iff.1 (by omega)
    cases hrun
    exact Wrote.nil hs g
  | succ fuel ih =>
    intro c c' g data hs hfirst hin hfuel hrun
    unfold writeLoop at hrun
    by_cases hne : data = []
    · rw [if_pos hne] at hrun
      cases hrun
      subst hne
      exact Wrote.nil hs g
    rw [if_neg hne, bind_get] at hrun
    obtain ⟨_, u, hchunk, hrest⟩ := bind_eq_ok hrun
    have hfront := writeChunk_wrote hs hfirst hin hne hchunk
    have hpos : 0 < data.length := List.length_pos_of_ne_nil hne
    have hcpos := chunkLen_pos (v := c.image) (g := g)
      hs.wellFormed.blockSize_pos hpos
    have hle := chunkLen_le (v := c.image) (g := g) (n := data.length)
    generalize c.image.chunkLen g data.length = chunk at *
    have htake : (data.take chunk).length = chunk := by
      rw [List.length_take]
      omega
    have hdisk : u.image.diskSize = c.image.diskSize := by
      rw [hfront.header]
    have hback := ih hfront.sound (hfront.header ▸ hfirst)
      (by rw [hdisk, List.length_drop]; omega)
      (by rw [List.length_drop]; omega) hrest
    have happ := hfront.append (by rw [htake]; exact hback)
    rwa [List.take_append_drop] at happ

theorem backendWrite_wrote {c c' : Chain} {data : List UInt8} {off : Nat}
    (hs : Sound c) (hfirst : HeaderFirst c.image.toHeader)
    (hrun : backendWrite data off c = .ok () c') :
    Wrote c c' off data := by
  unfold backendWrite at hrun
  rw [bind_get] at hrun
  by_cases hend : c.image.diskSize < off + data.length
  · rw [if_pos hend] at hrun
    cases hrun
  · rw [if_neg hend] at hrun
    exact writeLoop_wrote data.length hs hfirst (by omega) (Nat.le_refl _) hrun

/-! ## §2. A run of writes. -/

/-- A sequence of successful backend writes. -/
inductive Writes : Chain → List Write → Chain → Prop where
  | nil (c : Chain) : Writes c [] c
  | cons {c u c' : Chain} {w : Write} {ws : List Write}
      (first : backendWrite w.data w.off c = .ok () u)
      (rest : Writes u ws c') : Writes c (w :: ws) c'

/-- The byte a write puts at an offset. -/
def Write.byteAt (w : Write) (i : Nat) : Option UInt8 :=
  if w.off ≤ i then w.data[i - w.off]? else none

/-- The latest byte a sequence of writes puts at an offset. -/
def latest (ws : List Write) (i : Nat) : Option UInt8 :=
  ws.foldl (fun old w => (Write.byteAt w i).or old) none

/-- The value of a guest byte: what a read of it returns. -/
def shown (c : Chain) (i : Nat) : Option UInt8 :=
  match backendRead c.images 1 i with
  | .ok [x] => some x
  | _ => none

theorem shown_eq {c : Chain} (hopen : Opened c.images) (i : Nat) :
    shown c i = byteAt c.images i := by
  have hread := fun bs => backendRead_eq c.images hopen 1 i bs (by omega)
  unfold shown
  cases hb : byteAt c.images i with
  | some x =>
    have hok : backendRead c.images 1 i = .ok [x] := by
      apply (hread [x]).2
      refine ⟨rfl, fun k hk => ?_⟩
      obtain rfl : k = 0 := by omega
      simpa using hb
    rw [hok]
  | none =>
    cases hr : backendRead c.images 1 i with
    | error e => rfl
    | ok bs =>
      obtain ⟨x, -, hx⟩ := ((hread bs).1 hr).some (k := 0) (by omega)
      rw [Nat.add_zero, hb] at hx
      cases hx

theorem latest_foldl (ws : List Write) (i : Nat) (old : Option UInt8) :
    ws.foldl (fun old w => (Write.byteAt w i).or old) old =
      (latest ws i).or old := by
  induction ws generalizing old with
  | nil => rfl
  | cons w ws ih =>
    have hlatest : latest (w :: ws) i = ws.foldl
        (fun old w => (Write.byteAt w i).or old)
        ((Write.byteAt w i).or none) := rfl
    rw [List.foldl_cons, ih, hlatest, ih]
    cases latest ws i <;> cases Write.byteAt w i <;> rfl

theorem latest_cons (w : Write) (ws : List Write) (i : Nat) :
    latest (w :: ws) i = (latest ws i).or (Write.byteAt w i) := by
  show ws.foldl _ ((Write.byteAt w i).or none) = _
  rw [latest_foldl]
  cases Write.byteAt w i <;> rfl

/-- One write changes the bytes it covers. -/
theorem Wrote.byteAt {c c' : Chain} {w : Write}
    (h : Wrote c c' w.off w.data) {i : Nat} {x : UInt8}
    (hx : (Write.byteAt w i).or (Vdi.byteAt c.images i) = some x) :
    Vdi.byteAt c'.images i = some x := by
  unfold Write.byteAt at hx
  by_cases hin : w.off ≤ i ∧ i < w.off + w.data.length
  · have hlt : i - w.off < w.data.length := by omega
    have hw := h.written (i - w.off) hlt
    rw [show w.off + (i - w.off) = i by omega] at hw
    rw [if_pos hin.1, List.getElem?_eq_getElem hlt] at hx
    rw [hw, List.getElem?_eq_getElem hlt]
    simpa using hx
  · apply h.kept i x _ hin
    by_cases hle : w.off ≤ i
    · rw [if_pos hle, List.getElem?_eq_none (by omega)] at hx
      simpa using hx
    · rw [if_neg hle] at hx
      simpa using hx

/-- What a run of writes leaves at an offset. -/
theorem writes_byteAt {c c' : Chain} {ws : List Write} (hs : Sound c)
    (hfirst : HeaderFirst c.image.toHeader) (h : Writes c ws c') :
    Sound c' ∧ c'.image.toHeader = c.image.toHeader
      ∧ c'.parents = c.parents
      ∧ ∀ i x, (latest ws i).or (Vdi.byteAt c.images i) = some x →
        Vdi.byteAt c'.images i = some x := by
  induction h with
  | nil c => exact ⟨hs, rfl, rfl, fun i x hx => by simpa [latest] using hx⟩
  | cons first rest ih =>
    rename_i c u c' w ws
    have hwrote := backendWrite_wrote hs hfirst first
    obtain ⟨hsound, hheader, hparents, hbytes⟩ :=
      ih hwrote.sound (hwrote.header ▸ hfirst)
    refine ⟨hsound, hheader.trans hwrote.header,
      hparents.trans hwrote.parents, fun i x hx => ?_⟩
    rw [latest_cons] at hx
    apply hbytes i x
    cases hl : latest ws i with
    | some y =>
      rw [hl] at hx
      exact hx
    | none =>
      rw [hl, Option.none_or] at hx
      rw [Option.none_or]
      exact hwrote.byteAt hx

/-- **Read after write.**  On a well-formed VDI whose header ends before its
map and whose data blocks have file offsets, with any chain of opened parents:
after any sequence of successful writes the image is well formed and the
parents are the same, and a read of any range inside the disk returns at every
offset the latest byte written there, or else the byte that was read there
before. -/
theorem writes_read {c c' : Chain} {ws : List Write}
    (hwell : WellFormed c.image) (haddr : Addressable c.image)
    (hfirst : HeaderFirst c.image.toHeader)
    (hparents : Opened c.parents) (hws : Writes c ws c') :
    WellFormed c'.image ∧ c'.parents = c.parents
      ∧ ∀ off n, off + n ≤ c.image.diskSize →
        (∀ k < n, ((latest ws (off + k)).or (shown c (off + k))).isSome) →
        ∃ bs, backendRead c'.images n off = .ok bs ∧ bs.length = n
          ∧ ∀ k < n, bs[k]? =
            (latest ws (off + k)).or (shown c (off + k)) := by
  have hs : Sound c := ⟨hwell, haddr, hparents⟩
  obtain ⟨hsound, hheader, hsame, hbytes⟩ := writes_byteAt hs hfirst hws
  refine ⟨hsound.wellFormed, hsame, fun off n hin hdef => ?_⟩
  have hdisk : c'.image.diskSize = c.image.diskSize := by rw [hheader]
  by_cases hn : n = 0
  · subst hn
    refine ⟨[], ?_, rfl, fun k hk => absurd hk (Nat.not_lt_zero k)⟩
    show (if c'.image.diskSize < off + 0 then _ else _) = _
    rw [if_neg (by omega)]
    rfl
  -- the bytes of the range, one by one
  have hall : ∀ k < n, Vdi.byteAt c'.images (off + k) =
      (latest ws (off + k)).or (shown c (off + k)) := by
    intro k hk
    obtain ⟨x, hx⟩ := Option.isSome_iff_exists.1 (hdef k hk)
    rw [hx]
    apply hbytes
    rwa [shown_eq hs.opened] at hx
  generalize hbs : (List.range n).map (fun k =>
    (((latest ws (off + k)).or (shown c (off + k))).getD 0)) = bs
  have hlen : bs.length = n := by
    rw [← hbs]
    simp
  have hget : ∀ k < n, bs[k]? =
      (latest ws (off + k)).or (shown c (off + k)) := by
    intro k hk
    obtain ⟨x, hx⟩ := Option.isSome_iff_exists.1 (hdef k hk)
    rw [← hbs, List.getElem?_map, List.getElem?_range hk]
    show some (((latest ws (off + k)).or (shown c (off + k))).getD 0) = _
    rw [hx]
    rfl
  refine ⟨bs, ?_, hlen, hget⟩
  apply (backendRead_eq c'.images hsound.opened n off bs (by omega)).2
  exact ⟨hlen, fun k hk => by rw [hall k hk, hget k hk]⟩

/-! ## §3. A differencing image. -/

/-- A parent of one block of sevens. -/
def baseImage : Backend where
  imageType := VDI_TYPE_DYNAMIC
  mapOffset := 0x200
  dataOffset := 0x204
  sectorSize := 512
  blockSize := 16
  blockExtra := 0
  blockCount := 1
  diskSize := 16
  imageUuid := []
  parentUuid := []
  hasParent := false
  blocksAllocated := 1
  blockMap := fun _ => 0
  file := ⟨⟨0x214, fun _ => 7⟩, []⟩

/-- An image above it in which no block is allocated. -/
def diffImage : Backend where
  imageType := VDI_TYPE_DIFF
  mapOffset := 0x200
  dataOffset := 0x20c
  sectorSize := 512
  blockSize := 8
  blockExtra := 4
  blockCount := 3
  diskSize := 20
  imageUuid := []
  parentUuid := []
  hasParent := true
  blocksAllocated := 0
  blockMap := fun _ => VDI_MAP_UNALLOCATED
  file := ⟨⟨0x20c, fun _ => 255⟩, []⟩

theorem diffImage_wellFormed : WellFormed diffImage := by decide

/-- Three bytes across two blocks of the differencing image: around them a
read returns the parent's bytes. -/
theorem writes_read_diff : ∃ c', Writes ⟨diffImage, [baseImage]⟩
      [⟨6, [1, 2, 3]⟩] c'
    ∧ ∃ bs, backendRead c'.images 5 5 = .ok bs ∧ bs.length = 5
      ∧ bs[0]? = some 7 ∧ bs[1]? = some 1 ∧ bs[4]? = some 7 := by
  have hopen : Opened [baseImage] := by
    intro v hv
    obtain rfl : v = baseImage := by simpa using hv
    exact ⟨by decide, by decide⟩
  have hok : (match backendWrite [1, 2, 3] 6 ⟨diffImage, [baseImage]⟩ with
      | .ok _ _ => true
      | .error _ _ => false) = true := by decide +kernel
  cases hrun : backendWrite [1, 2, 3] 6 ⟨diffImage, [baseImage]⟩ with
  | error e c' =>
    rw [hrun] at hok
    cases hok
  | ok _ c' =>
    have hws : Writes ⟨diffImage, [baseImage]⟩ [⟨6, [1, 2, 3]⟩] c' :=
      .cons hrun (.nil c')
    obtain ⟨-, -, hread⟩ := writes_read diffImage_wellFormed (by decide)
      (by decide) hopen hws
    obtain ⟨bs, hbs, hlen, hbytes⟩ := hread 5 5 (by decide) (by decide +kernel)
    refine ⟨c', hws, bs, hbs, hlen, ?_, ?_, ?_⟩
    · rw [hbytes 0 (by decide)]
      decide +kernel
    · rw [hbytes 1 (by decide)]
      decide +kernel
    · rw [hbytes 4 (by decide)]
      decide +kernel

/-! ## §4. Overlapping areas. -/

/-- The file after one byte has been written to a new data block of zeros. -/
def freshFile (c : Chain) (i : Nat) (x : UInt8) : HostFile :=
  (countedFile c.image (i / c.image.blockSize)
    (zeros c.image.blockSize)).pwrite
      (c.image.fileStart c.image.blocksAllocated + c.image.blockExtra
        + i % c.image.blockSize) [x]

/-- The image then. -/
def freshWritten (c : Chain) (i : Nat) (x : UInt8) : Chain :=
  (c.published (i / c.image.blockSize)
    (zeros c.image.blockSize)).withFile (freshFile c i x)

/-- One byte written to a block that has no data block yet, in an image
without a parent. -/
theorem backendWrite_fresh {c : Chain} {i : Nat} (x : UInt8)
    (hw : WellFormed c.image) (hi : i < c.image.diskSize)
    (hfree : ¬isAllocated (c.image.blockMap (i / c.image.blockSize)))
    (hparent : c.image.hasParent = false)
    (hroom : c.image.blocksAllocated < c.image.blockCount)
    (hzero : c.image.blocksAllocated ≠ VDI_MAP_ZERO)
    (hend : c.image.fileStart c.image.blocksAllocated
      + (c.image.blockSize + c.image.blockExtra) ≤ OFFSET_END) :
    backendWrite [x] i c = .ok () (freshWritten c i x) := by
  obtain ⟨hblock, hlt⟩ := hw.blockIndex_eq hi
  have hmod := Nat.mod_lt i hw.blockSize_pos
  have hfill : fillBlock (i / c.image.blockSize) c =
      .ok (zeros c.image.blockSize) c := by
    unfold fillBlock
    rw [bind_get, if_neg (by rw [hparent]; simp)]
    rfl
  have hmaterialize : materializeBlock (i / c.image.blockSize) c = .ok ()
      (c.published (i / c.image.blockSize) (zeros c.image.blockSize)) := by
    unfold materializeBlock
    rw [bind_get, if_neg hfree, if_neg (by omega), bind_of_ok hfill]
    exact publishBlock_eq hw hlt hend (zeros_length _)
  have hentry : (c.published (i / c.image.blockSize)
      (zeros c.image.blockSize)).image.blockMap (i / c.image.blockSize) =
      c.image.blocksAllocated := Function.update_self ..
  have halloc := (next_isAllocated hw hroom).2 hzero
  have hchunk : c.image.chunkLen i 1 = 1 := by
    unfold Header.chunkLen
    omega
  have hoff : c.image.fileOff c.image.blocksAllocated (i % c.image.blockSize) =
      c.image.fileStart c.image.blocksAllocated + c.image.blockExtra
        + i % c.image.blockSize := by
    unfold Header.fileStart OFFSET_END at hend
    unfold Header.fileOff Header.fileStart
    exact Nat.mod_eq_of_lt (by omega)
  have hround : writeChunk i [x] c = .ok () (freshWritten c i x) := by
    unfold writeChunk
    rw [bind_get, bind_get, hblock]
    simp only [if_neg (show ¬c.image.blockCount ≤ i / c.image.blockSize by
      omega)]
    rw [bind_of_ok hmaterialize, bind_get]
    simp only [hentry]
    rw [if_pos halloc]
    show writeExactFd (c.image.fileOff c.image.blocksAllocated
      (i % c.image.blockSize)) ([x].take (c.image.chunkLen i 1)) _ = _
    rw [hoff, hchunk, writeExactFd_eq]
    · rfl
    · show _ + 1 ≤ OFFSET_END
      omega
  have hloop : writeLoop 1 i [x] c = writeChunk i [x] c := by
    unfold writeLoop
    rw [if_neg (by simp), bind_get]
    show (writeChunk i [x] >>= fun _ => pure ()) c = _
    rw [hround, bind_of_ok hround]
    rfl
  unfold backendWrite
  rw [bind_get]
  show (if c.image.diskSize < i + 1 then throw Errno.EIO else writeLoop 1 i [x]) c
    = _
  rw [if_neg (by omega)]
  exact hloop.trans hround

/-- A byte of an allocated block after such a write. -/
theorem shown_fresh {c : Chain} {i j e : Nat} (x : UInt8)
    (hw : WellFormed c.image) (hparents : Opened c.parents)
    (hj : j < c.image.diskSize)
    (hentry : Function.update c.image.blockMap (i / c.image.blockSize)
      c.image.blocksAllocated (j / c.image.blockSize) = e)
    (halloc : isAllocated e) :
    shown (freshWritten c i x) j = (freshFile c i x).contents.byteAt
      (c.image.fileOff e (j % c.image.blockSize)) := by
  have hp := @published_wellFormed c (i / c.image.blockSize)
    (zeros c.image.blockSize) hw
  have hwell : WellFormed (freshWritten c i x).image :=
    ⟨hp.blockSize_pos, hp.blockSize_lt, hp.blockCount_lt, hp.map_data,
      hp.covers, hp.entries_lt, hp.entries_inj⟩
  have hopen : Opened (freshWritten c i x).images := by
    intro v hv
    rcases List.mem_cons.1 hv with rfl | hv
    · exact ⟨hwell.blockSize_pos, hwell.blockSize_lt⟩
    · exact hparents v hv
  have hbyte : byteAt (freshWritten c i x).images j =
      c.image.entryByte (freshFile c i x).contents (under c.parents j)
        (Function.update c.image.blockMap (i / c.image.blockSize)
          c.image.blocksAllocated (j / c.image.blockSize)) j :=
    hwell.byteAt_eq hj c.parents
  rw [shown_eq hopen, hbyte, hentry, entryByte_allocated halloc]

/-- A file of zeros but for some 32-bit fields. -/
def fieldFile (size : Nat) (fields : List (Nat × Nat)) : ByteFile where
  size := size
  byte := fun i =>
    ((fields.find? fun field => field.1 ≤ i && i < field.1 + 4).map
      fun field => (le32 field.2).getD (i - field.1) 0).getD 0

/-- The header of an image whose map lies on the header's block size, and
whose only block starts before the header's block count. -/
def overlapFile : ByteFile :=
  fieldFile 512
    [(VDI_SIG_OFF, VDI_SIGNATURE), (VDI_VERSION_OFF, VDI_VERSION),
      (VDI_HEADER_SIZE_OFF, 0x178), (VDI_TYPE_OFF, VDI_TYPE_DYNAMIC),
      (VDI_BLOCKS_OFFSET_OFF, 0x178), (VDI_DATA_OFFSET_OFF, 0x17c),
      (VDI_SECTOR_SIZE_OFF, 512), (VDI_DISK_SIZE_OFF, 16),
      (VDI_BLOCK_SIZE_OFF, 0xffffffff), (VDI_BLOCK_COUNT_OFF, 1)]

/-- The image in the opener's answer, if there is one. -/
def openedImage : Except Errno (Option Backend) → Option Backend
  | .ok v => v
  | .error _ => none

/-- The image the opener makes of it. -/
@[irreducible] def overlapImage : Backend :=
  (openedImage (initBackend overlapFile)).getD diffImage

theorem openedImage_getD {r : Except Errno (Option Backend)} (d : Backend)
    (h : (openedImage r).isSome) :
    r = .ok (some ((openedImage r).getD d)) := by
  cases r with
  | error e => cases h
  | ok v =>
    cases v with
    | none => cases h
    | some v => rfl

theorem overlapFile_opens :
    initBackend overlapFile = .ok (some overlapImage)
      ∧ WellFormed overlapImage ∧ Addressable overlapImage := by
  constructor
  · unfold overlapImage
    apply openedImage_getD
    decide +kernel
  · decide +kernel

/-- The header of an image whose two blocks are data blocks 0 and 2^31 + 1 of
2^33 - 4 bytes each: the second starts at 2^64 - 4, which as an offset is four
bytes before the first. -/
def wrapFile : ByteFile :=
  fieldFile (2 ^ 34)
    [(VDI_SIG_OFF, VDI_SIGNATURE), (VDI_VERSION_OFF, VDI_VERSION),
      (VDI_HEADER_SIZE_OFF, 0x178), (VDI_TYPE_OFF, VDI_TYPE_DYNAMIC),
      (VDI_BLOCKS_OFFSET_OFF, 0x200), (VDI_DATA_OFFSET_OFF, 0x208),
      (VDI_SECTOR_SIZE_OFF, 512), (VDI_DISK_SIZE_OFF, 16),
      (VDI_DISK_SIZE_OFF + 4, 1), (VDI_BLOCK_SIZE_OFF, 2 ^ 32 - 2),
      (VDI_BLOCK_EXTRA_OFF, 2 ^ 32 - 2), (VDI_BLOCK_COUNT_OFF, 2),
      (VDI_BLOCKS_ALLOC_OFF, 2 ^ 31 + 2), (0x204, 2 ^ 31 + 1)]

/-- The image the opener makes of it. -/
@[irreducible] def wrapImage : Backend :=
  (openedImage (initBackend wrapFile)).getD diffImage

theorem wrapFile_opens :
    initBackend wrapFile = .ok (some wrapImage)
      ∧ WellFormed wrapImage ∧ HeaderFirst wrapImage.toHeader := by
  constructor
  · unfold wrapImage
    apply openedImage_getD
    decide +kernel
  · decide +kernel

/-- In the first image the write of the first byte of the disk changes the
ninth, which is the first byte of the count. -/
theorem overlapImage_write : ∃ c', Writes ⟨overlapImage, []⟩ [⟨0, [9]⟩] c'
    ∧ shown ⟨overlapImage, []⟩ 8 = some 0 ∧ shown c' 8 = some 1 := by
  have hwell := overlapFile_opens.2.1
  obtain ⟨hdisk, hfree, hparent, hroom, hzero, hend⟩ :
      8 < overlapImage.diskSize ∧
        ¬isAllocated (overlapImage.blockMap (0 / overlapImage.blockSize)) ∧
        overlapImage.hasParent = false ∧
        overlapImage.blocksAllocated < overlapImage.blockCount ∧
        overlapImage.blocksAllocated ≠ VDI_MAP_ZERO ∧
        overlapImage.fileStart overlapImage.blocksAllocated
          + (overlapImage.blockSize + overlapImage.blockExtra) ≤ OFFSET_END := by
    decide +kernel
  have hrun := backendWrite_fresh (c := ⟨overlapImage, []⟩) (i := 0) 9
    hwell (Nat.zero_lt_of_lt hdisk) hfree hparent hroom hzero hend
  refine ⟨_, .cons hrun (.nil _), by decide +kernel, ?_⟩
  -- the ninth byte is the first of the count in the header
  obtain ⟨hnext, hstart, hoff, hentry⟩ :
      overlapImage.blocksAllocated = 0 ∧
        overlapImage.fileStart 0 + overlapImage.blockExtra
          + 0 % overlapImage.blockSize = 0x17c ∧
        overlapImage.fileOff 0 (8 % overlapImage.blockSize) = 0x184 ∧
        Function.update overlapImage.blockMap
          (0 / overlapImage.blockSize) overlapImage.blocksAllocated
          (8 / overlapImage.blockSize) = 0 := by decide +kernel
  rw [shown_fresh (c := ⟨overlapImage, []⟩) 9 hwell
    (fun v hv => absurd hv List.not_mem_nil) hdisk hentry (by decide)]
  show (freshFile ⟨overlapImage, []⟩ 0 9).contents.byteAt
    (overlapImage.fileOff 0 (8 % overlapImage.blockSize)) = some 1
  unfold freshFile
  simp only [hoff, hnext, hstart, HostFile.contents_pwrite]
  apply ByteFile.byteAt_pwrite_out
  · unfold countedFile
    rw [HostFile.contents_pwrite, hnext,
      ByteFile.byteAt_pwrite_in (by decide) (by decide) (by decide)]
    decide
  · decide

/-- In the second image the write of the fifth byte of the second block changes
the first byte of the first. -/
theorem wrapImage_write : ∃ c',
    Writes ⟨wrapImage, []⟩ [⟨2 ^ 32 + 2, [9]⟩] c'
    ∧ shown ⟨wrapImage, []⟩ 0 = some 0 ∧ shown c' 0 = some 9 := by
  have hcheck : leftWith (fun c' => decide (shown ⟨wrapImage, []⟩ 0 = some 0
      ∧ shown c' 0 = some 9))
      (backendWrite [9] (2 ^ 32 + 2) ⟨wrapImage, []⟩) = true := by
    decide +kernel
  obtain ⟨u, c', hrun, hleft⟩ := exists_of_leftWith hcheck
  exact ⟨c', .cons hrun (.nil _), of_decide_eq_true hleft⟩

/-- **The areas matter.**  An image the opener accepts, in whose data area the
header's count lies: the write of its first byte changes its ninth.  And one
whose second data block starts behind the offsets of a file: a write to the
second block changes the first. -/
theorem writes_read_needs_areas :
    (∃ v c', initBackend overlapFile = .ok (some v) ∧ WellFormed v
      ∧ Addressable v ∧ Writes ⟨v, []⟩ [⟨0, [9]⟩] c'
      ∧ latest [⟨0, [9]⟩] 8 = none
      ∧ shown ⟨v, []⟩ 8 = some 0 ∧ shown c' 8 = some 1)
    ∧ ∃ v c', initBackend wrapFile = .ok (some v) ∧ WellFormed v
      ∧ HeaderFirst v.toHeader ∧ Writes ⟨v, []⟩ [⟨2 ^ 32 + 2, [9]⟩] c'
      ∧ latest [⟨2 ^ 32 + 2, [9]⟩] 0 = none
      ∧ shown ⟨v, []⟩ 0 = some 0 ∧ shown c' 0 = some 9 := by
  constructor
  · obtain ⟨c', hws, hbefore, hafter⟩ := overlapImage_write
    obtain ⟨hopens, hwell, haddr⟩ := overlapFile_opens
    exact ⟨overlapImage, c', hopens, hwell, haddr, hws, by decide, hbefore, hafter⟩
  · obtain ⟨c', hws, hbefore, hafter⟩ := wrapImage_write
    obtain ⟨hopens, hwell, hfirst⟩ := wrapFile_opens
    exact ⟨wrapImage, c', hopens, hwell, hfirst, hws, by decide, hbefore, hafter⟩

end NextUfs.Vdi
