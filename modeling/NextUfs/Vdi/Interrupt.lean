/-
  NextUfs.Vdi.Interrupt
  ─────────────────────
  **A PROCESS THAT DIES BETWEEN TWO HOST WRITES.**

  A new data block is published by its bytes, its map entry and the count, in
  this order.  Between the last two the file names a data block the count does
  not cover, and the next block that is published gets the same number.

    • `writeLoop_preserves` — what every round keeps, every write keeps,
    • `Mid`                 — a write under way: the image is sound, the file
      says what the memory says, and every prefix of the writes has been
      judged,
    • `interrupted_iff`     — the file left behind can be used again exactly
      when the last write it got is not one of a map entry,
    • `interrupted_aliases` — an image that is lost that way.
-/
import NextUfs.Vdi.Reopen
import NextUfs.Vdi.ReadBack

namespace NextUfs.Vdi

open Host State

/-! ## §1. Runs that may fail. -/

/-- The image a write leaves, whether it succeeds or fails. -/
def stateAfter (r : EStateM.Result Errno Chain Unit) : Chain :=
  match r with
  | .ok _ c => c
  | .error _ c => c

/-- The image after some backend writes, in their order. -/
def runWrites (c : Chain) (ws : List Write) : Chain :=
  ws.foldl (fun c w => stateAfter (backendWrite w.data w.off c)) c

/-- **What every round keeps, every write keeps.** -/
theorem writeLoop_preserves {I : Chain → Prop} {lo hi : Nat}
    (hround : ∀ c g data, I c → data ≠ [] → lo ≤ g → g + data.length ≤ hi →
      I (stateAfter (writeChunk g data c))) (fuel : Nat) :
    ∀ c g data, I c → lo ≤ g → g + data.length ≤ hi →
      I (stateAfter (writeLoop fuel g data c)) := by
  induction fuel with
  | zero =>
    intro c g data hI _ _
    exact hI
  | succ fuel ih =>
    intro c g data hI hlo hhi
    unfold writeLoop
    by_cases hne : data = []
    · rw [if_pos hne]
      exact hI
    rw [if_neg hne, bind_get]
    have hle := chunkLen_le (v := c.image) (g := g) (n := data.length)
    have hfirst := hround c g data hI hne hlo hhi
    cases hrun : writeChunk g data c with
    | error e u =>
      rw [bind_of_error hrun]
      rw [hrun] at hfirst
      exact hfirst
    | ok _ u =>
      rw [bind_of_ok hrun]
      rw [hrun] at hfirst
      apply ih u _ _ hfirst
      · omega
      · rw [List.length_drop]
        omega

theorem backendWrite_preserves {I : Chain → Prop} {c : Chain} {w : Write}
    (hround : w.off + w.data.length ≤ c.image.diskSize →
      ∀ u g data, I u → data ≠ [] → w.off ≤ g →
        g + data.length ≤ w.off + w.data.length →
        I (stateAfter (writeChunk g data u))) (hI : I c) :
    I (stateAfter (backendWrite w.data w.off c)) := by
  unfold backendWrite
  rw [bind_get]
  by_cases hend : c.image.diskSize < w.off + w.data.length
  · rw [if_pos hend]
    exact hI
  · rw [if_neg hend]
    exact writeLoop_preserves (hround (by omega)) _ c w.off w.data hI
      (Nat.le_refl _) (Nat.le_refl _)

/-! ## §2. Images that can be written. -/

/-- An image whose areas keep apart and whose block numbers do not reach the
one that stands for a discarded block. -/
structure Usable (c : Chain) : Prop where
  sound : Sound c
  first : HeaderFirst c.image.toHeader
  numbers : c.image.blockCount ≤ VDI_MAP_ZERO

theorem Usable.published {c : Chain} {index : Nat} {buf : List UInt8}
    (hu : Usable c) (hroom : c.image.blocksAllocated < c.image.blockCount) :
    Usable (c.published index buf) :=
  ⟨published_sound hu.sound hroom, hu.first, hu.numbers⟩

theorem Usable.chunkWritten {c : Chain} {g : Nat} {data : List UInt8}
    (hu : Usable c) : Usable (c.chunkWritten g data) :=
  ⟨chunkWritten_sound hu.sound, hu.first, hu.numbers⟩

/-- What one round of a write can do to a usable image: nothing, or write the
chunk, after a publication perhaps. -/
theorem Usable.writeChunk {c : Chain} {g : Nat} {data : List UInt8}
    (hu : Usable c) (hg : g < c.image.diskSize) :
    stateAfter (writeChunk g data c) = c
      ∨ ∃ u, (u = c ∨ ∃ buf, Fills c (g / c.image.blockSize) buf
          ∧ c.image.blocksAllocated < c.image.blockCount
          ∧ u = c.published (g / c.image.blockSize) buf)
        ∧ isAllocated (u.image.blockMap (g / c.image.blockSize))
        ∧ stateAfter (Vdi.writeChunk g data c) = u.chunkWritten g data := by
  have hnumbers := hu.numbers
  rcases writeChunk_cases hu.sound hg with
    ⟨e, hrun⟩ | ⟨buf, -, hroom, hzero, -⟩ | ⟨u, hpublished, halloc, hrun⟩
  · rw [hrun]
    exact Or.inl rfl
  · omega
  · rw [hrun]
    refine Or.inr ⟨u, ?_, halloc, rfl⟩
    rcases hpublished with hsame | ⟨buf, hfills, hroom, -, hpub⟩
    · exact Or.inl hsame
    · exact Or.inr ⟨buf, hfills, hroom, hpub⟩

/-- A usable image stays usable, and keeps its header and its parents. -/
theorem runWrites_usable (ws : List Write) : ∀ {c : Chain}, Usable c →
    Usable (runWrites c ws)
      ∧ (runWrites c ws).image.toHeader = c.image.toHeader
      ∧ (runWrites c ws).parents = c.parents := by
  induction ws with
  | nil =>
    intro c hu
    exact ⟨hu, rfl, rfl⟩
  | cons w ws ih =>
    intro c hu
    have hstep := backendWrite_preserves (c := c) (w := w)
      (I := fun u => Usable u ∧ u.image.toHeader = c.image.toHeader
        ∧ u.parents = c.parents) ?_ ⟨hu, rfl, rfl⟩
    · obtain ⟨husable, hheader, hparents⟩ := hstep
      obtain ⟨hrest, hheader', hparents'⟩ := ih husable
      exact ⟨hrest, hheader'.trans hheader, hparents'.trans hparents⟩
    · intro hin u g data hI hne _ hhi
      obtain ⟨huu, hheader, hparents⟩ := hI
      have hpos := List.length_pos_of_ne_nil hne
      have hg : g < u.image.diskSize := by
        rw [hheader]
        omega
      rcases huu.writeChunk hg with hsame | ⟨t, ht, -, hrun⟩
      · rw [hsame]
        exact ⟨huu, hheader, hparents⟩
      · rw [hrun]
        rcases ht with rfl | ⟨buf, -, hroom, rfl⟩
        · exact ⟨huu.chunkWritten, hheader, hparents⟩
        · exact ⟨(huu.published hroom).chunkWritten, hheader, hparents⟩

/-! ## §3. Files that can be used again. -/

/-- Allocated entries are below the count. -/
def EntriesBelow (v : Backend) : Prop :=
  ∀ b < v.blockCount, isAllocated (v.blockMap b) →
    v.blockMap b < v.blocksAllocated

/-- Allocated entries name different data blocks. -/
def EntriesDistinct (v : Backend) : Prop :=
  ∀ b < v.blockCount, ∀ b' < v.blockCount, isAllocated (v.blockMap b) →
    v.blockMap b = v.blockMap b' → b = b'

/-- **The file can be used again**: it opens, its entries are distinct and
below the count in its header, it shows every byte outside the range of `req`
that could be read before, and no further writes give two entries one data
block. -/
def Recovered (before : Chain) (req : Write) (f : ByteFile) : Prop :=
  ∃ w, initBackend f = .ok (some w) ∧ EntriesBelow w ∧ EntriesDistinct w
    ∧ (∀ i x, shown before i = some x →
      ¬(req.off ≤ i ∧ i < req.off + req.data.length) →
      shown ⟨w, before.parents⟩ i = some x)
    ∧ ∀ more, EntriesDistinct (runWrites ⟨w, before.parents⟩ more).image

/-- A write of a map entry. -/
def InMap (h : Header) (last : Option Write) : Prop :=
  ∃ w, last = some w ∧ h.mapOffset ≤ w.off
    ∧ w.off < h.mapOffset + h.blockCount * 4

/-- The file of an image says what the memory says. -/
def Saved (c : Chain) : Prop :=
  OpensAs c.image.file.contents c.image.toHeader c.image.blocksAllocated
    c.image.blockMap

/-- A file that says what the memory says can be used again. -/
theorem recovered_of_saved {before u : Chain} {req : Write} (hu : Usable u)
    (hbefore : Opened before.images) (hsaved : Saved u)
    (hparents : u.parents = before.parents)
    (hkept : ∀ i x, byteAt before.images i = some x →
      ¬(req.off ≤ i ∧ i < req.off + req.data.length) →
      byteAt u.images i = some x) :
    Recovered before req u.image.file.contents := by
  obtain ⟨w, hinit, hheader, hcount, hmap, hfile⟩ := hsaved
  have hw := hu.sound.wellFormed
  have hblocks : w.blockCount = u.image.blockCount := by rw [hheader]
  have hbelow : EntriesBelow w := by
    intro b hb halloc
    rw [hblocks] at hb
    rw [hmap b hb] at halloc ⊢
    rw [hcount]
    exact hw.entries_lt b hb halloc
  have hdistinct : EntriesDistinct w := by
    intro b hb b' hb' halloc heq
    rw [hblocks] at hb hb'
    rw [hmap b hb] at halloc heq
    rw [hmap b' hb'] at heq
    exact hw.entries_inj b hb b' hb' halloc heq
  have hwell : WellFormed w := by
    constructor
    · rw [hheader]
      exact hw.blockSize_pos
    · rw [hheader]
      exact hw.blockSize_lt
    · rw [hheader]
      exact hw.blockCount_lt
    · rw [hheader]
      exact hw.map_data
    · rw [hheader]
      exact hw.covers
    · exact hbelow
    · exact hdistinct
  have hwu : Usable ⟨w, before.parents⟩ := by
    refine ⟨⟨hwell, ?_, ?_⟩, ?_, ?_⟩
    · have haddr := hu.sound.addressable
      unfold Addressable at *
      show w.dataOffset + max w.blockCount w.blocksAllocated
        * (w.blockSize + w.blockExtra) ≤ OFFSET_END
      rw [hcount, hheader]
      exact haddr
    · exact hparents ▸ hu.sound.parents
    · show HeaderFirst w.toHeader
      rw [hheader]
      exact hu.first
    · show w.blockCount ≤ VDI_MAP_ZERO
      rw [hblocks]
      exact hu.numbers
  -- the reopened image shows what the open one showed
  have hbytes : ∀ i x, byteAt u.images i = some x →
      byteAt (w :: before.parents) i = some x := by
    intro i x hx
    have hi : i < u.image.diskSize := byteAt_lt hx
    have hiw : i < w.diskSize := by
      rw [hheader]
      exact hi
    obtain ⟨-, hlt⟩ := hw.blockIndex_eq hi
    have hold : byteAt u.images i =
        u.image.entryByte u.image.file.contents (under u.parents i)
          (u.image.blockMap (i / u.image.blockSize)) i :=
      hw.byteAt_eq hi u.parents
    rw [hold, hparents] at hx
    rw [hwell.byteAt_eq hiw before.parents, hfile, hheader, hmap _ hlt]
    exact hx
  refine ⟨w, hinit, hbelow, hdistinct, fun i x hx hout => ?_, fun more => ?_⟩
  · rw [shown_eq hbefore] at hx
    rw [shown_eq hwu.sound.opened]
    exact hbytes i x (hkept i x hx hout)
  · exact (runWrites_usable more hwu).1.sound.wellFormed.entries_inj

/-- A file in which the last data block that was handed out is named but not
counted cannot. -/
theorem not_recovered_of_uncounted {before : Chain} {req : Write}
    {f : ByteFile} {h : Header} {n : Nat} {m : Nat → Nat} {b : Nat}
    (hopen : OpensAs f h n m) (hb : b < h.blockCount) (hentry : m b = n)
    (halloc : isAllocated n) : ¬Recovered before req f := by
  rintro ⟨w, hinit, hbelow, -⟩
  obtain ⟨w', hinit', rfl, rfl, hmap, -⟩ := hopen
  rw [hinit] at hinit'
  cases hinit'
  have hlt := hbelow b hb
  rw [hmap b hb, hentry] at hlt
  exact absurd (hlt halloc) (Nat.lt_irrefl _)

/-! ## §4. A write under way. -/

/-- `u` is a state of the image between two rounds of the write `req`, which
began at `before`. -/
structure Mid (before : Chain) (req : Write) (u : Chain) : Prop where
  usable : Usable u
  header : u.image.toHeader = before.image.toHeader
  parents : u.parents = before.parents
  saved : Saved u
  settled : ¬InMap before.image.toHeader u.image.file.issued.getLast?
  kept : ∀ i x, byteAt before.images i = some x →
    ¬(req.off ≤ i ∧ i < req.off + req.data.length) →
    byteAt u.images i = some x
  judged : HostFile.AllCuts (fun last f =>
      Recovered before req f ↔ ¬InMap before.image.toHeader last)
    before.image.file.issued.length u.image.file

section Mid

variable {before u : Chain} {req : Write}

/-- A write past the map which leaves the bytes outside the range as they
are shown. -/
theorem Mid.pastMap (hbefore : Opened before.images) (hm : Mid before req u)
    {off : Nat} {data : List UInt8} (hoff : u.image.dataOffset ≤ off)
    (hkept : ∀ i x, byteAt u.images i = some x →
      ¬(req.off ≤ i ∧ i < req.off + req.data.length) →
      byteAt (u.withFile (u.image.file.pwrite off data)).images i = some x) :
    Mid before req (u.withFile (u.image.file.pwrite off data)) := by
  have hw := hm.usable.sound.wellFormed
  have hmapEnd : u.image.mapOffset + u.image.blockCount * 4 ≤ off :=
    Nat.le_trans hw.map_data hoff
  have husable : Usable (u.withFile (u.image.file.pwrite off data)) :=
    ⟨⟨⟨hw.blockSize_pos, hw.blockSize_lt, hw.blockCount_lt, hw.map_data,
        hw.covers, hw.entries_lt, hw.entries_inj⟩,
      hm.usable.sound.addressable, hm.usable.sound.parents⟩,
      hm.usable.first, hm.usable.numbers⟩
  have hsaved : Saved (u.withFile (u.image.file.pwrite off data)) := by
    show OpensAs (u.image.file.pwrite off data).contents _ _ _
    rw [HostFile.contents_pwrite]
    exact hm.saved.past hm.usable.first hmapEnd
  have hno : ¬InMap before.image.toHeader (some ⟨off, data⟩) := by
    rintro ⟨w, hlast, -, hlt⟩
    cases hlast
    rw [← hm.header] at hlt
    exact absurd hmapEnd (Nat.not_le_of_lt hlt)
  have hall : ∀ i x, byteAt before.images i = some x →
      ¬(req.off ≤ i ∧ i < req.off + req.data.length) →
      byteAt (u.withFile (u.image.file.pwrite off data)).images i = some x :=
    fun i x hx hout => hkept i x (hm.kept i x hx hout) hout
  refine ⟨husable, hm.header, hm.parents, hsaved, ?_, hall, ?_⟩
  · show ¬InMap _ (u.image.file.pwrite off data).issued.getLast?
    rw [HostFile.issued_pwrite, List.getLast?_concat]
    exact hno
  · apply hm.judged.pwrite
    have hrec := recovered_of_saved husable hbefore hsaved hm.parents hall
    have hcontents : (u.withFile (u.image.file.pwrite off data)).image.file.contents
        = u.image.file.contents.pwrite off data := HostFile.contents_pwrite ..
    rw [hcontents] at hrec
    exact ⟨fun _ => hno, fun _ => hrec⟩

/-- Bytes of data blocks in use do not see a write into a free one. -/
theorem free_kept (hu : Usable u) {off : Nat} {data : List UInt8}
    (hoff : u.image.blockStart u.image.blocksAllocated ≤ off) (i : Nat)
    (x : UInt8) (hx : byteAt u.images i = some x) :
    byteAt (u.withFile (u.image.file.pwrite off data)).images i = some x := by
  have hw := hu.sound.wellFormed
  have ha := hu.sound.addressable
  have hi : i < u.image.diskSize := byteAt_lt hx
  obtain ⟨-, hlt⟩ := hw.blockIndex_eq hi
  have hmod := Nat.mod_lt i hw.blockSize_pos
  have hold : byteAt u.images i =
      u.image.entryByte u.image.file.contents (under u.parents i)
        (u.image.blockMap (i / u.image.blockSize)) i :=
    hw.byteAt_eq hi u.parents
  have hnew : byteAt (u.withFile (u.image.file.pwrite off data)).images i =
      u.image.entryByte (u.image.file.pwrite off data).contents
        (under u.parents i) (u.image.blockMap (i / u.image.blockSize)) i :=
    WellFormed.byteAt_eq
      (v := (u.withFile (u.image.file.pwrite off data)).image)
      ⟨hw.blockSize_pos, hw.blockSize_lt, hw.blockCount_lt, hw.map_data,
        hw.covers, hw.entries_lt, hw.entries_inj⟩ hi u.parents
  rw [hold] at hx
  rw [hnew]
  by_cases halloc : isAllocated (u.image.blockMap (i / u.image.blockSize))
  · have he := hw.entries_lt _ hlt halloc
    have hoffset := ha.fileOff_eq
      (e := u.image.blockMap (i / u.image.blockSize)) (by omega) hmod
    have hstep := blockStart_lt (v := u.image) he
    rw [entryByte_allocated halloc, hoffset] at hx ⊢
    rw [HostFile.contents_pwrite]
    exact ByteFile.byteAt_pwrite_out hx (by omega)
  · rw [entryByte_free _ u.image.file.contents halloc]
    exact hx

/-- The bytes of a new data block, before anything names it. -/
theorem Mid.block (hbefore : Opened before.images) (hm : Mid before req u)
    (hroom : u.image.blocksAllocated < u.image.blockCount)
    (buf : List UInt8) :
    Mid before req (u.withFile (blockFile u.image buf)) := by
  have hstart := hm.usable.sound.addressable.fileStart_eq
    (e := u.image.blocksAllocated) (by omega)
  have hdata := blockStart_ge (v := u.image) (e := u.image.blocksAllocated)
  have hextra : Mid before req (u.withFile (extraFile u.image)) := by
    unfold extraFile
    split
    · apply hm.pastMap hbefore
      · omega
      · intro i x hx _
        exact free_kept hm.usable (by omega) i x hx
    · exact hm
  -- the block goes where the first file's extra bytes end
  apply hextra.pastMap hbefore
  · show u.image.dataOffset ≤ _
    omega
  · intro i x hx _
    apply free_kept hextra.usable _ i x hx
    show u.image.blockStart u.image.blocksAllocated ≤ _
    omega

/-- **A publication**: the prefix that ends with the map entry is the one that
cannot be used again. -/
theorem Mid.published (hbefore : Opened before.images) (hm : Mid before req u)
    {index : Nat} {buf : List UInt8} (hfills : Fills u index buf)
    (hindex : index < u.image.blockCount)
    (hroom : u.image.blocksAllocated < u.image.blockCount) :
    Mid before req (u.published index buf) := by
  have hblock := hm.block hbefore hroom buf
  have hnumbers := hm.usable.numbers
  have hzero : VDI_MAP_ZERO < 2 ^ 32 := by decide
  have halloc := (next_isAllocated hm.usable.sound.wellFormed hroom).2
    (show u.image.blocksAllocated ≠ VDI_MAP_ZERO by omega)
  -- the file with the map entry
  have hmapped : OpensAs (mappedFile u.image index buf).contents
      u.image.toHeader u.image.blocksAllocated
      (Function.update u.image.blockMap index u.image.blocksAllocated) := by
    unfold mappedFile
    rw [HostFile.contents_pwrite]
    have hopen : OpensAs (blockFile u.image buf).contents u.image.toHeader
      u.image.blocksAllocated u.image.blockMap := hblock.saved
    exact hopen.entry hm.usable.first hindex (by omega)
  -- the file with the count
  have hsaved : Saved (u.published index buf) := by
    show OpensAs (countedFile u.image index buf).contents u.image.toHeader
      (u.image.blocksAllocated + 1) _
    unfold countedFile
    rw [HostFile.contents_pwrite]
    exact hmapped.count hm.usable.first (by omega)
  have husable : Usable (u.published index buf) := hm.usable.published hroom
  have hkept : ∀ i x, byteAt before.images i = some x →
      ¬(req.off ≤ i ∧ i < req.off + req.data.length) →
      byteAt (u.published index buf).images i = some x := by
    intro i x hx hout
    exact published_bytes hm.usable.sound hm.usable.first hindex hroom
      (by omega) hfills (hm.kept i x hx hout)
  have hin : InMap before.image.toHeader (some
      ⟨u.image.mapOffset + index * 4, le32 u.image.blocksAllocated⟩) := by
    rw [← hm.header]
    refine ⟨_, rfl, Nat.le_add_right _ _, ?_⟩
    show u.image.mapOffset + index * 4
      < u.image.mapOffset + u.image.blockCount * 4
    omega
  have hout : ¬InMap before.image.toHeader (some
      ⟨VDI_BLOCKS_ALLOC_OFF, le32 (u.image.blocksAllocated + 1)⟩) := by
    rintro ⟨w, hlast, hlow, -⟩
    cases hlast
    have hfirst := hm.usable.first
    rw [← hm.header] at hlow
    have hle : VDI_UUID_PARENT_OFF + 16 ≤ VDI_BLOCKS_ALLOC_OFF :=
      Nat.le_trans hfirst hlow
    exact absurd hle (by decide)
  refine ⟨husable, hm.header, hm.parents, hsaved, ?_, hkept, ?_⟩
  · show ¬InMap _ (countedFile u.image index buf).issued.getLast?
    unfold countedFile
    rw [HostFile.issued_pwrite, List.getLast?_concat]
    exact hout
  · -- the prefixes, one write after the other
    have hcuts := hblock.judged
    have hentry : HostFile.AllCuts (fun last f =>
          Recovered before req f ↔ ¬InMap before.image.toHeader last)
        before.image.file.issued.length (mappedFile u.image index buf) := by
      apply HostFile.AllCuts.pwrite hcuts
      have hno : ¬Recovered before req
          (mappedFile u.image index buf).contents :=
        not_recovered_of_uncounted hmapped hindex
          (Function.update_self ..) halloc
      unfold mappedFile at hno
      rw [HostFile.contents_pwrite] at hno
      exact ⟨fun h => absurd h hno, fun h => absurd hin h⟩
    apply HostFile.AllCuts.pwrite hentry
    have hrec := recovered_of_saved husable hbefore hsaved hm.parents hkept
    have hcontents : (u.published index buf).image.file.contents =
        (mappedFile u.image index buf).contents.pwrite VDI_BLOCKS_ALLOC_OFF
          (le32 (u.image.blocksAllocated + 1)) := HostFile.contents_pwrite ..
    rw [hcontents] at hrec
    exact ⟨fun _ => hout, fun _ => hrec⟩

/-- The chunk itself. -/
theorem Mid.chunkWritten (hbefore : Opened before.images)
    (hm : Mid before req u) {g : Nat} {data : List UInt8} (hlo : req.off ≤ g)
    (hhi : g + data.length ≤ req.off + req.data.length)
    (hg : g < u.image.diskSize)
    (halloc : isAllocated (u.image.blockMap (g / u.image.blockSize))) :
    Mid before req (u.chunkWritten g data) := by
  have hs := hm.usable.sound
  have hw := hs.wellFormed
  obtain ⟨-, hlt⟩ := hw.blockIndex_eq hg
  have he := hw.entries_lt _ hlt halloc
  have hmod := Nat.mod_lt g hw.blockSize_pos
  have hdata := blockStart_ge (v := u.image)
    (e := u.image.blockMap (g / u.image.blockSize))
  have hoff := hs.addressable.fileOff_eq
    (e := u.image.blockMap (g / u.image.blockSize)) (by omega) hmod
  have hle := chunkLen_le (v := u.image) (g := g) (n := data.length)
  apply hm.pastMap hbefore
  · omega
  · intro i x hx hout
    exact (chunkWritten_bytes hs hg halloc).2 i x hx (by omega)

/-- One round. -/
theorem Mid.writeChunk (hbefore : Opened before.images)
    (hm : Mid before req u)
    (hin : req.off + req.data.length ≤ before.image.diskSize) {g : Nat}
    {data : List UInt8} (hne : data ≠ []) (hlo : req.off ≤ g)
    (hhi : g + data.length ≤ req.off + req.data.length) :
    Mid before req (stateAfter (Vdi.writeChunk g data u)) := by
  have hpos := List.length_pos_of_ne_nil hne
  have hg : g < u.image.diskSize := by
    rw [hm.header]
    omega
  obtain ⟨-, hlt⟩ := hm.usable.sound.wellFormed.blockIndex_eq hg
  rcases hm.usable.writeChunk hg with
    hsame | ⟨t, ht, halloc, hrun⟩
  · rw [hsame]
    exact hm
  · rw [hrun]
    rcases ht with rfl | ⟨buf, hfills, hroom, rfl⟩
    · exact hm.chunkWritten hbefore hlo hhi hg halloc
    · exact (hm.published hbefore hfills hlt hroom).chunkWritten hbefore
        hlo hhi hg halloc

end Mid

/-! ## §5. Interruptions. -/

/-- Between two backend writes the file says what the memory says. -/
structure AtRest (c : Chain) : Prop where
  usable : Usable c
  saved : Saved c
  settled : ¬InMap c.image.toHeader c.image.file.issued.getLast?

/-- The state a backend write starts from. -/
theorem AtRest.mid {c : Chain} (h : AtRest c) (req : Write) : Mid c req c where
  usable := h.usable
  header := rfl
  parents := rfl
  saved := h.saved
  settled := h.settled
  kept := fun _ _ hx _ => hx
  judged := by
    apply HostFile.AllCuts.here
    have hrec : Recovered c req _ := recovered_of_saved h.usable
      h.usable.sound.opened h.saved rfl fun _ _ hx _ => hx
    exact ⟨fun _ => h.settled, fun _ => hrec⟩

/-- One backend write, with every prefix of its host writes. -/
theorem AtRest.backendWrite {c : Chain} (h : AtRest c) (req : Write) :
    Mid c req (stateAfter (Vdi.backendWrite req.data req.off c)) := by
  apply backendWrite_preserves (I := Mid c req)
  · intro hin u g data hm hne hlo hhi
    exact hm.writeChunk h.usable.sound.opened hin hne hlo hhi
  · exact h.mid req

theorem runWrites_atRest (ws : List Write) :
    ∀ {c : Chain}, AtRest c → AtRest (runWrites c ws) := by
  induction ws with
  | nil => exact fun h => h
  | cons w ws ih =>
    intro c h
    have hm := h.backendWrite w
    exact ih ⟨hm.usable, hm.saved, hm.header ▸ hm.settled⟩

/-- An image that has just been opened. -/
theorem atRest_of_init {raw : ByteFile} {v : Backend} {parents : List Backend}
    (hinit : initBackend raw = .ok (some v)) (hu : Usable ⟨v, parents⟩) :
    AtRest ⟨v, parents⟩ := by
  cases hhdr : raw.pread 0 512 with
  | none =>
    unfold initBackend at hinit
    rw [hhdr] at hinit
    cases hinit
  | some hdr =>
  have hfile : v.file = ⟨raw, []⟩ := by
    rcases initBackend_cases hhdr with
      ⟨-, hno⟩ | ⟨-, ⟨-, hfail⟩ | ⟨map, -, hok⟩⟩
    · exact absurd hinit (hno v)
    · rw [hfail] at hinit
      cases hinit
    · rw [hok] at hinit
      cases hinit
      rfl
  refine ⟨hu, ⟨v, ?_, rfl, rfl, fun _ _ => rfl, ?_⟩, ?_⟩
  · show initBackend v.file.contents = _
    rw [hfile]
    exact hinit
  · show v.file = ⟨v.file.contents, []⟩
    rw [hfile]
    rfl
  · rintro ⟨w, hlast, -⟩
    rw [show (Chain.mk v parents).image.file.issued = [] from by rw [hfile]]
      at hlast
    cases hlast

/-- **Interruption.**  Open a file whose areas keep apart, do any backend
writes, and let the process die during one more, after any of its host writes:
the file can be used again exactly when the last host write is not one of a
map entry. -/
theorem interrupted_iff {raw : ByteFile} {v : Backend}
    {parents : List Backend} (hinit : initBackend raw = .ok (some v))
    (husable : Usable ⟨v, parents⟩) (done : List Write) (req : Write) {k : Nat}
    (hlow : (runWrites ⟨v, parents⟩ done).image.file.issued.length ≤ k)
    (hhigh : k ≤ (runWrites ⟨v, parents⟩
      (done ++ [req])).image.file.issued.length) :
    Recovered (runWrites ⟨v, parents⟩ done) req
        ((runWrites ⟨v, parents⟩ (done ++ [req])).image.file.cut k) ↔
      ¬InMap v.toHeader ((runWrites ⟨v, parents⟩
        (done ++ [req])).image.file.issued.take k).getLast? := by
  have hrest := runWrites_atRest done (atRest_of_init hinit husable)
  have hmid := hrest.backendWrite req
  have hheader : (runWrites ⟨v, parents⟩ done).image.toHeader = v.toHeader :=
    (runWrites_usable done husable).2.1
  have hlast : runWrites ⟨v, parents⟩ (done ++ [req]) =
      stateAfter (backendWrite req.data req.off
        (runWrites ⟨v, parents⟩ done)) := by
    unfold runWrites
    rw [List.foldl_append]
    rfl
  rw [hlast] at hhigh ⊢
  rw [← hheader]
  exact hmid.judged k hlow hhigh

/-! ## §6. An image that is lost. -/

/-- An image of two blocks, none of them allocated. -/
def twoBlockFile : ByteFile :=
  fieldFile 0x208
    [(VDI_SIG_OFF, VDI_SIGNATURE), (VDI_VERSION_OFF, VDI_VERSION),
      (VDI_HEADER_SIZE_OFF, 0x190), (VDI_TYPE_OFF, VDI_TYPE_DYNAMIC),
      (VDI_BLOCKS_OFFSET_OFF, 0x200), (VDI_DATA_OFFSET_OFF, 0x208),
      (VDI_SECTOR_SIZE_OFF, 512), (VDI_DISK_SIZE_OFF, 16),
      (VDI_BLOCK_SIZE_OFF, 8), (VDI_BLOCK_COUNT_OFF, 2),
      (0x200, VDI_MAP_UNALLOCATED), (0x204, VDI_MAP_UNALLOCATED)]

@[irreducible] def twoBlockImage : Backend :=
  (openedImage (initBackend twoBlockFile)).getD diffImage

theorem twoBlock_opens :
    initBackend twoBlockFile = .ok (some twoBlockImage) := by
  unfold twoBlockImage
  apply openedImage_getD
  decide +kernel

theorem twoBlock_usable : Usable ⟨twoBlockImage, []⟩ := by
  have hwell : WellFormed twoBlockImage := by decide +kernel
  exact ⟨⟨hwell, by decide +kernel, fun v hv => absurd hv List.not_mem_nil⟩,
    by decide +kernel, by decide +kernel⟩

/-- Dying after the first host write, the block's bytes, leaves a file that can
be used again. -/
theorem interrupted_iff_twoBlock : Recovered ⟨twoBlockImage, []⟩ ⟨0, [9]⟩
    ((runWrites ⟨twoBlockImage, []⟩ [⟨0, [9]⟩]).image.file.cut 1) := by
  have hlow : (runWrites ⟨twoBlockImage, []⟩ []).image.file.issued.length
      ≤ 1 := by decide +kernel
  have hhigh : 1 ≤ (runWrites ⟨twoBlockImage, []⟩
      ([] ++ [⟨0, [9]⟩])).image.file.issued.length := by decide +kernel
  have hlast : ((runWrites ⟨twoBlockImage, []⟩
      ([] ++ [⟨0, [9]⟩])).image.file.issued.take 1).getLast? =
      some ⟨0x208, zeros 8⟩ := by decide +kernel
  apply (interrupted_iff twoBlock_opens twoBlock_usable [] ⟨0, [9]⟩ hlow
    hhigh).2
  rw [hlast]
  rintro ⟨w, hw, -, hlt⟩
  cases hw
  have hend : ¬(0x208 : Nat) < twoBlockImage.mapOffset
      + twoBlockImage.blockCount * 4 := by decide +kernel
  exact hend hlt

/-- The file after the second, the map entry. -/
def cutFile : ByteFile :=
  (runWrites ⟨twoBlockImage, []⟩ [⟨0, [9]⟩]).image.file.cut 2

/-- What the opener makes of it. -/
@[irreducible] def cutImage : Backend :=
  (openedImage (initBackend cutFile)).getD diffImage

theorem cutFile_opens : initBackend cutFile = .ok (some cutImage) := by
  unfold cutImage
  apply openedImage_getD
  decide +kernel

/-- **An image that is lost.**  The process dies after the second host write
of a write to the first block.  The reopened image has an entry that is not
below its count, and a write to the second block makes the two share a data
block. -/
theorem interrupted_aliases :
    initBackend twoBlockFile = .ok (some twoBlockImage)
      ∧ Usable ⟨twoBlockImage, []⟩
      ∧ 2 ≤ (runWrites ⟨twoBlockImage, []⟩ [⟨0, [9]⟩]).image.file.issued.length
      ∧ initBackend ((runWrites ⟨twoBlockImage, []⟩
          [⟨0, [9]⟩]).image.file.cut 2) = .ok (some cutImage)
      ∧ ¬EntriesBelow cutImage
      ∧ ¬EntriesDistinct (runWrites ⟨cutImage, []⟩ [⟨8, [5]⟩]).image
      ∧ ¬Recovered ⟨twoBlockImage, []⟩ ⟨0, [9]⟩
        ((runWrites ⟨twoBlockImage, []⟩ [⟨0, [9]⟩]).image.file.cut 2) := by
  have hbelow : ¬EntriesBelow cutImage := by
    intro h
    have hlt := h 0 (by decide +kernel) (by decide +kernel)
    exact absurd hlt (by decide +kernel)
  have hdistinct :
      ¬EntriesDistinct (runWrites ⟨cutImage, []⟩ [⟨8, [5]⟩]).image := by
    intro h
    have hsame := h 0 (by decide +kernel) 1 (by decide +kernel)
      (by decide +kernel) (by decide +kernel)
    exact absurd hsame (by decide)
  refine ⟨twoBlock_opens, twoBlock_usable, by decide +kernel, cutFile_opens,
    hbelow, hdistinct, ?_⟩
  rintro ⟨w, hinit, hw, -⟩
  rw [show (runWrites ⟨twoBlockImage, []⟩ [⟨0, [9]⟩]).image.file.cut 2 =
    cutFile from rfl, cutFile_opens] at hinit
  cases hinit
  exact hbelow hw

end NextUfs.Vdi
