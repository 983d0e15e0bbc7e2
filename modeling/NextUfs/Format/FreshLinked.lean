/-
  NextUfs.Format.FreshLinked
  ──────────────────────────
  **A FRESH FORMAT IS LINKED.**

  The chunks of the two directories hold the entries the formatter has put
  there and nothing else, and both link counts are the numbers of names.  So
  what keeps an image in order can begin with any fresh one.

    • `lostFoundBuf_chunks` — the chunks of the directory buffer,
    • `OneRun.dirChunk`     — the chunks as the library reads them,
    • `FirstDirs.linked`    — the new disk is in order,
    • `format_runs_linked`  — and so is every disk a run from it leads to.
-/
import NextUfs.Format.FreshDisk
import NextUfs.Mutate.MutationRuns

namespace NextUfs.Format

open Bits Loop Radix Resize

/-! ## §1. The chunks of the buffers. -/

/-- Chunk `j` of a buffer. -/
def chunkOf (buf : Bytes) (j : Nat) : Bytes :=
  (buf.drop (j * DIRBLKSIZ)).take DIRBLKSIZ

/-- The chunk of `/`. -/
def rootChunk : Bytes := chunkOf (makedir rootDir 3) 0

/-- The first chunk of `/lost+found`. -/
def lostFoundChunk : Bytes := chunkOf (makedir lostFoundDir 2) 0

/-- A chunk of one free record. -/
def freeChunk : Bytes :=
  chunkOf (putDirent (List.replicate MAXBSIZE 0) 0 0 DIRBLKSIZ 0 []) 0

/-- The entries of predefined ones. -/
def entriesPut (protodir : List Direct) : List (Nat × Bytes) :=
  protodir.map fun e => (e.ino, e.name)

/-- A chunk in which the walk comes to the end, and finds `es`. -/
theorem wellChunk_of_entries {c : Bytes} {es : List (Nat × Bytes)}
    (h : walkEnd c c.length c.length 0 = c.length ∧
      (∀ r ∈ records c c.length, ¬TooShort r.2) ∧
      entriesOf (records c c.length) = es) : WellChunk c es := by
  obtain ⟨hend, hfits, hentries⟩ := h
  rw [← hentries]
  exact wellChunk_of_walk hend hfits

theorem rootChunk_well : WellChunk rootChunk (entriesPut rootDir) :=
  wellChunk_of_entries (by decide +kernel)

theorem lostFoundChunk_well :
    WellChunk lostFoundChunk (entriesPut (lostFoundDir.take 2)) :=
  wellChunk_of_entries (by decide +kernel)

theorem freeChunk_well : WellChunk freeChunk [] :=
  wellChunk_of_entries (by decide +kernel)

/-- A record that fits is put in a buffer of the same length. -/
theorem putDirent_length {buf name : Bytes} {cp ino reclen namlen : Nat}
    (hname : 8 + namlen ≤ reclen) (h : cp + reclen ≤ buf.length) :
    (putDirent buf cp ino reclen namlen name).length = buf.length := by
  have hput : (writeBe32 ino ++ writeBe16 reclen ++ writeBe16 namlen
      ++ name.take namlen).length ≤ reclen := by
    have htake : (name.take namlen).length ≤ namlen := List.length_take_le ..
    have hhead : (writeBe32 ino ++ writeBe16 reclen ++ writeBe16 namlen).length = 8 := rfl
    rw [List.length_append, hhead]
    omega
  have hclear : (overlay buf cp (List.replicate reclen 0)).length = buf.length :=
    overlay_length (by rw [List.length_replicate]; exact h)
  unfold putDirent
  rw [overlay_length (by rw [hclear]; omega), hclear]

/-- And so are entries that fit in the space. -/
theorem makedirFrom_length : ∀ (protodir : List Direct) {cp spcleft : Nat} {buf : Bytes},
    (protodir.map fun e => direntSize e.namlen).sum ≤ spcleft →
    cp + spcleft ≤ buf.length →
    (makedirFrom protodir cp spcleft buf).length = buf.length
  | [], _, _, _, _, _ => rfl
  | [e], cp, spcleft, buf, hsum, hroom => by
    have hname := direntSize_pos e.namlen
    rw [List.map_singleton, List.sum_singleton] at hsum
    exact putDirent_length (by omega) hroom
  | e :: e' :: rest, cp, spcleft, buf, hsum, hroom => by
    have hname := direntSize_pos e.namlen
    rw [List.map_cons, List.sum_cons] at hsum
    have hput : (putDirent buf cp e.ino (direntSize e.namlen) e.namlen e.name).length
        = buf.length := putDirent_length (by omega) (by omega)
    show (makedirFrom (e' :: rest) _ _ _).length = _
    rw [makedirFrom_length (e' :: rest) (by omega) (by rw [hput]; omega), hput]

theorem makedir_length {protodir : List Direct} {entries : Nat}
    (h : ((protodir.take entries).map fun e => direntSize e.namlen).sum ≤ DIRBLKSIZ) :
    (makedir protodir entries).length = MAXBSIZE := by
  unfold makedir
  rw [makedirFrom_length _ h (by rw [List.length_replicate]; decide),
    List.length_replicate]

/-- A free record over chunk `i` leaves the other chunks alone. -/
theorem putDirent_chunk {buf : Bytes} (hlen : buf.length = MAXBSIZE) {i : Nat}
    (hi : (i + 1) * DIRBLKSIZ ≤ MAXBSIZE) (j : Nat) :
    (putDirent buf (i * DIRBLKSIZ) 0 DIRBLKSIZ 0 []).length = MAXBSIZE ∧
      chunkOf (putDirent buf (i * DIRBLKSIZ) 0 DIRBLKSIZ 0 []) j
        = if j = i then freeChunk else chunkOf buf j := by
  have hnext : (i + 1) * DIRBLKSIZ = i * DIRBLKSIZ + DIRBLKSIZ := Nat.succ_mul _ _
  have hzeros : (List.replicate DIRBLKSIZ (0 : UInt8)).length = DIRBLKSIZ :=
    List.length_replicate ..
  have hhead : (writeBe32 0 ++ writeBe16 DIRBLKSIZ ++ writeBe16 0
      ++ List.take 0 ([] : Bytes)).length = 8 := by decide
  have hsmall : 8 ≤ DIRBLKSIZ := by decide
  have hchunk : (chunkOf buf i).length = DIRBLKSIZ := by
    unfold chunkOf
    rw [List.length_take, List.length_drop]
    omega
  have hclear : (overlay buf (i * DIRBLKSIZ) (List.replicate DIRBLKSIZ 0)).length
      = MAXBSIZE := by
    rw [overlay_length (by omega), hlen]
  have hzeroed : overlay (chunkOf buf i) 0 (List.replicate DIRBLKSIZ 0)
      = List.replicate DIRBLKSIZ 0 := by
    unfold overlay
    rw [hzeros, List.take_zero, List.nil_append, List.drop_of_length_le (by omega),
      List.append_nil]
  have hfirst : ∀ j, chunkOf (overlay buf (i * DIRBLKSIZ)
      (List.replicate DIRBLKSIZ 0)) j
      = if j = i then List.replicate DIRBLKSIZ 0 else chunkOf buf j := by
    intro j
    have hover := @overlay_chunk buf (List.replicate DIRBLKSIZ 0) i j 0 (by
      show 0 + _ ≤ (chunkOf buf i).length
      omega)
    rw [Nat.add_zero] at hover
    refine hover.trans ?_
    show (if j = i then overlay (chunkOf buf i) 0 _ else _) = _
    rw [hzeroed]
    rfl
  constructor
  · rw [putDirent_length (Nat.le_trans (by decide) hsmall) (by omega), hlen]
  · unfold putDirent
    have hover := @overlay_chunk (overlay buf (i * DIRBLKSIZ)
      (List.replicate DIRBLKSIZ 0)) (writeBe32 0 ++ writeBe16 DIRBLKSIZ
        ++ writeBe16 0 ++ List.take 0 []) i j 0 (by
        show 0 + _ ≤ (chunkOf _ i).length
        rw [hfirst, if_pos rfl]
        omega)
    rw [Nat.add_zero] at hover
    refine hover.trans ?_
    show (if j = i then overlay (chunkOf _ i) 0 _ else chunkOf _ j) = _
    rw [hfirst i, hfirst j, if_pos rfl]
    split
    · decide +kernel
    · rfl

section Fresh

variable {opts : FormatOptions} {fs : Fs}

theorem Sizes.chunks (hs : Sizes fs) : DIRBLKSIZ ∣ fs.bsize := by
  rw [hs.bsize_eq]
  exact Nat.dvd_mul_left_of_dvd hs.dirblk _

/-- **The chunks of `/lost+found`**: its entries, and free records. -/
theorem lostFoundBuf_chunks (hs : Sizes fs) (hpos : 0 < fs.bsize) :
    (lostFoundBuf fs).length = MAXBSIZE ∧
      ∀ j, (j + 1) * DIRBLKSIZ ≤ fs.bsize →
        chunkOf (lostFoundBuf fs) j = if j = 0 then lostFoundChunk else freeChunk := by
  obtain ⟨m, hm⟩ := hs.chunks
  rw [Nat.mul_comm] at hm
  have hle := hs.bsize_le
  have hbytes : 0 < DIRBLKSIZ := by decide
  have hblock : 1 ≤ m := by
    refine Nat.pos_of_ne_zero fun h0 => ?_
    rw [h0, Nat.zero_mul] at hm
    omega
  let I : Nat → Bytes → Prop := fun i buf => ∃ n, i = n * DIRBLKSIZ ∧ 1 ≤ n ∧
    n ≤ m ∧ buf.length = MAXBSIZE ∧
    ∀ j < n, chunkOf buf j = if j = 0 then lostFoundChunk else freeChunk
  have hI : I (forLoop (fun i => i < fs.bsize) DIRBLKSIZ
        (fun i buf => putDirent buf i 0 DIRBLKSIZ 0 []) fs.bsize DIRBLKSIZ
        (makedir lostFoundDir 2)).1
      (forLoop (fun i => i < fs.bsize) DIRBLKSIZ
        (fun i buf => putDirent buf i 0 DIRBLKSIZ 0 []) fs.bsize DIRBLKSIZ
        (makedir lostFoundDir 2)).2 := by
    refine forLoop_induct (I := I) ?_ _ _ _ ?_
    · rintro i buf hi ⟨n, rfl, hn1, hn, hlen, hchunks⟩
      have hi : n * DIRBLKSIZ < fs.bsize := of_decide_eq_true hi
      have hlt : n < m := by
        rw [hm] at hi
        exact Nat.lt_of_mul_lt_mul_right hi
      have hroom : (n + 1) * DIRBLKSIZ ≤ MAXBSIZE := by
        have hmul := Nat.mul_le_mul_right DIRBLKSIZ hlt
        rw [← hm] at hmul
        exact Nat.le_trans hmul hle
      have hput := putDirent_chunk hlen hroom
      refine ⟨n + 1, (Nat.succ_mul _ _).symm, by omega, hlt, (hput 0).1, ?_⟩
      intro j hj
      rw [(hput j).2]
      by_cases hjn : j = n
      · rw [if_pos hjn, if_neg (by omega)]
      · rw [if_neg hjn, hchunks j (by omega)]
    · refine ⟨1, (Nat.one_mul _).symm, Nat.le_refl _, hblock,
        makedir_length (by decide), ?_⟩
      intro j hj
      obtain rfl : j = 0 := by omega
      rfl
  have hdone := @forLoop_done Bytes (fun i => decide (i < fs.bsize)) DIRBLKSIZ
    (fun i buf => putDirent buf i 0 DIRBLKSIZ 0 []) fs.bsize hbytes
    (fun i hi => decide_eq_false (by omega)) fs.bsize DIRBLKSIZ
    (makedir lostFoundDir 2) (by omega)
  have hdone := of_decide_eq_false hdone
  obtain ⟨n, hn, -, hnm, hlen, hchunks⟩ := hI
  refine ⟨hlen, ?_⟩
  intro j hj
  apply hchunks
  rw [hn] at hdone
  have hlt : j * DIRBLKSIZ < n * DIRBLKSIZ := by
    rw [Nat.succ_mul] at hj
    omega
  exact Nat.lt_of_mul_lt_mul_right hlt

/-! ## §2. The directories as the library reads them. -/

/-- A directory of one run has its chunks in it. -/
theorem OneRun.dirPlaces {size d n : Nat} (h : OneRun fs size d n)
    (hdvd : DIRBLKSIZ ∣ size) :
    dirPlaces fs.decoded size = (List.range (size / DIRBLKSIZ)).map fun j => (0, j) := by
  have hchunks : dirChunks fs.decoded size 0 = size / DIRBLKSIZ := by
    obtain ⟨m, hm⟩ := hdvd
    unfold dirChunks
    rw [h.chunkBytes, hm]
    unfold DIRBLKSIZ
    omega
  unfold NextUfs.dirPlaces
  rw [h.fileBlocks]
  show (List.range (dirChunks fs.decoded size 0)).map _ ++ [] = _
  rw [hchunks, List.append_nil]

/-- **The library reads the chunks the formatter has written.** -/
theorem OneRun.dirChunk {size d n : Nat} (h : OneRun fs size d n) {disk : Disk}
    {buf : Bytes} (hlen : size ≤ buf.length)
    (hdata : ∀ i < size, disk.data (d * fs.fsize + i) = buf.getD i 0)
    (now : UInt32) (nlink : UInt16) {j : Nat} (hj : (j + 1) * DIRBLKSIZ ≤ size) :
    dirChunk fs.decoded disk (dirInode fs now nlink size d) (0, j) = chunkOf buf j := by
  have hsize := h.le
  have hblock : dirBlock fs.decoded disk (dirInode fs now nlink size d) 0
      = buf.take size := by
    have hread := @fileBytes_block fs.decoded (dirInode fs now nlink size d) disk 0 0
      size (by
        show 0 + size ≤ fs.bsize
        omega)
    have hfirst : blockAt fs.decoded disk (dirInode fs now nlink size d) 0 = d := rfl
    rw [hfirst, if_neg h.ne_zero] at hread
    unfold dirBlock
    rw [show (dirInode fs now nlink size d).size = size from rfl, h.chunkBytes]
    refine hread.trans ?_
    show (List.range size).map (fun i => disk.data (d * fs.fsize + 0 + i)) = _
    apply List.ext_getElem
    · rw [List.length_map, List.length_range, List.length_take]
      omega
    · intro i hi _
      rw [List.length_map, List.length_range] at hi
      rw [List.getElem_map, List.getElem_range, List.getElem_take, Nat.add_zero,
        hdata i hi, List.getD_eq_getElem _ _ (by omega)]
  unfold NextUfs.dirChunk chunkOf
  dsimp only
  rw [hblock, List.drop_take, List.take_take, Nat.min_eq_left]
  rw [Nat.succ_mul] at hj
  omega

/-- **A directory whose other chunks are free** has the entries of its first. -/
theorem OneRun.entries {size d n : Nat} (h : OneRun fs size d n)
    (hdvd : DIRBLKSIZ ∣ size) {disk : Disk} {now : UInt32} {nlink : UInt16}
    {first : Bytes} {es : List (Nat × Bytes)} (hfirst : WellChunk first es)
    (hchunks : ∀ j, (j + 1) * DIRBLKSIZ ≤ size →
      NextUfs.dirChunk fs.decoded disk (dirInode fs now nlink size d) (0, j)
        = if j = 0 then first else freeChunk) :
    WellChunks fs.decoded disk (dirInode fs now nlink size d) ∧
      dirEntries fs.decoded disk (dirInode fs now nlink size d) = es := by
  have hpos := h.pos
  obtain ⟨m, hm⟩ := hdvd
  have hplaces := h.dirPlaces ⟨m, hm⟩
  rw [hm, Nat.mul_div_cancel_left _ (by decide), ← hm] at hplaces
  have hchunk : ∀ j < m, NextUfs.dirChunk fs.decoded disk
      (dirInode fs now nlink size d) (0, j) = if j = 0 then first else freeChunk := by
    intro j hj
    apply hchunks
    rw [hm, Nat.mul_comm]
    exact Nat.mul_le_mul_left _ hj
  constructor
  · intro x hx
    have hx : x ∈ NextUfs.dirPlaces fs.decoded size := hx
    rw [hplaces] at hx
    obtain ⟨j, hj, rfl⟩ := List.mem_map.mp hx
    rw [hchunk j (List.mem_range.mp hj)]
    split
    · exact ⟨es, hfirst⟩
    · exact ⟨[], freeChunk_well⟩
  · show (NextUfs.dirPlaces fs.decoded size).flatMap _ = es
    rw [hplaces]
    cases m with
    | zero => omega
    | succ m =>
      rw [List.range_succ_eq_map, List.map_cons, List.flatMap_cons, hchunk 0 (by omega),
        if_pos rfl, hfirst.partitioned.entries]
      refine (congrArg (es ++ ·) ?_).trans (List.append_nil es)
      rw [List.flatMap_eq_nil_iff]
      intro x hx
      obtain ⟨j, hj, rfl⟩ := List.mem_map.mp hx
      obtain ⟨i, hi, rfl⟩ := List.mem_map.mp hj
      have hi := List.mem_range.mp hi
      rw [hchunk _ (Nat.succ_lt_succ hi), if_neg (Nat.succ_ne_zero i)]
      exact freeChunk_well.partitioned.entries

/-- The entries of `/`. -/
theorem FirstDirs.rootEntries (hl : LaidOut fs) (hs : Sizes fs) {now : UInt32}
    {im im' : Image} (h : FirstDirs fs now im im') :
    WellChunks fs.decoded (im'.disk now) (rootInode fs now) ∧
      dirEntries fs.decoded (im'.disk now) (rootInode fs now)
        = entriesPut rootDir := by
  have hrun := rootRun hl hs
  have hchunk : DIRBLKSIZ ≤ fs.fsize := Nat.le_of_dvd hl.sized.fsize_pos hs.dirblk
  have hlen : (makedir rootDir 3).length = MAXBSIZE := makedir_length (by decide)
  refine hrun.entries (Nat.dvd_refl _) rootChunk_well ?_
  intro j hj
  have hj0 : j = 0 := by
    unfold DIRBLKSIZ at hj
    omega
  subst hj0
  rw [if_pos rfl]
  refine hrun.dirChunk (by rw [hlen]; decide) ?_ now 3 hj
  intro i hi
  show im'.data _ = _
  rw [h.data]
  unfold dataWith
  rw [if_pos ⟨Nat.le_add_right _ _, by omega⟩, Nat.add_sub_cancel_left]

/-- The entries of `/lost+found`. -/
theorem FirstDirs.lostFoundEntries (hl : LaidOut fs) (hs : Sizes fs) {now : UInt32}
    {im im' : Image} (h : FirstDirs fs now im im') :
    WellChunks fs.decoded (im'.disk now) (lostFoundInode fs now) ∧
      dirEntries fs.decoded (im'.disk now) (lostFoundInode fs now)
        = entriesPut (lostFoundDir.take 2) := by
  have hrun := lostFoundRun hl hs
  obtain ⟨hlen, hbuf⟩ := lostFoundBuf_chunks hs hrun.pos
  refine hrun.entries hs.chunks lostFoundChunk_well ?_
  intro j hj
  rw [← hbuf j hj]
  refine hrun.dirChunk (by rw [hlen]; exact hs.bsize_le) ?_ now 2 hj
  intro i hi
  -- the fragment of the root lies behind the block
  have hnext : (firstBlock fs + 1) * fs.frag * fs.fsize
      = firstBlock fs * fs.frag * fs.fsize + fs.bsize := by
    rw [Nat.succ_mul, Nat.add_mul, hs.bsize_eq]
  show im'.data _ = _
  rw [h.data]
  unfold dataWith
  rw [if_neg (by omega), if_pos ⟨Nat.le_add_right _ _, by omega⟩,
    Nat.add_sub_cancel_left]

/-! ## §3. Order. -/

/-- The geometry of a format with room: the library can work on it. -/
theorem Roomy.geometry (h : Roomy opts fs) : DirGeometry fs.decoded := by
  have hl := h.laidOut
  have hs := h.sizes
  have hfill := nextufsFormat_filled h.accepted
  have hcov : Covered fs := by
    rcases (nextufsFormat_spec h.accepted).2 with hcov | hover
    · exact hcov
    · have hsize := hover.size_eq
      have hpos := hl.fpg_pos
      have hle := h.covered
      rw [Nat.succ_mul] at hsize
      omega
  refine {
    fragsPerBlock := ?fragsPerBlock
    fragsPerGroup_pos := hl.fpg_pos
    blocks_of_group := hl.frag_dvd_fpg
    sectorsPerCyl_pos := hl.spc_pos
    sectorsPerTrack_pos := hl.nsect_pos
    inodesPerGroup_pos := hfill.ipg_pos
    fragSize_pos := hl.sized.fsize_pos
    blockSize_eq := hs.bsize_eq
    fragCount_lt := ?fragCount_lt
    cgCount_pos := h.groups
    dataOff_pos := ?dataOff_pos
    groups_cover := h.covered
    groups_start := fun c hc => Nat.le_of_lt (hcov.size_lt c hc)
    bitmap_fits := ?bitmap_fits
    dirblk := hs.dirblk
    inodesPerBlock_pos := hl.sized.inopb_pos }
  case fragsPerBlock =>
    show fs.frag ∈ [1, 2, 4, 8]
    rcases hl.sized.frag_known with h | h | h | h <;> rw [h] <;> decide
  case fragCount_lt =>
    show fs.size < 2 ^ 32
    have hmul := Nat.le_mul_of_pos_right fs.size hl.sized.nspf_pos
    have hmax := hfill.size_le
    unfold INT_MAX at hmax
    omega
  case dataOff_pos =>
    show 0 < fs.dblkno
    rw [hl.dblkno_eq]
    exact Nat.add_pos_left (Nat.add_pos_right _ hl.sized.frag_pos) _
  case bitmap_fits =>
    show CG_FREE_OFF + (fs.fpg + 7) / 8 ≤ fs.cgsize
    rw [hfill.cgsize_eq]
    refine Nat.le_trans ?_ (le_roundup hl.sized.fsize_pos)
    show 984 + (fs.fpg + 7) / 8 ≤ 988 + (fs.fpg + 7) / 8
    omega

/-- The two directories are whole on the disk. -/
theorem Roomy.runsFit (h : Roomy opts fs) :
    RunFits fs.decoded ((firstBlock fs + 1) * fs.frag) 1 ∧
      RunFits fs.decoded (firstBlock fs * fs.frag) fs.frag := by
  have hfrag := h.laidOut.sized.frag_pos
  have hblock : (firstBlock fs + 1) * fs.frag = firstBlock fs * fs.frag + fs.frag :=
    Nat.succ_mul _ _
  obtain ⟨hend, hsize, -⟩ := h.inside
  refine ⟨⟨Nat.one_pos, ?_, ?_⟩, ⟨hfrag, ?_, ?_⟩⟩
  · show (firstBlock fs + 1) * fs.frag % fs.frag + 1 ≤ fs.frag
    rw [Nat.mul_mod_left]
    omega
  · show (firstBlock fs + 1) * fs.frag + 1 ≤ fs.size
    omega
  · show firstBlock fs * fs.frag % fs.frag + fs.frag ≤ fs.frag
    rw [Nat.mul_mod_left, Nat.zero_add]
  · show firstBlock fs * fs.frag + fs.frag ≤ fs.size
    omega

/-- **A directory of one run is in order.** -/
theorem OneRun.ordered {size d n : Nat} (h : OneRun fs size d n) (hs : Sizes fs)
    {disk : Disk} (hspace : FreeSpace fs.decoded freshModes disk)
    (howned : FragsOwned fs.decoded freshLive disk) {m : Nat} (hm : m ∈ freshLive)
    {now : UInt32} {nlink : UInt16}
    (hcurrent : disk.inodes m = dirInode fs now nlink size d)
    (hfits : RunFits fs.decoded d n)
    (hchunks : WellChunks fs.decoded disk (dirInode fs now nlink size d)) :
    OrderedDir fs.decoded freshLive freshModes disk
      ⟨m, dirInode fs now nlink size d⟩ where
  space := hspace
  owned := howned
  mem := hm
  current := hcurrent
  isDir := by
    show isDirMode (IFDIR ||| UMASK) = true
    decide
  runs := by
    intro lb hlb
    have hlb : lb < NextUfs.fileBlocks fs.decoded size := hlb
    rw [h.fileBlocks] at hlb
    obtain rfl : lb = 0 := by omega
    show RunFits fs.decoded d (NextUfs.fragsNeeded fs.decoded size 0)
    rw [h.fragsNeeded]
    exact hfits
  sectors := by
    have hclaimed : claimedFrags fs.decoded disk (dirInode fs now nlink size d)
        = n := by
      unfold claimedFrags
      rw [Finset.sum_congr rfl fun f _ => h.blockClaims now nlink disk f]
      exact sum_covers hfits.disk
    have hround : fs.fragroundup size = n * fs.fsize := by
      show (size + (fs.fsize - 1)) / fs.fsize * fs.fsize = n * fs.fsize
      have hpos : 0 < fs.fsize := by
        refine Nat.pos_of_ne_zero fun h0 => ?_
        have heq := hs.bsize_eq
        rw [h0, Nat.mul_zero] at heq
        have hle := h.le
        have hsize := h.pos
        omega
      rw [← Nat.add_sub_assoc hpos, h.frags]
    rw [hclaimed]
    show UInt32.ofNat (fs.fragroundup size / DEV_BSIZE) = UInt32.ofNat (n * fs.nspf)
    rw [hround, hs.sectors, ← Nat.mul_assoc, Nat.mul_div_cancel _ (by decide)]
  chunks := hchunks

/-- The inodes in use: those of the directories, and the two that are never
given out. -/
theorem FirstDirs.used (h : Roomy opts fs) {now : UInt32} {f : Formatter}
    {data : Nat → UInt8} {im' : Image}
    (hbuilt : ∀ c < fs.ncg, GroupBuilt fs c (f.cgs c))
    (hdirs : FirstDirs fs now (f.image data) im') {m : Nat}
    (hm : m < inodeCount fs.decoded) :
    inodeUsed fs.decoded (im'.disk now) m = true ↔ m ∈ freshLive ∨ m < ROOT_INODE := by
  have hipg := h.sizes.inodes
  have hpos : 0 < fs.ipg := by omega
  have hm : m < fs.ncg * fs.ipg := hm
  have hc : m / fs.ipg < fs.ncg := Nat.div_lt_of_lt_mul (by rwa [Nat.mul_comm])
  have hin : m % fs.ipg < fs.ipg := Nat.mod_lt _ hpos
  have hlive : m ∈ freshLive ↔ m = ROOTINO ∨ m = LOSTFOUNDINO := by
    unfold freshLive
    rw [Finset.mem_insert, Finset.mem_singleton]
  show (im'.cgs (m / fs.ipg)).iused (m % fs.ipg) = true ↔ _
  rw [hlive]
  by_cases h0 : m / fs.ipg = 0
  · have hlt : m < fs.ipg := by
      rcases Nat.div_eq_zero_iff.mp h0 with hzero | hlt
      · omega
      · exact hlt
    rw [h0, Nat.mod_eq_of_lt hlt, hdirs.iused]
    by_cases hroot : m = ROOTINO
    · subst hroot
      rw [Function.update_self]
      exact iff_of_true rfl (.inl (.inl rfl))
    · rw [Function.update_of_ne hroot]
      by_cases hlost : m = LOSTFOUNDINO
      · subst hlost
        rw [Function.update_self]
        exact iff_of_true rfl (.inl (.inr rfl))
      · rw [Function.update_of_ne hlost]
        show (f.cgs 0).iused m = true ↔ _
        rw [(hbuilt 0 h.groups).iused m hlt, decide_eq_true_eq]
        show 0 = 0 ∧ m < 2 ↔ (m = ROOTINO ∨ m = LOSTFOUNDINO) ∨ m < 2
        omega
  · rw [hdirs.others _ h0]
    show (f.cgs (m / fs.ipg)).iused (m % fs.ipg) = true ↔ _
    rw [(hbuilt _ hc).iused _ hin, decide_eq_true_eq]
    have hge : fs.ipg ≤ m := by
      by_contra hlt
      exact h0 (Nat.div_eq_of_lt (by omega))
    unfold LOSTFOUNDINO ROOTINO ROOT_INODE at *
    omega

/-- **A fresh format is linked.** -/
theorem FirstDirs.linked (h : Roomy opts fs) (hnumbers : fs.ncg * fs.ipg ≤ 2 ^ 32)
    {now : UInt32} {f : Formatter} {data : Nat → UInt8} {im' : Image}
    (hbuilt : ∀ c < fs.ncg, GroupBuilt fs c (f.cgs c))
    (hdirs : FirstDirs fs now (f.image data) im') :
    Linked fs.decoded freshLive freshModes (im'.disk now) := by
  have hl := h.laidOut
  have hs := h.sizes
  have hspace := hdirs.space
  have howned := hdirs.owned h hbuilt
  obtain ⟨hrootChunks, hrootEntries⟩ := hdirs.rootEntries hl hs
  obtain ⟨hlostChunks, hlostEntries⟩ := hdirs.lostFoundEntries hl hs
  have hroot : (im'.disk now).inodes ROOTINO = rootInode fs now := hdirs.root
  have hlost : (im'.disk now).inodes LOSTFOUNDINO = lostFoundInode fs now :=
    hdirs.lostFound
  obtain ⟨hrootFits, hlostFits⟩ := h.runsFit
  have hcases : ∀ m ∈ freshLive, m = ROOTINO ∨ m = LOSTFOUNDINO := by
    intro m hm
    unfold freshLive at hm
    rwa [Finset.mem_insert, Finset.mem_singleton] at hm
  have hmode : ∀ m ∈ freshLive, ((im'.disk now).inodes m).mode = IFDIR ||| UMASK := by
    intro m hm
    rcases hcases m hm with rfl | rfl
    · rw [hroot]
      rfl
    · rw [hlost]
      rfl
  have hdir : ∀ m ∈ freshLive, isDirMode ((im'.disk now).inodes m).mode = true := by
    intro m hm
    rw [hmode m hm]
    decide
  have hentriesRoot : entriesIn fs.decoded (im'.disk now) ROOTINO
      = entriesPut rootDir := by
    rw [entriesIn_of_dir (hdir _ (by decide)), hroot, hrootEntries]
  have hentriesLost : entriesIn fs.decoded (im'.disk now) LOSTFOUNDINO
      = entriesPut (lostFoundDir.take 2) := by
    rw [entriesIn_of_dir (hdir _ (by decide)), hlost, hlostEntries]
  have hentries : ∀ m ∈ freshLive, ∃ protodir ∈ [rootDir, lostFoundDir.take 2],
      entriesIn fs.decoded (im'.disk now) m = entriesPut protodir := by
    intro m hm
    rcases hcases m hm with rfl | rfl
    · exact ⟨_, List.mem_cons_self, hentriesRoot⟩
    · exact ⟨_, List.mem_cons_of_mem _ List.mem_cons_self, hentriesLost⟩
  refine {
    space := hspace
    owned := howned
    numbers := hnumbers
    inRange := ?inRange
    used := fun m hm => hdirs.used h hbuilt hm
    root := by decide
    files := ?files
    dirs := ?dirs
    entries := ?entries
    real := by decide
    rootDir := hdir _ (by decide)
    rootParent := ?rootParent
    known := ?known
    kinds := ?kinds
    inside := ?inside
    unique := ?unique
    links := ?links }
  case inRange =>
    intro m hm
    have hipg := hs.inodes
    have hle : fs.ipg ≤ fs.ncg * fs.ipg := Nat.le_mul_of_pos_left _ h.groups
    show m < fs.ncg * fs.ipg
    rcases hcases m hm with rfl | rfl
    · exact Nat.lt_of_lt_of_le (Nat.lt_trans (by decide) hipg) hle
    · exact Nat.lt_of_lt_of_le hipg hle
  case files =>
    intro m hm hfile
    rw [hdir m hm] at hfile
    cases hfile
  case dirs =>
    intro m hm _
    rcases hcases m hm with rfl | rfl
    · rw [hroot]
      exact (rootRun hl hs).ordered hs hspace howned hm hroot hrootFits hrootChunks
    · rw [hlost]
      exact (lostFoundRun hl hs).ordered hs hspace howned hm hlost hlostFits hlostChunks
  case entries =>
    intro m hm hmdir
    obtain ⟨protodir, hmem, heq⟩ := hentries m hm
    rw [← entriesIn_of_dir hmdir, heq]
    clear heq
    revert protodir
    decide
  case rootParent =>
    show _ ∈ entriesIn fs.decoded (im'.disk now) ROOTINO
    rw [hentriesRoot]
    decide
  case known =>
    intro m hm
    rw [hmode m hm]
    exact .inr (.inl (by decide))
  case kinds =>
    intro m hm
    rw [hmode m hm]
    revert m
    decide
  case inside =>
    intro m hm _ slot x hx
    rcases hcases m hm with rfl | rfl
    · rw [hroot] at hx
      exact absurd rfl hx.1
    · rw [hlost] at hx
      exact absurd rfl hx.1
  case unique =>
    intro m hm
    obtain ⟨protodir, hmem, heq⟩ := hentries m hm
    rw [heq]
    clear heq
    revert protodir
    decide
  case links =>
    intro m hm
    have hcount : nameCount fs.decoded freshLive (im'.disk now) m
        = namesFor m (entriesPut rootDir)
          + namesFor m (entriesPut (lostFoundDir.take 2)) := by
      unfold nameCount freshLive
      rw [Finset.sum_pair (by decide), hentriesRoot, hentriesLost]
    rw [hcount]
    rcases hcases m hm with rfl | rfl
    · rw [hroot]
      rfl
    · rw [hlost]
      rfl

/-- **A fresh format stays in order**: the formatter makes a disk, and on every
disk that a run of calls leads to from it the free space is counted, every
fragment has one owner, every directory is well formed, every name stands for an
allocated inode, and every link count is the number of names. -/
theorem format_runs_linked (h : Roomy opts fs) (hnumbers : fs.ncg * fs.ipg ≤ 2 ^ 32)
    (now : UInt32) (data : Nat → UInt8) :
    ∃ d, writeFormat fs now data = some d ∧
      allocated fs.decoded d = freshLive ∧
      ∀ d', Relation.ReflTransGen (Step fs.decoded) d d' →
        ∃ modes, Linked fs.decoded (allocated fs.decoded d') modes d' := by
  obtain ⟨f, im', hmade, hbuilt, hdirs⟩ := writeFormat_dirs h now data
  have hgeo := h.geometry
  have hfresh := hdirs.linked h hnumbers hbuilt
  have hlive := hfresh.live_eq
  refine ⟨im'.disk now, hmade, hlive.symm, ?_⟩
  intro d' hrun
  induction hrun with
  | refl =>
    rw [← hlive]
    exact ⟨freshModes, hfresh⟩
  | tail _ hstep ih =>
    obtain ⟨modes, hbefore⟩ := ih
    obtain ⟨live, modes', hafter⟩ := step_linked hgeo hbefore hstep
    rw [hafter.live_eq] at hafter
    exact ⟨modes', hafter⟩

end Fresh

/-! ## §4. A file system of three cylinders. -/

/-- It has room. -/
theorem partialTail_roomy :
    Roomy ⟨176, 64, 1, 8192, 1024, 1, 0, false⟩ partialTail where
  accepted := by decide +kernel
  groups := by decide
  covered := by decide
  defined := by decide +kernel
  fit := by
    have hfits : ∀ c < 3, roundup (dupperOf partialTail c) partialTail.frag
        ≤ dmaxOf partialTail c - partialTail.cgbase c := by
      decide +kernel
    exact hfits
  room := by decide +kernel

/-- The mode of `/` is changed, a second after the format. -/
theorem format_runs_linked_partialTail :
    ∃ d d' modes, writeFormat partialTail 0 (fun _ => 0) = some d ∧
      pathChmod partialTail.decoded superuserCtx [SLASH] 0o700 (atTime d 1)
        = .ok () d' ∧
      Linked partialTail.decoded (allocated partialTail.decoded d') modes d' := by
  obtain ⟨d, hmade, -, hruns⟩ :=
    format_runs_linked partialTail_roomy (by decide) 0 fun _ => 0
  obtain ⟨d', hmode⟩ : ∃ d', pathChmod partialTail.decoded superuserCtx [SLASH]
      0o700 (atTime d 1) = .ok () d' := ⟨_, rfl⟩
  have hchmod : Step partialTail.decoded (atTime d 1) d' :=
    .call (.chmod [SLASH] 0o700) superuserCtx hmode rfl fun path hpath => by
      cases hpath
  obtain ⟨modes, hlinked⟩ :=
    hruns d' ((Relation.ReflTransGen.single (.tick d 1)).tail hchmod)
  exact ⟨d, d', modes, hmade, hmode, hlinked⟩

end NextUfs.Format
