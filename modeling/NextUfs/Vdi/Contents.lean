/-
  NextUfs.Vdi.Contents
  ────────────────────
  **WHAT A VDI CHAIN SHOWS.**

  `byteAt` is the guest byte an image and its parents show at an offset, block
  by block and down the chain; it is undefined where no read can succeed.  The
  read loop, with its chunks and its clamping to the parent's size, computes
  exactly that:

    • `backendRead_eq` — a read of a range succeeds exactly when every byte of
      the range is defined, and returns these bytes.
-/
import NextUfs.Vdi.Backend

namespace NextUfs.Vdi

open Host

/-! ## §1. The guest bytes. -/

/-- What a block with a given map entry shows at `i` where the parent shows
`under`. -/
def Header.entryByte (h : Header) (file : ByteFile) (under : Option UInt8)
    (mapEntry i : Nat) : Option UInt8 :=
  if mapEntry = VDI_MAP_UNALLOCATED then
    if h.hasParent then under else some 0
  else if mapEntry = VDI_MAP_ZERO then some 0
  else file.byteAt (h.fileOff mapEntry (i % h.blockSize))

theorem entryByte_allocated {h : Header} {file : ByteFile}
    {under : Option UInt8} {mapEntry i : Nat} (halloc : isAllocated mapEntry) :
    h.entryByte file under mapEntry i =
      file.byteAt (h.fileOff mapEntry (i % h.blockSize)) := by
  unfold Header.entryByte
  rw [if_neg halloc.1, if_neg halloc.2]

/-- A block without a data block does not look at the file. -/
theorem entryByte_free {h : Header} (file file' : ByteFile)
    {under : Option UInt8} {mapEntry i : Nat}
    (hfree : ¬isAllocated mapEntry) :
    h.entryByte file under mapEntry i = h.entryByte file' under mapEntry i := by
  unfold Header.entryByte
  by_cases hun : mapEntry = VDI_MAP_UNALLOCATED
  · rw [if_pos hun, if_pos hun]
  · have hz : mapEntry = VDI_MAP_ZERO := by
      by_contra hz
      exact hfree ⟨hun, hz⟩
    rw [if_neg hun, if_neg hun, if_pos hz, if_pos hz]

/-- What the first image of a chain shows at `i` where its parent shows
`under`. -/
def blockByte (v : Backend) (under : Option UInt8) (i : Nat) : Option UInt8 :=
  v.entryByte v.file.contents under (v.blockMap (v.blockIndex i)) i

/-- The byte a chain shows at a guest offset.  Past its end a parent shows
zeros to the image above it. -/
def byteAt : List Backend → Nat → Option UInt8
  | [], _ => none
  | v :: parents, i =>
    if v.diskSize ≤ i ∨ v.blockCount ≤ v.blockIndex i then none
    else
      blockByte v (if imageSize parents ≤ i then some 0 else byteAt parents i) i

/-- What the parents show to the image above them. -/
def under (parents : List Backend) (i : Nat) : Option UInt8 :=
  if imageSize parents ≤ i then some 0 else byteAt parents i

theorem byteAt_cons (v : Backend) (parents : List Backend) (i : Nat) :
    byteAt (v :: parents) i =
      if v.diskSize ≤ i ∨ v.blockCount ≤ v.blockIndex i then none
      else blockByte v (under parents i) i := rfl

/-- The block sizes of a chain as the opener accepts them: a 32-bit field that
is not zero. -/
def Opened (chain : List Backend) : Prop :=
  ∀ v ∈ chain, 0 < v.blockSize ∧ v.blockSize < 2 ^ 32

theorem Opened.tail {v : Backend} {parents : List Backend}
    (h : Opened (v :: parents)) : Opened parents :=
  fun w hw => h w (List.mem_cons_of_mem v hw)

theorem Opened.head {v : Backend} {parents : List Backend}
    (h : Opened (v :: parents)) : 0 < v.blockSize ∧ v.blockSize < 2 ^ 32 :=
  h v List.mem_cons_self

/-! ## §2. Inside one block. -/

section Block

variable {v : Backend} {g k chunk : Nat}

theorem chunkLen_pos (hbs : 0 < v.blockSize) {n : Nat} (hn : 0 < n) :
    0 < v.chunkLen g n := by
  have hlt := Nat.mod_lt g hbs
  unfold Header.chunkLen
  omega

theorem chunkLen_le {n : Nat} : v.chunkLen g n ≤ n := Nat.min_le_right _ _

theorem chunkLen_block (hbs : 0 < v.blockSize) {n : Nat} :
    g % v.blockSize + v.chunkLen g n ≤ v.blockSize := by
  have hlt := Nat.mod_lt g hbs
  unfold Header.chunkLen
  omega

/-- Inside a block quotients do not move and remainders count up. -/
theorem div_mod_in_block (hk : g % v.blockSize + k < v.blockSize) :
    (g + k) / v.blockSize = g / v.blockSize
      ∧ (g + k) % v.blockSize = g % v.blockSize + k := by
  have hg := Nat.div_add_mod g v.blockSize
  have hgk : g + k = v.blockSize * (g / v.blockSize)
      + (g % v.blockSize + k) := by omega
  constructor
  · rw [hgk, Nat.mul_add_div (by omega), Nat.div_eq_of_lt hk, Nat.add_zero]
  · rw [hgk, Nat.mul_add_mod, Nat.mod_eq_of_lt hk]

theorem blockIndex_in_block (hk : g % v.blockSize + k < v.blockSize) :
    v.blockIndex (g + k) = v.blockIndex g := by
  unfold Header.blockIndex
  rw [(div_mod_in_block hk).1]

/-- **The bytes of a data block**: a read at its first byte's file offset sees
the offsets of all of them, for only offsets below 2^63 can be read. -/
theorem reads_fileOff (f : ByteFile) {entry : Nat} {bs : List UInt8}
    (hchunk : g % v.blockSize + chunk ≤ v.blockSize) (hpos : 0 < chunk)
    (hsize : v.blockSize < 2 ^ 32) :
    Reads f.byteAt (v.fileOff entry (g % v.blockSize)) chunk bs ↔
      Reads (fun i => f.byteAt (v.fileOff entry (i % v.blockSize)))
        g chunk bs := by
  have hstep : ∀ k < chunk,
      v.fileOff entry (g % v.blockSize) < OFFSET_END →
      v.fileOff entry ((g + k) % v.blockSize) =
        v.fileOff entry (g % v.blockSize) + k := by
    intro k hk hlow
    rw [(div_mod_in_block (v := v) (g := g) (k := k) (by omega)).2]
    unfold Header.fileOff OFFSET_END at *
    generalize v.dataOffset + v.strideOff entry + v.blockExtra = base at *
    have hbase := Nat.mod_lt (base + g % v.blockSize)
      (show 0 < 2 ^ 64 by omega)
    rw [← Nat.add_assoc, Nat.add_mod, Nat.mod_eq_of_lt (b := 2 ^ 64) (a := k)
      (by omega)]
    exact Nat.mod_eq_of_lt (by omega)
  constructor
  · intro h
    obtain ⟨b, -, hb⟩ := h.some hpos
    have hlow := (ByteFile.byteAt_lt hb).2
    apply Reads.congr (f := fun i =>
      f.byteAt (v.fileOff entry (g % v.blockSize) + (i - g)))
    · refine ⟨h.1, fun k hk => ?_⟩
      show f.byteAt (v.fileOff entry (g % v.blockSize) + (g + k - g)) = _
      rw [Nat.add_sub_cancel_left]
      exact h.2 k hk
    · intro k hk
      show f.byteAt (v.fileOff entry ((g + k) % v.blockSize)) = _
      rw [hstep k hk (by omega), Nat.add_sub_cancel_left]
  · intro h
    obtain ⟨b, -, hb⟩ := h.some hpos
    have hlow : v.fileOff entry (g % v.blockSize) < OFFSET_END := by
      exact (ByteFile.byteAt_lt hb).2
    refine ⟨h.1, fun k hk => ?_⟩
    rw [← hstep k hk hlow]
    exact h.2 k hk

end Block

/-! ## §3. The read loop. -/

/-- A parent's reads as the loop uses them: inside its image. -/
def ReadsParent (parents : List Backend) : Prop :=
  ∀ n o bs, 0 < n → o + n ≤ imageSize parents →
    (backendRead parents n o = .ok bs ↔ Reads (byteAt parents) o n bs)

/-- The parent's bytes of a chunk, with the zeros past its end. -/
theorem readParent_eq {parents : List Backend} (hparents : ReadsParent parents)
    {g chunk : Nat} (hpos : 0 < chunk) (bs : List UInt8) :
    (if imageSize parents ≤ g then Except.ok (zeros chunk)
      else match backendRead parents
          (min chunk (imageSize parents - g)) g with
        | .error _ => .error Errno.EIO
        | .ok ps => .ok (ps ++ zeros
            (chunk - min chunk (imageSize parents - g)))) = .ok bs ↔
      Reads (under parents) g chunk bs := by
  by_cases hend : imageSize parents ≤ g
  · have hzero : ∀ k < chunk, under parents (g + k) = some 0 := by
      intro k hk
      unfold under
      rw [if_pos (by omega)]
    rw [if_pos hend, Reads.replicate hzero]
    simp [zeros, eq_comm]
  rw [if_neg hend]
  generalize hm : min chunk (imageSize parents - g) = m
  have hmchunk : m ≤ chunk := by omega
  have hin : ∀ k < m, under parents (g + k) = byteAt parents (g + k) := by
    intro k hk
    unfold under
    rw [if_neg (by omega)]
  have hout : ∀ k < chunk - m, under parents (g + m + k) = some 0 := by
    intro k hk
    unfold under
    rw [if_pos (by omega)]
  have hread := hparents m g
  constructor
  · intro h
    cases hps : backendRead parents m g with
    | error e =>
      rw [hps] at h
      cases h
    | ok ps =>
      rw [hps] at h
      cases h
      have hlow := ((hread ps (by omega) (by omega)).1 hps).congr hin
      have hhigh := (Reads.replicate hout).2 rfl
      have happ := hlow.append hhigh
      rwa [show m + (chunk - m) = chunk by omega] at happ
  · intro h
    rw [show chunk = m + (chunk - m) by omega] at h
    obtain ⟨hlow, hhigh⟩ := h.split
    have hps : backendRead parents m g = .ok (bs.take m) :=
      (hread _ (by omega) (by omega)).2
        (hlow.congr fun k hk => (hin k hk).symm)
    have hzeros := (Reads.replicate hout).1 hhigh
    rw [hps]
    show Except.ok (bs.take m ++ zeros (chunk - m)) = _
    unfold zeros
    rw [← hzeros, List.take_append_drop]

theorem readChunk_eq {v : Backend} {parents : List Backend}
    (hparents : ReadsParent parents) {g chunk : Nat}
    (hchunk : g % v.blockSize + chunk ≤ v.blockSize) (hpos : 0 < chunk)
    (hsize : v.blockSize < 2 ^ 32) (bs : List UInt8) :
    readChunk v (parentOf parents) g chunk = .ok bs ↔
      Reads (fun i => blockByte v (under parents i) i) g chunk bs := by
  have hindex : ∀ k < chunk, v.blockIndex (g + k) = v.blockIndex g :=
    fun k hk => blockIndex_in_block (by omega)
  unfold readChunk
  generalize hentry : v.blockMap (v.blockIndex g) = entry
  -- the three states of a block
  have hbyte : ∀ k < chunk, blockByte v (under parents (g + k)) (g + k) =
      if entry = VDI_MAP_UNALLOCATED then
        if v.hasParent then under parents (g + k) else some 0
      else if entry = VDI_MAP_ZERO then some 0
      else v.file.contents.byteAt
        (v.fileOff entry ((g + k) % v.blockSize)) := by
    intro k hk
    unfold blockByte Header.entryByte
    rw [hindex k hk, hentry]
  have hzeros : (∀ k < chunk,
        blockByte v (under parents (g + k)) (g + k) = some 0) →
      ((Except.ok (zeros chunk) : Except Errno (List UInt8)) = .ok bs ↔
        Reads (fun i => blockByte v (under parents i) i) g chunk bs) := by
    intro h
    rw [Reads.replicate h]
    simp [zeros, eq_comm]
  by_cases hun : entry = VDI_MAP_UNALLOCATED
  · rw [if_pos hun]
    cases hp : v.hasParent with
    | false =>
      apply hzeros
      intro k hk
      rw [hbyte k hk, if_pos hun, hp]
      rfl
    | true =>
      rw [if_pos rfl]
      have hparent := readParent_eq hparents (g := g) hpos bs
      rw [Reads.congr_iff (f := under parents)]
      · exact hparent
      · intro k hk
        show blockByte v (under parents (g + k)) (g + k) = _
        rw [hbyte k hk, if_pos hun, hp]
        rfl
  rw [if_neg hun]
  by_cases hz : entry = VDI_MAP_ZERO
  · rw [if_pos hz]
    apply hzeros
    intro k hk
    rw [hbyte k hk, if_neg hun, if_pos hz]
  · rw [if_neg hz]
    have hreads := @reads_fileOff v g _ v.file.contents entry bs
      hchunk hpos hsize
    rw [← ByteFile.pread_eq_some] at hreads
    rw [Reads.congr_iff (f := fun i =>
      v.file.contents.byteAt (v.fileOff entry (i % v.blockSize))), ← hreads]
    · cases v.file.contents.pread (v.fileOff entry (g % v.blockSize)) chunk with
      | none => simp
      | some cs => simp
    · intro k hk
      show blockByte v (under parents (g + k)) (g + k) = _
      rw [hbyte k hk, if_neg hun, if_neg hz]

/-- What the loop of an image reads: the blocks it may index. -/
def loopByte (v : Backend) (parents : List Backend) (i : Nat) :
    Option UInt8 :=
  if v.blockCount ≤ v.blockIndex i then none
  else blockByte v (under parents i) i

theorem readLoop_eq {v : Backend} {parents : List Backend}
    (hparents : ReadsParent parents) (hbs : 0 < v.blockSize)
    (hsize : v.blockSize < 2 ^ 32) (fuel : Nat) :
    ∀ g n bs, n ≤ fuel →
      (readLoop v (parentOf parents) fuel g n = .ok bs ↔
        Reads (loopByte v parents) g n bs) := by
  induction fuel with
  | zero =>
    intro g n bs hn
    obtain rfl : n = 0 := by omega
    simp [readLoop, eq_comm]
  | succ fuel ih =>
    intro g n bs hn
    unfold readLoop
    by_cases hn0 : n = 0
    · subst hn0
      simp [eq_comm]
    rw [if_neg hn0]
    generalize hc : v.chunkLen g n = c
    have hcpos : 0 < c := hc ▸ chunkLen_pos hbs (by omega)
    have hcn : c ≤ n := hc ▸ chunkLen_le
    have hcb : g % v.blockSize + c ≤ v.blockSize := hc ▸ chunkLen_block hbs
    have hindex : ∀ k < c, v.blockIndex (g + k) = v.blockIndex g :=
      fun k hk => blockIndex_in_block (by omega)
    by_cases hcount : v.blockCount ≤ v.blockIndex g
    · -- the first byte of the range has no block
      rw [if_pos hcount]
      constructor
      · intro h
        cases h
      · intro h
        obtain ⟨b, -, hb⟩ := h.some (k := 0) (by omega)
        unfold loopByte at hb
        rw [Nat.add_zero, if_pos hcount] at hb
        cases hb
    rw [if_neg hcount]
    show (match readChunk v (parentOf parents) g c with
      | .error e => .error e
      | .ok as =>
        match readLoop v (parentOf parents) fuel (g + c) (n - c) with
        | .error e => .error e
        | .ok rest => .ok (as ++ rest)) = Except.ok bs ↔ _
    have hchunk := fun as => readChunk_eq (v := v) hparents hcb hcpos hsize as
    have hbyte : ∀ k < c, loopByte v parents (g + k) =
        blockByte v (under parents (g + k)) (g + k) := by
      intro k hk
      unfold loopByte
      rw [if_neg (by rw [hindex k hk]; exact hcount)]
    constructor
    · intro h
      cases has : readChunk v (parentOf parents) g c with
      | error e =>
        rw [has] at h
        cases h
      | ok as =>
        rw [has] at h
        simp only at h
        cases hrest : readLoop v (parentOf parents) fuel (g + c) (n - c) with
        | error e =>
          rw [hrest] at h
          cases h
        | ok rest =>
          rw [hrest] at h
          cases h
          have hlow := ((hchunk as).1 has).congr hbyte
          have hhigh := (ih (g + c) (n - c) rest (by omega)).1 hrest
          have happ := hlow.append hhigh
          rwa [show c + (n - c) = n by omega] at happ
    · intro h
      rw [show n = c + (n - c) by omega] at h
      obtain ⟨hlow, hhigh⟩ := h.split
      have has := (hchunk _).2 (hlow.congr fun k hk => (hbyte k hk).symm)
      have hrest := (ih (g + c) (n - c) _ (by omega)).2 hhigh
      rw [has]
      simp only
      rw [hrest]
      simp only [Except.ok.injEq]
      exact List.take_append_drop c bs

/-- **A read of a range** succeeds exactly when the chain shows a byte at every
offset of it, and returns these bytes. -/
theorem backendRead_eq (chain : List Backend) :
    Opened chain → ∀ n o bs, 0 < n →
      (backendRead chain n o = .ok bs ↔ Reads (byteAt chain) o n bs) := by
  induction chain with
  | nil =>
    intro _ n o bs hn
    constructor
    · intro h
      cases h
    · intro h
      obtain ⟨b, -, hb⟩ := h.some hn
      cases hb
  | cons v parents ih =>
    intro hopen n o bs hn
    have hparents : ReadsParent parents := by
      intro m q cs hm _
      exact ih hopen.tail m q cs hm
    have hloop := readLoop_eq hparents hopen.head.1 hopen.head.2 n o n bs
      (Nat.le_refl n)
    unfold backendRead
    by_cases hend : v.diskSize < o + n
    · rw [if_pos hend]
      constructor
      · intro h
        cases h
      · intro h
        -- the last byte of the range lies past the disk
        obtain ⟨b, -, hb⟩ := h.some (k := n - 1) (by omega)
        rw [byteAt_cons, if_pos (Or.inl (by omega))] at hb
        cases hb
    · rw [if_neg hend]
      have hbyte : ∀ k < n, byteAt (v :: parents) (o + k) =
          loopByte v parents (o + k) := by
        intro k hk
        have hlow : ¬v.diskSize ≤ o + k := by omega
        rw [byteAt_cons]
        unfold loopByte
        simp [hlow]
      rw [Reads.congr_iff hbyte]
      exact hloop

end NextUfs.Vdi
