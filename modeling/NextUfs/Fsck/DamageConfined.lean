/-
  NextUfs.Fsck.DamageConfined
  ───────────────────────────
  **WHAT ONE BAD CHUNK DOES TO THE OTHERS.**

  A directory block is turned into the order of the host by a walk over the
  whole block, and scanned chunk by chunk.  A chunk whose lengths tile it keeps
  the walk in step; behind a chunk whose lengths do not, the walk may stop or
  lead past the next chunk, which is then taken for corrupted.

    • `scan_delivers`          — a good chunk the walk reaches is handed out and
      written back as its own bytes say,
    • `damage_confined`        — so bytes of another chunk do not matter, as long
      as the walk reaches the chunk,
    • `chunk_lost`             — a chunk the walk passes by is lost.
-/
import NextUfs.Fsck.DirScanSpec

namespace NextUfs.Fsck

open Window Address

variable {σ : Type} {sb : Superblock} {yes : Bool} {imax t : Nat}
  {answer : Nat → Bytes → Option Bytes} {s s' : ScanState σ}

/-! ## §1. Before the scan. -/

/-- The block of the scan as it is on the disk. -/
def dirBlock (sb : Superblock) (s : ScanState σ) : Nat → UInt8 :=
  s.io.dev.block sb (BitVec.ofNat 32 s.idesc.blkno)

/-- A scan that starts: the block is made of chunks, it is one of the file
system's and not in the buffer; the directory is made of chunks, as `descend`
has made it; nothing has been handed out. -/
structure ScanStart (sb : Superblock) (s : ScanState σ) : Prop where
  fresh : Fresh sb s.io (BitVec.ofNat 32 s.idesc.blkno) (blockBytes sb s)
  inside : outrange sb s.idesc.blkno s.idesc.numfrags = false
  block : DIRBLKSIZ ∣ blockBytes sb s
  filesize : (DIRBLKSIZ : Int) ∣ s.idesc.filesize
  delivered : s.delivered = []

/-- The lengths of the records of the chunk at `t` tile it, and every record is
good. -/
structure ValidChunk (imax : Nat) (block : Nat → UInt8) (t : Nat) : Prop where
  tiled : TiledBy false block t (t + DIRBLKSIZ)
  records : ValidRecords imax (swapRange false t (t + DIRBLKSIZ) block) t
    (t + DIRBLKSIZ)

/-- The records handed out from the chunk at `t`. -/
def deliveredFrom (t : Nat) (s : ScanState σ) : List (Nat × Bytes) :=
  s.delivered.filter fun x => decide (t ≤ x.1 ∧ x.1 < t + DIRBLKSIZ)

/-- What the block is on the disk when the scan has been through it and the
buffer is flushed. -/
def writtenBlock (sb : Superblock) (blkno : Nat) (s : ScanState σ) :
    Nat → UInt8 :=
  (flush true s.io).dev.block sb (BitVec.ofNat 32 blkno)

/-- The block in the buffer, in the order of the host. -/
structure Ready (sb : Superblock) (s s₀ : ScanState σ) : Prop where
  inBlock : InBlock sb s₀
  loc : s₀.idesc.loc = 0
  blkno : s₀.idesc.blkno = s.idesc.blkno
  numfrags : s₀.idesc.numfrags = s.idesc.numfrags
  filesize : s₀.idesc.filesize = s.idesc.filesize
  dev : s₀.io.dev = s.io.dev
  size : s₀.io.fileblk.size = blockBytes sb s
  clean : s₀.io.fileblk.dirty = false
  swapped : s₀.io.fileblk.swapped = true
  delivered : s₀.delivered = []
  buf : Same s₀.buf (swapRange false 0 (blockBytes sb s) (dirBlock sb s)) 0
    (blockBytes sb s)

/-- A size made of chunks is not rounded. -/
theorem roundupDirblk_eq {n : Int} (h : (DIRBLKSIZ : Int) ∣ n) :
    roundupDirblk n = n := by
  obtain ⟨m, rfl⟩ := h
  unfold roundupDirblk DIRBLKSIZ
  omega

/-- The next record of a block is that of the block in the buffer. -/
theorem scanLoop_getScanned {needswap : Bool} {func : ScanFunc σ} {fuel : Nat}
    (h : Loaded sb (getScanned sb needswap s)) :
    scanLoop sb needswap yes imax func (fuel + 1) s
      = scanLoop sb needswap yes imax func (fuel + 1)
          (getScanned sb needswap s) := by
  have hread : fsckReaddir sb needswap yes imax (getScanned sb needswap s)
      = fsckReaddir sb needswap yes imax s := by
    unfold fsckReaddir
    dsimp only
    rw [getScanned_loaded h]
  rw [scanLoop, scanLoop, hread]

/-- **The scan is the loop over the block that has been read.** -/
theorem ScanStart.dirscan_eq (h : ScanStart sb s) (func : ScanFunc σ) :
    ∃ s₀, Ready sb s s₀ ∧ dirscan sb true yes imax func s
      = scanLoop sb true yes imax func (blockBytes sb s + 1) s₀ := by
  have hround := roundupDirblk_eq h.filesize
  have hstart : (if s.idesc.entryno = 0 then
        { s with
          idesc := { s.idesc with filesize := roundupDirblk s.idesc.filesize } }
      else s) = s := by
    rw [hround]
    split
    · rfl
    · rfl
  generalize hs₁ : ({ s with idesc := { s.idesc with loc := 0 } } : ScanState σ) = s₁
  have hblk : s₁.idesc.blkno = s.idesc.blkno := by rw [← hs₁]
  have hio : s₁.io = s.io := by rw [← hs₁]
  have hbytes : blockBytes sb s₁ = blockBytes sb s := by rw [← hs₁]; rfl
  have hflush : flush true s.io = s.io := by
    unfold flush
    rw [h.fresh.clean]
    rfl
  have hget : getScanned sb true s₁
      = { s₁ with
          io :=
            { s.io with
              fileblk :=
                { s.io.fileblk with
                  bno := fsbtodb sb (BitVec.ofNat 32 s.idesc.blkno)
                  size := blockBytes sb s
                  errs := 0
                  buf := swapDirblock
                    (bread s.io.dev (fsbtodb sb (BitVec.ofNat 32 s.idesc.blkno))
                      (blockBytes sb s) s.io.fileblk.buf).1 (blockBytes sb s) false
                  swapped := true } } } := by
    unfold getScanned getblk
    rw [hblk, hio, hbytes, if_neg h.fresh.other, hflush]
    simp only [h.fresh.bread_errs, BEq.rfl, Bool.and_self, if_true]
  have hloaded : Loaded sb (getScanned sb true s₁) := by
    rw [hget]
    exact ⟨by rw [← hblk], rfl⟩
  refine ⟨getScanned sb true s₁, ?_, ?_⟩
  · rw [hget] at hloaded ⊢
    exact
      { inBlock :=
          { loaded := hloaded
            block := by
              show DIRBLKSIZ ∣ blockBytes sb s₁
              rw [hbytes]
              exact h.block
            filesize := by
              show (DIRBLKSIZ : Int) ∣ s₁.idesc.filesize
              rw [← hs₁]
              exact h.filesize }
        loc := by rw [← hs₁]
        blkno := hblk
        numfrags := by rw [← hs₁]
        filesize := by rw [← hs₁]
        dev := rfl
        size := rfl
        clean := h.fresh.clean
        swapped := rfl
        delivered := by rw [← hs₁]; exact h.delivered
        buf := swapDirblock_same false (h.fresh.bread_same s.io.fileblk.buf) }
  · unfold dirscan
    dsimp only
    rw [hstart, h.inside, hs₁]
    simp only [Bool.false_eq_true, if_false]
    exact scanLoop_getScanned hloaded

/-! ## §2. After the scan. -/

section Written

variable {blkno : Nat}

/-- Nothing is written of a block that has not been changed. -/
theorem writtenBlock_clean (h : s.io.fileblk.dirty = false) :
    writtenBlock sb blkno s = s.io.dev.block sb (BitVec.ofNat 32 blkno) := by
  unfold writtenBlock flush
  rw [h]
  rfl

/-- A block that has been changed is written in the order of the disk. -/
theorem writtenBlock_dirty (h : s.io.fileblk.dirty = true)
    (hswapped : s.io.fileblk.swapped = true)
    (hbno : s.io.fileblk.bno = fsbtodb sb (BitVec.ofNat 32 blkno))
    (hwritable : s.io.dev.writable = true) :
    Same (writtenBlock sb blkno s) (swapRange true 0 s.io.fileblk.size s.buf) 0
      s.io.fileblk.size := by
  intro i _ hi
  unfold writtenBlock flush bwrite
  simp only [h, hswapped, hwritable, hbno, Bool.and_self, if_true]
  show store _ (byteOffset sb _) _ (byteOffset sb _ + i) = _
  rw [store_in (by rwa [length_load]), getElem_load, Nat.zero_add]
  rfl

end Written

/-! ## §3. A chunk in step. -/

section InStep

variable {j : Nat}

/-- What is handed out from one chunk. -/
theorem deliveredFrom_eq {ds₁ ds ds₂ : List (Nat × Bytes)}
    (h : s.delivered = ds₁ ++ ds ++ ds₂) (hbefore : ∀ x ∈ ds₁, x.1 < t)
    (hin : ∀ x ∈ ds, t ≤ x.1 ∧ x.1 < t + DIRBLKSIZ)
    (hafter : ∀ x ∈ ds₂, t + DIRBLKSIZ ≤ x.1) : deliveredFrom t s = ds := by
  have hfirst : ds₁.filter (fun x => decide (t ≤ x.1 ∧ x.1 < t + DIRBLKSIZ)) = [] := by
    rw [List.filter_eq_nil_iff]
    intro x hx
    have := hbefore x hx
    rw [decide_eq_true_eq]
    omega
  have hlast : ds₂.filter (fun x => decide (t ≤ x.1 ∧ x.1 < t + DIRBLKSIZ)) = [] := by
    rw [List.filter_eq_nil_iff]
    intro x hx
    have := hafter x hx
    rw [decide_eq_true_eq]
    omega
  have hmid : ds.filter (fun x => decide (t ≤ x.1 ∧ x.1 < t + DIRBLKSIZ)) = ds := by
    rw [List.filter_eq_self]
    intro x hx
    rw [decide_eq_true_eq]
    exact hin x hx
  unfold deliveredFrom
  rw [h, List.filter_append, List.filter_append, hfirst, hlast, hmid, List.nil_append,
    List.append_nil]

theorem Ready.bytes_eq {s₀ : ScanState σ} (h : Ready sb s s₀) :
    blockBytes sb s₀ = blockBytes sb s := by
  unfold blockBytes
  rw [h.numfrags]

section Around

variable {s₀ : ScanState σ} (h : Ready sb s s₀) (hkeeps : KeepsLengths answer)
  (ht : t = DIRBLKSIZ * j) (hblock : t + DIRBLKSIZ ≤ blockBytes sb s)
  (hsize : ((t + DIRBLKSIZ : Nat) : Int) ≤ s.idesc.filesize)
include h hkeeps ht hblock hsize

/-- The chunks before a chunk: it is as it was read. -/
theorem Ready.before :
    ∃ s₁ ds₁, Scanned sb true yes imax answer 0 t s₀ s₁ ds₁ ∧
      TiledBy true s₁.buf 0 t ∧ InChunk sb t t s₁ ∧
      Same s₀.buf s₁.buf t (t + DIRBLKSIZ) := by
  have hb := h.inBlock
  have hbytes := h.bytes_eq
  have hleft := h.filesize
  have hpos : 0 < DIRBLKSIZ := by unfold DIRBLKSIZ; omega
  have hdvd : DIRBLKSIZ ∣ t := ht ▸ Nat.dvd_mul_right _ _
  obtain ⟨s₁, ds₁, hbefore, htiled⟩ : ∃ s₁ ds₁,
      Scanned sb true yes imax answer 0 t s₀ s₁ ds₁ ∧ TiledBy true s₁.buf 0 t := by
    rw [ht]
    exact scan_chunks hkeeps hb h.loc j (by rw [hbytes, ← ht]; omega)
      (by rw [hleft, ← ht]; omega)
  have hb₁ := hbefore.inBlock hb (by rwa [Nat.sub_zero])
  exact ⟨s₁, ds₁, hbefore, htiled,
    hb₁.inChunk hbefore.loc hdvd (by rw [hbefore.block.blockBytes]; omega)
      (by rw [hbefore.filesize]; omega),
    fun i hlo _ => (hbefore.outside i (.inr hlo)).symm⟩

omit hsize in
/-- The chunks behind a chunk: it stays, and nothing more of it is handed
out. -/
theorem Ready.behind {s₁ s₂ : ScanState σ} {ds₁ ds : List (Nat × Bytes)}
    (hbefore : Scanned sb true yes imax answer 0 t s₀ s₁ ds₁)
    (hchunk : Scanned sb true yes imax answer t (t + DIRBLKSIZ) s₁ s₂ ds) :
    ∃ s' r, scanLoop sb true yes imax (answering answer)
          (blockBytes sb s + 1) s₀ = (s', r) ∧
      SameBlock s₂ s' ∧ deliveredFrom t s' = ds ∧
      ∀ i < t + DIRBLKSIZ, s'.buf i = s₂.buf i := by
  have hdvd : DIRBLKSIZ ∣ t + DIRBLKSIZ :=
    Nat.dvd_add (ht ▸ Nat.dvd_mul_right _ _) (Nat.dvd_refl _)
  have hboth := hbefore.trans (Nat.zero_le t) (Nat.le_add_right t _) hchunk
  have hbytes := h.bytes_eq
  obtain ⟨n, hn, hrun⟩ := hboth.runs
  obtain ⟨s₃, r, ds₃, hrest, hsame, hdel, hplaces, hkeep⟩ : ∃ s₃ r ds₃,
      scanLoop sb true yes imax (answering answer) (blockBytes sb s + 1 - n) s₂
        = (s₃, r) ∧ _ :=
    scan_rest hkeeps (blockBytes sb s - (t + DIRBLKSIZ)) _ (t + DIRBLKSIZ) s₂
      (by rw [hboth.block.blockBytes, hbytes]; omega) (by omega)
      (hboth.inBlock h.inBlock (by rwa [Nat.sub_zero])) hboth.loc hdvd
  have hfuel : blockBytes sb s + 1 = blockBytes sb s + 1 - n + n := by omega
  refine ⟨s₃, r, by rw [hfuel, hrun, hrest], hsame, ?_, hkeep⟩
  refine deliveredFrom_eq ?_ (fun x hx => (hbefore.places x hx).2) hchunk.places
    hplaces
  rw [hdel, hboth.delivered, h.delivered, List.nil_append]

/-- **What the scan makes of a good chunk**, once its block is in the buffer. -/
theorem Ready.scan (hvalid : ValidRecords imax s₀.buf t (t + DIRBLKSIZ)) :
    ∃ s' r f f' b, scanLoop sb true yes imax (answering answer)
          (blockBytes sb s + 1) s₀ = (s', r) ∧
      SameBlock s₀ s' ∧ Same f s₀.buf t (t + DIRBLKSIZ) ∧
      Answered answer t (t + DIRBLKSIZ) f f' (deliveredFrom t s') b ∧
      Same s'.buf f' t (t + DIRBLKSIZ) ∧ TiledBy true s'.buf 0 t ∧
      (s'.io.fileblk.dirty = false → b = false) := by
  obtain ⟨s₁, ds₁, hbefore, htiled, hc, hkept⟩ : ∃ s₁ ds₁,
      Scanned sb true yes imax answer 0 t s₀ s₁ ds₁ ∧ _ :=
    h.before hkeeps ht hblock hsize
  obtain ⟨s₂, ds, b, hchunk, hans, hdirty⟩ : ∃ s₂ ds b,
      Scanned sb true yes imax answer t (t + DIRBLKSIZ) s₁ s₂ ds ∧
        Answered answer t (t + DIRBLKSIZ) s₁.buf s₂.buf ds b ∧ _ :=
    scan_valid rfl hvalid hkept (fun _ => hc) hbefore.loc
  obtain ⟨s₃, r, hrun, hsame, hfrom, hkeep⟩ :=
    h.behind hkeeps ht hblock hbefore hchunk
  refine ⟨s₃, r, s₁.buf, s₂.buf, b, hrun,
    (hbefore.block.trans hchunk.block).trans hsame, hkept.symm, ?_,
    fun i _ hi => hkeep i hi, ?_, ?_⟩
  · rw [hfrom]
    exact hans
  · exact htiled.congr fun i _ hi => by
      rw [hkeep i (by omega), hchunk.outside i (.inl hi)]
  · intro hclean
    cases hb : b with
    | false => rfl
    | true =>
      rw [hb, Bool.or_true] at hdirty
      rw [hsame.dirty hdirty] at hclean
      exact Bool.noConfusion hclean

end Around

/-- **A good chunk the walk reaches** is handed out as its own bytes say, and
what the callback makes of it is what is written. -/
theorem scan_delivers (h : ScanStart sb s) (hkeeps : KeepsLengths answer)
    (ht : t = DIRBLKSIZ * j) (hblock : t + DIRBLKSIZ ≤ blockBytes sb s)
    (hsize : ((t + DIRBLKSIZ : Nat) : Int) ≤ s.idesc.filesize)
    (hreach : TiledBy false (dirBlock sb s) 0 t)
    (hvalid : ValidChunk imax (dirBlock sb s) t) :
    ∃ f f' b,
      Same f (swapRange false t (t + DIRBLKSIZ) (dirBlock sb s)) t
        (t + DIRBLKSIZ) ∧
      Answered answer t (t + DIRBLKSIZ) f f'
        (deliveredFrom t (dirscan sb true yes imax (answering answer) s).1) b ∧
      Same (writtenBlock sb s.idesc.blkno
          (dirscan sb true yes imax (answering answer) s).1)
        (swapRange true t (t + DIRBLKSIZ) f') t (t + DIRBLKSIZ) := by
  obtain ⟨s₀, hready, hrun⟩ : ∃ s₀, Ready sb s s₀ ∧
      dirscan sb true yes imax (answering answer) s
        = scanLoop sb true yes imax (answering answer) (blockBytes sb s + 1) s₀ :=
    h.dirscan_eq (answering answer)
  have hread : Same s₀.buf (swapRange false t (t + DIRBLKSIZ) (dirBlock sb s)) t
      (t + DIRBLKSIZ) :=
    (hready.buf.mono (Nat.zero_le t) hblock).trans
      (hreach.in_step hvalid.tiled hblock)
  obtain ⟨s', r, f, f', b, hloop, hsame, hf, hans, hf', htiled, hdirty⟩ :
      ∃ s' r f f' b, scanLoop sb true yes imax (answering answer)
          (blockBytes sb s + 1) s₀ = (s', r) ∧ _ :=
    hready.scan hkeeps ht hblock hsize (hvalid.records.congr hread.symm)
  have hchunk := hf.trans hread
  rw [hrun, hloop]
  refine ⟨f, f', b, hchunk, hans, ?_⟩
  have hlocal := swapRange_local true t (t + DIRBLKSIZ)
  have hdev : s'.io.dev = s.io.dev := hsame.dev.trans hready.dev
  cases hd : s'.io.fileblk.dirty with
  | false =>
    -- nothing is written, and the walk back gives what was read
    rw [writtenBlock_clean hd, hdev, hans.unaltered (hdirty hd)]
    intro i hlo hhi
    rw [hlocal.inside f _ hchunk i hlo hhi]
    exact (congrFun hvalid.tiled.back i).symm
  | true =>
    have hsize' : s'.io.fileblk.size = blockBytes sb s :=
      hsame.size.trans hready.size
    have hout : Same (writtenBlock sb s.idesc.blkno s')
        (swapRange true 0 s'.io.fileblk.size s'.buf) 0 s'.io.fileblk.size :=
      writtenBlock_dirty hd (hsame.swapped.trans hready.swapped)
        (by rw [hsame.bno, hready.inBlock.loaded.bno, hready.blkno])
        (by rw [hdev]; exact h.fresh.writable)
    rw [hsize'] at hout
    have htile : TiledBy true s'.buf t (t + DIRBLKSIZ) :=
      (hans.tiled hkeeps).congr hf'.symm
    exact ((hout.mono (Nat.zero_le t) hblock).trans
      (htiled.in_step htile hblock)).trans (hlocal.inside _ _ hf')

end InStep

/-! ## §4. A chunk out of step. -/

/-- No header the lengths on the disk lead to touches the first header of the
chunk at `t`, and no two of them share a byte. -/
def PassedBy (block : Nat → UInt8) (size t : Nat) : Prop :=
  (headers block size).IsChain (fun o o' => o + 8 ≤ o') ∧
    ∀ o ∈ headers block size, o + 8 ≤ t ∨ t + 8 ≤ o

/-- What lies between the headers is not swapped. -/
theorem swapFrom_between {size i : Nat} :
    ∀ {fuel off : Nat} {buf : Nat → UInt8},
      (headersFrom buf size fuel off).IsChain (fun o o' => o + 8 ≤ o') →
      (∀ o ∈ headersFrom buf size fuel off, i < o ∨ o + 8 ≤ i) →
      swapFrom false size fuel off buf i = buf i := by
  intro fuel
  induction fuel with
  | zero => exact fun _ _ => rfl
  | succ fuel ih =>
    intro off buf hchain hmiss
    by_cases h8 : off + 8 ≤ size
    case neg => rw [swapFrom_end (by omega)]
    obtain ⟨rest, hrest⟩ : ∃ rest, headersFrom buf size (fuel + 1) off =
        off :: rest := headersFrom_head h8
    have hoff : swapHeader off buf i = buf i := by
      refine (swapHeader_local off).outside buf i (hmiss off ?_)
      rw [hrest]
      exact List.mem_cons_self
    rw [swapFrom_read h8]
    rw [headersFrom_step h8] at hchain hmiss
    by_cases hstop : be16 buf (off + 4) = 0 ∨ size < off + be16 buf (off + 4)
    · rw [if_pos hstop, hoff]
    · rw [if_neg hstop] at hchain hmiss ⊢
      by_cases hin : off + be16 buf (off + 4) + 8 ≤ size
      · obtain ⟨fuel, rfl⟩ | rfl : (∃ f, fuel = f + 1) ∨ fuel = 0 := by
          cases fuel with
          | zero => exact .inr rfl
          | succ f => exact .inl ⟨f, rfl⟩
        · obtain ⟨rest', hrest'⟩ : ∃ rest', headersFrom buf size (fuel + 1)
              (off + be16 buf (off + 4)) =
                (off + be16 buf (off + 4)) :: rest' := headersFrom_head hin
          have hgap : off + 8 ≤ off + be16 buf (off + 4) := by
            rw [hrest', List.isChain_cons_cons] at hchain
            exact hchain.1
          have hsame : headersFrom (swapHeader off buf) size (fuel + 1)
              (off + be16 buf (off + 4))
                = headersFrom buf size (fuel + 1) (off + be16 buf (off + 4)) :=
            headersFrom_congr ((swapHeader_local off).keeps buf (by omega))
          rw [ih (by rw [hsame]; exact hchain.tail)
            (by rw [hsame]; exact fun o ho => hmiss o (List.mem_cons_of_mem _ ho)), hoff]
        · exact hoff
      · rw [swapFrom_end (by omega), hoff]

/-- Two bytes are no length in one of the two orders. -/
theorem not_both_lengths {a b : Nat} (h12 : 12 ≤ 2 ^ 8 * a + b)
    (hle : 2 ^ 8 * a + b ≤ 1024) (h4 : (2 ^ 8 * a + b) % 4 = 0)
    (h12' : 12 ≤ a + 2 ^ 8 * b) (hle' : a + 2 ^ 8 * b ≤ 1024)
    (h4' : (a + 2 ^ 8 * b) % 4 = 0) : False := by
  have ha : a ≤ 4 := by
    clear h4 h4' h12 h12' hle'
    omega
  have hb : b ≤ 4 := by
    clear h4 h4' h12 h12' hle
    omega
  interval_cases a
  all_goals interval_cases b
  all_goals omega

/-- A record's length in the order of the disk is no length. -/
theorem recordOk_unswapped {block : Nat → UInt8} {space : Nat}
    (hspace : space ≤ DIRBLKSIZ)
    (hlen : 12 ≤ be16 block (t + 4) ∧ be16 block (t + 4) ≤ DIRBLKSIZ ∧
      be16 block (t + 4) % 4 = 0) : recordOk imax block t space = false := by
  rw [← Bool.not_eq_true]
  intro hok
  obtain ⟨hlong, hin, h4, -⟩ := recordOk_bounds hok
  exact not_both_lengths hlen.1 hlen.2.1 hlen.2.2 hlong (hin.trans hspace) h4

/-- The first length of a good chunk on the disk. -/
theorem ValidChunk.first {block : Nat → UInt8} (h : ValidChunk imax block t) :
    12 ≤ be16 block (t + 4) ∧ be16 block (t + 4) ≤ DIRBLKSIZ ∧
      be16 block (t + 4) % 4 = 0 := by
  have hpos : t < t + DIRBLKSIZ := by unfold DIRBLKSIZ; omega
  obtain ⟨-, hin, hsame⟩ := h.tiled.first hpos
  rw [reclenAt_read] at hin hsame
  have hlen : dReclen (swapRange false t (t + DIRBLKSIZ) block) t
      = be16 block (t + 4) := hsame
  have hok : recordOk imax (swapRange false t (t + DIRBLKSIZ) block) t
      (t + DIRBLKSIZ - t) = true := by
    have hrecords := h.records
    generalize swapRange false t (t + DIRBLKSIZ) block = buf at hrecords
    generalize t + DIRBLKSIZ = hi at hrecords hpos
    cases hrecords with
    | done => omega
    | step hok _ => exact hok
  have hbounds := recordOk_bounds hok
  rw [hlen] at hbounds
  omega

section Lost

variable {j : Nat}

/-- **A chunk the walk passes by is lost**: of a chunk of good records one empty
record is handed out. -/
theorem chunk_lost (h : ScanStart sb s) (hkeeps : KeepsLengths answer)
    (ht : t = DIRBLKSIZ * j) (hblock : t + DIRBLKSIZ ≤ blockBytes sb s)
    (hsize : ((t + DIRBLKSIZ : Nat) : Int) ≤ s.idesc.filesize)
    (hpassed : PassedBy (dirBlock sb s) (blockBytes sb s) t)
    (hvalid : ValidChunk imax (dirBlock sb s) t) :
    ∃ rec, deliveredFrom t (dirscan sb true yes imax (answering answer) s).1
        = [(t, rec)] ∧ dIno (area rec) 0 = 0 := by
  obtain ⟨s₀, hready, hrun⟩ : ∃ s₀, Ready sb s s₀ ∧
      dirscan sb true yes imax (answering answer) s
        = scanLoop sb true yes imax (answering answer) (blockBytes sb s + 1) s₀ :=
    h.dirscan_eq (answering answer)
  obtain ⟨s₁, ds₁, hbefore, -, hc, hkept⟩ : ∃ s₁ ds₁,
      Scanned sb true yes imax answer 0 t s₀ s₁ ds₁ ∧ _ :=
    hready.before hkeeps ht hblock hsize
  have h8 : 8 ≤ DIRBLKSIZ := by unfold DIRBLKSIZ; omega
  -- the first header is as it is on the disk
  have hheader : Same s₁.buf (dirBlock sb s) t (t + 8) := by
    intro i hlo hhi
    rw [← hkept i hlo (by omega), hready.buf i (Nat.zero_le i) (by omega)]
    refine swapFrom_between hpassed.1 fun o ho => ?_
    have hmiss := hpassed.2 o ho
    omega
  have hbad : recordOk imax s₁.buf t (t + DIRBLKSIZ - t) = false := by
    have hlen : be16 s₁.buf (t + 4) = be16 (dirBlock sb s) (t + 4) :=
      be16_congr (hheader.mono (by omega) (by omega))
    refine recordOk_unswapped (by omega) ?_
    rw [hlen]
    exact hvalid.first
  obtain ⟨s₂, hread, hhand⟩ : ∃ s₂,
      fsckReaddir sb true yes imax s₁ = (some t, s₂) ∧
        Handing imax t (t + DIRBLKSIZ) s₁ s₂ := hc.readdir_handing (.inl rfl)
  have hs₂ : s₂.buf = store s₁.buf t emptyRecord := by
    rw [hc.readdir_reset rfl hbad, Prod.mk.injEq] at hread
    rw [← hread.2]
    exact (corrupted_keeps _ yes).1
  have hlen : dReclen s₂.buf t = DIRBLKSIZ := by
    rw [hs₂]
    exact dReclen_emptyRecord s₁.buf t
  have hchunk : Scanned sb true yes imax answer t (t + dReclen s₂.buf t) s₁
      (handed answer t s₂) _ := hhand.scanned hread hc.loaded
  rw [hlen] at hchunk
  obtain ⟨s₃, r, hloop, -, hfrom, -⟩ :=
    hready.behind hkeeps ht hblock hbefore hchunk
  refine ⟨_, by rw [hrun, hloop, hfrom], ?_⟩
  have hzero : ∀ k < 4, area (load s₂.buf t DIRBLKSIZ) k = 0 := by
    intro k hk
    unfold area
    rw [getD_load 0 (by omega), hs₂, store_in (show k < emptyRecord.length by
      have : emptyRecord.length = 9 := rfl
      omega)]
    interval_cases k <;> rfl
  unfold dIno le32 le16
  rw [hzero _ (by omega), hzero _ (by omega), hzero _ (by omega),
    hzero _ (by omega)]
  rfl

end Lost

/-! ## §5. Two scans. -/

/-- Two scans that start alike: what is on the disk differs in chunk `k` of the
block at most. -/
structure Damaged (sb : Superblock) (k : Nat) (s s' : ScanState σ) : Prop where
  idesc : s'.idesc = s.idesc
  outside : ∀ i < blockBytes sb s,
    (i < DIRBLKSIZ * k ∨ DIRBLKSIZ * k + DIRBLKSIZ ≤ i) →
      dirBlock sb s' i = dirBlock sb s i

/-- The same is handed out from the chunk at `t`, and the same bytes are
written back to it. -/
def SameScan (sb : Superblock) (yes : Bool) (imax : Nat)
    (answer : Nat → Bytes → Option Bytes) (t : Nat) (s s' : ScanState σ) : Prop :=
  deliveredFrom t (dirscan sb true yes imax (answering answer) s').1
      = deliveredFrom t (dirscan sb true yes imax (answering answer) s).1 ∧
    Same (writtenBlock sb s'.idesc.blkno
        (dirscan sb true yes imax (answering answer) s').1)
      (writtenBlock sb s.idesc.blkno
        (dirscan sb true yes imax (answering answer) s).1) t (t + DIRBLKSIZ)

section Two

variable {j k : Nat}

/-- Another chunk has the same bytes in both. -/
theorem Damaged.same (h : Damaged sb k s s') (hne : j ≠ k) (ht : t = DIRBLKSIZ * j)
    (hblock : t + DIRBLKSIZ ≤ blockBytes sb s) :
    Same (dirBlock sb s') (dirBlock sb s) t (t + DIRBLKSIZ) := by
  intro i hlo hhi
  refine h.outside i (by omega) ?_
  obtain hlt | hgt := Nat.lt_or_gt_of_ne hne
  · have hle := Nat.mul_le_mul_left DIRBLKSIZ (Nat.succ_le_of_lt hlt)
    rw [Nat.mul_succ] at hle
    omega
  · have hle := Nat.mul_le_mul_left DIRBLKSIZ (Nat.succ_le_of_lt hgt)
    rw [Nat.mul_succ] at hle
    omega

/-- The chunk is as good in the other scan. -/
theorem ValidChunk.congr {f g : Nat → UInt8} (h : ValidChunk imax f t)
    (hs : Same f g t (t + DIRBLKSIZ)) : ValidChunk imax g t where
  tiled := h.tiled.congr hs
  records := h.records.congr
    ((swapRange_local false t (t + DIRBLKSIZ)).inside f g hs)

/-- **A good chunk that the walk reaches in both scans** is the same in both. -/
theorem sameScan_of_reached (h : ScanStart sb s) (h' : ScanStart sb s')
    (hkeeps : KeepsLengths answer) (hd : Damaged sb k s s') (hne : j ≠ k)
    (ht : t = DIRBLKSIZ * j) (hblock : t + DIRBLKSIZ ≤ blockBytes sb s)
    (hsize : ((t + DIRBLKSIZ : Nat) : Int) ≤ s.idesc.filesize)
    (hvalid : ValidChunk imax (dirBlock sb s) t)
    (hreach : TiledBy false (dirBlock sb s) 0 t)
    (hreach' : TiledBy false (dirBlock sb s') 0 t) :
    SameScan sb yes imax answer t s s' := by
  have hsame := hd.same hne ht hblock
  have hbytes : blockBytes sb s' = blockBytes sb s := by
    unfold blockBytes
    rw [hd.idesc]
  obtain ⟨f, f', b, hf, hans, hwrite⟩ : ∃ f f' b, Same f _ t (t + DIRBLKSIZ) ∧
      Answered answer t (t + DIRBLKSIZ) f f'
        (deliveredFrom t (dirscan sb true yes imax (answering answer) s).1) b ∧ _ :=
    scan_delivers h hkeeps ht hblock hsize hreach hvalid
  obtain ⟨g, g', c, hg, hans', hwrite'⟩ : ∃ g g' c, Same g _ t (t + DIRBLKSIZ) ∧
      Answered answer t (t + DIRBLKSIZ) g g'
        (deliveredFrom t (dirscan sb true yes imax (answering answer) s').1) c ∧ _ :=
    scan_delivers h' hkeeps ht (by rw [hbytes]; exact hblock)
      (by rw [hd.idesc]; exact hsize) hreach' (hvalid.congr hsame.symm)
  have hlocal := fun pass => swapRange_local pass t (t + DIRBLKSIZ)
  have hfg : Same g f t (t + DIRBLKSIZ) :=
    (hg.trans ((hlocal false).inside _ _ hsame)).trans hf.symm
  obtain ⟨hfg', hds, -⟩ := hans'.unique hans hfg
  exact ⟨hds, (hwrite'.trans ((hlocal true).inside _ _ hfg')).trans hwrite.symm⟩

/-- **A chunk that the walk reaches in one scan and passes by in the other** is
not the same in both, if its first record is in use. -/
theorem not_sameScan_of_passedBy (h : ScanStart sb s) (h' : ScanStart sb s')
    (hkeeps : KeepsLengths answer) (hd : Damaged sb k s s') (hne : j ≠ k)
    (ht : t = DIRBLKSIZ * j) (hblock : t + DIRBLKSIZ ≤ blockBytes sb s)
    (hsize : ((t + DIRBLKSIZ : Nat) : Int) ≤ s.idesc.filesize)
    (hvalid : ValidChunk imax (dirBlock sb s) t)
    (hreach : TiledBy false (dirBlock sb s) 0 t)
    (hpassed : PassedBy (dirBlock sb s') (blockBytes sb s) t)
    (hlive : be32 (dirBlock sb s) t ≠ 0) :
    ¬SameScan sb yes imax answer t s s' := by
  have hsame := hd.same hne ht hblock
  have hbytes : blockBytes sb s' = blockBytes sb s := by
    unfold blockBytes
    rw [hd.idesc]
  have hpos : t < t + DIRBLKSIZ := by unfold DIRBLKSIZ; omega
  obtain ⟨rec, hlost, hzero⟩ : ∃ rec,
      deliveredFrom t (dirscan sb true yes imax (answering answer) s').1 = [(t, rec)] ∧
        dIno (area rec) 0 = 0 :=
    chunk_lost h' hkeeps ht (by rw [hbytes]; exact hblock)
      (by rw [hd.idesc]; exact hsize) (by rw [hbytes]; exact hpassed)
      (hvalid.congr hsame.symm)
  obtain ⟨f, f', b, hf, hans, -⟩ : ∃ f f' b, Same f _ t (t + DIRBLKSIZ) ∧
      Answered answer t (t + DIRBLKSIZ) f f'
        (deliveredFrom t (dirscan sb true yes imax (answering answer) s).1) b ∧ _ :=
    scan_delivers h hkeeps ht hblock hsize hreach hvalid
  rintro ⟨heq, -⟩
  rw [← heq, hlost] at hans
  -- the record that is handed out has the inode number on the disk
  obtain ⟨h8, hin, -⟩ := hvalid.tiled.first hpos
  have hino : le32 f t = be32 (dirBlock sb s) t := by
    rw [le32_congr (hf.mono (Nat.le_refl t) (by unfold DIRBLKSIZ; omega)),
      swapRange_step h8 hin, ← le32_swapHeader]
    exact le32_congr ((swapRange_local false _ _).keeps _ (by omega))
  generalize t + DIRBLKSIZ = hi at hans hpos
  generalize hds : [(t, rec)] = ds at hans
  cases hans with
  | done => omega
  | step h8 _ _ =>
    rw [List.cons.injEq, Prod.mk.injEq] at hds
    have hrec := hds.1.2
    have hbyte : ∀ i < 4, area rec i = f (t + i) := by
      intro i hi
      rw [hrec]
      exact getD_load 0 (by omega)
    have hsame : dIno (area rec) 0 = le32 f t := by
      unfold dIno le32 le16
      rw [hbyte _ (by omega), hbyte _ (by omega), hbyte _ (by omega),
        hbyte _ (by omega)]
      rfl
    rw [← hino, ← hsame] at hlive
    exact hlive hzero

/-- **Damage stays in its chunk** as long as the lengths before another chunk
lead to it; where they lead past its first header instead, a chunk whose first
record is in use does not stay what it was. -/
theorem damage_confined (h : ScanStart sb s) (h' : ScanStart sb s')
    (hkeeps : KeepsLengths answer) (hd : Damaged sb k s s') (hne : j ≠ k)
    (hblock : DIRBLKSIZ * j + DIRBLKSIZ ≤ blockBytes sb s)
    (hsize : ((DIRBLKSIZ * j + DIRBLKSIZ : Nat) : Int) ≤ s.idesc.filesize)
    (hvalid : ValidChunk imax (dirBlock sb s) (DIRBLKSIZ * j))
    (hreach : TiledBy false (dirBlock sb s) 0 (DIRBLKSIZ * j)) :
    (TiledBy false (dirBlock sb s') 0 (DIRBLKSIZ * j) →
      SameScan sb yes imax answer (DIRBLKSIZ * j) s s') ∧
    (PassedBy (dirBlock sb s') (blockBytes sb s) (DIRBLKSIZ * j) →
      be32 (dirBlock sb s) (DIRBLKSIZ * j) ≠ 0 →
      ¬SameScan sb yes imax answer (DIRBLKSIZ * j) s s') :=
  ⟨sameScan_of_reached h h' hkeeps hd hne rfl hblock hsize hvalid hreach,
    not_sameScan_of_passedBy h h' hkeeps hd hne rfl hblock hsize hvalid hreach⟩

end Two

/-! ## §6. A block of two chunks. -/

/-- A block whose first chunk is a record of 256 `len` bytes for inode `ino`, and
whose second is one record: `a`, inode 5. -/
def twoChunks (ino len : UInt8) : Nat → UInt8 := fun i =>
  if i = 3 then ino else if i = 4 then len else if i = 1027 then 5 else if i = 1028 then 4
  else if i = 1031 then 1 else if i = 1032 then 97 else 0

/-- A scan of the block at fragment 200. -/
def twoChunksScan (ino len : UInt8) : ScanState Unit where
  io :=
    { dev :=
        { data := fun i => if i < 204800 then 0 else twoChunks ino len (i - 204800)
          bad := fun _ => false
          writable := true }
      fileblk :=
        { bno := 0xffffffff#32
          size := 0
          errs := 0
          buf := fun _ => 0
          dirty := false
          swapped := false } }
  idesc :=
    { fix := .dontknow
      number := 2
      parent := 2
      blkno := 200
      numfrags := 2
      filesize := 2048
      loc := 0
      entryno := 0 }
  env := ()
  delivered := []

theorem twoChunksScan_start (ino len : UInt8) :
    ScanStart (labelSb 4096 2) (twoChunksScan ino len) := by
  have hbytes : blockBytes (labelSb 4096 2) (twoChunksScan ino len) = 2048 :=
    Nat.mul_comm 2 1024
  have hother : (0xffffffff#32 : BitVec 32)
      ≠ fsbtodb (labelSb 4096 2) (BitVec.ofNat 32 200) := by decide
  have hinside : outrange (labelSb 4096 2) 200 2 = false := by decide
  refine ⟨⟨rfl, hother, fun _ _ => rfl, rfl⟩, hinside, ?_, ?_, rfl⟩
  · rw [hbytes]
    decide
  · show (DIRBLKSIZ : Int) ∣ 2048
    decide

theorem dirBlock_twoChunks (ino len : UInt8) :
    dirBlock (labelSb 4096 2) (twoChunksScan ino len) = twoChunks ino len := by
  funext i
  have hoff : byteOffset (labelSb 4096 2) (BitVec.ofNat 32 200) = 204800 := by
    decide
  show (if byteOffset (labelSb 4096 2) (BitVec.ofNat 32 200) + i < 204800 then 0
    else twoChunks ino len
      (byteOffset (labelSb 4096 2) (BitVec.ofNat 32 200) + i - 204800)) = _
  rw [hoff, if_neg (by omega), Nat.add_sub_cancel_left]

/-- The bytes of the first chunk are all that differs. -/
theorem twoChunksScan_damaged (ino len ino' len' : UInt8) :
    Damaged (labelSb 4096 2) 0 (twoChunksScan ino len) (twoChunksScan ino' len') where
  idesc := rfl
  outside := by
    intro i _ hi
    unfold DIRBLKSIZ at hi
    have h3 : i ≠ 3 := by omega
    have h4 : i ≠ 4 := by omega
    rw [dirBlock_twoChunks, dirBlock_twoChunks]
    unfold twoChunks
    rw [if_neg h3, if_neg h4, if_neg h3, if_neg h4]

/-- One length that tiles a chunk. -/
theorem tiledBy_one {pass : Bool} {buf : Nat → UInt8} {lo hi : Nat}
    (h8 : 8 ≤ reclenAt pass lo buf) (hend : lo + reclenAt pass lo buf = hi) :
    TiledBy pass buf lo hi :=
  .step h8 (hend ▸ .done _)

theorem twoChunks_valid :
    ValidChunk 100 (dirBlock (labelSb 4096 2) (twoChunksScan 0 4)) 1024 := by
  rw [dirBlock_twoChunks]
  constructor
  · exact tiledBy_one (by decide) (by decide)
  · have hend : 1024 + dReclen (swapRange false 1024 (1024 + DIRBLKSIZ)
        (twoChunks 0 4)) 1024 = 1024 + DIRBLKSIZ := by decide +kernel
    refine .step (by decide +kernel) ?_
    rw [hend]
    exact .done _

/-- A callback that changes nothing. -/
theorem keepsLengths_none : KeepsLengths fun _ _ => none := by
  intro loc rec rec' h
  cases h

/-- **A length of 0 in the first chunk** takes the second with it. -/
theorem second_chunk_lost :
    ¬∀ (sb : Superblock) (yes : Bool) (imax : Nat)
      (answer : Nat → Bytes → Option Bytes) (s s' : ScanState Unit) (j k : Nat),
      ScanStart sb s → ScanStart sb s' → KeepsLengths answer → Damaged sb k s s' →
      j ≠ k → DIRBLKSIZ * j + DIRBLKSIZ ≤ blockBytes sb s →
      ((DIRBLKSIZ * j + DIRBLKSIZ : Nat) : Int) ≤ s.idesc.filesize →
      ValidChunk imax (dirBlock sb s) (DIRBLKSIZ * j) →
      SameScan sb yes imax answer (DIRBLKSIZ * j) s s' := by
  intro hall
  have hstart := twoChunksScan_start 0 4
  have hstart' := twoChunksScan_start 0 0
  have hdamaged := twoChunksScan_damaged 0 4 0 0
  have hin : DIRBLKSIZ * 1 + DIRBLKSIZ
      ≤ blockBytes (labelSb 4096 2) (twoChunksScan 0 4) := by decide
  have hsize : ((DIRBLKSIZ * 1 + DIRBLKSIZ : Nat) : Int)
      ≤ (twoChunksScan 0 4).idesc.filesize := by decide
  refine not_sameScan_of_passedBy hstart hstart' keepsLengths_none hdamaged
    (show 1 ≠ 0 by decide) rfl hin hsize twoChunks_valid ?_ ?_ ?_
    (hall _ true _ _ _ _ 1 0 hstart hstart' keepsLengths_none hdamaged (by decide) hin
      hsize twoChunks_valid)
  · rw [dirBlock_twoChunks]
    exact tiledBy_one (by decide) (by decide)
  · rw [dirBlock_twoChunks]
    exact ⟨by decide +kernel, by decide +kernel⟩
  · rw [dirBlock_twoChunks]
    decide

/-- An inode number out of range in the first chunk, whose length is right, stays
in the first chunk. -/
theorem damage_confined_badInode :
    SameScan (labelSb 4096 2) true 100 (fun _ _ => none) 1024 (twoChunksScan 0 4)
      (twoChunksScan 255 4) := by
  refine (damage_confined (j := 1) (k := 0) (twoChunksScan_start 0 4)
    (twoChunksScan_start 255 4) keepsLengths_none (twoChunksScan_damaged 0 4 255 4)
    (by decide) (by decide) (by decide) twoChunks_valid ?_).1 ?_
  · rw [dirBlock_twoChunks]
    exact tiledBy_one (by decide) (by decide)
  · rw [dirBlock_twoChunks]
    exact tiledBy_one (by decide) (by decide)

end NextUfs.Fsck
