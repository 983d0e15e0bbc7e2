/-
  NextUfs.Fsck.DirScanSpec
  ────────────────────────
  **WHAT A SCAN DOES TO ITS CHUNKS.**

  A scan takes the chunks of a block one after the other.  Whatever the bytes
  of a chunk are, it changes nothing outside the chunk, hands out records of
  the chunk, and leaves lengths that tile it; a chunk of good records is handed
  out as it is.

    • `recordOk_congr`   — a record is judged by the bytes of its chunk,
    • `Scanned`          — a part of a scan, from one offset to another,
    • `scan_chunk`       — any chunk,
    • `scan_valid`       — a chunk of good records: what is handed out and what
      the callback makes of it,
    • `scan_rest`        — the chunks up to the end.
-/
import NextUfs.Fsck.DirScan
import NextUfs.Fsck.DirTiling

namespace NextUfs.Fsck

open Window Address

/-! ## §1. Records of a chunk. -/

section Records

variable {imax dp space lo hi t : Nat} {f g buf : Nat → UInt8}

theorem le_direntSize (n : Nat) : n + 9 ≤ direntSize n ∧ 12 ≤ direntSize n := by
  unfold direntSize
  omega

/-- The numbers of a good record. -/
theorem recordOk_bounds (h : recordOk imax buf dp space = true) :
    12 ≤ dReclen buf dp ∧ dReclen buf dp ≤ space ∧ dReclen buf dp % 4 = 0 ∧
      dNamlen buf dp + 9 ≤ dReclen buf dp := by
  unfold recordOk at h
  rw [Bool.and_eq_true, decide_eq_true_eq] at h
  obtain ⟨-, -, hspace, h4, hsize, -⟩ := h.1
  have hdirsiz := le_direntSize (dNamlen buf dp)
  unfold DIRSIZ at hsize
  omega

/-- **A record is judged by the bytes up to the end of its chunk.** -/
theorem recordOk_congr (hs : Same f g dp (dp + space)) :
    recordOk imax f dp space = recordOk imax g dp space := by
  have key : ∀ {f g : Nat → UInt8}, Same f g dp (dp + space) →
      recordOk imax f dp space = true → recordOk imax g dp space = true := by
    intro f g hs hok
    obtain ⟨hlen, hspace, -, hname⟩ := recordOk_bounds hok
    have hino : dIno g dp = dIno f dp :=
      le32_congr (hs.mono (by omega) (by omega)).symm
    have hreclen : dReclen g dp = dReclen f dp :=
      le16_congr (hs.mono (by omega) (by omega)).symm
    have hnamlen : dNamlen g dp = dNamlen f dp :=
      le16_congr (hs.mono (by omega) (by omega)).symm
    have hnameOk : nameOk g dp = nameOk f dp := by
      have hbyte : ∀ k ≤ dNamlen f dp, g (dp + 8 + k) = f (dp + 8 + k) :=
        fun k hk => (hs _ (by omega) (by omega)).symm
      unfold nameOk
      rw [hnamlen, hbyte _ (Nat.le_refl _)]
      have hall : ∀ {p q : Nat → Bool} {n : Nat}, (∀ k < n, p k = q k) →
          (List.range n).all p = (List.range n).all q := by
        intro p q n hpq
        rw [Bool.eq_iff_iff, List.all_eq_true, List.all_eq_true]
        exact forall₂_congr fun k hk => by rw [hpq k (List.mem_range.mp hk)]
      rw [hall fun k hk => by rw [hbyte k hk.le]]
    unfold recordOk DIRSIZ at hok ⊢
    rw [hino, hreclen, hnamlen, hnameOk]
    exact hok
  rw [Bool.eq_iff_iff]
  exact ⟨key hs, key hs.symm⟩

/-- Records that are good and lead from `lo` to `hi`. -/
inductive ValidRecords (imax : Nat) (buf : Nat → UInt8) : Nat → Nat → Prop
  | done (hi : Nat) : ValidRecords imax buf hi hi
  | step {lo hi : Nat} : recordOk imax buf lo (hi - lo) = true →
      ValidRecords imax buf (lo + dReclen buf lo) hi → ValidRecords imax buf lo hi

/-- The records are those of the bytes. -/
theorem ValidRecords.congr (h : ValidRecords imax f lo hi)
    (hs : Same f g lo hi) : ValidRecords imax g lo hi := by
  induction h with
  | done => exact .done _
  | @step lo hi hok _ ih =>
    obtain ⟨hlen, hspace, -, -⟩ := recordOk_bounds hok
    have hreclen : dReclen g lo = dReclen f lo :=
      le16_congr (hs.mono (by omega) (by omega)).symm
    refine .step ?_ ?_
    · rw [← recordOk_congr (hs.mono (Nat.le_refl _) (by omega))]
      exact hok
    · rw [hreclen]
      exact ih (hs.mono (by omega) (Nat.le_refl _))

/-- Good records tile. -/
theorem ValidRecords.tiled (h : ValidRecords imax buf lo hi) :
    TiledBy true buf lo hi := by
  induction h with
  | done => exact .done _
  | step hok _ ih =>
    obtain ⟨hlen, -⟩ := recordOk_bounds hok
    exact .step (show 8 ≤ dReclen buf _ by omega) ih

/-- A length that has been stored. -/
theorem le16_store {v : Nat} (hv : v < 2 ^ 16) (f : Nat → UInt8) (off : Nat) :
    le16 (store f off (putLe16 v)) off = v := by
  have h0 : store f off (putLe16 v) off = UInt8.ofNat v :=
    @store_in UInt8 f off 0 (putLe16 v) (show 0 < 2 by omega)
  have h1 : store f off (putLe16 v) (off + 1) = UInt8.ofNat (v / 2 ^ 8) :=
    @store_in UInt8 f off 1 (putLe16 v) (show 1 < 2 by omega)
  unfold le16
  rw [h0, h1, UInt8.toNat_ofNat', UInt8.toNat_ofNat']
  omega

/-- The length of an empty record. -/
theorem dReclen_emptyRecord (f : Nat → UInt8) (dp : Nat) :
    dReclen (store f dp emptyRecord) dp = DIRBLKSIZ := by
  have h4 : store f dp emptyRecord (dp + 4) = 0 :=
    @store_in UInt8 f dp 4 emptyRecord (by decide)
  have h5 : store f dp emptyRecord (dp + 4 + 1) = 4 :=
    @store_in UInt8 f dp 5 emptyRecord (by decide)
  unfold dReclen le16
  rw [h4, h5]
  rfl

/-- The chunk of an offset. -/
theorem spaceleft_eq (ht : t % DIRBLKSIZ = 0) (hlo : t ≤ lo)
    (hhi : lo < t + DIRBLKSIZ) :
    DIRBLKSIZ - lo % DIRBLKSIZ = t + DIRBLKSIZ - lo := by
  unfold DIRBLKSIZ at *
  omega

/-- Only its end is a boundary. -/
theorem mod_eq_zero_iff (ht : t % DIRBLKSIZ = 0) (hlo : t < lo)
    (hhi : lo ≤ t + DIRBLKSIZ) : lo % DIRBLKSIZ = 0 ↔ lo = t + DIRBLKSIZ := by
  unfold DIRBLKSIZ at *
  omega

/-- With room for the rest of the chunk in the directory, `dircheck` judges the
record. -/
theorem dircheck_eq {filesize : Int} (ht : t % DIRBLKSIZ = 0) (hlo : t ≤ lo)
    (hhi : lo < t + DIRBLKSIZ)
    (hsize : ((t + DIRBLKSIZ - lo : Nat) : Int) ≤ filesize) :
    dircheck imax buf lo filesize
      = recordOk imax buf lo (t + DIRBLKSIZ - lo) := by
  unfold dircheck
  rw [spaceleft_eq ht hlo hhi]
  cases hok : recordOk imax buf lo (t + DIRBLKSIZ - lo) with
  | false => rfl
  | true =>
    have hb := hok
    unfold recordOk at hb
    rw [Bool.and_eq_true, decide_eq_true_eq] at hb
    obtain ⟨-, -, hspace, -, hdirsiz, -⟩ := hb.1
    rw [Bool.true_and, decide_eq_true_eq]
    omega

end Records

/-! ## §2. The callback. -/

section Callback

variable {σ : Type}

/-- A callback that goes on, and whose answer depends on the record and on
where it ends. -/
def answering (answer : Nat → Bytes → Option Bytes) : ScanFunc σ := fun s rec =>
  match answer s.idesc.loc rec with
  | none => (s, rec, ⟨false, false⟩)
  | some rec' => (s, rec', ⟨true, false⟩)

theorem answering_none {answer : Nat → Bytes → Option Bytes}
    {s : ScanState σ} {rec : Bytes} (h : answer s.idesc.loc rec = none) :
    answering answer s rec = (s, rec, ⟨false, false⟩) := by
  unfold answering
  rw [h]

theorem answering_some {answer : Nat → Bytes → Option Bytes}
    {s : ScanState σ} {rec rec' : Bytes}
    (h : answer s.idesc.loc rec = some rec') :
    answering answer s rec = (s, rec', ⟨true, false⟩) := by
  unfold answering
  rw [h]

/-- The bytes of a record as an area. -/
def area (rec : Bytes) : Nat → UInt8 := fun i => rec.getD i 0

/-- What it makes of a record is tiled by lengths again. -/
def KeepsLengths (answer : Nat → Bytes → Option Bytes) : Prop :=
  ∀ loc rec rec', answer loc rec = some rec' → rec.length ≤ rec'.length ∧
    TiledBy true (area rec') 0 rec.length

/-- The record at `dp` with what the callback makes of it. -/
def answerAt (answer : Nat → Bytes → Option Bytes) (dp : Nat)
    (buf : Nat → UInt8) : (Nat → UInt8) × Bool :=
  let len := dReclen buf dp
  match answer (dp + len) (load buf dp len) with
  | none => (buf, false)
  | some rec => (store buf dp (rec.take len), true)

variable {answer : Nat → Bytes → Option Bytes} {buf f g : Nat → UInt8} {dp : Nat}

theorem answerAt_none
    (h : answer (dp + dReclen buf dp) (load buf dp (dReclen buf dp)) = none) :
    answerAt answer dp buf = (buf, false) := by
  unfold answerAt
  dsimp only
  rw [h]

theorem answerAt_some {rec : Bytes}
    (h : answer (dp + dReclen buf dp) (load buf dp (dReclen buf dp)) = some rec) :
    answerAt answer dp buf = (store buf dp (rec.take (dReclen buf dp)), true) := by
  unfold answerAt
  dsimp only
  rw [h]

theorem answerAt_outside {i : Nat} (hi : i < dp ∨ dp + dReclen buf dp ≤ i) :
    (answerAt answer dp buf).1 i = buf i := by
  unfold answerAt
  dsimp only
  split
  · rfl
  · exact store_out (by rw [List.length_take]; omega)

/-- The record afterwards is tiled. -/
theorem answerAt_tiled (hkeeps : KeepsLengths answer)
    (h8 : 8 ≤ dReclen buf dp) :
    TiledBy true (answerAt answer dp buf).1 dp (dp + dReclen buf dp) := by
  unfold answerAt
  dsimp only
  split
  · exact .step h8 (.done _)
  next rec' hrec =>
    obtain ⟨hlong, htiled⟩ := hkeeps _ _ _ hrec
    rw [length_load] at hlong htiled
    refine Tiled.shift htiled fun o _ hroom => ?_
    have hbyte : ∀ i < dReclen buf dp,
        store buf dp (rec'.take (dReclen buf dp)) (dp + i) = area rec' i := by
      intro i hi
      rw [store_in (by rw [List.length_take]; omega), List.getElem_take]
      exact (List.getD_eq_getElem _ _ (by omega)).symm
    show le16 (store buf dp (rec'.take (dReclen buf dp))) (dp + o + 4)
      = le16 (area rec') (o + 4)
    unfold le16
    rw [Nat.add_assoc, Nat.add_assoc, Nat.add_assoc, hbyte _ (by omega),
      hbyte _ (by omega)]

/-- What the callback makes of a record depends on its bytes. -/
theorem answerAt_congr {lo hi : Nat} (hs : Same f g lo hi) (hlo : lo ≤ dp)
    (h8 : 8 ≤ dReclen f dp) (hhi : dp + dReclen f dp ≤ hi) :
    Same (answerAt answer dp f).1 (answerAt answer dp g).1 lo hi ∧
      (answerAt answer dp f).2 = (answerAt answer dp g).2 ∧
      dReclen g dp = dReclen f dp ∧
      load g dp (dReclen f dp) = load f dp (dReclen f dp) := by
  have hlen : dReclen g dp = dReclen f dp :=
    le16_congr (hs.mono (by omega) (by omega)).symm
  have hload : load g dp (dReclen f dp) = load f dp (dReclen f dp) :=
    load_congr (hs.mono hlo hhi).symm
  unfold answerAt
  dsimp only
  rw [hlen, hload]
  split
  · exact ⟨hs, rfl, rfl, rfl⟩
  · exact ⟨(store_local dp _).same hs hlo (by rw [List.length_take]; omega), rfl,
      rfl, rfl⟩

end Callback

/-! ## §3. One round of the loop. -/

section Round

variable {σ : Type} {sb : Superblock} {needswap yes : Bool} {imax fuel dp lo t : Nat}
  {answer : Nat → Bytes → Option Bytes} {s s' s'' : ScanState σ}

/-- The block of the scan is in the buffer. -/
structure Loaded (sb : Superblock) (s : ScanState σ) : Prop where
  bno : s.io.fileblk.bno = fsbtodb sb (BitVec.ofNat 32 s.idesc.blkno)
  errs : s.io.fileblk.errs = 0

theorem getScanned_loaded (h : Loaded sb s) : getScanned sb needswap s = s := by
  unfold getScanned getblk
  rw [if_pos h.bno]

/-- The scan is at the same block, which is still to be written if it was. -/
structure SameBlock (s s' : ScanState σ) : Prop where
  blkno : s'.idesc.blkno = s.idesc.blkno
  numfrags : s'.idesc.numfrags = s.idesc.numfrags
  dev : s'.io.dev = s.io.dev
  bno : s'.io.fileblk.bno = s.io.fileblk.bno
  size : s'.io.fileblk.size = s.io.fileblk.size
  errs : s'.io.fileblk.errs = s.io.fileblk.errs
  swapped : s'.io.fileblk.swapped = s.io.fileblk.swapped
  dirty : s.io.fileblk.dirty = true → s'.io.fileblk.dirty = true

namespace SameBlock

theorem refl (s : ScanState σ) : SameBlock s s :=
  ⟨rfl, rfl, rfl, rfl, rfl, rfl, rfl, id⟩

theorem trans (h : SameBlock s s') (h' : SameBlock s' s'') : SameBlock s s'' where
  blkno := h'.blkno.trans h.blkno
  numfrags := h'.numfrags.trans h.numfrags
  dev := h'.dev.trans h.dev
  bno := h'.bno.trans h.bno
  size := h'.size.trans h.size
  errs := h'.errs.trans h.errs
  swapped := h'.swapped.trans h.swapped
  dirty hd := h'.dirty (h.dirty hd)

theorem loaded (h : SameBlock s s') (hl : Loaded sb s) : Loaded sb s' where
  bno := by rw [h.bno, h.blkno, hl.bno]
  errs := by rw [h.errs, hl.errs]

theorem blockBytes (h : SameBlock s s') :
    blockBytes sb s' = Fsck.blockBytes sb s := by
  unfold Fsck.blockBytes
  rw [h.numfrags]

theorem corrupted (s : ScanState σ) (yes : Bool) :
    SameBlock s (s.corrupted yes) := by
  unfold ScanState.corrupted
  dsimp only
  split
  · exact ⟨rfl, rfl, rfl, rfl, rfl, rfl, rfl, fun _ => rfl⟩
  · exact ⟨rfl, rfl, rfl, rfl, rfl, rfl, rfl, id⟩

end SameBlock

/-- `dofix` changes neither the bytes nor the place. -/
theorem corrupted_keeps (s : ScanState σ) (yes : Bool) :
    (s.corrupted yes).buf = s.buf ∧
      (s.corrupted yes).idesc.loc = s.idesc.loc ∧
      (s.corrupted yes).idesc.filesize = s.idesc.filesize ∧
      (s.corrupted yes).delivered = s.delivered := by
  unfold ScanState.corrupted
  dsimp only
  split
  · exact ⟨rfl, rfl, rfl, rfl⟩
  · exact ⟨rfl, rfl, rfl, rfl⟩

/-- The record at `dp` is handed out, and what the callback makes of it comes
back. -/
def handed (answer : Nat → Bytes → Option Bytes) (dp : Nat)
    (s : ScanState σ) : ScanState σ :=
  let ans := answerAt answer dp s.buf
  let s := (s.deliver dp (load s.buf dp (dReclen s.buf dp))).setBuf ans.1
  if ans.2 then { s with io := markDirty s.io } else s

theorem handed_same (answer : Nat → Bytes → Option Bytes) (dp : Nat)
    (s : ScanState σ) : SameBlock s (handed answer dp s) := by
  unfold handed
  dsimp only
  split
  · exact ⟨rfl, rfl, rfl, rfl, rfl, rfl, rfl, fun _ => rfl⟩
  · exact ⟨rfl, rfl, rfl, rfl, rfl, rfl, rfl, id⟩

theorem handed_keeps (answer : Nat → Bytes → Option Bytes) (dp : Nat)
    (s : ScanState σ) :
    (handed answer dp s).buf = (answerAt answer dp s.buf).1 ∧
      (handed answer dp s).idesc = s.idesc ∧
      (handed answer dp s).delivered
        = s.delivered ++ [(dp, load s.buf dp (dReclen s.buf dp))] ∧
      (handed answer dp s).io.fileblk.dirty
        = (s.io.fileblk.dirty || (answerAt answer dp s.buf).2) := by
  unfold handed
  dsimp only
  split
  next h => exact ⟨rfl, rfl, rfl, by rw [h, Bool.or_true]; rfl⟩
  next h =>
    rw [Bool.not_eq_true] at h
    exact ⟨rfl, rfl, rfl, by rw [h, Bool.or_false]; rfl⟩

/-- **One round**: the next record is handed out. -/
theorem scanLoop_handed (hread : fsckReaddir sb needswap yes imax s = (some dp, s'))
    (hl : Loaded sb s') (hloc : s'.idesc.loc = dp + dReclen s'.buf dp) :
    scanLoop sb needswap yes imax (answering answer) (fuel + 1) s
      = scanLoop sb needswap yes imax (answering answer) fuel
          (handed answer dp s') := by
  generalize hrec : load s'.buf dp (dReclen s'.buf dp) = rec
  have hl' : Loaded sb (s'.deliver dp rec) := ⟨hl.bno, hl.errs⟩
  have hloc' : (s'.deliver dp rec).idesc.loc = dp + dReclen s'.buf dp := hloc
  rw [scanLoop, hread]
  dsimp only
  unfold handed
  dsimp only
  rw [hrec]
  cases hans : answer (dp + dReclen s'.buf dp) rec with
  | none =>
    have hnone := hans
    rw [← hrec] at hnone
    rw [answering_none (hloc' ▸ hans), answerAt_none hnone]
    rfl
  | some rec' =>
    have hsome := hans
    rw [← hrec] at hsome
    have hput : ∀ bs, putBack sb needswap dp bs (s'.deliver dp rec)
        = ({ (s'.deliver dp rec).setBuf (store s'.buf dp bs) with
              io := markDirty ((s'.deliver dp rec).setBuf (store s'.buf dp bs)).io },
            true) := by
      intro bs
      unfold putBack
      dsimp only
      rw [getScanned_loaded hl', if_neg (fun h => h hl'.errs)]
      rfl
    rw [answering_some (hloc' ▸ hans), answerAt_some hsome]
    dsimp only
    rw [hput]
    rfl

/-- The callback is given the record at `lo`: what `fsckReaddir` has done. -/
structure Handing (imax lo hi : Nat) (s s' : ScanState σ) : Prop where
  block : SameBlock s s'
  loc : s'.idesc.loc = lo + dReclen s'.buf lo
  long : 8 ≤ dReclen s'.buf lo
  inside : lo + dReclen s'.buf lo ≤ hi
  filesize : s'.idesc.filesize = s.idesc.filesize - dReclen s'.buf lo
  delivered : s'.delivered = s.delivered
  outside : ∀ i, (i < lo ∨ lo + dReclen s'.buf lo ≤ i) → s'.buf i = s.buf i
  next : lo + dReclen s'.buf lo = hi ∨
    recordOk imax s'.buf (lo + dReclen s'.buf lo)
      (hi - (lo + dReclen s'.buf lo)) = true

/-- The chunk that starts at `t` lies in the block and in the directory, and the
scan is at `lo` in it. -/
structure InChunk (sb : Superblock) (t lo : Nat) (s : ScanState σ) : Prop where
  loaded : Loaded sb s
  aligned : t % DIRBLKSIZ = 0
  block : t + DIRBLKSIZ ≤ blockBytes sb s
  loc : s.idesc.loc = lo
  start : t ≤ lo
  stop : lo < t + DIRBLKSIZ
  filesize : ((t + DIRBLKSIZ - lo : Nat) : Int) ≤ s.idesc.filesize

theorem fsckReaddir_loaded (hl : Loaded sb s) :
    fsckReaddir sb needswap yes imax s
      = if s.idesc.loc % DIRBLKSIZ = 0 ∧ 0 < s.idesc.filesize ∧
            s.idesc.loc < blockBytes sb s ∧
            dircheck imax s.buf s.idesc.loc s.idesc.filesize = false then
          (some s.idesc.loc,
            ((s.advance DIRBLKSIZ).setBuf
              (store s.buf s.idesc.loc emptyRecord)).corrupted yes)
        else nextRecord sb yes imax s := by
  unfold fsckReaddir
  dsimp only
  rw [getScanned_loaded hl, if_neg (fun h => h hl.errs)]
  rfl

section InChunk

variable (h : InChunk sb t lo s)
include h

theorem InChunk.dircheck_eq :
    dircheck imax s.buf lo s.idesc.filesize
      = recordOk imax s.buf lo (t + DIRBLKSIZ - lo) :=
  Fsck.dircheck_eq h.aligned h.start h.stop h.filesize

/-- A good record is the next one. -/
theorem InChunk.readdir_ok
    (hok : recordOk imax s.buf lo (t + DIRBLKSIZ - lo) = true) :
    fsckReaddir sb needswap yes imax s = nextRecord sb yes imax s := by
  rw [fsckReaddir_loaded h.loaded, h.loc, h.dircheck_eq, hok, if_neg]
  rintro ⟨-, -, -, hfalse⟩
  exact Bool.noConfusion hfalse

/-- A chunk whose first record is bad becomes one record. -/
theorem InChunk.readdir_reset (hlo : lo = t)
    (hbad : recordOk imax s.buf lo (t + DIRBLKSIZ - lo) = false) :
    fsckReaddir sb needswap yes imax s
      = (some lo,
          ((s.advance DIRBLKSIZ).setBuf (store s.buf lo emptyRecord)).corrupted
            yes) := by
  have haligned := h.aligned
  have hblock := h.block
  have hsize := h.filesize
  have hstop := h.stop
  rw [fsckReaddir_loaded h.loaded, h.loc, h.dircheck_eq, hbad, if_pos]
  exact ⟨by rw [hlo]; exact haligned, by omega, by omega, rfl⟩

/-- Behind a good record: the end of the chunk, a good record, or a bad one. -/
theorem InChunk.nextRecord_eq
    (hok : recordOk imax s.buf lo (t + DIRBLKSIZ - lo) = true) :
    nextRecord sb yes imax s
      = if lo + dReclen s.buf lo = t + DIRBLKSIZ ∨
            recordOk imax s.buf (lo + dReclen s.buf lo)
              (t + DIRBLKSIZ - (lo + dReclen s.buf lo)) = true then
          (some lo, s.advance (dReclen s.buf lo))
        else
          (some lo,
            (((s.advance (dReclen s.buf lo)).setBuf
              (store s.buf (lo + 4) (putLe16 (t + DIRBLKSIZ - lo)))).advance
                (t + DIRBLKSIZ - (lo + dReclen s.buf lo))).corrupted yes) := by
  obtain ⟨hlen, hspace, -, -⟩ := recordOk_bounds hok
  have hloc := h.loc
  have hblock := h.block
  have hsize := h.filesize
  have hstart := h.start
  have hstop := h.stop
  generalize hr : dReclen s.buf lo = r at *
  have hmod := @mod_eq_zero_iff (lo + r) t h.aligned (by omega) (by omega)
  have hadvance : (s.advance r).idesc.loc = lo + r := by rw [← hloc]; rfl
  have hleft : (s.advance r).idesc.filesize = s.idesc.filesize - r := rfl
  have hbytes : blockBytes sb (s.advance r) = blockBytes sb s := rfl
  have hbuf : (s.advance r).buf = s.buf := rfl
  unfold nextRecord
  dsimp only
  rw [hloc, if_neg (by omega), hr, hadvance, hleft, hbytes, hbuf]
  by_cases hend : lo + r = t + DIRBLKSIZ
  · rw [if_pos (hmod.mpr hend), if_pos (.inl hend)]
  · have hcheck := @Fsck.dircheck_eq imax (lo + r) t s.buf
      (s.idesc.filesize - r) h.aligned (by omega) (by omega) (by omega)
    rw [if_neg (fun h0 => hend (hmod.mp h0)), hcheck,
      spaceleft_eq h.aligned (by omega) (by omega), hr]
    by_cases hnext : recordOk imax s.buf (lo + r) (t + DIRBLKSIZ - (lo + r)) = true
    · rw [if_neg, if_pos (.inr hnext)]
      rintro ⟨-, -, hfalse⟩
      rw [hnext] at hfalse
      exact Bool.noConfusion hfalse
    · rw [Bool.not_eq_true] at hnext
      have hsum : r + (t + DIRBLKSIZ - (lo + r)) = t + DIRBLKSIZ - lo := by omega
      rw [if_pos ⟨by omega, by omega, hnext⟩, if_neg, hsum]
      rintro (h0 | h0)
      · exact hend h0
      · rw [hnext] at h0
        exact Bool.noConfusion h0

/-- The next record, when it is good and what is behind it is good. -/
theorem InChunk.readdir_good
    (hok : recordOk imax s.buf lo (t + DIRBLKSIZ - lo) = true)
    (hnext : lo + dReclen s.buf lo = t + DIRBLKSIZ ∨
      recordOk imax s.buf (lo + dReclen s.buf lo)
        (t + DIRBLKSIZ - (lo + dReclen s.buf lo)) = true) :
    fsckReaddir sb needswap yes imax s
      = (some lo, s.advance (dReclen s.buf lo)) := by
  rw [h.readdir_ok hok, h.nextRecord_eq hok, if_pos hnext]

theorem InChunk.advance_handing
    (hok : recordOk imax s.buf lo (t + DIRBLKSIZ - lo) = true)
    (hnext : lo + dReclen s.buf lo = t + DIRBLKSIZ ∨
      recordOk imax s.buf (lo + dReclen s.buf lo)
        (t + DIRBLKSIZ - (lo + dReclen s.buf lo)) = true) :
    Handing imax lo (t + DIRBLKSIZ) s (s.advance (dReclen s.buf lo)) := by
  obtain ⟨hlen, hspace, -, -⟩ := recordOk_bounds hok
  have hstop := h.stop
  have hinside : lo + dReclen s.buf lo ≤ t + DIRBLKSIZ := by omega
  have hlong : 8 ≤ dReclen s.buf lo := by omega
  have hloc := h.loc
  exact
    { block := ⟨rfl, rfl, rfl, rfl, rfl, rfl, rfl, id⟩
      loc := by rw [← hloc]; rfl
      long := hlong
      inside := hinside
      filesize := rfl
      delivered := rfl
      outside := fun _ _ => rfl
      next := hnext }

/-- **Whatever is there, a record of the chunk is handed out**, if the scan is
at its start or at a good record. -/
theorem InChunk.readdir_handing
    (hat : lo = t ∨ recordOk imax s.buf lo (t + DIRBLKSIZ - lo) = true) :
    ∃ s', fsckReaddir sb needswap yes imax s = (some lo, s') ∧
      Handing imax lo (t + DIRBLKSIZ) s s' := by
  have hstart := h.start
  have hstop := h.stop
  have hloc := h.loc
  by_cases hok : recordOk imax s.buf lo (t + DIRBLKSIZ - lo) = true
  · by_cases hnext : lo + dReclen s.buf lo = t + DIRBLKSIZ ∨
        recordOk imax s.buf (lo + dReclen s.buf lo)
          (t + DIRBLKSIZ - (lo + dReclen s.buf lo)) = true
    · exact ⟨_, h.readdir_good hok hnext, h.advance_handing hok hnext⟩
    · -- the record takes the rest of the chunk
      obtain ⟨hlen, hspace, -, -⟩ := recordOk_bounds hok
      have hsmall : t + DIRBLKSIZ - lo < 2 ^ 16 := by
        unfold DIRBLKSIZ at *
        omega
      refine ⟨_, by rw [h.readdir_ok hok, h.nextRecord_eq hok, if_neg hnext], ?_⟩
      generalize hs' : ((s.advance (dReclen s.buf lo)).setBuf
        (store s.buf (lo + 4) (putLe16 (t + DIRBLKSIZ - lo)))).advance
          (t + DIRBLKSIZ - (lo + dReclen s.buf lo)) = s'
      obtain ⟨hbuf, hloc', hsize', hdel⟩ := corrupted_keeps s' yes
      have hbuf' : s'.buf = store s.buf (lo + 4) (putLe16 (t + DIRBLKSIZ - lo)) := by
        rw [← hs']; rfl
      have hreclen : dReclen s'.buf lo = t + DIRBLKSIZ - lo := by
        rw [hbuf']
        exact le16_store hsmall s.buf (lo + 4)
      have hat' : s'.idesc.loc = s.idesc.loc + dReclen s.buf lo
          + (t + DIRBLKSIZ - (lo + dReclen s.buf lo)) := by rw [← hs']; rfl
      have hleft : s'.idesc.filesize = s.idesc.filesize - (dReclen s.buf lo : Nat)
          - (t + DIRBLKSIZ - (lo + dReclen s.buf lo) : Nat) := by rw [← hs']; rfl
      have hdel' : s'.delivered = s.delivered := by rw [← hs']; rfl
      have hblock : SameBlock s s' := by
        rw [← hs']
        exact ⟨rfl, rfl, rfl, rfl, rfl, rfl, rfl, id⟩
      exact
        { block := hblock.trans (.corrupted s' yes)
          loc := by rw [hloc', hbuf, hreclen, hat', hloc]; omega
          long := by rw [hbuf, hreclen]; omega
          inside := by rw [hbuf, hreclen]; omega
          filesize := by rw [hsize', hbuf, hreclen, hleft]; omega
          delivered := by rw [hdel, hdel']
          outside := by
            intro i hi
            rw [hbuf, hreclen] at hi
            rw [hbuf, hbuf']
            have hput : (putLe16 (t + DIRBLKSIZ - lo)).length = 2 := rfl
            exact store_out (by omega)
          next := .inl (by rw [hbuf, hreclen]; omega) }
  · -- the chunk becomes one record
    have hlo : lo = t := hat.resolve_right hok
    rw [Bool.not_eq_true] at hok
    refine ⟨_, h.readdir_reset hlo hok, ?_⟩
    generalize hs' : (s.advance DIRBLKSIZ).setBuf (store s.buf lo emptyRecord) = s'
    obtain ⟨hbuf, hloc', hsize', hdel⟩ := corrupted_keeps s' yes
    have hbuf' : s'.buf = store s.buf lo emptyRecord := by rw [← hs']; rfl
    have hreclen : dReclen s'.buf lo = DIRBLKSIZ := by
      rw [hbuf']
      exact dReclen_emptyRecord s.buf lo
    have hbig : 9 ≤ DIRBLKSIZ := by unfold DIRBLKSIZ; omega
    have hat' : s'.idesc.loc = s.idesc.loc + DIRBLKSIZ := by rw [← hs']; rfl
    have hleft : s'.idesc.filesize = s.idesc.filesize - (DIRBLKSIZ : Nat) := by
      rw [← hs']; rfl
    have hdel' : s'.delivered = s.delivered := by rw [← hs']; rfl
    have hblock : SameBlock s s' := by
      rw [← hs']
      exact ⟨rfl, rfl, rfl, rfl, rfl, rfl, rfl, id⟩
    exact
      { block := hblock.trans (.corrupted s' yes)
        loc := by rw [hloc', hbuf, hreclen, hat', hloc]
        long := by rw [hbuf, hreclen]; omega
        inside := by rw [hbuf, hreclen, hlo]
        filesize := by rw [hsize', hbuf, hreclen, hleft]
        delivered := by rw [hdel, hdel']
        outside := by
          intro i hi
          rw [hbuf, hreclen] at hi
          rw [hbuf, hbuf']
          have hput : emptyRecord.length = 9 := rfl
          exact store_out (by omega)
        next := .inl (by rw [hbuf, hreclen, hlo]) }

end InChunk

/-! ## §4. A part of a scan. -/

/-- From `s` to `s'` the loop goes over the bytes `[lo, hi)` of the block and
hands out the records `ds`. -/
structure Scanned (sb : Superblock) (needswap yes : Bool) (imax : Nat)
    (answer : Nat → Bytes → Option Bytes) (lo hi : Nat) (s s' : ScanState σ)
    (ds : List (Nat × Bytes)) : Prop where
  runs : ∃ n ≤ hi - lo, ∀ fuel,
    scanLoop sb needswap yes imax (answering answer) (fuel + n) s
      = scanLoop sb needswap yes imax (answering answer) fuel s'
  block : SameBlock s s'
  loc : s'.idesc.loc = hi
  filesize : s'.idesc.filesize = s.idesc.filesize - ((hi - lo : Nat) : Int)
  delivered : s'.delivered = s.delivered ++ ds
  places : ∀ x ∈ ds, lo ≤ x.1 ∧ x.1 < hi
  outside : ∀ i, (i < lo ∨ hi ≤ i) → s'.buf i = s.buf i

namespace Scanned

variable {mid hi : Nat} {ds ds' : List (Nat × Bytes)}

theorem refl (h : s.idesc.loc = lo) :
    Scanned sb needswap yes imax answer lo lo s s [] where
  runs := ⟨0, Nat.zero_le _, fun _ => rfl⟩
  block := .refl s
  loc := h
  filesize := by omega
  delivered := (List.append_nil _).symm
  places _ hx := by simp at hx
  outside _ _ := rfl

theorem trans (hlo : lo ≤ mid) (hhi : mid ≤ hi)
    (h : Scanned sb needswap yes imax answer lo mid s s' ds)
    (h' : Scanned sb needswap yes imax answer mid hi s' s'' ds') :
    Scanned sb needswap yes imax answer lo hi s s'' (ds ++ ds') where
  runs := by
    obtain ⟨n, hn, hrun⟩ := h.runs
    obtain ⟨m, hm, hrun'⟩ := h'.runs
    refine ⟨m + n, by omega, fun fuel => ?_⟩
    rw [← Nat.add_assoc, hrun, hrun']
  block := h.block.trans h'.block
  loc := h'.loc
  filesize := by rw [h'.filesize, h.filesize]; omega
  delivered := by rw [h'.delivered, h.delivered, List.append_assoc]
  places x hx := by
    obtain hx | hx := List.mem_append.mp hx
    · have := h.places x hx
      omega
    · have := h'.places x hx
      omega
  outside i hi := by
    rw [h'.outside i (by omega), h.outside i (by omega)]

/-- The tiling of an earlier part stays. -/
theorem keeps_tiled {a : Nat}
    (h : Scanned sb needswap yes imax answer lo hi s s' ds)
    (ht : TiledBy true s.buf a lo) : TiledBy true s'.buf a lo :=
  ht.congr fun i _ hi => (h.outside i (.inl hi)).symm

end Scanned

section Rounds

variable {hi : Nat}

/-- The round that hands out the record at `lo`. -/
theorem Handing.scanned (h : Handing imax lo hi s s')
    (hread : fsckReaddir sb needswap yes imax s = (some lo, s'))
    (hl : Loaded sb s) :
    Scanned sb needswap yes imax answer lo (lo + dReclen s'.buf lo) s
      (handed answer lo s') [(lo, load s'.buf lo (dReclen s'.buf lo))] := by
  obtain ⟨hbuf, hidesc, hdel, -⟩ := handed_keeps answer lo s'
  have hlong := h.long
  exact
    { runs := ⟨1, by omega, fun fuel =>
        scanLoop_handed hread (h.block.loaded hl) h.loc⟩
      block := h.block.trans (handed_same answer lo s')
      loc := by rw [hidesc, h.loc]
      filesize := by rw [hidesc, h.filesize, Nat.add_sub_cancel_left]
      delivered := by rw [hdel, h.delivered]
      places := by
        intro x hx
        rw [List.mem_singleton] at hx
        subst hx
        dsimp only
        omega
      outside := by
        intro i hi
        rw [hbuf, answerAt_outside hi, h.outside i hi] }

/-- Behind the record the chunk is as it was. -/
theorem Handing.next_handed (h : Handing imax lo hi s s') :
    lo + dReclen s'.buf lo = hi ∨
      recordOk imax (handed answer lo s').buf (lo + dReclen s'.buf lo)
        (hi - (lo + dReclen s'.buf lo)) = true := by
  refine h.next.imp id fun hok => ?_
  obtain ⟨hbuf, -⟩ := handed_keeps answer lo s'
  rw [hbuf, recordOk_congr fun i hlo _ => answerAt_outside (.inr hlo)]
  exact hok

/-- A part of the scan leads on in the chunk. -/
theorem Scanned.inChunk {mid : Nat} {ds : List (Nat × Bytes)}
    (h : Scanned sb needswap yes imax answer lo mid s s' ds)
    (hc : InChunk sb t lo s) (hlo : lo ≤ mid) (hmid : mid < t + DIRBLKSIZ) :
    InChunk sb t mid s' where
  loaded := h.block.loaded hc.loaded
  aligned := hc.aligned
  block := by rw [h.block.blockBytes]; exact hc.block
  loc := h.loc
  start := hc.start.trans hlo
  stop := hmid
  filesize := by
    have hsize := hc.filesize
    rw [h.filesize]
    omega

/-- **A chunk, whatever is in it**: the scan ends behind it, and its lengths
tile it. -/
theorem scan_from (hkeeps : KeepsLengths answer) :
    ∀ n lo (s : ScanState σ), t + DIRBLKSIZ - lo ≤ n → InChunk sb t lo s →
      (lo = t ∨ recordOk imax s.buf lo (t + DIRBLKSIZ - lo) = true) →
      ∃ s' ds, Scanned sb needswap yes imax answer lo (t + DIRBLKSIZ) s s' ds ∧
        TiledBy true s'.buf lo (t + DIRBLKSIZ) := by
  intro n
  induction n with
  | zero =>
    intro lo s hn hc
    have hstop := hc.stop
    omega
  | succ n ih =>
    intro lo s hn hc hat
    obtain ⟨s₀, hread, hhand⟩ : ∃ s₀,
        fsckReaddir sb needswap yes imax s = (some lo, s₀) ∧
          Handing imax lo (t + DIRBLKSIZ) s s₀ := hc.readdir_handing hat
    have hlong := hhand.long
    have hinside := hhand.inside
    have hfirst : Scanned sb needswap yes imax answer lo (lo + dReclen s₀.buf lo)
        s (handed answer lo s₀) _ := hhand.scanned hread hc.loaded
    have htile : TiledBy true (handed answer lo s₀).buf lo
        (lo + dReclen s₀.buf lo) := by
      rw [(handed_keeps answer lo s₀).1]
      exact answerAt_tiled hkeeps hlong
    obtain hend | hnext : lo + dReclen s₀.buf lo = t + DIRBLKSIZ ∨
        recordOk imax (handed answer lo s₀).buf (lo + dReclen s₀.buf lo)
          (t + DIRBLKSIZ - (lo + dReclen s₀.buf lo)) = true := hhand.next_handed
    · rw [hend] at hfirst htile
      exact ⟨_, _, hfirst, htile⟩
    · have hmore : lo + dReclen s₀.buf lo < t + DIRBLKSIZ := by
        obtain ⟨hlen, hspace, -⟩ := recordOk_bounds hnext
        omega
      obtain ⟨s', ds, hrest, hrestTiled⟩ := ih _ _ (by omega)
        (hfirst.inChunk hc (by omega) hmore) (.inr hnext)
      exact ⟨s', _, hfirst.trans (by omega) hinside hrest,
        (hrest.keeps_tiled htile).append hrestTiled⟩

/-- **A chunk, whatever is in it.** -/
theorem scan_chunk (hkeeps : KeepsLengths answer) (hc : InChunk sb t t s) :
    ∃ s' ds, Scanned sb needswap yes imax answer t (t + DIRBLKSIZ) s s' ds ∧
      TiledBy true s'.buf t (t + DIRBLKSIZ) :=
  scan_from hkeeps _ t s (Nat.le_refl _) hc (.inl rfl)

end Rounds

/-! ## §5. Good records. -/

/-- What the callback makes of the records from `lo` to `hi`: the bytes, the
records it is given, and whether it changes any. -/
inductive Answered (answer : Nat → Bytes → Option Bytes) :
    Nat → Nat → (Nat → UInt8) → (Nat → UInt8) → List (Nat × Bytes) → Bool → Prop
  | done (hi : Nat) (buf : Nat → UInt8) : Answered answer hi hi buf buf [] false
  | step {lo hi : Nat} {buf buf' : Nat → UInt8} {ds : List (Nat × Bytes)}
      {altered : Bool} : 8 ≤ dReclen buf lo → lo + dReclen buf lo ≤ hi →
      Answered answer (lo + dReclen buf lo) hi (answerAt answer lo buf).1 buf' ds
        altered →
      Answered answer lo hi buf buf'
        ((lo, load buf lo (dReclen buf lo)) :: ds)
        ((answerAt answer lo buf).2 || altered)

namespace Answered

variable {hi : Nat} {f f' g g' : Nat → UInt8} {ds ds' : List (Nat × Bytes)}
  {b b' : Bool}

/-- **It depends on the bytes of the records.** -/
theorem unique (h : Answered answer lo hi f f' ds b)
    (h' : Answered answer lo hi g g' ds' b') (hs : Same f g lo hi) :
    Same f' g' lo hi ∧ ds = ds' ∧ b = b' := by
  have key : ∀ {a}, a ≤ lo → Same f g a hi → Same f' g' a hi ∧ ds = ds' ∧ b = b' := by
    clear hs
    induction h generalizing g ds' b' with
    | done hi f =>
      intro a ha hs
      cases h' with
      | done => exact ⟨hs, rfl, rfl⟩
      | step h8 hin _ => omega
    | @step lo hi f f' ds b h8 hin _ ih =>
      intro a ha hs
      cases h' with
      | done => omega
      | step h8' hin' hrest =>
        obtain ⟨hsame, hb, hlen, hload⟩ :
            Same (answerAt answer lo f).1 (answerAt answer lo g).1 a hi ∧ _ :=
          answerAt_congr hs ha h8 hin
        rw [hlen] at hrest
        obtain ⟨hs', hds, hb'⟩ := ih hrest (by omega) hsame
        exact ⟨hs', by rw [hds, hlen, hload], by rw [hb, hb']⟩
  exact key (Nat.le_refl _) hs

/-- Nothing is changed outside, -/
theorem outside (h : Answered answer lo hi f f' ds b) {i : Nat}
    (hi : i < lo ∨ hi ≤ i) : f' i = f i := by
  induction h with
  | done => rfl
  | @step lo hi f f' ds b h8 hin _ ih =>
    rw [ih (by omega), answerAt_outside (by omega)]

/-- and nothing at all by a callback that changes no record. -/
theorem unaltered (h : Answered answer lo hi f f' ds b) (hb : b = false) :
    f' = f := by
  induction h with
  | done => rfl
  | @step lo hi f f' ds b h8 hin _ ih =>
    rw [Bool.or_eq_false_iff] at hb
    rw [ih hb.2]
    unfold answerAt at hb ⊢
    dsimp only at hb ⊢
    split at hb
    next => rfl
    next => exact Bool.noConfusion hb.1

/-- What a callback leaves is tiled if it leaves each record tiled. -/
theorem tiled (h : Answered answer lo hi f f' ds b)
    (hkeeps : KeepsLengths answer) : TiledBy true f' lo hi := by
  induction h with
  | done => exact .done _
  | @step lo hi f f' ds b h8 hin hrest ih =>
    have hfirst : TiledBy true (answerAt answer lo f).1 lo (lo + dReclen f lo) :=
      answerAt_tiled hkeeps h8
    exact (hfirst.congr fun i _ hi => (hrest.outside (.inl hi)).symm).append ih

end Answered

/-- **A chunk of good records** is handed out as it is. -/
theorem scan_valid {hi : Nat} {f : Nat → UInt8} (hhi : hi = t + DIRBLKSIZ)
    (hv : ValidRecords imax f lo hi) (hs : Same f s.buf lo hi)
    (hc : lo < hi → InChunk sb t lo s) (hloc : s.idesc.loc = lo) :
    ∃ s' ds b, Scanned sb needswap yes imax answer lo hi s s' ds ∧
      Answered answer lo hi s.buf s'.buf ds b ∧
      s'.io.fileblk.dirty = (s.io.fileblk.dirty || b) := by
  induction hv generalizing s with
  | done hi => exact ⟨s, [], false, .refl hloc, .done hi s.buf, (Bool.or_false _).symm⟩
  | @step lo hi hok hrest ih =>
    obtain ⟨hlen, hspace, -, -⟩ := recordOk_bounds hok
    have hle := hrest.tiled.le
    have hc' := hc (by omega)
    have hreclen : dReclen f lo = dReclen s.buf lo :=
      le16_congr (hs.mono (by omega) (by omega))
    have hnext : lo + dReclen f lo = hi ∨
        recordOk imax f (lo + dReclen f lo) (hi - (lo + dReclen f lo)) = true := by
      generalize lo + dReclen f lo = mid at hrest
      cases hrest with
      | done => exact .inl rfl
      | step hok' _ => exact .inr hok'
    rw [recordOk_congr (hs.mono (by omega) (by omega)), hhi] at hok
    rw [recordOk_congr (hs.mono (by omega) (by omega)), hhi, hreclen] at hnext
    rw [hreclen] at ih hle hlen
    -- the record is handed out, and the rest of the chunk is as it was
    have hread : fsckReaddir sb needswap yes imax s
        = (some lo, s.advance (dReclen s.buf lo)) := hc'.readdir_good hok hnext
    have hfirst : Scanned sb needswap yes imax answer lo (lo + dReclen s.buf lo) s
        (handed answer lo (s.advance (dReclen s.buf lo))) _ :=
      (hc'.advance_handing hok hnext).scanned hread hc'.loaded
    obtain ⟨hbuf, -, -, hdirty⟩ :=
      handed_keeps answer lo (s.advance (dReclen s.buf lo))
    have hbuf' : (handed answer lo (s.advance (dReclen s.buf lo))).buf
        = (answerAt answer lo s.buf).1 := hbuf
    have hsame : Same f (handed answer lo (s.advance (dReclen s.buf lo))).buf
        (lo + dReclen s.buf lo) hi := by
      rw [hbuf']
      intro i hlo hhi
      rw [answerAt_outside (.inr hlo)]
      exact hs i (by omega) hhi
    obtain ⟨s', ds, b, hscan, hans, hdirty'⟩ := ih hhi hsame
      (fun _ => hfirst.inChunk hc' (by omega) (by omega)) hfirst.loc
    rw [hbuf'] at hans
    refine ⟨s', _, (answerAt answer lo s.buf).2 || b,
      hfirst.trans (by omega) hle hscan, .step (by omega) hle hans, ?_⟩
    rw [hdirty', hdirty, Bool.or_assoc]
    rfl

/-! ## §6. The chunks of a block. -/

/-- The block is in the buffer, it and the rest of the directory are made of
chunks. -/
structure InBlock (sb : Superblock) (s : ScanState σ) : Prop where
  loaded : Loaded sb s
  block : DIRBLKSIZ ∣ blockBytes sb s
  filesize : (DIRBLKSIZ : Int) ∣ s.idesc.filesize

section Chunks

variable {hi : Nat} {ds : List (Nat × Bytes)}

theorem Scanned.inBlock (h : Scanned sb needswap yes imax answer lo hi s s' ds)
    (hb : InBlock sb s) (hmod : DIRBLKSIZ ∣ hi - lo) : InBlock sb s' where
  loaded := h.block.loaded hb.loaded
  block := by rw [h.block.blockBytes]; exact hb.block
  filesize := by
    rw [h.filesize]
    exact Int.dvd_sub hb.filesize (Int.natCast_dvd_natCast.mpr hmod)

/-- A chunk the block and the directory reach. -/
theorem InBlock.inChunk (h : InBlock sb s) (hloc : s.idesc.loc = t)
    (ht : DIRBLKSIZ ∣ t) (hblock : t < blockBytes sb s)
    (hsize : 0 < s.idesc.filesize) : InChunk sb t t s where
  loaded := h.loaded
  aligned := Nat.mod_eq_zero_of_dvd ht
  block := by
    obtain ⟨b, hb⟩ := h.block
    obtain ⟨c, hc⟩ := ht
    rw [hb, hc] at hblock ⊢
    have hlt := Nat.lt_of_mul_lt_mul_left hblock
    calc DIRBLKSIZ * c + DIRBLKSIZ = DIRBLKSIZ * (c + 1) := rfl
      _ ≤ DIRBLKSIZ * b := Nat.mul_le_mul_left _ hlt
  loc := hloc
  start := Nat.le_refl t
  stop := by unfold DIRBLKSIZ; omega
  filesize := by
    obtain ⟨n, hn⟩ := h.filesize
    rw [hn] at hsize
    rw [Nat.add_sub_cancel_left, hn]
    unfold DIRBLKSIZ at *
    omega

/-- **The first chunks**, whatever is in them: afterwards they are tiled. -/
theorem scan_chunks (hkeeps : KeepsLengths answer) (hb : InBlock sb s)
    (hloc : s.idesc.loc = 0) :
    ∀ j, DIRBLKSIZ * j ≤ blockBytes sb s →
      ((DIRBLKSIZ * j : Nat) : Int) ≤ s.idesc.filesize →
      ∃ s' ds, Scanned sb needswap yes imax answer 0 (DIRBLKSIZ * j) s s' ds ∧
        TiledBy true s'.buf 0 (DIRBLKSIZ * j) := by
  intro j
  induction j with
  | zero => exact fun _ _ => ⟨s, [], .refl hloc, .done 0⟩
  | succ j ih =>
    intro hblock hsize
    have hsucc : DIRBLKSIZ * (j + 1) = DIRBLKSIZ * j + DIRBLKSIZ := rfl
    have hpos : 0 < DIRBLKSIZ := by unfold DIRBLKSIZ; omega
    obtain ⟨s₁, ds₁, hfirst, htile⟩ := ih (by omega) (by omega)
    have hb' := hfirst.inBlock hb (Nat.dvd_mul_right _ _)
    have hc := hb'.inChunk hfirst.loc (Nat.dvd_mul_right _ _)
      (by rw [hfirst.block.blockBytes]; omega) (by rw [hfirst.filesize]; omega)
    obtain ⟨s₂, ds₂, hnext, htile'⟩ : ∃ s₂ ds₂, Scanned sb needswap yes imax answer
        (DIRBLKSIZ * j) (DIRBLKSIZ * j + DIRBLKSIZ) s₁ s₂ ds₂ ∧ _ :=
      scan_chunk hkeeps hc
    exact ⟨s₂, _, hfirst.trans (Nat.zero_le _) (by omega) hnext,
      (hnext.keeps_tiled htile).append htile'⟩

/-- **The chunks up to the end**: what is before them stays. -/
theorem scan_rest (hkeeps : KeepsLengths answer) :
    ∀ n fuel t (s : ScanState σ), blockBytes sb s ≤ t + n → n < fuel →
      InBlock sb s → s.idesc.loc = t → DIRBLKSIZ ∣ t →
      ∃ s' r ds, scanLoop sb needswap yes imax (answering answer) fuel s = (s', r) ∧
        SameBlock s s' ∧ s'.delivered = s.delivered ++ ds ∧
        (∀ x ∈ ds, t ≤ x.1) ∧ ∀ i < t, s'.buf i = s.buf i := by
  intro n
  induction n using Nat.strong_induction_on with
  | _ n ih =>
    intro fuel t s hn hfuel hb hloc ht
    by_cases hend : s.idesc.filesize ≤ 0 ∨ blockBytes sb s ≤ t
    · -- no further chunk
      obtain ⟨fuel, rfl⟩ : ∃ f, fuel = f + 1 := ⟨fuel - 1, by omega⟩
      have hnone : fsckReaddir sb needswap yes imax s = (none, s) := by
        rw [fsckReaddir_loaded hb.loaded, hloc, if_neg (by omega)]
        unfold nextRecord
        dsimp only
        rw [hloc, if_pos hend]
      refine ⟨s, _, [], by rw [scanLoop, hnone], .refl s,
        (List.append_nil _).symm, ?_, fun _ _ => rfl⟩
      intro x hx
      simp at hx
    · have hc := hb.inChunk hloc ht (by omega) (by omega)
      obtain ⟨s₁, ds₁, hfirst, -⟩ : ∃ s₁ ds₁, Scanned sb needswap yes imax answer
          t (t + DIRBLKSIZ) s s₁ ds₁ ∧ _ := scan_chunk hkeeps hc
      obtain ⟨k, hk, hrun⟩ := hfirst.runs
      rw [Nat.add_sub_cancel_left] at hk
      have hin := hc.block
      have hpos : 0 < DIRBLKSIZ := by unfold DIRBLKSIZ; omega
      obtain ⟨s', r, ds, hrest, hblock, hdel, hplaces, hkeep⟩ :=
        ih (n - DIRBLKSIZ) (by omega) (fuel - k) (t + DIRBLKSIZ) s₁
          (by rw [hfirst.block.blockBytes]; omega) (by omega)
          (hfirst.inBlock hb (by rw [Nat.add_sub_cancel_left])) hfirst.loc
          (Nat.dvd_add ht (Nat.dvd_refl _))
      have hfuel' : fuel = fuel - k + k := by omega
      refine ⟨s', r, ds₁ ++ ds, ?_, hfirst.block.trans hblock, ?_, ?_, ?_⟩
      · rw [hfuel', hrun, hrest]
      · rw [hdel, hfirst.delivered, List.append_assoc]
      · intro x hx
        obtain hx | hx := List.mem_append.mp hx
        · exact (hfirst.places x hx).1
        · have := hplaces x hx
          omega
      · intro i hi
        rw [hkeep i (by omega), hfirst.outside i (.inl hi)]

end Chunks

end Round

end NextUfs.Fsck
