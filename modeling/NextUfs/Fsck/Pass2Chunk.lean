/-
  NextUfs.Fsck.Pass2Chunk
  ───────────────────────
  **THE FIRST CHUNK OF A DIRECTORY IN PHASE 2.**

  The scan takes the records of the first chunk as they were, one after the
  other, and puts back what phase 2 has made of each.  A record's bytes are
  good records afterwards, except where `..` has been cut off the first one.

    • `scanLoop_checked`   — one round of the scan,
    • `scanLoop_passed`    — what the scan has passed stays,
    • `SpaceKept`          — the bytes of each record are covered by good records,
    • `chunk_spaceKept`    — the chunk,
    • `pass2_keeps_space`  — it is kept exactly if `CarvedRight`,
    • `dotdot_carved_short` — a chunk in which bytes of zeros are left behind `..`.
-/
import NextUfs.Fsck.Pass2Spec

namespace NextUfs.Fsck

open Window Address

/-! ## §1. Records at an offset. -/

section Shift

variable {imax lo p q space : Nat} {a buf : Nat → UInt8}

/-- A record is good wherever it lies. -/
theorem recordOk_shift (buf : Nat → UInt8) (lo : Nat) :
    recordOk imax (fun i => buf (lo + i)) p space
      = recordOk imax buf (lo + p) space := by
  unfold recordOk nameOk DIRSIZ dIno dReclen dNamlen le32 le16
  simp only [Nat.add_assoc]

theorem dReclen_shift (buf : Nat → UInt8) (lo : Nat) :
    dReclen (fun i => buf (lo + i)) p = dReclen buf (lo + p) := by
  unfold dReclen le16
  simp only [Nat.add_assoc]

/-- Good records are good wherever they lie. -/
theorem ValidRecords.shift (h : ValidRecords imax a p q)
    (hs : ∀ i < q, a i = buf (lo + i)) :
    ValidRecords imax buf (lo + p) (lo + q) := by
  have hmoved : Same a (fun i => buf (lo + i)) p q := fun i _ hi => hs i hi
  have h' := h.congr hmoved
  clear h hs hmoved
  induction h' with
  | done => exact .done _
  | @step p q hok _ ih =>
    rw [recordOk_shift] at hok
    rw [dReclen_shift, ← Nat.add_assoc] at ih
    exact .step (by rw [Nat.add_sub_add_left]; exact hok) ih

/-- The copy of a record is as good as the record. -/
theorem GoodRecord.copy {n : Nat} (h : GoodRecord imax buf lo n) :
    GoodRecord imax (area (load buf lo n)) 0 n := by
  have hbytes : Same (fun i => buf (lo + i)) (area (load buf lo n)) 0 (0 + n) :=
    fun i _ hi => (getD_load 0 (by omega)).symm
  have hmoved : GoodRecord imax (fun i => buf (lo + i)) 0 n := by
    refine ⟨?_, ?_⟩
    · rw [recordOk_shift]
      exact h.ok
    · rw [dReclen_shift]
      exact h.len
  exact hmoved.congr hbytes

end Shift

/-! ## §2. One round. -/

section Round

variable {ctx : Pass2Ctx} {sb : Superblock} {needswap yes : Bool}
  {imax fuel dp : Nat} {s s' : ScanState Pass2}

/-- What phase 2 makes of the record at `dp`. -/
def recordChecked (ctx : Pass2Ctx) (dp : Nat) (s : ScanState Pass2) :
    RecordCheck :=
  checkRecord ctx s.idesc.number s.idesc.parent
    (.given (area (load s.buf dp (dReclen s.buf dp))) s.idesc.entryno s.env)

/-- The scan after the record at `dp` has been checked. -/
def afterCheck (ctx : Pass2Ctx) (dp : Nat) (s : ScanState Pass2) :
    ScanState Pass2 :=
  let w := recordChecked ctx dp s
  let s' := s.deliver dp (load s.buf dp (dReclen s.buf dp))
  let s' := { s' with env := w.env, idesc := { s'.idesc with entryno := w.entryno } }
  if w.altered && !w.env.exited then
    let s' := s'.setBuf (store s.buf dp (load w.dbuf 0 (dReclen s.buf dp)))
    { s' with io := markDirty s'.io }
  else s'

theorem afterCheck_same (ctx : Pass2Ctx) (dp : Nat) (s : ScanState Pass2) :
    SameBlock s (afterCheck ctx dp s) := by
  unfold afterCheck
  dsimp only
  split
  · exact ⟨rfl, rfl, rfl, rfl, rfl, rfl, rfl, fun _ => rfl⟩
  · exact ⟨rfl, rfl, rfl, rfl, rfl, rfl, rfl, id⟩

theorem afterCheck_keeps (ctx : Pass2Ctx) (dp : Nat) (s : ScanState Pass2) :
    (afterCheck ctx dp s).env = (recordChecked ctx dp s).env ∧
      (afterCheck ctx dp s).idesc
        = { s.idesc with entryno := (recordChecked ctx dp s).entryno } ∧
      (afterCheck ctx dp s).buf =
        if (recordChecked ctx dp s).altered && !(recordChecked ctx dp s).env.exited
        then store s.buf dp
          (load (recordChecked ctx dp s).dbuf 0 (dReclen s.buf dp))
        else s.buf := by
  unfold afterCheck
  dsimp only
  split
  · exact ⟨rfl, rfl, rfl⟩
  · exact ⟨rfl, rfl, rfl⟩

/-- Bytes outside the record stay. -/
theorem afterCheck_outside {i : Nat} (hi : i < dp ∨ dp + dReclen s.buf dp ≤ i) :
    (afterCheck ctx dp s).buf i = s.buf i := by
  rw [(afterCheck_keeps ctx dp s).2.2]
  split
  · exact store_out (by rwa [length_load])
  · rfl

/-- **One round**: the next record is checked and put back, or the scan ends. -/
theorem scanLoop_checked (hread : fsckReaddir sb needswap yes imax s = (some dp, s'))
    (hl : Loaded sb s') :
    scanLoop sb needswap yes imax (pass2check ctx) (fuel + 1) s
      = if (afterCheck ctx dp s').env.exited then
          (afterCheck ctx dp s', ⟨false, true⟩)
        else scanLoop sb needswap yes imax (pass2check ctx) fuel
          (afterCheck ctx dp s') := by
  have hrec : pass2check ctx (s'.deliver dp (load s'.buf dp (dReclen s'.buf dp)))
      (load s'.buf dp (dReclen s'.buf dp))
      = ({ s'.deliver dp (load s'.buf dp (dReclen s'.buf dp)) with
            env := (recordChecked ctx dp s').env
            idesc :=
              { s'.idesc with entryno := (recordChecked ctx dp s').entryno } },
          load (recordChecked ctx dp s').dbuf 0 (dReclen s'.buf dp),
          ⟨(recordChecked ctx dp s').altered &&
              !(recordChecked ctx dp s').env.exited,
            (recordChecked ctx dp s').env.exited⟩) := by
    unfold pass2check
    rw [length_load]
    rfl
  rw [(afterCheck_keeps ctx dp s').1, scanLoop, hread]
  dsimp only
  rw [hrec]
  unfold afterCheck
  dsimp only
  cases hexit : (recordChecked ctx dp s').env.exited with
  | true =>
    rw [Bool.not_true, Bool.and_false]
    rfl
  | false =>
    rw [Bool.not_false, Bool.and_true]
    cases halt : (recordChecked ctx dp s').altered with
    | true =>
      have hput : ∀ (bs : Bytes) (s₁ : ScanState Pass2), Loaded sb s₁ →
          putBack sb needswap dp bs s₁
            = ({ s₁.setBuf (store s₁.buf dp bs) with
                  io := markDirty (s₁.setBuf (store s₁.buf dp bs)).io }, true) := by
        intro bs s₁ hl₁
        unfold putBack
        dsimp only
        rw [getScanned_loaded hl₁, if_neg (fun h => h hl₁.errs)]
      have hwhole : (load (recordChecked ctx dp s').dbuf 0 (dReclen s'.buf dp)).take
          (dReclen s'.buf dp)
            = load (recordChecked ctx dp s').dbuf 0 (dReclen s'.buf dp) :=
        List.take_of_length_le (by rw [length_load])
      rw [hwhole, hput]
      · rfl
      · exact ⟨hl.bno, hl.errs⟩
    | false => rfl

/-- What `fsckReaddir` leaves: it is at the same block, hands out the record where
the scan is, and does not go back. -/
theorem fsckReaddir_passed {σ : Type} (needswap yes : Bool) (imax : Nat)
    {s : ScanState σ} (hl : Loaded sb s) :
    SameBlock s (fsckReaddir sb needswap yes imax s).2 ∧
      s.idesc.loc ≤ (fsckReaddir sb needswap yes imax s).2.idesc.loc ∧
      (∀ i < s.idesc.loc, (fsckReaddir sb needswap yes imax s).2.buf i = s.buf i) ∧
      ∀ dp, (fsckReaddir sb needswap yes imax s).1 = some dp → dp = s.idesc.loc := by
  have hplace : ∀ (s₁ : ScanState σ), (s₁.corrupted yes).buf = s₁.buf ∧
      (s₁.corrupted yes).idesc.loc = s₁.idesc.loc := fun s₁ =>
    ⟨(corrupted_keeps s₁ yes).1, (corrupted_keeps s₁ yes).2.1⟩
  have hsame : ∀ (n : Nat) (buf : Nat → UInt8),
      SameBlock s ((s.advance n).setBuf buf) := fun _ _ =>
    ⟨rfl, rfl, rfl, rfl, rfl, rfl, rfl, id⟩
  have hjoined : ∀ (n m : Nat) (buf : Nat → UInt8),
      SameBlock s (((s.advance n).setBuf buf).advance m) := fun _ _ _ =>
    ⟨rfl, rfl, rfl, rfl, rfl, rfl, rfl, id⟩
  rw [fsckReaddir_loaded hl]
  split
  · refine ⟨(hsame _ _).trans (SameBlock.corrupted _ yes), ?_, fun i hi => ?_, ?_⟩
    · rw [(hplace _).2]
      exact Nat.le_add_right _ _
    · rw [(hplace _).1]
      exact store_out (.inl hi)
    · intro dp hdp
      exact (Option.some.inj hdp).symm
  · unfold nextRecord
    dsimp only
    split
    · exact ⟨SameBlock.refl s, le_rfl, fun _ _ => rfl, fun dp hdp => nomatch hdp⟩
    · split
      · refine ⟨⟨rfl, rfl, rfl, rfl, rfl, rfl, rfl, id⟩, Nat.le_add_right _ _,
          fun _ _ => rfl, ?_⟩
        intro dp hdp
        exact (Option.some.inj hdp).symm
      · split
        · refine ⟨(hjoined _ _ _).trans (SameBlock.corrupted _ yes), ?_,
            fun i hi => ?_, ?_⟩
          · rw [(hplace _).2]
            exact (Nat.le_add_right _ _).trans (Nat.le_add_right _ _)
          · rw [(hplace _).1]
            exact store_out (.inl (by omega))
          · intro dp hdp
            exact (Option.some.inj hdp).symm
        · refine ⟨⟨rfl, rfl, rfl, rfl, rfl, rfl, rfl, id⟩, Nat.le_add_right _ _,
            fun _ _ => rfl, ?_⟩
          intro dp hdp
          exact (Option.some.inj hdp).symm

/-- **What the scan has passed stays**, and it does not go back. -/
theorem scanLoop_passed (ctx : Pass2Ctx) (needswap yes : Bool) (imax : Nat) :
    ∀ (fuel : Nat) (s : ScanState Pass2), Loaded sb s →
      s.idesc.loc
        ≤ (scanLoop sb needswap yes imax (pass2check ctx) fuel s).1.idesc.loc ∧
      ∀ i < s.idesc.loc,
        (scanLoop sb needswap yes imax (pass2check ctx) fuel s).1.buf i
          = s.buf i := by
  intro fuel
  induction fuel with
  | zero => exact fun s _ => ⟨le_rfl, fun _ _ => rfl⟩
  | succ fuel ih =>
    intro s hl
    obtain ⟨hblock, hloc, hbuf, hat⟩ :=
      fsckReaddir_passed needswap yes imax hl
    cases hread : fsckReaddir sb needswap yes imax s with
    | mk dp s' =>
      rw [hread] at hblock hloc hbuf hat
      dsimp only at hblock hloc hbuf hat
      cases dp with
      | none =>
        rw [scanLoop, hread]
        exact ⟨hloc, hbuf⟩
      | some dp =>
        have hdp := hat dp rfl
        have hl' := hblock.loaded hl
        have hloc' : (afterCheck ctx dp s').idesc.loc = s'.idesc.loc := by
          rw [(afterCheck_keeps ctx dp s').2.1]
        have hbuf' : ∀ i < s.idesc.loc, (afterCheck ctx dp s').buf i = s.buf i :=
          fun i hi =>
            (afterCheck_outside (.inl (by omega))).trans (hbuf i hi)
        rw [scanLoop_checked hread hl']
        split
        · exact ⟨hloc.trans hloc'.ge, hbuf'⟩
        · obtain ⟨hle, hrest⟩ := ih _ ((afterCheck_same ctx dp s').loaded hl')
          exact ⟨(hloc.trans hloc'.ge).trans hle, fun i hi =>
            (hrest i (by omega)).trans (hbuf' i hi)⟩

end Round

/-! ## §3. The records of a chunk. -/

/-- **The bytes of each record of `buf` are covered by good records of `buf'`.** -/
inductive SpaceKept (imax : Nat) (buf buf' : Nat → UInt8) : Nat → Nat → Prop
  | done (hi : Nat) : SpaceKept imax buf buf' hi hi
  | step {lo hi : Nat} :
      ValidRecords imax buf' lo (lo + dReclen buf lo) →
      SpaceKept imax buf buf' (lo + dReclen buf lo) hi → SpaceKept imax buf buf' lo hi

/-- The chunk is covered by good records. -/
theorem SpaceKept.valid {imax lo hi : Nat} {buf buf' : Nat → UInt8}
    (h : SpaceKept imax buf buf' lo hi) : ValidRecords imax buf' lo hi := by
  induction h with
  | done => exact .done _
  | step hrecord _ ih => exact hrecord.append ih

/-- **Where `..` is cut off the first record**, its name takes no more than half
of it, and good records follow on the two parts already. -/
def CarvedRight (imax : Nat) (buf : Nat → UInt8) : Prop :=
  Splits buf → 2 * DIRSIZ buf 0 ≤ dReclen buf 0 ∧
    ValidRecords imax buf (2 * DIRSIZ buf 0) (dReclen buf 0)

section Chunk

variable {ctx : Pass2Ctx} {sb : Superblock} {needswap yes : Bool}
  {fuel t lo hi : Nat} {s : ScanState Pass2}

/-- The bytes that are put back. -/
theorem same_putBack (dbuf buf : Nat → UInt8) (lo L : Nat) :
    ∀ i < L, dbuf i = store buf lo (load dbuf 0 L) (lo + i) := by
  intro i hi
  rw [store_in (by rwa [length_load]), getElem_load, Nat.zero_add]

/-- **A round**: the record at `lo` has been checked, and the scan is behind it. -/
structure Taken (ctx : Pass2Ctx) (sb : Superblock) (needswap yes : Bool)
    (t lo : Nat) (s s' : ScanState Pass2) : Prop where
  run : ∀ fuel,
    scanLoop sb needswap yes ctx.imax (pass2check ctx) (fuel + 1) s
      = if s'.env.exited then (s', ⟨false, true⟩)
        else scanLoop sb needswap yes ctx.imax (pass2check ctx) fuel s'
  loaded : Loaded sb s'
  loc : s'.idesc.loc = lo + dReclen s.buf lo
  next : lo + dReclen s.buf lo < t + DIRBLKSIZ →
    InChunk sb t (lo + dReclen s.buf lo) s'
  dirs : s'.idesc.number = s.idesc.number ∧ s'.idesc.parent = s.idesc.parent
  env : s'.env = (recordChecked ctx lo s).env
  entryno : s'.idesc.entryno = (recordChecked ctx lo s).entryno
  buf : s'.buf =
    if (recordChecked ctx lo s).altered && !(recordChecked ctx lo s).env.exited
    then store s.buf lo (load (recordChecked ctx lo s).dbuf 0 (dReclen s.buf lo))
    else s.buf

/-- A good record with good records behind it is taken. -/
theorem InChunk.taken (hc : InChunk sb t lo s)
    (hok : recordOk ctx.imax s.buf lo (t + DIRBLKSIZ - lo) = true)
    (hnext : lo + dReclen s.buf lo = t + DIRBLKSIZ ∨
      recordOk ctx.imax s.buf (lo + dReclen s.buf lo)
        (t + DIRBLKSIZ - (lo + dReclen s.buf lo)) = true) :
    ∃ s', Taken ctx sb needswap yes t lo s s' := by
  have hbounds := recordOk_bounds hok
  have hsize := hc.filesize
  have hstart := hc.start
  have hl : Loaded sb (s.advance (dReclen s.buf lo)) :=
    ⟨hc.loaded.bno, hc.loaded.errs⟩
  obtain ⟨henv, hidesc, hbuf⟩ :=
    afterCheck_keeps ctx lo (s.advance (dReclen s.buf lo))
  have hsame := afterCheck_same ctx lo (s.advance (dReclen s.buf lo))
  have hrun : ∀ fuel, scanLoop sb needswap yes ctx.imax (pass2check ctx)
      (fuel + 1) s = _ := fun _ => scanLoop_checked (hc.readdir_good hok hnext) hl
  generalize afterCheck ctx lo (s.advance (dReclen s.buf lo)) = s'
    at henv hidesc hbuf hsame hrun
  have hloc : s'.idesc.loc = lo + dReclen s.buf lo := by
    rw [hidesc, ← hc.loc]
    rfl
  refine ⟨s', hrun, hsame.loaded hl, hloc, fun hlt => ?_, ?_, henv, ?_, hbuf⟩
  · exact
      { loaded := hsame.loaded hl
        aligned := hc.aligned
        block := by
          rw [hsame.blockBytes]
          exact hc.block
        loc := hloc
        start := by omega
        stop := hlt
        filesize := by
          rw [hidesc]
          show _ ≤ s.idesc.filesize - (dReclen s.buf lo : Int)
          omega }
  · rw [hidesc]
    exact ⟨rfl, rfl⟩
  · rw [hidesc]
    rfl

/-- Behind the record nothing has changed. -/
theorem Taken.outside {s' : ScanState Pass2}
    (h : Taken ctx sb needswap yes t lo s s') {i : Nat}
    (hi : i < lo ∨ lo + dReclen s.buf lo ≤ i) : s'.buf i = s.buf i := by
  rw [h.buf]
  split
  · exact store_out (by rwa [length_load])
  · rfl

/-- The first of some good records, and what is behind it. -/
theorem ValidRecords.cons {imax : Nat} {f : Nat → UInt8}
    (h : ValidRecords imax f lo hi) (hlt : lo < hi) :
    recordOk imax f lo (hi - lo) = true ∧
      (lo + dReclen f lo = hi ∨
        recordOk imax f (lo + dReclen f lo) (hi - (lo + dReclen f lo)) = true) ∧
      ValidRecords imax f (lo + dReclen f lo) hi := by
  obtain ⟨hok, hrest⟩ := (validRecords_iff hlt).mp h
  refine ⟨hok, ?_, hrest⟩
  obtain heq | hmore := Nat.eq_or_lt_of_le hrest.tiled.le
  · exact .inl heq
  · exact .inr ((validRecords_iff hmore).mp hrest).1

/-- What is known of the rounds from `lo` on: the checker gives up, or the scan
comes to the end of the chunk and the bytes of its records are kept. -/
def KeptFrom (ctx : Pass2Ctx) (sb : Superblock) (needswap yes : Bool)
    (f : Nat → UInt8) (lo hi : Nat) (s : ScanState Pass2) : Prop :=
  ∀ n, let s' := (scanLoop sb needswap yes ctx.imax (pass2check ctx) n s).1
    s'.env.exited = true ∨
      ((hi - lo ≤ n → hi ≤ s'.idesc.loc) ∧
        (hi ≤ s'.idesc.loc → SpaceKept ctx.imax f s'.buf lo hi))

/-- **The records from the second on.** -/
theorem later_spaceKept (hhi : hi = t + DIRBLKSIZ) {f : Nat → UInt8}
    (hv : ValidRecords ctx.imax f lo hi) :
    ∀ s : ScanState Pass2, Same f s.buf lo hi → Loaded sb s →
      (lo < hi → InChunk sb t lo s) → s.idesc.loc = lo → 1 ≤ s.idesc.entryno →
      Sane ctx s.idesc.number s.idesc.parent →
      KeptFrom ctx sb needswap yes f lo hi s := by
  induction hv with
  | done hi =>
    intro s _ hl _ hloc _ _ n
    have hpassed := (scanLoop_passed ctx needswap yes ctx.imax n s hl).1
    exact .inr ⟨fun _ => hloc ▸ hpassed, fun _ => .done _⟩
  | @step lo hi hok hrest ih =>
    intro s hs hl hc hloc hentry hsane n
    have hbounds := recordOk_bounds hok
    have hlt : lo < hi := by omega
    have hin := hc hlt
    have hlen : dReclen s.buf lo = dReclen f lo :=
      le16_congr (hs.mono (by omega) (by omega)).symm
    have hvalid := (ValidRecords.step hok hrest).congr hs
    obtain ⟨hok', hnext, -⟩ := hvalid.cons hlt
    cases n with
    | zero =>
      refine .inr ⟨fun hn => ?_, fun hend => ?_⟩
      · omega
      · have hend' : hi ≤ s.idesc.loc := hend
        omega
    | succ n =>
      subst hhi
      obtain ⟨s', htaken⟩ : ∃ s', Taken ctx sb needswap yes t lo s s' :=
        hin.taken hok' hnext
      have hgood := GoodRecord.of_ok hok'
      have hshort : dReclen s.buf lo < 2 ^ 16 := by
        have := hin.stop
        have := hin.start
        unfold DIRBLKSIZ at *
        omega
      obtain ⟨hkept, hcount⟩ := checkLater_good hsane hshort s.env hgood.copy hentry
      have hrecord : ValidRecords ctx.imax s'.buf lo (lo + dReclen s.buf lo) := by
        rw [htaken.buf]
        split
        · exact hkept.shift (same_putBack _ _ _ _)
        · exact hgood.valid
      have hsame : Same f s'.buf (lo + dReclen f lo) (t + DIRBLKSIZ) := by
        intro i hlo hhi
        rw [hs i (by omega) hhi]
        exact (htaken.outside (.inr (hlen ▸ hlo))).symm
      have hloc' := htaken.loc
      have hin' := htaken.next
      rw [hlen] at hrecord hloc' hin'
      dsimp only
      rw [htaken.run]
      split
      case isTrue hexit => exact .inl hexit
      case isFalse =>
        have hrun := ih rfl s' hsame htaken.loaded hin' hloc'
          (htaken.entryno ▸ hcount)
          (by rw [htaken.dirs.1, htaken.dirs.2]; exact hsane) n
        refine hrun.imp id fun hrun => ⟨fun hn => hrun.1 (by omega), fun hend => ?_⟩
        refine .step (hrecord.congr fun i _ hi => ?_) (hrun.2 hend)
        have hpassed := (scanLoop_passed ctx needswap yes ctx.imax n s' htaken.loaded).2
        exact (hpassed i (hloc' ▸ hi)).symm

/-- What is cut off depends on the bytes of the record. -/
theorem splits_congr {f g : Nat → UInt8} {L : Nat} (hs : Same f g 0 L) (h12 : 12 ≤ L) :
    (Splits f ↔ Splits g) ∧ DIRSIZ f 0 = DIRSIZ g 0 ∧ dReclen f 0 = dReclen g 0 := by
  have hino : dIno f 0 = dIno g 0 := le32_congr (hs.mono (by omega) (by omega))
  have hreclen : dReclen f 0 = dReclen g 0 :=
    le16_congr (hs.mono (by omega) (by omega))
  have hsize : DIRSIZ f 0 = DIRSIZ g 0 := by
    unfold DIRSIZ dNamlen
    rw [le16_congr (hs.mono (by omega) (by omega))]
  have hname : nameIs f 0 [DOT, DOT] = nameIs g 0 [DOT, DOT] := by
    have hbyte : ∀ i, i < 12 → f i = g i := fun i hi => hs i (by omega) (by omega)
    unfold nameIs
    simp only [List.length_cons, List.length_nil, List.range_succ, List.range_zero,
      List.nil_append, List.cons_append, List.all_cons, List.all_nil]
    rw [hbyte _ (by omega), hbyte _ (by omega), hbyte _ (by omega)]
  refine ⟨?_, hsize, hreclen⟩
  unfold Splits
  rw [hino, hname, hsize, hreclen]

/-- The first chunk of a directory, of good records, that phase 2 comes to. -/
structure FirstChunk (ctx : Pass2Ctx) (sb : Superblock) (s : ScanState Pass2) :
    Prop where
  chunk : InChunk sb 0 0 s
  entryno : s.idesc.entryno = 0
  sane : Sane ctx s.idesc.number s.idesc.parent
  records : ValidRecords ctx.imax s.buf 0 DIRBLKSIZ

/-- **The first record**: its bytes are covered by good records exactly if it is
carved right. -/
theorem FirstChunk.first (h : FirstChunk ctx sb s) {s' : ScanState Pass2}
    (htaken : Taken ctx sb needswap yes 0 0 s s') (hgoes : s'.env.exited = false) :
    1 ≤ s'.idesc.entryno ∧
      (ValidRecords ctx.imax s'.buf 0 (dReclen s.buf 0) ↔
        CarvedRight ctx.imax s.buf) := by
  have hpos : 0 < DIRBLKSIZ := by decide
  obtain ⟨hok, -, -⟩ := h.records.cons hpos
  have hgood := GoodRecord.of_ok hok
  have hbounds := recordOk_bounds hok
  have hshort : dReclen s.buf 0 < 2 ^ 16 := by
    unfold DIRBLKSIZ at hbounds
    omega
  generalize hL : dReclen s.buf 0 = L at hgood hbounds hshort ⊢
  have hcopy : Same (area (load s.buf 0 L)) s.buf 0 L := fun i _ hi => by
    unfold area
    rw [getD_load 0 hi, Nat.zero_add]
  obtain ⟨hsplits, hsize, -⟩ := splits_congr hcopy hbounds.1
  have hw : recordChecked ctx 0 s = checkRecord ctx s.idesc.number s.idesc.parent
      (.given (area (load s.buf 0 L)) 0 s.env) := by
    unfold recordChecked
    rw [h.entryno, hL]
  have hcount := checkFirst_counted h.sane hshort s.env hgood.copy
  have hvalid := checkFirst_valid h.sane hshort s.env hgood.copy
  have hcut := checkCut_iff h.sane hshort s.env hgood.copy
  have hbuf := htaken.buf
  rw [← hw] at hcount hvalid hcut
  rw [hL] at hbuf
  rw [htaken.env] at hgoes
  refine ⟨?_, ?_⟩
  · rw [htaken.entryno]
    exact hcount.resolve_left (by rw [hgoes]; decide)
  · have hback : Same (recordChecked ctx 0 s).dbuf
        (store s.buf 0 (load (recordChecked ctx 0 s).dbuf 0 L)) 0 L :=
      fun i _ hi => by
        have hbyte := same_putBack (recordChecked ctx 0 s).dbuf s.buf 0 L i hi
        rwa [Nat.zero_add] at hbyte
    by_cases hsplit : Splits s.buf
    · obtain ⟨halt, hiff⟩ := hcut (hsplits.mpr hsplit)
      rw [halt, hgoes, Bool.not_false, Bool.and_true, if_pos rfl] at hbuf
      rw [hsize] at hiff
      have hback' : ValidRecords ctx.imax s'.buf 0 L
          ↔ ValidRecords ctx.imax (recordChecked ctx 0 s).dbuf 0 L := by
        rw [hbuf]
        exact ⟨fun hv => hv.congr hback.symm, fun hv => hv.congr hback⟩
      have hrest : ValidRecords ctx.imax (area (load s.buf 0 L))
            (2 * DIRSIZ s.buf 0) L
          ↔ ValidRecords ctx.imax s.buf (2 * DIRSIZ s.buf 0) L :=
        ⟨fun hv => hv.congr (hcopy.mono (Nat.zero_le _) le_rfl),
          fun hv => hv.congr (hcopy.symm.mono (Nat.zero_le _) le_rfl)⟩
      rw [hback', hiff, hrest]
      unfold CarvedRight
      rw [hL]
      exact ⟨fun hh _ => hh, fun hh => hh hsplit⟩
    · have hkept := hvalid fun hh => hsplit (hsplits.mp hh)
      refine iff_of_true ?_ fun hh => absurd hh hsplit
      rw [hbuf]
      split
      · exact hkept.congr hback
      · have hone := hgood.valid
        rwa [Nat.zero_add] at hone

/-- **The first chunk**, after any number of rounds: the checker has given up, or
it comes to the end of the chunk, and the bytes of the records are kept exactly
if the first is carved right. -/
theorem chunk_spaceKept (needswap yes : Bool) (h : FirstChunk ctx sb s) (n : Nat) :
    (scanLoop sb needswap yes ctx.imax (pass2check ctx) n s).1.env.exited = true ∨
      ((DIRBLKSIZ ≤ n → DIRBLKSIZ ≤
          (scanLoop sb needswap yes ctx.imax (pass2check ctx) n s).1.idesc.loc) ∧
        (DIRBLKSIZ ≤
            (scanLoop sb needswap yes ctx.imax (pass2check ctx) n s).1.idesc.loc →
          (SpaceKept ctx.imax s.buf
              (scanLoop sb needswap yes ctx.imax (pass2check ctx) n s).1.buf 0
              DIRBLKSIZ ↔ CarvedRight ctx.imax s.buf))) := by
  have hpos : 0 < DIRBLKSIZ := by decide
  obtain ⟨hok, hnext, hrest⟩ := h.records.cons hpos
  have hbounds := recordOk_bounds hok
  cases n with
  | zero =>
    refine .inr ⟨fun hn => absurd hn (by decide), fun hend => ?_⟩
    have hend' : DIRBLKSIZ ≤ s.idesc.loc := hend
    rw [h.chunk.loc] at hend'
    exact absurd hend' (by decide)
  | succ n =>
    have hzero : 0 + DIRBLKSIZ = DIRBLKSIZ := Nat.zero_add _
    obtain ⟨s', htaken⟩ : ∃ s', Taken ctx sb needswap yes 0 0 s s' :=
      h.chunk.taken (by rw [hzero]; exact hok) (by rw [hzero]; exact hnext)
    have hsame : Same s.buf s'.buf (0 + dReclen s.buf 0) DIRBLKSIZ :=
      fun i hlo _ => (htaken.outside (.inr hlo)).symm
    rw [htaken.run]
    split
    case isTrue hexit => exact .inl hexit
    case isFalse hexit =>
      obtain ⟨hcount, hiff⟩ := h.first htaken (Bool.not_eq_true _ ▸ hexit)
      have hlater : KeptFrom ctx sb needswap yes s.buf (0 + dReclen s.buf 0)
          DIRBLKSIZ s' :=
        later_spaceKept hzero.symm hrest s' hsame htaken.loaded
          (by rw [← hzero]; exact htaken.next) htaken.loc hcount
          (by rw [htaken.dirs.1, htaken.dirs.2]; exact h.sane)
      have hrun := hlater n
      have hpassed := (scanLoop_passed ctx needswap yes ctx.imax n s' htaken.loaded).2
      rw [htaken.loc] at hpassed
      refine hrun.imp id fun hrun => ⟨fun hn => hrun.1 (by omega), fun hend => ?_⟩
      rw [← hiff]
      constructor
      · intro hkept
        cases hkept with
        | step hrecord _ =>
          rw [Nat.zero_add] at hrecord hpassed
          exact hrecord.congr fun i _ hi => hpassed i hi
      · intro hrecord
        refine .step ?_ (hrun.2 hend)
        rw [Nat.zero_add] at hpassed ⊢
        exact hrecord.congr fun i _ hi => (hpassed i hi).symm

/-- **The first chunk of a directory after phase 2.**  Unless the checker gives
up, the bytes of its records are covered by good records exactly if the first
record is carved right. -/
theorem pass2_keeps_space (needswap yes : Bool) (h : FirstChunk ctx sb s) {n : Nat}
    (hn : DIRBLKSIZ ≤ n) :
    (scanLoop sb needswap yes ctx.imax (pass2check ctx) n s).1.env.exited = true ∨
      DIRBLKSIZ ≤
          (scanLoop sb needswap yes ctx.imax (pass2check ctx) n s).1.idesc.loc ∧
        (SpaceKept ctx.imax s.buf
            (scanLoop sb needswap yes ctx.imax (pass2check ctx) n s).1.buf 0
            DIRBLKSIZ ↔ CarvedRight ctx.imax s.buf) :=
  (chunk_spaceKept needswap yes h n).imp id fun hrun => ⟨hrun.1 hn, hrun.2 (hrun.1 hn)⟩

end Chunk

/-! ## §4. Two chunks. -/

/-- A record of a chunk that is made by hand. -/
def putRecord (off ino reclen : Nat) (name : Bytes) (buf : Nat → UInt8) :
    Nat → UInt8 :=
  store buf off (protoRecord (fun _ => 0) ino reclen name)

/-- `.` and `a`, with 512 bytes each. -/
def slackChunk : Nat → UInt8 :=
  putRecord 512 5 512 [97] (putRecord 0 2 512 [DOT] fun _ => 0)

/-- `.` with just the bytes that `..` needs besides, and `a` with the rest. -/
def roomyChunk : Nat → UInt8 :=
  putRecord 24 5 1000 [97] (putRecord 0 2 24 [DOT] fun _ => 0)

/-- Phase 2 for a disk of 100 inodes that are files. -/
def filesCtx : Pass2Ctx where
  imax := 100
  yes := true
  pathSize := 1024
  isDir := fun _ => false
  junk := fun _ => 0
  descend := fun _ _ env => env

/-- The root directory, whose block at fragment 200 has been read. -/
def chunkScan (chunk : Nat → UInt8) : ScanState Pass2 where
  io :=
    { dev :=
        { data := fun _ => 0
          bad := fun _ => false
          writable := true }
      fileblk :=
        { bno := fsbtodb (labelSb 4096 2) (BitVec.ofNat 32 200)
          size := 1024
          errs := 0
          buf := chunk
          dirty := false
          swapped := true } }
  idesc :=
    { fix := .dontknow
      number := 2
      parent := 2
      blkno := 200
      numfrags := 1
      filesize := 1024
      loc := 0
      entryno := 0 }
  env :=
    { statemap := fun ino => if ino = 2 then .dfound else .fstate
      lncntp := fun _ => 1
      path := []
      exited := false }
  delivered := []

theorem chunkScan_firstChunk {chunk : Nat → UInt8}
    (h : ValidRecords 100 chunk 0 DIRBLKSIZ) :
    FirstChunk filesCtx (labelSb 4096 2) (chunkScan chunk) where
  chunk :=
    { loaded := ⟨rfl, rfl⟩
      aligned := rfl
      block := (by decide : 0 + DIRBLKSIZ ≤ 1 * (labelSb 4096 2).fragSize)
      loc := rfl
      start := le_rfl
      stop := by decide
      filesize := (by decide : ((0 + DIRBLKSIZ - 0 : Nat) : Int) ≤ 1024) }
  entryno := rfl
  sane :=
    { max := by decide
      yes := rfl
      number := (by decide : 2 ≠ 0 ∧ 2 < 100)
      parent := (by decide : 2 ≠ 0 ∧ 2 < 100) }
  records := h

theorem slackChunk_valid : ValidRecords 100 slackChunk 0 DIRBLKSIZ := by
  have hfirst : 0 + dReclen slackChunk 0 = 512 := by decide +kernel
  have hsecond : 512 + dReclen slackChunk 512 = DIRBLKSIZ := by decide +kernel
  refine .step (by decide +kernel) ?_
  rw [hfirst]
  refine .step (by decide +kernel) ?_
  rw [hsecond]
  exact .done _

theorem roomyChunk_valid : ValidRecords 100 roomyChunk 0 DIRBLKSIZ := by
  have hfirst : 0 + dReclen roomyChunk 0 = 24 := by decide +kernel
  have hsecond : 24 + dReclen roomyChunk 24 = DIRBLKSIZ := by decide +kernel
  refine .step (by decide +kernel) ?_
  rw [hfirst]
  refine .step (by decide +kernel) ?_
  rw [hsecond]
  exact .done _

/-- `..` is cut off a `.` of 24 bytes, and takes what is left of them. -/
theorem pass2_keeps_roomy :
    let buf := (scanLoop (labelSb 4096 2) true true 100 (pass2check filesCtx)
      DIRBLKSIZ (chunkScan roomyChunk)).1.buf
    SpaceKept 100 roomyChunk buf 0 DIRBLKSIZ ∧ dReclen buf 0 = 12 ∧
      dIno buf 12 = 2 ∧ dReclen buf 12 = 12 ∧ load buf 20 2 = [DOT, DOT] := by
  have hgoes : (scanLoop (labelSb 4096 2) true true 100 (pass2check filesCtx)
      DIRBLKSIZ (chunkScan roomyChunk)).1.env.exited = false := by decide +kernel
  have hkept := pass2_keeps_space true true
    (chunkScan_firstChunk roomyChunk_valid) (le_refl DIRBLKSIZ)
  have hlen : dReclen (chunkScan roomyChunk).buf 0 = 24 := by decide +kernel
  have hsize : 2 * DIRSIZ (chunkScan roomyChunk).buf 0 = 24 := by decide +kernel
  refine ⟨((hkept.resolve_left ?_).2).mpr fun _ => ?_, by decide +kernel⟩
  · rw [show filesCtx.imax = 100 from rfl, hgoes]
    decide
  · rw [hsize, hlen]
    exact ⟨le_rfl, .done _⟩

/-- **Bytes that no record takes**: `..` is cut off a `.` of 512 bytes with a
length of 12, and nothing but zeros is behind it. -/
theorem dotdot_carved_short :
    ¬∀ (ctx : Pass2Ctx) (sb : Superblock) (needswap yes : Bool)
      (s : ScanState Pass2) (n : Nat), FirstChunk ctx sb s → DIRBLKSIZ ≤ n →
      (scanLoop sb needswap yes ctx.imax (pass2check ctx) n s).1.env.exited = true ∨
        SpaceKept ctx.imax s.buf
          (scanLoop sb needswap yes ctx.imax (pass2check ctx) n s).1.buf 0
          DIRBLKSIZ := by
  intro hall
  have hfirst := chunkScan_firstChunk slackChunk_valid
  have hgoes : (scanLoop (labelSb 4096 2) true true 100 (pass2check filesCtx)
      DIRBLKSIZ (chunkScan slackChunk)).1.env.exited = false := by decide +kernel
  have hnot : ¬(scanLoop (labelSb 4096 2) true true filesCtx.imax
      (pass2check filesCtx) DIRBLKSIZ (chunkScan slackChunk)).1.env.exited = true := by
    rw [show filesCtx.imax = 100 from rfl, hgoes]
    decide
  have hkept := (hall filesCtx (labelSb 4096 2) true true (chunkScan slackChunk)
    DIRBLKSIZ hfirst le_rfl).resolve_left hnot
  obtain ⟨hend, hiff⟩ := (chunk_spaceKept true true hfirst
    DIRBLKSIZ).resolve_left hnot
  have hcarved := (hiff (hend le_rfl)).mp hkept
  have hsplit : Splits (chunkScan slackChunk).buf :=
    ⟨by decide +kernel, by decide +kernel, by decide +kernel⟩
  have hsize : 2 * DIRSIZ (chunkScan slackChunk).buf 0 = 24 := by decide +kernel
  have hlen : dReclen (chunkScan slackChunk).buf 0 = 512 := by decide +kernel
  obtain ⟨-, hrest⟩ := hcarved hsplit
  rw [hsize, hlen, validRecords_iff (by decide)] at hrest
  have hlong := (recordOk_bounds hrest.1).1
  have hzero : dReclen (chunkScan slackChunk).buf 24 = 0 := by decide +kernel
  omega

end NextUfs.Fsck
