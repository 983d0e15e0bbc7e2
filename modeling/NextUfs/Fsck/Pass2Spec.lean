/-
  NextUfs.Fsck.Pass2Spec
  ──────────────────────
  **WHAT PHASE 2 MAKES OF A RECORD.**

  A record that phase 2 writes over keeps its length, and one it makes room in
  for `.` is cut in two parts that take its bytes.  When it cuts `..` off the
  first record, it gives the part cut off the length of the part that stays:
  what is behind the two is left to whatever bytes are there.

    • `GoodRecord`         — a record that is good and takes certain bytes,
    • `checkEntry_kept`    — the third check leaves a record or takes it out of use,
    • `checkFirst_valid`   — the first record, with nothing cut off for `..`,
    • `checkCut_iff`       — the first record, cut for `..`,
    • `checkLater_good`    — every other record.
-/
import NextUfs.Fsck.Pass2

namespace NextUfs.Fsck

open Window Address

/-! ## §1. Fields that are stored. -/

section Store

variable {buf f g : Nat → UInt8} {imax p n v space : Nat}

@[simp] theorem putLe16_length (v : Nat) : (putLe16 v).length = 2 := rfl

@[simp] theorem putLe32_length (v : Nat) : (putLe32 v).length = 4 := rfl

/-- The room for a name is made of words, -/
theorem direntSize_mod (n : Nat) : direntSize n % 4 = 0 := by
  unfold direntSize
  omega

/-- and is small in a good record. -/
theorem DIRSIZ_le (h : dNamlen buf p ≤ MAXNAMLEN) : DIRSIZ buf p ≤ 268 := by
  unfold DIRSIZ direntSize
  unfold MAXNAMLEN at h
  omega

/-- An inode number that has been stored. -/
theorem dIno_store (hv : v < 2 ^ 32) (buf : Nat → UInt8) (p : Nat) :
    dIno (store buf p (putLe32 v)) p = v := by
  unfold dIno le32 putLe32
  rw [store_append]
  have hlow : le16 (store (store buf p (putLe16 v)) (p + (putLe16 v).length)
      (putLe16 (v / 2 ^ 16))) p = le16 (store buf p (putLe16 v)) p := by
    refine le16_congr fun i _ hi => store_out (.inl ?_)
    rw [putLe16_length]
    omega
  have hmod : le16 (store buf p (putLe16 v)) p = v % 2 ^ 16 := by
    have hsame : putLe16 v = putLe16 (v % 2 ^ 16) := by
      unfold putLe16
      congr 1
      · exact UInt8.toNat_inj.mp (by
          rw [UInt8.toNat_ofNat', UInt8.toNat_ofNat']
          omega)
      · congr 1
        exact UInt8.toNat_inj.mp (by
          rw [UInt8.toNat_ofNat', UInt8.toNat_ofNat']
          omega)
    rw [hsame]
    exact le16_store (Nat.mod_lt _ (by decide)) buf p
  rw [hlow, hmod, putLe16_length, le16_store (by omega)]
  omega

/-- What `dircheck` asks of a record. -/
theorem recordOk_iff : recordOk imax buf p space = true ↔
    dIno buf p < imax ∧ 12 ≤ dReclen buf p ∧ dReclen buf p ≤ space ∧
      dReclen buf p % 4 = 0 ∧ DIRSIZ buf p ≤ dReclen buf p ∧
      dNamlen buf p ≤ MAXNAMLEN ∧
      (dIno buf p = 0 ∨ nameOk buf p = true) := by
  have hmin := (le_direntSize (dNamlen buf p)).2
  unfold recordOk
  rw [Bool.and_eq_true, Bool.or_eq_true, decide_eq_true_eq, beq_iff_eq]
  unfold DIRSIZ
  constructor
  · rintro ⟨⟨h1, h2, h3, h4, h5, h6⟩, h7⟩
    exact ⟨h1, by omega, h3, h4, h5, h6, h7⟩
  · rintro ⟨h1, h2, h3, h4, h5, h6, h7⟩
    exact ⟨⟨h1, by omega, h3, h4, h5, h6⟩, h7⟩

/-- **A good record that takes the bytes `[p, p + n)`.** -/
structure GoodRecord (imax : Nat) (buf : Nat → UInt8) (p n : Nat) : Prop where
  ok : recordOk imax buf p n = true
  len : dReclen buf p = n

namespace GoodRecord

theorem bounds (h : GoodRecord imax buf p n) : 12 ≤ n ∧ n % 4 = 0 := by
  have := recordOk_iff.mp h.ok
  rw [h.len] at this
  exact ⟨this.2.1, this.2.2.2.1⟩

theorem congr (h : GoodRecord imax f p n) (hs : Same f g p (p + n)) :
    GoodRecord imax g p n := by
  have hn := h.bounds
  refine ⟨(recordOk_congr hs).symm.trans h.ok, ?_⟩
  rw [← h.len]
  exact le16_congr (hs.mono (by omega) (by omega)).symm

/-- The record alone covers its bytes. -/
theorem valid (h : GoodRecord imax buf p n) :
    ValidRecords imax buf p (p + n) := by
  refine .step ?_ ?_
  · rw [Nat.add_sub_cancel_left]
    exact h.ok
  · rw [h.len]
    exact .done _

/-- A record that is good with more room takes its own bytes. -/
theorem of_ok (h : recordOk imax buf p space = true) :
    GoodRecord imax buf p (dReclen buf p) := by
  obtain ⟨h1, h2, h3, h4, h5, h6, h7⟩ := recordOk_iff.mp h
  exact ⟨recordOk_iff.mpr ⟨h1, h2, le_rfl, h4, h5, h6, h7⟩, rfl⟩

/-- **Another inode number**, of a record in use, or none. -/
theorem setIno (h : GoodRecord imax buf p n) (hv : v < imax)
    (hmax : imax ≤ 2 ^ 32) (huse : v = 0 ∨ dIno buf p ≠ 0) :
    GoodRecord imax (store buf p (putLe32 v)) p n := by
  have hbehind : Same (store buf p (putLe32 v)) buf (p + 4) (p + n) :=
    fun i hlo _ => store_out (.inr (by rw [putLe32_length]; exact hlo))
  obtain ⟨h1, h2, h3, h4, h5, h6, h7⟩ := recordOk_iff.mp h.ok
  have hn := h.bounds
  have hreclen : dReclen (store buf p (putLe32 v)) p = dReclen buf p :=
    le16_congr (hbehind.mono (by omega) (by omega))
  have hnamlen : dNamlen (store buf p (putLe32 v)) p = dNamlen buf p :=
    le16_congr (hbehind.mono (by omega) (by omega))
  refine ⟨recordOk_iff.mpr ⟨?_, ?_, ?_, ?_, ?_, ?_, ?_⟩, hreclen.trans h.len⟩
  · rw [dIno_store (by omega)]
    exact hv
  · rw [hreclen]
    exact h2
  · rw [hreclen]
    exact h3
  · rw [hreclen]
    exact h4
  · unfold DIRSIZ
    rw [hreclen, hnamlen]
    exact h5
  · rw [hnamlen]
    exact h6
  · rw [dIno_store (by omega)]
    refine huse.imp id fun hlive => ?_
    have hname := h7.resolve_left hlive
    have hsize := (le_direntSize (dNamlen buf p)).1
    unfold DIRSIZ at h5
    rw [h.len] at h5
    have hbyte : ∀ k ≤ dNamlen buf p,
        store buf p (putLe32 v) (p + 8 + k) = buf (p + 8 + k) :=
      fun k hk => hbehind _ (by omega) (by omega)
    unfold nameOk at hname ⊢
    rw [hnamlen, hbyte _ le_rfl]
    rw [Bool.and_eq_true, List.all_eq_true] at hname ⊢
    refine ⟨fun k hk => ?_, hname.2⟩
    rw [hbyte k (List.mem_range.mp hk).le]
    exact hname.1 k hk

/-- **A shorter record**, with room for the name. -/
theorem setReclen (h : GoodRecord imax buf p n) {m : Nat}
    (hm : DIRSIZ buf p ≤ m) (hmod : m % 4 = 0) (hlt : m < 2 ^ 16) :
    GoodRecord imax (store buf (p + 4) (putLe16 m)) p m := by
  obtain ⟨h1, h2, h3, h4, h5, h6, h7⟩ := recordOk_iff.mp h.ok
  have hother : ∀ i, i < p + 4 ∨ p + 6 ≤ i →
      store buf (p + 4) (putLe16 m) i = buf i :=
    fun i hi => store_out (by rw [putLe16_length]; omega)
  have hino : dIno (store buf (p + 4) (putLe16 m)) p = dIno buf p :=
    le32_congr fun i _ hi => hother i (.inl hi)
  have hnamlen : dNamlen (store buf (p + 4) (putLe16 m)) p = dNamlen buf p :=
    le16_congr fun i hi _ => hother i (.inr hi)
  have hlen : dReclen (store buf (p + 4) (putLe16 m)) p = m :=
    le16_store hlt buf (p + 4)
  have hmin := (le_direntSize (dNamlen buf p)).2
  have hmin' : 12 ≤ m := hmin.trans hm
  refine ⟨recordOk_iff.mpr ⟨?_, ?_, ?_, ?_, ?_, ?_, ?_⟩, hlen⟩
  · rw [hino]
    exact h1
  · rw [hlen]
    exact hmin'
  · rw [hlen]
  · rw [hlen]
    exact hmod
  · unfold DIRSIZ at hm ⊢
    rw [hlen, hnamlen]
    exact hm
  · rw [hnamlen]
    exact h6
  · rw [hino]
    refine h7.imp id fun hname => ?_
    unfold nameOk at hname ⊢
    rw [hnamlen, hother _ (.inr (by omega))]
    rw [Bool.and_eq_true, List.all_eq_true] at hname ⊢
    refine ⟨fun k hk => ?_, hname.2⟩
    rw [hother _ (.inr (by omega))]
    exact hname.1 k hk

end GoodRecord

/-! ## §2. Records that are written. -/

/-- The names that are written. -/
def DotName (name : Bytes) : Prop := name = [DOT] ∨ name = [DOT, DOT]

/-- The bytes of such a name. -/
theorem protoName_eq (junk : Nat → UInt8) {name : Bytes} (hname : DotName name) :
    ∃ a b c, (List.range (direntSize name.length - 8)).map (fun i =>
        if i < name.length then name.getD i 0
        else if i = name.length then 0
        else junk i) = [DOT, a, b, c] ∧
      (name.length = 1 ∧ a = 0 ∨ name.length = 2 ∧ a = DOT ∧ b = 0) := by
  rcases hname with rfl | rfl
  · exact ⟨0, junk 2, junk 3, rfl, .inl ⟨rfl, rfl⟩⟩
  · exact ⟨DOT, 0, junk 3, rfl, .inr ⟨rfl, rfl, rfl⟩⟩

theorem protoRecord_length (junk : Nat → UInt8) (ino len : Nat) {name : Bytes}
    (hname : DotName name) : (protoRecord junk ino len name).length = 12 := by
  obtain ⟨a, b, c, heq, -⟩ := protoName_eq junk hname
  unfold protoRecord
  rw [heq]
  rfl

/-- **A record with such a name** is good, in use, and takes the length that it
is given. -/
theorem protoRecord_good (junk : Nat → UInt8) {ino len : Nat} {name : Bytes}
    (hname : DotName name) (hino : ino < imax) (hmax : imax ≤ 2 ^ 32)
    (h12 : 12 ≤ len) (hmod : len % 4 = 0) (hlt : len < 2 ^ 16)
    (buf : Nat → UInt8) (p : Nat) :
    GoodRecord imax (store buf p (protoRecord junk ino len name)) p len ∧
      dIno (store buf p (protoRecord junk ino len name)) p = ino ∧
      dNamlen (store buf p (protoRecord junk ino len name)) p
        = name.length := by
  obtain ⟨a, b, c, hbytes, hcase⟩ := protoName_eq junk hname
  unfold protoRecord
  rw [hbytes, store_append, store_append, store_append]
  simp only [List.length_append, putLe16_length, putLe32_length]
  generalize hf₁ : store buf p (putLe32 ino) = f₁
  generalize hf₂ : store f₁ (p + 4) (putLe16 len) = f₂
  generalize hf₃ : store f₂ (p + (4 + 2)) (putLe16 name.length) = f₃
  generalize hf₄ : store f₃ (p + (4 + 2 + 2)) [DOT, a, b, c] = f₄
  have h₂ : ∀ i, i < p + 4 → f₂ i = f₁ i := fun i hi => by
    rw [← hf₂]
    exact store_out (.inl hi)
  have h₃ : ∀ i, i < p + 6 → f₃ i = f₂ i := fun i hi => by
    rw [← hf₃]
    exact store_out (.inl hi)
  have h₄ : ∀ i, i < p + 8 → f₄ i = f₃ i := fun i hi => by
    rw [← hf₄]
    exact store_out (.inl hi)
  have hdIno : dIno f₄ p = ino := by
    have hsame : dIno f₄ p = dIno f₁ p := le32_congr fun i _ hi => by
      rw [h₄ i (by omega), h₃ i (by omega), h₂ i (by omega)]
    rw [hsame, ← hf₁]
    exact dIno_store (by omega) buf p
  have hreclen : dReclen f₄ p = len := by
    have hsame : dReclen f₄ p = dReclen f₂ p := le16_congr fun i _ hi => by
      rw [h₄ i (by omega), h₃ i (by omega)]
    rw [hsame, ← hf₂]
    exact le16_store hlt f₁ (p + 4)
  have hlen2 : name.length ≤ 2 := by rcases hcase with h | h <;> omega
  have hnamlen : dNamlen f₄ p = name.length := by
    have hsame : dNamlen f₄ p = dNamlen f₃ p := le16_congr fun i _ hi => by
      rw [h₄ i (by omega)]
    rw [hsame, ← hf₃]
    exact le16_store (by omega) f₂ (p + 6)
  have hname0 : f₄ (p + 8) = DOT := by
    rw [← hf₄]
    exact @store_in UInt8 f₃ (p + 8) 0 [DOT, a, b, c] (show 0 < 4 by omega)
  have hname1 : f₄ (p + 8 + 1) = a := by
    rw [← hf₄]
    exact @store_in UInt8 f₃ (p + 8) 1 [DOT, a, b, c] (show 1 < 4 by omega)
  have hname2 : f₄ (p + 8 + 2) = b := by
    rw [← hf₄]
    exact @store_in UInt8 f₃ (p + 8) 2 [DOT, a, b, c] (show 2 < 4 by omega)
  have hsize : DIRSIZ f₄ p = 12 := by
    unfold DIRSIZ
    rw [hnamlen]
    rcases hcase with ⟨h, -⟩ | ⟨h, -⟩ <;> rw [h] <;> rfl
  refine ⟨⟨recordOk_iff.mpr ⟨?_, ?_, ?_, ?_, ?_, ?_, .inr ?_⟩, hreclen⟩, hdIno,
    hnamlen⟩
  · rw [hdIno]
    exact hino
  · rw [hreclen]
    exact h12
  · rw [hreclen]
  · rw [hreclen]
    exact hmod
  · rw [hsize, hreclen]
    exact h12
  · rw [hnamlen]
    exact hlen2.trans (by decide)
  · unfold nameOk
    rw [hnamlen]
    rcases hcase with ⟨h, ha⟩ | ⟨h, ha, hb⟩
    · rw [h, hname1, ha]
      simp only [List.range_one, List.all_cons, List.all_nil, Nat.add_zero,
        hname0]
      decide
    · rw [h, hname2, hb]
      simp only [List.range_succ, List.range_zero, List.nil_append,
        List.cons_append, List.all_cons, List.all_nil, Nat.add_zero, hname0,
        hname1, ha]
      decide

/-- A record that is not in use and takes `n` bytes of zeros. -/
theorem cutOff_fields (off n : Nat) (w : RecordCheck) (hn : n < 2 ^ 16)
    (h12 : 12 ≤ n) :
    (cutOff off n w).ino = 0 ∧ (cutOff off n w).reclen = n ∧
      (cutOff off n w).dirp = w.dirp + off ∧
      (∀ i, i < w.dirp + off ∨ w.dirp + off + n ≤ i →
        (cutOff off n w).dbuf i = w.dbuf i) := by
  have hzero : ∀ i, w.dirp + off ≤ i → i < w.dirp + off + n →
      store w.dbuf (w.dirp + off) (List.replicate n 0) i = 0 := by
    intro i hlo hhi
    obtain ⟨k, rfl⟩ := Nat.exists_eq_add_of_le hlo
    have hk : k < (List.replicate n (0 : UInt8)).length := by
      rw [List.length_replicate]
      omega
    rw [store_in hk, List.getElem_replicate]
  refine ⟨?_, ?_, rfl, fun i hi => ?_⟩
  · have hbyte : ∀ i, w.dirp + off ≤ i → i < w.dirp + off + 4 →
        (cutOff off n w).dbuf i = 0 := fun i hlo hhi =>
      (store_out (.inl hhi)).trans (hzero i hlo (by omega))
    show dIno (cutOff off n w).dbuf (w.dirp + off) = 0
    unfold dIno le32 le16
    rw [hbyte _ (by omega) (by omega), hbyte _ (by omega) (by omega),
      hbyte _ (by omega) (by omega), hbyte _ (by omega) (by omega)]
    rfl
  · exact le16_store hn _ (w.dirp + off + 4)
  · have houter : (cutOff off n w).dbuf i
        = store w.dbuf (w.dirp + off) (List.replicate n 0) i :=
      store_out (show i < w.dirp + off + 4 ∨ w.dirp + off + 4 + 2 ≤ i by omega)
    rw [houter]
    exact store_out (by rw [List.length_replicate]; omega)

/-- Good records, one part after the other. -/
theorem ValidRecords.append {lo mid hi : Nat}
    (h : ValidRecords imax buf lo mid) (h' : ValidRecords imax buf mid hi) :
    ValidRecords imax buf lo hi := by
  induction h with
  | done => exact h'
  | @step lo mid hok hrest ih =>
    obtain ⟨h1, h2, h3, h4⟩ := recordOk_iff.mp hok
    have hle := h'.tiled.le
    exact .step (recordOk_iff.mpr ⟨h1, h2, by omega, h4⟩) (ih h')

/-- The first of some good records. -/
theorem validRecords_iff {lo hi : Nat} (hlt : lo < hi) :
    ValidRecords imax buf lo hi ↔ recordOk imax buf lo (hi - lo) = true ∧
      ValidRecords imax buf (lo + dReclen buf lo) hi := by
  constructor
  · intro h
    cases h with
    | done => omega
    | step hok hrest => exact ⟨hok, hrest⟩
  · exact fun h => .step h.1 h.2

/-- Good records lead on from a place where some of them end. -/
theorem ValidRecords.rest {lo mid hi : Nat} (h : ValidRecords imax buf lo mid)
    (h' : ValidRecords imax buf lo hi) (hle : mid ≤ hi) :
    ValidRecords imax buf mid hi := by
  induction h with
  | done => exact h'
  | @step lo mid hok hrest ih =>
    have hbounds := recordOk_bounds hok
    have hend := hrest.tiled.le
    exact ih ((validRecords_iff (by omega)).mp h').2 hle

end Store

/-! ## §3. What phase 2 is given. -/

/-- The answers are yes, and the directory and its parent are inodes of the
disk. -/
structure Sane (ctx : Pass2Ctx) (number parent : Nat) : Prop where
  max : ctx.imax ≤ 2 ^ 32
  yes : ctx.yes = true
  number : number ≠ 0 ∧ number < ctx.imax
  parent : parent ≠ 0 ∧ parent < ctx.imax

/-- **`..` is cut off the first record**: it is in use, is not `..`, and has
room for `..` behind its name. -/
def Splits (buf : Nat → UInt8) : Prop :=
  dIno buf 0 ≠ 0 ∧ nameIs buf 0 [DOT, DOT] = false ∧
    DIRSIZ buf 0 + direntSize 2 ≤ dReclen buf 0

section Entry

variable {ctx : Pass2Ctx} {number : Nat} {w w' w'' : RecordCheck}

/-- From `w` to `w'` the record has been left as it is, or taken out of use. -/
structure Kept (w w' : RecordCheck) : Prop where
  dirp : w'.dirp = w.dirp
  entryno : w.entryno ≤ w'.entryno
  dbuf : w'.dbuf = w.dbuf ∧ w'.altered = w.altered ∨
    w'.dbuf = store w.dbuf w.dirp (putLe32 0) ∧ w'.altered = true

theorem Kept.refl (w : RecordCheck) : Kept w w := ⟨rfl, le_rfl, .inl ⟨rfl, rfl⟩⟩

theorem store_store (f : Nat → UInt8) (p : Nat) (bs : Bytes) :
    store (store f p bs) p bs = store f p bs := by
  funext i
  unfold store
  split
  · rcases Nat.lt_or_ge (i - p) bs.length with hin | hout
    · simp [List.getD_eq_getElem?_getD, hin]
    · simp [List.getD_eq_getElem?_getD, hout]
  · rfl

/-- A record that has been kept may still be taken out of use. -/
theorem Kept.drop (h : Kept w w') : Kept w { w'.setIno 0 with altered := true } := by
  refine ⟨h.dirp, h.entryno, .inr ⟨?_, rfl⟩⟩
  show store w'.dbuf w'.dirp (putLe32 0) = _
  rw [h.dirp]
  rcases h.dbuf with ⟨hd, -⟩ | ⟨hd, -⟩ <;> rw [hd]
  exact store_store _ _ _

/-- Only the record and `ALTERED` matter. -/
theorem Kept.of_eq (h : Kept w w') (hdirp : w''.dirp = w'.dirp)
    (hentry : w'.entryno ≤ w''.entryno) (hdbuf : w''.dbuf = w'.dbuf)
    (haltered : w''.altered = w'.altered) : Kept w w'' :=
  ⟨hdirp.trans h.dirp, h.entryno.trans hentry, by rw [hdbuf, haltered]; exact h.dbuf⟩

theorem Kept.trans (h : Kept w w') (h' : Kept w' w'') : Kept w w'' := by
  refine ⟨h'.dirp.trans h.dirp, h.entryno.trans h'.entryno, ?_⟩
  have hd := h'.dbuf
  rw [h.dirp] at hd
  rcases hd with ⟨hbuf', halt'⟩ | ⟨hbuf', halt'⟩
  · rw [hbuf', halt']
    exact h.dbuf
  · refine .inr ⟨hbuf'.trans ?_, halt'⟩
    rcases h.dbuf with ⟨hbuf, -⟩ | ⟨hbuf, -⟩ <;> rw [hbuf]
    exact store_store _ _ _

/-- Once altered, a record stays altered. -/
theorem Kept.altered (h : Kept w w') (hw : w.altered = true) : w'.altered = true :=
  h.dbuf.elim (fun hd => hd.2.trans hw) fun hd => hd.2

theorem checkKnown_kept (ino : Nat) (w : RecordCheck) :
    Kept w (checkKnown ctx number ino w).1 := by
  unfold checkKnown
  cases w.env.statemap ino with
  | dfound =>
    dsimp only
    split
    · exact Kept.refl w
    · exact (Kept.refl w).of_eq rfl le_rfl rfl rfl
  | fstate => exact (Kept.refl w).of_eq rfl le_rfl rfl rfl
  | dstate =>
    dsimp only
    have hdescended : ∀ env, Kept w { w with env := env } := fun env =>
      (Kept.refl w).of_eq rfl le_rfl rfl rfl
    split
    · exact hdescended _
    · split
      · exact (hdescended (ctx.descend number ino w.env)).of_eq rfl le_rfl rfl rfl
      · exact (hdescended (ctx.descend number ino w.env)).drop
      · exact (hdescended (ctx.descend number ino w.env)).of_eq rfl le_rfl rfl rfl
  | unset => exact (Kept.refl w).of_eq rfl le_rfl rfl rfl
  | ustate => exact (Kept.refl w).of_eq rfl le_rfl rfl rfl
  | dclear => exact (Kept.refl w).of_eq rfl le_rfl rfl rfl
  | fclear => exact (Kept.refl w).of_eq rfl le_rfl rfl rfl

theorem checkState_kept (ino : Nat) (w : RecordCheck) :
    Kept w (checkState ctx number ino w).1 := by
  have hagain : ∀ statemap, Kept w (checkKnown ctx number ino
      { w with env := { w.env with statemap := statemap } }).1 := fun statemap =>
    let h := @checkKnown_kept ctx number ino
      { w with env := { w.env with statemap := statemap } }
    ⟨h.dirp, h.entryno, h.dbuf⟩
  unfold checkState
  dsimp only
  cases hstate : w.env.statemap ino with
  | ustate => exact Kept.refl w
  | dclear =>
    dsimp only
    split
    · exact Kept.refl w
    · exact hagain _
  | fclear =>
    dsimp only
    split
    · exact Kept.refl w
    · exact hagain _
  | unset => exact checkKnown_kept ino w
  | fstate => exact checkKnown_kept ino w
  | dstate => exact checkKnown_kept ino w
  | dfound => exact checkKnown_kept ino w

/-- **The check of any record** leaves it as it is or takes it out of use, and
counts it if it is in use. -/
theorem checkEntry_kept (number : Nat) (hyes : ctx.yes = true) (w : RecordCheck) :
    Kept w (checkEntry ctx number w) ∧
      (w.ino ≠ 0 → (checkEntry ctx number w).env.exited = true ∨
        1 ≤ (checkEntry ctx number w).entryno) := by
  have hentered : Kept w (enterName ctx w) := by
    unfold enterName
    dsimp only
    split
    · exact (Kept.refl w).of_eq rfl le_rfl rfl rfl
    · exact (Kept.refl w).of_eq rfl le_rfl rfl rfl
  have hchecked : ∀ w₁ : RecordCheck, Kept w₁
      (if ctx.imax < w₁.ino then (w₁, ctx.yes)
        else checkState ctx number w₁.ino w₁).1 := by
    intro w₁
    split
    · exact Kept.refl w₁
    · exact checkState_kept _ _
  have hleft : ∀ (w₁ : RecordCheck) (path : Bytes) (p : RecordCheck × Bool),
      Kept w₁ p.1 → Kept w₁
        (if p.1.env.exited then p.1
        else if p.2 then
          { ({ p.1 with env := { p.1.env with path := path } } : RecordCheck).setIno 0
              with altered := true }
        else { p.1 with env := { p.1.env with path := path } }) := by
    intro w₁ path p hp
    have hpath : Kept w₁ { p.1 with env := { p.1.env with path := path } } :=
      hp.of_eq rfl le_rfl rfl rfl
    split
    · exact hp
    · split
      · exact hpath.drop
      · exact hpath
  unfold checkEntry
  dsimp only
  split
  case isTrue hfree => exact ⟨Kept.refl w, fun h => absurd hfree h⟩
  case isFalse =>
    split
    case isTrue hdot =>
      refine ⟨((Kept.refl w).drop).of_eq rfl le_rfl rfl ?_, fun _ => .inr ?_⟩
      · show (w.altered || ctx.yes) = true
        rw [hyes, Bool.or_true]
      · show 1 ≤ w.entryno
        omega
    case isFalse =>
      split
      case isTrue hexit => exact ⟨hentered, fun _ => .inl hexit⟩
      case isFalse =>
        have hnext : Kept w { enterName ctx w with
            entryno := (enterName ctx w).entryno + 1 } :=
          hentered.of_eq rfl (Nat.le_succ _) rfl rfl
        have hkept := hleft _ w.env.path _ (hchecked { enterName ctx w with
            entryno := (enterName ctx w).entryno + 1 })
        exact ⟨hnext.trans hkept,
          fun _ => .inr ((Nat.le_add_left 1 _).trans hkept.entryno)⟩

end Entry

/-! ## §5. The first two records. -/

section FirstTwo

variable {ctx : Pass2Ctx} {number parent L : Nat} {w : RecordCheck}

/-- A record cannot be `.` and `..`. -/
theorem nameIs_exclusive {buf : Nat → UInt8} {p : Nat}
    (h : nameIs buf p [DOT, DOT] = true) : nameIs buf p [DOT] = false := by
  rw [← Bool.not_eq_true]
  intro h'
  unfold nameIs at h h'
  rw [Bool.and_eq_true] at h h'
  have hdot := List.all_eq_true.mp h.1 1 (by decide)
  have hend := h'.2
  rw [beq_iff_eq] at hdot hend
  exact absurd (hdot.symm.trans hend) (by decide)

/-- The record at `dirp` can be made `..`: it follows on good records, is long
enough, and is good if it is in use. -/
structure Room (imax L : Nat) (w : RecordCheck) : Prop where
  before : ValidRecords imax w.dbuf 0 w.dirp
  len : w.dirp + w.reclen = L
  long : 12 ≤ w.reclen
  aligned : w.reclen % 4 = 0
  good : w.ino = 0 ∨ GoodRecord imax w.dbuf w.dirp w.reclen

/-- Good records up to the one at `dirp`, which is the last. -/
structure Laid (imax L : Nat) (w : RecordCheck) : Prop where
  before : ValidRecords imax w.dbuf 0 w.dirp
  last : GoodRecord imax w.dbuf w.dirp (L - w.dirp)
  inside : w.dirp < L

/-- They cover the bytes. -/
theorem Laid.valid {imax : Nat} (h : Laid imax L w) :
    ValidRecords imax w.dbuf 0 L := by
  have hlast := h.last.valid
  rw [Nat.add_sub_cancel' h.inside.le] at hlast
  exact h.before.append hlast

/-- A record taken out of use is still laid. -/
theorem Kept.laid {imax : Nat} {w' : RecordCheck} (h : Kept w w')
    (hl : Laid imax L w) (hmax : imax ≤ 2 ^ 32) : Laid imax L w' := by
  have hn := hl.last.bounds
  rcases h.dbuf with ⟨hd, -⟩ | ⟨hd, -⟩
  · exact ⟨by rw [hd, h.dirp]; exact hl.before, by rw [hd, h.dirp]; exact hl.last,
      by rw [h.dirp]; exact hl.inside⟩
  · have hpos : 0 < imax := (Nat.zero_le _).trans_lt (recordOk_iff.mp hl.last.ok).1
    refine ⟨?_, ?_, by rw [h.dirp]; exact hl.inside⟩
    · rw [hd, h.dirp]
      exact hl.before.congr fun i _ hi => (store_out (.inl hi)).symm
    · rw [hd, h.dirp]
      exact hl.last.setIno hpos hmax (.inl rfl)

/-- Behind the last record nothing has changed. -/
theorem Kept.behind {w' : RecordCheck} (h : Kept w w') {i : Nat}
    (hi : w.dirp + 4 ≤ i) : w'.dbuf i = w.dbuf i := by
  rcases h.dbuf with ⟨hd, -⟩ | ⟨hd, -⟩
  · rw [hd]
  · rw [hd]
    exact store_out (.inr hi)

section Sane

variable (hsane : Sane ctx number parent) (hL : L < 2 ^ 16)
include hsane hL

/-- **`..` is made** in the record at `dirp`, which keeps its length. -/
theorem makeDotDot_laid (h : Room ctx.imax L w) :
    Laid ctx.imax L (makeDotDot ctx parent w) ∧
      (makeDotDot ctx parent w).dirp = w.dirp ∧
      (makeDotDot ctx parent w).entryno = w.entryno ∧
      (∀ i, L ≤ i → (makeDotDot ctx parent w).dbuf i = w.dbuf i) ∧
      (w.ino = 0 → (makeDotDot ctx parent w).altered = true) := by
  have hlen : L - w.dirp = w.reclen := by have := h.len; omega
  have hin : w.dirp < L := by have := h.len; have := h.long; omega
  have hfix : ∀ v : RecordCheck, (v.fix ctx).altered = true := fun v => by
    show (v.altered || ctx.yes) = true
    rw [hsane.yes, Bool.or_true]
  -- a record of the same length in the place of the one at `dirp`
  have hlaid : ∀ v : RecordCheck, v.dirp = w.dirp →
      (∀ i < w.dirp, v.dbuf i = w.dbuf i) →
      GoodRecord ctx.imax v.dbuf w.dirp w.reclen → Laid ctx.imax L v := by
    intro v hdirp hsame hgood
    refine ⟨?_, ?_, by rw [hdirp]; exact hin⟩
    · rw [hdirp]
      exact h.before.congr fun i _ hi => (hsame i hi).symm
    · rw [hdirp, hlen]
      exact hgood
  unfold makeDotDot
  split
  case isTrue hdotdot =>
    have hgood := h.good.resolve_left hdotdot.1
    split
    case isTrue hother =>
      refine ⟨hlaid _ rfl (fun i hi => store_out (.inl hi)) ?_, rfl, rfl, ?_,
        fun hfree => absurd hfree hdotdot.1⟩
      · exact hgood.setIno hsane.parent.2 hsane.max (.inr hdotdot.1)
      · intro i hi
        refine store_out (.inr ?_)
        rw [putLe32_length]
        have := h.len
        have := h.long
        omega
    case isFalse =>
      exact ⟨hlaid w rfl (fun _ _ => rfl) hgood, rfl, rfl, fun _ _ => rfl,
        fun hfree => absurd hfree hdotdot.1⟩
  case isFalse =>
    split
    case isTrue hname =>
      exact ⟨hlaid w rfl (fun _ _ => rfl) (h.good.resolve_left hname.1), rfl, rfl,
        fun _ _ => rfl, fun hfree => absurd hfree hname.1⟩
    case isFalse =>
      have hsize : direntSize 2 = 12 := rfl
      have hlong := h.long
      have hend := h.len
      rw [hsize, if_neg (by omega)]
      have hdot : DotName [DOT, DOT] := .inr rfl
      have hbytes : (protoRecord ctx.junk parent w.reclen [DOT, DOT]).length = 12 :=
        protoRecord_length _ _ _ hdot
      refine ⟨hlaid _ rfl (fun i hi => store_out (.inl hi)) ?_, rfl, rfl, ?_,
        fun _ => hfix _⟩
      · exact (protoRecord_good ctx.junk hdot hsane.parent.2 hsane.max hlong
          h.aligned (by omega) w.dbuf w.dirp).1
      · intro i hi
        refine store_out (.inr ?_)
        rw [hbytes]
        omega

/-- The first record in one piece, in use. -/
structure Single (imax L : Nat) (w : RecordCheck) : Prop where
  entryno : w.entryno = 0
  dirp : w.dirp = 0
  used : w.ino ≠ 0
  good : GoodRecord imax w.dbuf 0 L

/-- **`.` is made** in the first record: one that is in use for another name
stays, a short one is written over, and a long one is cut in two. -/
theorem checkDot_first {a : Nat → UInt8} (env : Pass2)
    (h : GoodRecord ctx.imax a 0 L) :
    if dIno a 0 ≠ 0 ∧ nameIs a 0 [DOT, DOT] = false then
      Single ctx.imax L (checkDot ctx number (.given a 0 env)) ∧
        ∀ i, 4 ≤ i → (checkDot ctx number (.given a 0 env)).dbuf i = a i
    else
      Single ctx.imax L (checkDot ctx number (.given a 0 env)) ∧
        L < DIRSIZ (checkDot ctx number (.given a 0 env)).dbuf 0 + direntSize 2 ∨
      Room ctx.imax L (checkDot ctx number (.given a 0 env)) ∧
        (checkDot ctx number (.given a 0 env)).entryno = 1 := by
  have hsize : direntSize 1 = 12 := rfl
  have hsize' : direntSize 2 = 12 := rfl
  have hbounds := h.bounds
  have hdot : DotName [DOT] := .inl rfl
  have hino : (RecordCheck.given a 0 env).ino = dIno a 0 := rfl
  have hreclen : (RecordCheck.given a 0 env).reclen = L := h.len
  unfold checkDot
  dsimp only
  rw [if_neg (show ¬(RecordCheck.given a 0 env).entryno ≠ 0 from fun hne => hne rfl),
    hino, hreclen, hsize, hsize', show (RecordCheck.given a 0 env).dbuf = a from rfl,
    show (RecordCheck.given a 0 env).dirp = 0 from rfl]
  by_cases hother : dIno a 0 ≠ 0 ∧ nameIs a 0 [DOT, DOT] = false
  · rw [if_pos hother]
    by_cases hname : nameIs a 0 [DOT] = true
    · rw [if_pos ⟨hother.1, hname⟩]
      split
      · refine ⟨⟨rfl, rfl, ?_, ?_⟩, fun i hi => ?_⟩
        · show dIno (store a 0 (putLe32 number)) 0 ≠ 0
          rw [dIno_store (hsane.number.2.trans_le hsane.max)]
          exact hsane.number.1
        · exact h.setIno hsane.number.2 hsane.max (.inr hother.1)
        · show store a 0 (putLe32 number) i = a i
          exact store_out (.inr hi)
      · exact ⟨⟨rfl, rfl, hother.1, h⟩, fun _ _ => rfl⟩
    · rw [if_neg fun hh => hname hh.2, if_pos hother]
      exact ⟨⟨rfl, rfl, hother.1, h⟩, fun _ _ => rfl⟩
  · rw [if_neg hother]
    have hnot : ¬(dIno a 0 ≠ 0 ∧ nameIs a 0 [DOT] = true) := by
      rintro ⟨hlive, hname⟩
      refine hother ⟨hlive, ?_⟩
      rw [← Bool.not_eq_true]
      intro hh
      rw [nameIs_exclusive hh] at hname
      cases hname
    rw [if_neg hnot, if_neg hother, if_neg (by omega)]
    obtain hshort | hlong := Nat.lt_or_ge L (2 * 12)
    · rw [if_pos hshort]
      obtain ⟨hgood, hnum, hnamlen⟩ := protoRecord_good ctx.junk hdot hsane.number.2
        hsane.max hbounds.1 hbounds.2 hL a 0
      refine .inl ⟨⟨rfl, rfl, ?_, hgood⟩, ?_⟩
      · exact fun hh => hsane.number.1 (hnum.symm.trans hh)
      · have hdirsiz : DIRSIZ (store a 0 (protoRecord ctx.junk number L [DOT])) 0
            = 12 := by
          unfold DIRSIZ
          rw [hnamlen]
          rfl
        show L < DIRSIZ (store a 0 (protoRecord ctx.junk number L [DOT])) 0 + 12
        rw [hdirsiz]
        exact hshort
    · rw [if_neg (by omega)]
      obtain ⟨hgood, hnum, hnamlen⟩ := protoRecord_good ctx.junk hdot hsane.number.2
        hsane.max (le_refl 12) rfl (show 12 < 2 ^ 16 by decide) a 0
      generalize hv : ({ putProto ctx number 12 [DOT] (.given a 0 env) with
        entryno := (putProto ctx number 12 [DOT] (.given a 0 env)).entryno + 1 } :
          RecordCheck).countLink number = v
      have hdbuf : v.dbuf = store a 0 (protoRecord ctx.junk number 12 [DOT]) := by
        rw [← hv]
        rfl
      have hdirp : v.dirp = 0 := by
        rw [← hv]
        rfl
      obtain ⟨hfree, hcut, hat, hout⟩ := cutOff_fields 12 (L - 12) v
        (by omega) (by omega)
      rw [hdirp, Nat.zero_add] at hat hout
      refine .inr ⟨⟨?_, ?_, ?_, ?_, .inl hfree⟩, ?_⟩
      · show ValidRecords ctx.imax (cutOff 12 (L - 12) v).dbuf 0
          (cutOff 12 (L - 12) v).dirp
        rw [hat]
        have hvalid := hgood.valid
        rw [← hdbuf, Nat.zero_add] at hvalid
        exact hvalid.congr fun i _ hi => (hout i (.inl hi)).symm
      · show (cutOff 12 (L - 12) v).dirp + (cutOff 12 (L - 12) v).reclen = L
        rw [hat, hcut]
        omega
      · show 12 ≤ (cutOff 12 (L - 12) v).reclen
        rw [hcut]
        omega
      · show (cutOff 12 (L - 12) v).reclen % 4 = 0
        rw [hcut]
        omega
      · show v.entryno = 1
        rw [← hv]
        rfl

omit hsane in
/-- A first record without room for `..` is not cut, and one with room is cut
behind its name: the part cut off is as long as the part that stays. -/
theorem Single.cut {imax : Nat} (h : Single imax L w) :
    if L < DIRSIZ w.dbuf 0 + direntSize 2 then cutSecond w = none
    else ∃ u, cutSecond w = some u ∧ Room imax (2 * DIRSIZ w.dbuf 0) u ∧
      u.ino = 0 ∧ u.dirp = DIRSIZ w.dbuf 0 ∧ u.entryno = 1 ∧
      ∀ i, 2 * DIRSIZ w.dbuf 0 ≤ i → u.dbuf i = w.dbuf i := by
  have hreclen : w.reclen = L := by
    unfold RecordCheck.reclen
    rw [h.dirp]
    exact h.good.len
  have hn := direntSize_mod (dNamlen w.dbuf 0)
  have h12 := (le_direntSize (dNamlen w.dbuf 0)).2
  have hdot : direntSize 2 = 12 := rfl
  unfold cutSecond
  dsimp only
  rw [if_pos h.entryno, hreclen, h.dirp]
  split
  case isTrue => rfl
  case isFalse hroom =>
    generalize hsize : DIRSIZ w.dbuf 0 = n at hroom ⊢
    have hdirsiz : direntSize (dNamlen w.dbuf 0) = n := hsize
    rw [hdirsiz] at hn h12
    generalize hv : ({ w.setReclen n with
      entryno := (w.setReclen n).entryno + 1 } : RecordCheck).countLink
        (w.setReclen n).ino = v
    have hdbuf : v.dbuf = store w.dbuf 4 (putLe16 n) := by
      rw [← hv]
      show store w.dbuf (w.dirp + 4) (putLe16 n) = _
      rw [h.dirp]
    have hdirp : v.dirp = 0 := by
      rw [← hv]
      exact h.dirp
    have hgood : GoodRecord imax v.dbuf 0 n := by
      rw [hdbuf]
      exact h.good.setReclen hsize.le hn (by omega)
    obtain ⟨hfree, hcut, hat, hout⟩ := cutOff_fields n n v
      (by omega) h12
    rw [hdirp, Nat.zero_add] at hat hout
    refine ⟨_, rfl, ⟨?_, ?_, ?_, ?_, .inl hfree⟩, hfree, hat, ?_, ?_⟩
    · rw [hat]
      have hvalid := hgood.valid
      rw [Nat.zero_add] at hvalid
      exact hvalid.congr fun i _ hi => (hout i (.inl hi)).symm
    · rw [hat, hcut]
      omega
    · rw [hcut]
      exact h12
    · rw [hcut]
      exact hn
    · show v.entryno = 1
      rw [← hv]
      show w.entryno + 1 = 1
      rw [h.entryno]
    · intro i hi
      rw [hout i (.inr (by omega)), hdbuf]
      refine store_out (.inr ?_)
      rw [putLe16_length]
      omega

/-- **The first record after the first two checks**: without `..` cut off it, it
is good records; with `..` cut off it, its first bytes are. -/
theorem checkDotDot_first {a : Nat → UInt8} (env : Pass2)
    (h : GoodRecord ctx.imax a 0 L) :
    (1 ≤ (checkDotDot ctx parent
        (checkDot ctx number (.given a 0 env))).entryno ∨
      (checkDotDot ctx parent (checkDot ctx number (.given a 0 env))).ino ≠ 0) ∧
    (¬Splits a →
      Laid ctx.imax L (checkDotDot ctx parent
        (checkDot ctx number (.given a 0 env)))) ∧
    (Splits a →
      (checkDotDot ctx parent
        (checkDot ctx number (.given a 0 env))).altered = true ∧
      (checkDotDot ctx parent
        (checkDot ctx number (.given a 0 env))).dirp = DIRSIZ a 0 ∧
      Laid ctx.imax (2 * DIRSIZ a 0) (checkDotDot ctx parent
        (checkDot ctx number (.given a 0 env))) ∧
      ∀ i, 2 * DIRSIZ a 0 ≤ i → (checkDotDot ctx parent
        (checkDot ctx number (.given a 0 env))).dbuf i = a i) := by
  have hdot := checkDot_first hsane hL env h
  have hbounds := h.bounds
  generalize checkDot ctx number (.given a 0 env) = w at hdot ⊢
  -- a record in one piece with no room for `..`
  have hwhole : Single ctx.imax L w → L < DIRSIZ w.dbuf 0 + direntSize 2 →
      checkDotDot ctx parent w = w ∧ Laid ctx.imax L w := by
    intro hw hroom
    have hcut := hw.cut hL
    rw [if_pos hroom] at hcut
    constructor
    · unfold checkDotDot
      rw [hw.entryno, hcut, if_neg (by decide)]
    · refine ⟨?_, ?_, ?_⟩
      · rw [hw.dirp]
        exact .done _
      · rw [hw.dirp]
        exact hw.good
      · rw [hw.dirp]
        omega
  by_cases hother : dIno a 0 ≠ 0 ∧ nameIs a 0 [DOT, DOT] = false
  · rw [if_pos hother] at hdot
    obtain ⟨hw, hsame⟩ := hdot
    have hsize : DIRSIZ w.dbuf 0 = DIRSIZ a 0 := by
      unfold DIRSIZ dNamlen
      rw [le16_congr fun i hi _ => hsame i (by omega)]
    have hiff : Splits a ↔ ¬L < DIRSIZ w.dbuf 0 + direntSize 2 := by
      unfold Splits
      rw [h.len, hsize, Nat.not_lt]
      exact ⟨fun hh => hh.2.2, fun hh => ⟨hother.1, hother.2, hh⟩⟩
    rw [hiff, Classical.not_not]
    by_cases hroom : L < DIRSIZ w.dbuf 0 + direntSize 2
    · obtain ⟨heq, hlaid⟩ := hwhole hw hroom
      rw [heq]
      exact ⟨.inr hw.used, fun _ => hlaid, fun hh => absurd hroom hh⟩
    · have hcut := hw.cut hL
      rw [if_neg hroom] at hcut
      obtain ⟨u, hu, hspace, hfree, hat, hentry, hout⟩ := hcut
      have heq : checkDotDot ctx parent w = makeDotDot ctx parent u := by
        unfold checkDotDot
        rw [hw.entryno, hu, if_neg (by decide)]
      have hshort : DIRSIZ w.dbuf 0 ≤ 268 := by
        obtain ⟨-, -, -, -, -, hnamlen, -⟩ := recordOk_iff.mp h.ok
        rw [hsize]
        exact DIRSIZ_le hnamlen
      obtain ⟨hlaid, hdirp, hcount, hbehind, halt⟩ :=
        makeDotDot_laid (w := u) (L := 2 * DIRSIZ w.dbuf 0) hsane
          (by omega) hspace
      rw [heq, ← hsize]
      refine ⟨.inl (by omega), fun hh => absurd hh hroom, fun _ =>
        ⟨halt hfree, hdirp.trans hat, hlaid, fun i hi => ?_⟩⟩
      rw [hbehind i hi, hout i hi]
      refine hsame i ?_
      have := (le_direntSize (dNamlen w.dbuf 0)).2
      unfold DIRSIZ at hi
      omega
  · rw [if_neg hother] at hdot
    have hnot : ¬Splits a := fun hh => hother ⟨hh.1, hh.2.1⟩
    rcases hdot with ⟨hw, hroom⟩ | ⟨hspace, hentry⟩
    · obtain ⟨heq, hlaid⟩ := hwhole hw hroom
      rw [heq]
      exact ⟨.inr hw.used, fun _ => hlaid, fun hh => absurd hh hnot⟩
    · have heq : checkDotDot ctx parent w = makeDotDot ctx parent w := by
        unfold checkDotDot cutSecond
        rw [hentry]
        rfl
      obtain ⟨hlaid, -, hcount, -, -⟩ :=
        makeDotDot_laid hsane hL hspace
      rw [heq]
      exact ⟨.inl (by omega), fun _ => hlaid, fun hh => absurd hh hnot⟩

/-- **The first record, with nothing cut off for `..`**, becomes good records
that cover its bytes, or the checker gives up. -/
theorem checkFirst_valid {a : Nat → UInt8} (env : Pass2)
    (h : GoodRecord ctx.imax a 0 L) (hwhole : ¬Splits a) :
    ValidRecords ctx.imax
      (checkRecord ctx number parent (.given a 0 env)).dbuf 0 L := by
  obtain ⟨-, hlaid, -⟩ :=
    checkDotDot_first hsane hL env h
  exact (((checkEntry_kept number hsane.yes _).1).laid (hlaid hwhole) hsane.max).valid

/-- **The first record, cut for `..`**, becomes good records exactly if the part
that stays takes no more than half of it, and what is behind the two parts is
good records already. -/
theorem checkCut_iff {a : Nat → UInt8} (env : Pass2)
    (h : GoodRecord ctx.imax a 0 L) (hsplit : Splits a) :
    (checkRecord ctx number parent (.given a 0 env)).altered = true ∧
      (ValidRecords ctx.imax
          (checkRecord ctx number parent (.given a 0 env)).dbuf 0 L ↔
        2 * DIRSIZ a 0 ≤ L ∧
          ValidRecords ctx.imax a (2 * DIRSIZ a 0) L) := by
  obtain ⟨-, -, hcut⟩ :=
    checkDotDot_first hsane hL env h
  obtain ⟨halt, hdirp, hlaid, hout⟩ := hcut hsplit
  unfold checkRecord
  generalize checkDotDot ctx parent (checkDot ctx number (.given a 0 env)) = v
    at halt hdirp hlaid hout ⊢
  have hkept := (checkEntry_kept number hsane.yes v).1
  have hlaid' := hkept.laid hlaid hsane.max
  have hroom := hsplit.2.2
  have hdot : direntSize 2 = 12 := rfl
  have hbounds := hlaid.last.bounds
  have hlen := hlaid'.last.len
  have hvalid := hlaid'.valid
  have hbefore := hlaid'.before
  have hbehind : ∀ i, 2 * DIRSIZ a 0 ≤ i →
      (checkEntry ctx number v).dbuf i = a i := fun i hi =>
    (hkept.behind (by omega)).trans (hout i hi)
  rw [hkept.dirp, hdirp] at hlen hbefore
  rw [h.len] at hroom
  refine ⟨hkept.altered halt, fun hall => ?_, fun hrest => ?_⟩
  · have hrest := hbefore.rest hall (by omega)
    rw [validRecords_iff (by omega)] at hrest
    obtain ⟨hok, hrest⟩ := hrest
    have hfits := (recordOk_bounds hok).2.1
    rw [hlen] at hfits hrest
    have hat : DIRSIZ a 0 + (2 * DIRSIZ a 0 - DIRSIZ a 0) = 2 * DIRSIZ a 0 := by
      omega
    rw [hat] at hrest
    exact ⟨by omega, hrest.congr fun i hi _ => hbehind i hi⟩
  · exact hvalid.append (hrest.2.congr fun i hi _ => (hbehind i hi).symm)

/-- **The first record is counted**, or the checker gives up. -/
theorem checkFirst_counted {a : Nat → UInt8} (env : Pass2)
    (h : GoodRecord ctx.imax a 0 L) :
    (checkRecord ctx number parent (.given a 0 env)).env.exited = true ∨
      1 ≤ (checkRecord ctx number parent (.given a 0 env)).entryno := by
  obtain ⟨huse, -, -⟩ :=
    checkDotDot_first hsane hL env h
  obtain ⟨hkept, hcount⟩ := checkEntry_kept number hsane.yes
    (checkDotDot ctx parent (checkDot ctx number (.given a 0 env)))
  exact huse.elim (fun hh => .inr (hh.trans hkept.entryno)) hcount

/-- **Every other record** stays good records that cover its bytes. -/
theorem checkLater_good {a : Nat → UInt8} {entryno : Nat} (env : Pass2)
    (h : GoodRecord ctx.imax a 0 L) (hentry : 1 ≤ entryno) :
    ValidRecords ctx.imax
        (checkRecord ctx number parent (.given a entryno env)).dbuf 0 L ∧
      1 ≤ (checkRecord ctx number parent (.given a entryno env)).entryno := by
  have hfirst : checkDot ctx number (.given a entryno env) = .given a entryno env := by
    unfold checkDot
    exact if_pos (show entryno ≠ 0 by omega)
  have hbounds := h.bounds
  have hroom : Room ctx.imax L (.given a entryno env) :=
    { before := .done _
      len := (Nat.zero_add _).trans h.len
      long := by
        show 12 ≤ dReclen a 0
        rw [h.len]
        exact hbounds.1
      aligned := by
        show dReclen a 0 % 4 = 0
        rw [h.len]
        exact hbounds.2
      good := .inr (by
        show GoodRecord ctx.imax a 0 (dReclen a 0)
        rw [h.len]
        exact h) }
  have hsecond : Laid ctx.imax L (checkDotDot ctx parent (.given a entryno env)) ∧
      1 ≤ (checkDotDot ctx parent (.given a entryno env)).entryno := by
    unfold checkDotDot
    split
    case isTrue => exact ⟨⟨.done _, h, by show 0 < L; omega⟩, hentry⟩
    case isFalse =>
      have hcut : cutSecond (.given a entryno env) = some (.given a entryno env) := by
        unfold cutSecond
        exact if_neg (show entryno ≠ 0 by omega)
      rw [hcut]
      obtain ⟨hlaid, -, hcount, -, -⟩ :=
        makeDotDot_laid hsane hL hroom
      refine ⟨hlaid, ?_⟩
      show 1 ≤ (makeDotDot ctx parent (.given a entryno env)).entryno
      rw [hcount]
      exact hentry
  obtain ⟨hkept, -⟩ := checkEntry_kept number hsane.yes
    (checkDotDot ctx parent (.given a entryno env))
  unfold checkRecord
  rw [hfirst]
  exact ⟨(hkept.laid hsecond.1 hsane.max).valid, hsecond.2.trans hkept.entryno⟩

end Sane

end FirstTwo

end NextUfs.Fsck
