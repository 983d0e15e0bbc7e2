/-
  NextUfs.Fsck.Coherence
  ──────────────────────
  **ONE BUFFER, ANY SEQUENCE OF REQUESTS.**

  A buffer descriptor holds one block of the device at a time.  `getblk` takes
  a request for a block that is in the buffer to be met whatever its size; any
  other one flushes the buffer and reads.

    • `getblk`, `flush`      — `buffer.c`, for a descriptor of any type but
      `sblk`, which `getblk` never fills,
    • `Step`, `Trace`        — requests, modifications and flushes, beside the
      contents the device would have if every modification reached it at once,
    • `Coherent`             — the invariant,
    • `modify_same`          — a modification leaves what it does not change,
    • `Coherent.run`         — one step keeps it, if it meets `Step.Meets`,
    • `buffer_coherent`      — so it holds after every such sequence,
    • `getblk_stale`         — a larger request for the block in the buffer is
      answered with bytes that were never read.
-/
import NextUfs.Fsck.BufType

namespace NextUfs.Fsck.Coherence

open Window Address

/-! ## §1. The buffer. -/

/-- The device and the buffer of a descriptor. -/
structure Io where
  dev : Device
  area : BufArea

/-- `flush`. -/
def flush (bp : Descriptor) (s : Io) : Io :=
  if s.area.dirty then
    let area := { s.area with dirty := false, errs := 0 }
    if bp.needswap && area.swapped then
      let out := bp.swapBufarea area.size true area.buf
      { dev := bwrite s.dev out area.bno area.size
        area := { area with buf := bp.swapBufarea area.size false out } }
    else { dev := bwrite s.dev area.buf area.bno area.size, area := area }
  else s

/-- `getblk`. -/
def getblk (bp : Descriptor) (blk : BitVec 32) (size : Nat) (s : Io) : Io :=
  let dblk := fsbtodb bp.sb blk
  if s.area.bno = dblk then s
  else
    let s := flush bp s
    let (buf, errs) := bread s.dev dblk size s.area.buf
    let swap := bp.needswap && errs == 0
    { s with
      area :=
        { s.area with
          bno := dblk
          size := size
          errs := errs
          buf := if swap then bp.swapBufarea size false buf else buf
          swapped := swap } }

/-- `initbarea`; the bytes of the buffer are arbitrary. -/
def initbarea (buf : Nat → UInt8) : BufArea where
  bno := BitVec.allOnes 32
  size := 0
  errs := 0
  buf := buf
  dirty := false
  swapped := false

/-- The buffer of directory blocks is this one for type `dir`. -/
def Io.toDir (s : Io) : DirIo := ⟨s.dev, s.area⟩

theorem flush_dir {bp : Descriptor} (hdir : bp.type = .dir) (s : Io) :
    (flush bp s).toDir = Fsck.flush bp.needswap s.toDir := by
  unfold flush Fsck.flush Descriptor.swapBufarea Io.toDir
  simp only [hdir, if_true]
  split
  · split <;> rfl
  · rfl

theorem getblk_dir {bp : Descriptor} (hdir : bp.type = .dir) (blk : BitVec 32)
    (size : Nat) (s : Io) :
    (getblk bp blk size s).toDir
      = Fsck.getblk bp.sb bp.needswap blk size s.toDir := by
  have hflush := flush_dir hdir s
  unfold getblk Fsck.getblk
  rw [← hflush]
  unfold Descriptor.swapBufarea Io.toDir
  simp only [hdir, if_true]
  split <;> rfl

/-! ## §2. Sequences. -/

/-- What a caller does with a descriptor. -/
inductive Step where
  | getblk (blk : BitVec 32) (size : Nat)
  /-- Put `data` into the buffer and mark it dirty. -/
  | modify (off : Nat) (data : List UInt8)
  | flush

/-- A run: the state, the bytes the device would hold if every modification
had reached it at once, and how many bytes the last request was for. -/
structure Trace where
  io : Io
  contents : Nat → UInt8
  asked : Nat

/-- The bytes of a device block. -/
def blockAt (contents : Nat → UInt8) (bno : BitVec 32) : Nat → UInt8 :=
  fun i => contents ((dbtob bno).toNat + i)

/-- The contents with other bytes for a block. -/
def putBlock (contents : Nat → UInt8) (bno : BitVec 32) (size : Nat)
    (block : Nat → UInt8) : Nat → UInt8 :=
  store contents (dbtob bno).toNat (load block 0 size)

/-- The block in the buffer, as the host is to see it after a modification. -/
def Trace.edited (bp : Descriptor) (t : Trace) (off : Nat) (data : List UInt8) :
    Nat → UInt8 :=
  store (bp.hostView t.io.area.size (blockAt t.contents t.io.area.bno)) off data

/-- One step. -/
def Step.run (bp : Descriptor) : Step → Trace → Trace
  | .getblk blk size, t =>
    { io := Coherence.getblk bp blk size t.io
      contents := t.contents
      asked := size }
  | .modify off data, t =>
    { io :=
        { t.io with
          area :=
            { t.io.area with buf := store t.io.area.buf off data, dirty := true } }
      contents := putBlock t.contents t.io.area.bno t.io.area.size
        (bp.diskView t.io.area.size (t.edited bp off data))
      asked := t.asked }
  | .flush, t => { t with io := Coherence.flush bp t.io }

/-- The first state of a descriptor. -/
def start (dev : Device) (buf : Nat → UInt8) : Trace :=
  ⟨⟨dev, initbarea buf⟩, dev.data, 0⟩

/-- A caller modifies bytes it has asked for. -/
def Step.Legal (t : Trace) : Step → Prop
  | .modify off data => off + data.length ≤ t.asked
  | _ => True

/-- **The condition on a step.**  A request for the block in the buffer asks
for no more bytes than it was read with, and another block has no field across
its end; a block that is modified survives being turned, before and after. -/
def Step.Meets (bp : Descriptor) (t : Trace) : Step → Prop
  | .getblk blk size =>
    if t.io.area.bno = fsbtodb bp.sb blk then size ≤ t.io.area.size
    else bp.FitsIn size
  | .modify off data =>
    bp.Survives t.io.area.size (blockAt t.contents t.io.area.bno) ∧
      bp.SurvivesWrite t.io.area.size (t.edited bp off data)
  | .flush => True

/-- A sequence of steps. -/
def runAll (bp : Descriptor) : List Step → Trace → Trace
  | [], t => t
  | step :: steps, t => runAll bp steps (step.run bp t)

/-- Every step of a sequence has the property, where it is taken. -/
def Along (bp : Descriptor) (p : Trace → Step → Prop) : List Step → Trace → Prop
  | [], _ => True
  | step :: steps, t => p t step ∧ Along bp p steps (step.run bp t)

/-! ## §3. Blocks that are written. -/

section Blocks

variable {contents : Nat → UInt8} {bno : BitVec 32} {size : Nat}
  {block f g : Nat → UInt8}

theorem blockAt_putBlock :
    Same (blockAt (putBlock contents bno size block) bno) block 0 size := by
  intro i _ hi
  unfold blockAt putBlock
  rw [store_in (by rwa [length_load]), getElem_load, Nat.zero_add]

theorem putBlock_out {j : Nat}
    (h : j < (dbtob bno).toNat ∨ (dbtob bno).toNat + size ≤ j) :
    putBlock contents bno size block j = contents j := by
  unfold putBlock
  exact store_out (by rwa [length_load])

/-- Putting the bytes that belong there makes the contents whole. -/
theorem putBlock_whole {data : Nat → UInt8}
    (hout : ∀ j, j < (dbtob bno).toNat ∨ (dbtob bno).toNat + size ≤ j →
      data j = contents j)
    (hin : Same block (blockAt contents bno) 0 size) :
    putBlock data bno size block = contents := by
  funext j
  by_cases hj : j < (dbtob bno).toNat ∨ (dbtob bno).toNat + size ≤ j
  · rw [putBlock_out hj]
    exact hout j hj
  · obtain ⟨i, rfl⟩ := Nat.exists_eq_add_of_le (show (dbtob bno).toNat ≤ j by omega)
    have hi : i < size := by omega
    have hput : putBlock data bno size block ((dbtob bno).toNat + i) = block i :=
      blockAt_putBlock i (Nat.zero_le i) hi
    rw [hput]
    exact hin i (Nat.zero_le i) hi

/-- A block that is read without errors. -/
theorem bread_whole {dev : Device} (hgood : ∀ b, dev.bad b = false)
    (blk : BitVec 32) (size : Nat) (buf : Nat → UInt8) :
    Same (bread dev blk size buf).1 (blockAt dev.data blk) 0 size ∧
      (bread dev blk size buf).2 = 0 := by
  constructor
  · intro i _ hi
    change (if i < size then dev.byteRead blk i else buf i) = _
    rw [if_pos hi]
    unfold Device.byteRead
    rw [hgood]
    rfl
  · change List.countP _ _ = 0
    rw [List.countP_eq_zero]
    intro i _
    rw [hgood]
    exact Bool.false_ne_true

end Blocks

/-! ## §4. The invariant. -/

/-- **The buffer shows its block**, with every modification, as the host sees
it, and the device holds everything else; a block that is to be written can be
turned back. -/
structure Coherent (bp : Descriptor) (t : Trace) : Prop where
  good : ∀ b, t.io.dev.bad b = false
  writable : t.io.dev.writable = true
  turned : t.io.area.swapped = bp.needswap ∨ t.io.area.size = 0
  fits : bp.FitsIn t.io.area.size
  view : Same t.io.area.buf
    (bp.hostView t.io.area.size (blockAt t.contents t.io.area.bno)) 0
    t.io.area.size
  survives : t.io.area.dirty = true →
    bp.Survives t.io.area.size (blockAt t.contents t.io.area.bno)
  clean : t.io.area.dirty = false → t.io.dev.data = t.contents
  elsewhere : ∀ j, j < (dbtob t.io.area.bno).toNat ∨
    (dbtob t.io.area.bno).toNat + t.io.area.size ≤ j →
    t.io.dev.data j = t.contents j
  covered : t.asked ≤ t.io.area.size

section Invariant

variable {bp : Descriptor} {t : Trace}

theorem start_coherent {dev : Device} (hgood : ∀ b, dev.bad b = false)
    (hwritable : dev.writable = true) (buf : Nat → UInt8) :
    Coherent bp (start dev buf) where
  good := hgood
  writable := hwritable
  turned := Or.inr rfl
  fits _ _ := Or.inr (Nat.zero_le _)
  view _ _ hi := absurd hi (Nat.not_lt_zero _)
  survives hdirty := by cases hdirty
  clean _ := rfl
  elsewhere _ _ := rfl
  covered := Nat.le_refl 0

/-- **What a dirty buffer is written as** is its block, and the buffer goes on
showing it. -/
theorem Coherent.flush_dirty (h : Coherent bp t)
    (hdirty : t.io.area.dirty = true) :
    ∃ out buf, flush bp t.io =
        { dev := bwrite t.io.dev out t.io.area.bno t.io.area.size
          area := { t.io.area with dirty := false, errs := 0, buf := buf } } ∧
      Same out (blockAt t.contents t.io.area.bno) 0 t.io.area.size ∧
      Same buf (bp.hostView t.io.area.size
        (blockAt t.contents t.io.area.bno)) 0 t.io.area.size := by
  rcases h.turned with hturned | hsize
  · refine ⟨bp.diskView t.io.area.size t.io.area.buf,
      bp.hostView t.io.area.size (bp.diskView t.io.area.size t.io.area.buf),
      ?_, ?_, ?_⟩
    · unfold flush Descriptor.hostView Descriptor.diskView
      rw [if_pos hdirty]
      dsimp only
      rw [hturned, Bool.and_self]
      cases bp.needswap <;> rfl
    · exact (diskView_same h.fits h.view).trans (h.survives hdirty)
    · exact hostView_same h.fits
        ((diskView_same h.fits h.view).trans (h.survives hdirty))
  · -- nothing has been read yet, and nothing is written
    rw [hsize]
    have hnone : ∀ f g : Nat → UInt8, Same f g 0 0 :=
      fun f g i _ hi => absurd hi (Nat.not_lt_zero i)
    unfold flush
    rw [if_pos hdirty]
    dsimp only
    rw [hsize]
    split
    · exact ⟨_, _, rfl, hnone _ _, hnone _ _⟩
    · exact ⟨_, _, rfl, hnone _ _, hnone _ _⟩

/-- **A flush makes the device whole.** -/
theorem Coherent.flush (h : Coherent bp t) :
    Coherent bp (Step.flush.run bp t) ∧
      (Coherence.flush bp t.io).dev.data = t.contents ∧
      (Coherence.flush bp t.io).area.dirty = false ∧
      (Coherence.flush bp t.io).area.bno = t.io.area.bno ∧
      (Coherence.flush bp t.io).area.size = t.io.area.size := by
  cases hdirty : t.io.area.dirty with
  | false =>
    have hsame : Coherence.flush bp t.io = t.io := by
      unfold Coherence.flush
      rw [hdirty]
      rfl
    have hstep : Step.flush.run bp t = { t with io := Coherence.flush bp t.io } :=
      rfl
    rw [hstep, hsame]
    exact ⟨h, h.clean hdirty, hdirty, rfl, rfl⟩
  | true =>
    obtain ⟨out, buf, hflush, hout, hbuf⟩ := h.flush_dirty hdirty
    have hdata : (Coherence.flush bp t.io).dev.data = t.contents := by
      rw [hflush]
      unfold bwrite
      rw [if_pos h.writable]
      exact putBlock_whole h.elsewhere hout
    have hdev : (Coherence.flush bp t.io).dev.bad = t.io.dev.bad ∧
        (Coherence.flush bp t.io).dev.writable = t.io.dev.writable := by
      rw [hflush]
      unfold bwrite
      rw [if_pos h.writable]
      exact ⟨rfl, rfl⟩
    refine ⟨⟨fun b => ?_, ?_, ?_, ?_, ?_, ?_, ?_, ?_, ?_⟩, hdata, ?_, ?_, ?_⟩
    · exact (congrFun hdev.1 b).trans (h.good b)
    · exact hdev.2.trans h.writable
    · change (Coherence.flush bp t.io).area.swapped = _ ∨
        (Coherence.flush bp t.io).area.size = 0
      rw [hflush]
      exact h.turned
    · change bp.FitsIn (Coherence.flush bp t.io).area.size
      rw [hflush]
      exact h.fits
    · change Same (Coherence.flush bp t.io).area.buf
        (bp.hostView (Coherence.flush bp t.io).area.size
          (blockAt t.contents (Coherence.flush bp t.io).area.bno)) 0
        (Coherence.flush bp t.io).area.size
      rw [hflush]
      exact hbuf
    · change (Coherence.flush bp t.io).area.dirty = true → _
      rw [hflush]
      exact fun hclean => Bool.noConfusion hclean
    · exact fun _ => hdata
    · exact fun j _ => congrFun hdata j
    · change t.asked ≤ (Coherence.flush bp t.io).area.size
      rw [hflush]
      exact h.covered
    · rw [hflush]
    · rw [hflush]
    · rw [hflush]

/-- **A request** for a block leaves the buffer showing it. -/
theorem Coherent.getblk (h : Coherent bp t) {blk : BitVec 32} {size : Nat}
    (hmeets : (Step.getblk blk size).Meets bp t) :
    Coherent bp ((Step.getblk blk size).run bp t) ∧
      (Coherence.getblk bp blk size t.io).area.bno = fsbtodb bp.sb blk ∧
      size ≤ (Coherence.getblk bp blk size t.io).area.size := by
  change (if t.io.area.bno = fsbtodb bp.sb blk then size ≤ t.io.area.size
    else bp.FitsIn size) at hmeets
  have hrun : (Step.getblk blk size).run bp t =
    ⟨Coherence.getblk bp blk size t.io, t.contents, size⟩ := rfl
  by_cases hsame : t.io.area.bno = fsbtodb bp.sb blk
  · have hget : Coherence.getblk bp blk size t.io = t.io := by
      unfold Coherence.getblk
      rw [if_pos hsame]
    rw [if_pos hsame] at hmeets
    refine ⟨?_, by rw [hget]; exact hsame, by rw [hget]; exact hmeets⟩
    rw [hrun, hget]
    exact ⟨h.good, h.writable, h.turned, h.fits, h.view, h.survives, h.clean,
      h.elsewhere, hmeets⟩
  · rw [if_neg hsame] at hmeets
    obtain ⟨hflushed, hdata, hclean, -, -⟩ := h.flush
    have hgood : ∀ b, (Coherence.flush bp t.io).dev.bad b = false := hflushed.good
    obtain ⟨hread, herrs⟩ := bread_whole hgood (fsbtodb bp.sb blk) size
      (Coherence.flush bp t.io).area.buf
    rw [hdata] at hread
    have hget : Coherence.getblk bp blk size t.io =
        { Coherence.flush bp t.io with
          area :=
            { (Coherence.flush bp t.io).area with
              bno := fsbtodb bp.sb blk
              size := size
              errs := 0
              buf := bp.hostView size (bread (Coherence.flush bp t.io).dev
                (fsbtodb bp.sb blk) size (Coherence.flush bp t.io).area.buf).1
              swapped := bp.needswap } } := by
      unfold Coherence.getblk Descriptor.hostView
      rw [if_neg hsame]
      dsimp only
      rw [herrs]
      cases bp.needswap <;> rfl
    refine ⟨?_, by rw [hget], by rw [hget]⟩
    rw [hrun, hget]
    exact ⟨hgood, hflushed.writable, Or.inl rfl, hmeets,
      hostView_same hmeets hread, fun hdirty => absurd (hclean.symm.trans hdirty)
        Bool.false_ne_true, fun _ => hdata, fun j _ => congrFun hdata j,
      Nat.le_refl size⟩

/-- **What is not modified stays**: when the block survives being turned, bytes
that the buffer shows already leave the contents as they are. -/
theorem modify_same {off : Nat} {data : List UInt8}
    (hfits : bp.FitsIn t.io.area.size)
    (hmeets : (Step.modify off data).Meets bp t)
    (hsame : Same (t.edited bp off data) (bp.hostView t.io.area.size
      (blockAt t.contents t.io.area.bno)) 0 t.io.area.size) :
    ((Step.modify off data).run bp t).contents = t.contents :=
  putBlock_whole (fun _ _ => rfl)
    ((diskView_same hfits hsame).trans hmeets.1)

/-- **A modification** reaches the contents, and the buffer shows them. -/
theorem Coherent.modify (h : Coherent bp t) {off : Nat} {data : List UInt8}
    (hlegal : off + data.length ≤ t.asked) (hmeets : (Step.modify off data).Meets bp t) :
    Coherent bp ((Step.modify off data).run bp t) := by
  -- the buffer is the edited view
  have hedited : Same (store t.io.area.buf off data) (t.edited bp off data) 0
      t.io.area.size :=
    (store_local off data).same h.view (Nat.zero_le off)
      (hlegal.trans h.covered)
  have hblock := @blockAt_putBlock t.contents t.io.area.bno t.io.area.size
    (bp.diskView t.io.area.size (t.edited bp off data))
  have hview : Same (bp.hostView t.io.area.size (blockAt (putBlock t.contents
      t.io.area.bno t.io.area.size (bp.diskView t.io.area.size
        (t.edited bp off data))) t.io.area.bno)) (t.edited bp off data) 0
      t.io.area.size :=
    (hostView_same h.fits hblock).trans hmeets.2
  exact
    { good := h.good
      writable := h.writable
      turned := h.turned
      fits := h.fits
      view := hedited.trans hview.symm
      survives := fun _ => (diskView_same h.fits hview).trans hblock.symm
      clean := fun hdirty => by cases hdirty
      elsewhere := fun j hj => (h.elsewhere j hj).trans (putBlock_out hj).symm
      covered := h.covered }

/-- **One step.** -/
theorem Coherent.run (h : Coherent bp t) (step : Step) (hlegal : step.Legal t)
    (hmeets : step.Meets bp t) : Coherent bp (step.run bp t) := by
  cases step with
  | getblk blk size => exact (h.getblk hmeets).1
  | modify off data => exact h.modify hlegal hmeets
  | flush => exact h.flush.1

/-- **A sequence of steps.** -/
theorem Coherent.runAll (steps : List Step) (h : Coherent bp t)
    (halong : Along bp (fun t step => step.Legal t ∧ step.Meets bp t) steps t) :
    Coherent bp (Coherence.runAll bp steps t) := by
  induction steps generalizing t with
  | nil => exact h
  | cons step steps ih =>
    obtain ⟨⟨hlegal, hmeets⟩, hrest⟩ := halong
    exact ih (h.run step hlegal hmeets) hrest

end Invariant

/-- **Whatever is asked for, changed and flushed**, if every step is legal and
meets the condition: a flush then makes the device what it would be with every
modification made at once, and a request for a block leaves the buffer showing
that block of those contents, which is what it would be written as if it is
dirty or survives being turned. -/
theorem buffer_coherent (bp : Descriptor) (dev : Device) (buf : Nat → UInt8)
    (hgood : ∀ b, dev.bad b = false) (hwritable : dev.writable = true)
    (steps : List Step)
    (halong : Along bp (fun t step => step.Legal t ∧ step.Meets bp t) steps
      (start dev buf)) :
    let t := runAll bp steps (start dev buf)
    (flush bp t.io).dev.data = t.contents ∧
      ∀ blk size, (Step.getblk blk size).Meets bp t →
        let area := (getblk bp blk size t.io).area
        area.bno = fsbtodb bp.sb blk ∧ size ≤ area.size ∧
          Same area.buf (bp.hostView area.size
            (blockAt t.contents (fsbtodb bp.sb blk))) 0 size ∧
          (area.dirty = true ∨
              bp.Survives area.size (blockAt t.contents (fsbtodb bp.sb blk)) →
            Same (bp.diskView area.size area.buf)
              (blockAt t.contents (fsbtodb bp.sb blk)) 0 size) := by
  intro t
  have h : Coherent bp t := (start_coherent hgood hwritable buf).runAll steps halong
  refine ⟨h.flush.2.1, fun blk size hmeets => ?_⟩
  obtain ⟨hafter, hbno, hsize⟩ := h.getblk hmeets
  have hview : Same (getblk bp blk size t.io).area.buf
      (bp.hostView (getblk bp blk size t.io).area.size
        (blockAt t.contents (getblk bp blk size t.io).area.bno)) 0
      (getblk bp blk size t.io).area.size := hafter.view
  have hdirty : (getblk bp blk size t.io).area.dirty = true →
      bp.Survives (getblk bp blk size t.io).area.size
        (blockAt t.contents (getblk bp blk size t.io).area.bno) := hafter.survives
  rw [hbno] at hview hdirty
  refine ⟨hbno, hsize, fun i _ hi => hview i (Nat.zero_le i) (hi.trans_le hsize),
    fun hturns i _ hi => ?_⟩
  have hsurvives := hturns.elim hdirty id
  have hdisk := (diskView_same hafter.fits hview).trans hsurvives
  exact hdisk i (Nat.zero_le i) (hi.trans_le hsize)

/-- Single indirect blocks of 256 pointers, on a machine of the other byte
order. -/
def indirBp : Descriptor := ⟨.indir, labelSb 2048 1, 256, 8, true⟩

theorem indirBp_fits : indirBp.FitsIn 1024 := by
  intro x hx
  obtain ⟨k, hk, rfl⟩ := List.mem_map.1 hx
  have hk := List.mem_range.1 hk
  change 0 + k * 4 + 4 ≤ 1024 ∨ _
  change k < 256 at hk
  omega

theorem buffer_coherent_indir :
    let steps := [.getblk 0 1024, .modify 4 [7], .flush, .getblk 1 1024]
    let t := runAll indirBp steps (start ⟨fun _ => 0, fun _ => false, true⟩ fun _ => 0)
    (flush indirBp t.io).dev.data = t.contents ∧
      ∀ blk size, (Step.getblk blk size).Meets indirBp t →
        let area := (getblk indirBp blk size t.io).area
        area.bno = fsbtodb indirBp.sb blk ∧ size ≤ area.size ∧
          Same area.buf (indirBp.hostView area.size
            (blockAt t.contents (fsbtodb indirBp.sb blk))) 0 size ∧
          (area.dirty = true ∨ indirBp.Survives area.size
              (blockAt t.contents (fsbtodb indirBp.sb blk)) →
            Same (indirBp.diskView area.size area.buf)
              (blockAt t.contents (fsbtodb indirBp.sb blk)) 0 size) :=
  buffer_coherent indirBp _ _ (fun _ => rfl) rfl _
    ⟨⟨trivial, indirBp_fits⟩,
      ⟨(by decide : 4 + 1 ≤ 1024), (survives_of_fields (by decide) _).1,
        (survives_of_fields (by decide) _).2⟩,
      ⟨trivial, trivial⟩, ⟨trivial, indirBp_fits⟩, trivial⟩

/-! ## §5. A larger request for the block in the buffer. -/

/-- Directory blocks. -/
def dirBp : Descriptor := ⟨.dir, labelSb 2048 1, 256, 8, true⟩

/-- A device whose first 1024 bytes are one record, and on which sevens
follow. -/
def twoChunks : Device :=
  ⟨fun j => if j = 4 then 4 else if 1024 ≤ j then 7 else 0, fun _ => false, true⟩

/-- **1024 bytes of a block are asked for, and then 2048**: the second chunk
is what was in memory before. -/
theorem getblk_stale :
    ¬ ∀ (bp : Descriptor) (dev : Device) (buf : Nat → UInt8) (steps : List Step),
      (∀ b, dev.bad b = false) → dev.writable = true →
      Along bp (fun t step => step.Legal t) steps (start dev buf) →
      let t := runAll bp steps (start dev buf)
      ∀ blk size,
        let area := (getblk bp blk size t.io).area
        Same area.buf (bp.hostView area.size
          (blockAt t.contents (fsbtodb bp.sb blk))) 0 size := by
  intro h
  have hsame := h dirBp twoChunks (fun _ => 0) [.getblk 0 1024] (fun _ => rfl) rfl
    ⟨trivial, trivial⟩ 0 2048 1024 (by decide) (by decide)
  revert hsame
  decide +kernel

end NextUfs.Fsck.Coherence
