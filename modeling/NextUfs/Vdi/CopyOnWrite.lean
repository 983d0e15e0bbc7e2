/-
  NextUfs.Vdi.CopyOnWrite
  ───────────────────────
  **WHEN A WRITE SUCCEEDS.**

  A read clips at the end of a short parent and continues with zeros.  A write
  to a block without a data block copies the whole block from the parent, past
  the range it was given, and the parent refuses what it does not have:

    • `writeChunk_succeeds`  — one round of the write loop succeeds exactly
      when its block has a data block or can be given one,
    • `writeLoop_succeeds`   — the loop, exactly when every block it must copy
      is whole in the parents and the numbers given out name data blocks,
    • `write_succeeds_where_read` — so a write of a range that can be read
      succeeds exactly when the parent also has the rest of these blocks,
    • `shortParent_not_written` — a disk that ends inside a block: its last
      byte can be read and not written.
-/
import NextUfs.Vdi.ReadBack
import Mathlib.Data.Finset.Card
import Mathlib.Order.Interval.Finset.Nat

namespace NextUfs.Vdi

open Host State

/-! ## §1. The blocks of a range. -/

/-- The guest blocks that a range touches. -/
def Header.touched (h : Header) (off n : Nat) : Finset Nat :=
  (Finset.Ico off (off + n)).image (· / h.blockSize)

/-- Those among them that have no data block. -/
def Backend.unwritten (v : Backend) (off n : Nat) : Finset Nat :=
  (v.touched off n).filter fun b => ¬isAllocated (v.blockMap b)

section Touched

variable {h : Header} {v : Backend} {off n b : Nat}

theorem mem_touched :
    b ∈ h.touched off n ↔ ∃ i, (off ≤ i ∧ i < off + n) ∧ i / h.blockSize = b := by
  simp [Header.touched]

theorem mem_unwritten :
    b ∈ v.unwritten off n ↔ (∃ i, (off ≤ i ∧ i < off + n) ∧ i / v.blockSize = b)
      ∧ ¬isAllocated (v.blockMap b) := by
  unfold Backend.unwritten
  rw [Finset.mem_filter, mem_touched]

theorem unwritten_zero : v.unwritten off 0 = ∅ := by
  simp [Backend.unwritten, Header.touched]

/-- The first chunk of a range lies in one block. -/
theorem touched_chunk (hbs : 0 < v.blockSize) (hn : 0 < n) :
    v.touched off n = insert (off / v.blockSize)
      (v.touched (off + v.chunkLen off n) (n - v.chunkLen off n)) := by
  have hpos := chunkLen_pos (v := v) (g := off) hbs hn
  have hle := chunkLen_le (v := v) (g := off) (n := n)
  have hblock := chunkLen_block (v := v) (g := off) (n := n) hbs
  ext b
  rw [Finset.mem_insert, mem_touched, mem_touched]
  constructor
  · rintro ⟨i, ⟨hlow, hhigh⟩, rfl⟩
    by_cases hi : i < off + v.chunkLen off n
    · left
      have hk : off % v.blockSize + (i - off) < v.blockSize := by omega
      have hdiv := (div_mod_in_block hk).1
      rwa [show off + (i - off) = i by omega] at hdiv
    · exact Or.inr ⟨i, by omega, rfl⟩
  · rintro (rfl | ⟨i, hi, rfl⟩)
    · exact ⟨off, by omega, rfl⟩
    · exact ⟨i, by omega, rfl⟩

end Touched

/-! ## §2. Filling a block. -/

/-- Every byte of a guest block can be read from the parents. -/
def Whole (parents : List Backend) (blockSize b : Nat) : Prop :=
  ∀ i, i / blockSize = b → (byteAt parents i).isSome

/-- What a new data block must be filled with is there. -/
def Copyable (c : Chain) (b : Nat) : Prop :=
  c.image.blockMap b = VDI_MAP_UNALLOCATED → c.image.hasParent →
    Whole c.parents c.image.blockSize b

theorem mem_block {blockSize b i : Nat} (hbs : 0 < blockSize) :
    i / blockSize = b ↔ b * blockSize ≤ i ∧ i < b * blockSize + blockSize := by
  rw [Nat.div_eq_iff hbs]
  omega

/-- The parents' read of a block, as bytes. -/
theorem readBlock_iff_whole {parents : List Backend} {blockSize b : Nat}
    (hparents : Opened parents) (hbs : 0 < blockSize) :
    (∃ bs, backendRead parents blockSize (b * blockSize) = .ok bs) ↔
      Whole parents blockSize b := by
  constructor
  · rintro ⟨bs, hrun⟩ i hi
    obtain ⟨hlow, hhigh⟩ := (mem_block hbs).1 hi
    have hreads := (backendRead_eq parents hparents _ _ bs hbs).1 hrun
    obtain ⟨x, -, hx⟩ := hreads.some (k := i - b * blockSize) (by omega)
    rw [show b * blockSize + (i - b * blockSize) = i by omega] at hx
    rw [hx]
    rfl
  · intro hwhole
    have hsome : ∀ k < blockSize,
        (byteAt parents (b * blockSize + k)).isSome := fun k hk =>
      hwhole _ ((mem_block hbs).2 (by omega))
    refine ⟨(List.range blockSize).map fun k =>
      (byteAt parents (b * blockSize + k)).getD 0, ?_⟩
    apply (backendRead_eq parents hparents _ _ _ hbs).2
    refine ⟨by simp, fun k hk => ?_⟩
    obtain ⟨x, hx⟩ := Option.isSome_iff_exists.1 (hsome k hk)
    rw [List.getElem?_map, List.getElem?_range hk]
    show _ = some ((byteAt parents (b * blockSize + k)).getD 0)
    rw [hx]
    rfl

/-- The buffer of a new data block can be filled exactly when its bytes are
there. -/
theorem fillBlock_iff {c : Chain} {b : Nat} (hparents : Opened c.parents)
    (hbs : 0 < c.image.blockSize) :
    (∃ buf, fillBlock b c = .ok buf c) ↔ Copyable c b := by
  unfold fillBlock Copyable
  rw [bind_get]
  by_cases hparent : c.image.blockMap b = VDI_MAP_UNALLOCATED
      ∧ c.image.hasParent
  · rw [if_pos hparent]
    rw [← readBlock_iff_whole hparents hbs]
    cases hread : backendRead c.parents c.image.blockSize
        (b * c.image.blockSize) with
    | error e =>
      constructor
      · rintro ⟨buf, hrun⟩
        cases hrun
      · intro h
        obtain ⟨bs, hbs⟩ := h hparent.1 hparent.2
        cases hbs
    | ok bs => exact ⟨fun _ _ _ => ⟨bs, rfl⟩, fun _ => ⟨bs, rfl⟩⟩
  · rw [if_neg hparent]
    exact ⟨fun _ h1 h2 => absurd ⟨h1, h2⟩ hparent, fun _ => ⟨_, rfl⟩⟩

/-! ## §3. One round. -/

/-- The block of a round has a data block, or can be given one whose number
names a data block. -/
def Writable (c : Chain) (b : Nat) : Prop :=
  isAllocated (c.image.blockMap b) ∨
    (c.image.blocksAllocated < c.image.blockCount
      ∧ c.image.blocksAllocated ≠ VDI_MAP_ZERO ∧ Copyable c b)

/-- What a round that writes into block `b` leaves. -/
structure Advanced (c u : Chain) (b : Nat) : Prop where
  sound : Sound u
  header : u.image.toHeader = c.image.toHeader
  parents : u.parents = c.parents
  allocated : isAllocated (u.image.blockMap b)
  others : ∀ b' ≠ b, u.image.blockMap b' = c.image.blockMap b'
  count : u.image.blocksAllocated = c.image.blocksAllocated
    + if isAllocated (c.image.blockMap b) then 0 else 1

section Round

variable {c : Chain} {g : Nat}

/-- The rest of a round once its block has a data block. -/
theorem writeChunk_of_materialized {u : Chain} (data : List UInt8)
    (hs : Sound c) (hg : g < c.image.diskSize) (hu : Sound u)
    (hheader : u.image.toHeader = c.image.toHeader)
    (halloc : isAllocated (u.image.blockMap (g / c.image.blockSize)))
    (hrun : materializeBlock (g / c.image.blockSize) c = .ok () u) :
    writeChunk g data c = .ok () (u.chunkWritten g data) := by
  obtain ⟨hblock, hlt⟩ := hs.wellFormed.blockIndex_eq hg
  have hsize : u.image.blockSize = c.image.blockSize := by rw [hheader]
  have hcount : u.image.blockCount = c.image.blockCount := by rw [hheader]
  unfold writeChunk
  rw [bind_get, bind_get, hblock]
  simp only [if_neg (show ¬c.image.blockCount ≤ g / c.image.blockSize by omega)]
  rw [bind_of_ok hrun, bind_get]
  simp only [if_pos halloc]
  rw [← hsize] at halloc hlt ⊢
  exact writeExactFd_chunk data hu (hcount ▸ hlt) halloc

theorem writeChunk_of_failed {e : Errno} (data : List UInt8) (hs : Sound c)
    (hg : g < c.image.diskSize)
    (hrun : materializeBlock (g / c.image.blockSize) c = .error e c) :
    writeChunk g data c = .error e c := by
  obtain ⟨hblock, hlt⟩ := hs.wellFormed.blockIndex_eq hg
  unfold writeChunk
  rw [bind_get, bind_get, hblock]
  simp only [if_neg (show ¬c.image.blockCount ≤ g / c.image.blockSize by omega)]
  rw [bind_of_error hrun]

/-- **One round**: it advances where its block is writable, and fails
otherwise. -/
theorem writeChunk_succeeds (data : List UInt8) (hs : Sound c)
    (hg : g < c.image.diskSize) :
    (Writable c (g / c.image.blockSize) →
        ∃ u, writeChunk g data c = .ok () u
          ∧ Advanced c u (g / c.image.blockSize))
      ∧ (¬Writable c (g / c.image.blockSize) →
        ∃ e u, writeChunk g data c = .error e u) := by
  have hw := hs.wellFormed
  obtain ⟨hblock, hlt⟩ := hw.blockIndex_eq hg
  have hmax : c.image.blocksAllocated < c.image.blockCount →
      c.image.blocksAllocated < max c.image.blockCount c.image.blocksAllocated :=
    fun h => by omega
  by_cases halloc : isAllocated (c.image.blockMap (g / c.image.blockSize))
  · refine ⟨fun _ => ⟨_, writeChunk_of_materialized data hs hg hs rfl halloc
      (by unfold materializeBlock; rw [bind_get, if_pos halloc]; rfl),
      chunkWritten_sound hs, rfl, rfl, halloc, fun _ _ => rfl, ?_⟩,
      fun h => absurd (Or.inl halloc) h⟩
    rw [if_pos halloc]
    rfl
  by_cases hroom : c.image.blockCount ≤ c.image.blocksAllocated
  · have hmat : materializeBlock (g / c.image.blockSize) c = .error .ENOSPC c := by
      unfold materializeBlock
      rw [bind_get, if_neg halloc, if_pos hroom]
      rfl
    refine ⟨fun h => ?_, fun _ => ⟨_, c, writeChunk_of_failed data hs hg hmat⟩⟩
    rcases h with h | ⟨h, -⟩
    · exact absurd h halloc
    · omega
  rcases fillBlock_cases hs hlt halloc with ⟨e, he⟩ | ⟨buf, hfills, hbuf⟩
  -- the parent does not have the whole block
  · have hcopy : ¬Copyable c (g / c.image.blockSize) := by
      intro h
      obtain ⟨buf, hbuf⟩ := (fillBlock_iff hs.parents hw.blockSize_pos).2 h
      rw [he] at hbuf
      cases hbuf
    have hmat : materializeBlock (g / c.image.blockSize) c = .error e c := by
      unfold materializeBlock
      rw [bind_get, if_neg halloc, if_neg hroom, bind_of_error he]
    refine ⟨fun h => ?_, fun _ => ⟨e, c, writeChunk_of_failed data hs hg hmat⟩⟩
    rcases h with h | ⟨-, -, h⟩
    · exact absurd h halloc
    · exact absurd h hcopy
  -- the block is published
  have hcopy := (fillBlock_iff hs.parents hw.blockSize_pos).1 ⟨buf, hbuf⟩
  have hend := hs.addressable.blockStart_end (hmax (by omega))
  rw [← hs.addressable.fileStart_eq (hmax (by omega))] at hend
  have hmat : materializeBlock (g / c.image.blockSize) c =
      .ok () (c.published (g / c.image.blockSize) buf) := by
    unfold materializeBlock
    rw [bind_get, if_neg halloc, if_neg hroom, bind_of_ok hbuf]
    exact publishBlock_eq hw hlt hend hfills.1
  have hentry : (c.published (g / c.image.blockSize) buf).image.blockMap
      (g / c.image.blockSize) = c.image.blocksAllocated :=
    Function.update_self ..
  have hnext := next_isAllocated hw (show c.image.blocksAllocated <
    c.image.blockCount by omega)
  constructor
  · intro h
    rcases h with h | ⟨-, hzero, -⟩
    · exact absurd h halloc
    have hpub : Sound (c.published (g / c.image.blockSize) buf) :=
      published_sound hs (by omega)
    refine ⟨_, writeChunk_of_materialized data hs hg hpub rfl
      (hentry ▸ hnext.2 hzero) hmat, chunkWritten_sound hpub, rfl, rfl,
      hentry ▸ hnext.2 hzero, fun b' hb' => Function.update_of_ne hb' _ _, ?_⟩
    rw [if_neg halloc]
    rfl
  · intro h
    have hzero : c.image.blocksAllocated = VDI_MAP_ZERO := by
      by_contra hzero
      exact h (Or.inr ⟨by omega, hzero, hcopy⟩)
    refine ⟨Errno.EIO, c.published (g / c.image.blockSize) buf, ?_⟩
    have hno : ¬isAllocated c.image.blocksAllocated := fun h => h.2 hzero
    unfold writeChunk
    rw [bind_get, bind_get, hblock]
    simp only [if_neg (show ¬c.image.blockCount ≤ g / c.image.blockSize by
      omega)]
    rw [bind_of_ok hmat, bind_get]
    simp only [hentry]
    rw [if_neg hno]
    rfl

/-- Later rounds do not come back to the block. -/
theorem Advanced.unwritten {u : Chain} {n : Nat}
    (h : Advanced c u (g / c.image.blockSize))
    (hbs : 0 < c.image.blockSize) (hn : 0 < n) :
    u.image.unwritten (g + c.image.chunkLen g n) (n - c.image.chunkLen g n) =
      (c.image.unwritten g n).erase (g / c.image.blockSize) := by
  have hheader := h.header
  ext b
  unfold Backend.unwritten
  rw [hheader, touched_chunk hbs hn, Finset.mem_erase, Finset.mem_filter,
    Finset.mem_filter, Finset.mem_insert]
  by_cases hb : b = g / c.image.blockSize
  · subst hb
    exact ⟨fun hin => absurd h.allocated hin.2, fun hin => absurd rfl hin.1⟩
  · rw [h.others b hb]
    exact ⟨fun hin => ⟨hb, Or.inr hin.1, hin.2⟩,
      fun hin => ⟨hin.2.1.resolve_left hb, hin.2.2⟩⟩

theorem Advanced.copyable {u : Chain} {b b' : Nat} (h : Advanced c u b)
    (hb : b' ≠ b) : Copyable u b' ↔ Copyable c b' := by
  unfold Copyable
  rw [h.others b' hb, h.parents, h.header]

end Round

/-! ## §4. The loop. -/

/-- What a write needs of the blocks without a data block: their bytes are
there, and the numbers they get name data blocks. -/
structure Allocates (c : Chain) (off n : Nat) : Prop where
  copyable : ∀ b ∈ c.image.unwritten off n, Copyable c b
  numbers : c.image.unwritten off n = ∅ ∨
    c.image.blocksAllocated + (c.image.unwritten off n).card ≤ VDI_MAP_ZERO

/-- There is a data block for every block that needs one. -/
def Room (c : Chain) (off n : Nat) : Prop :=
  c.image.blocksAllocated + (c.image.unwritten off n).card
    ≤ c.image.blockCount

instance (c : Chain) (off n : Nat) : Decidable (Room c off n) := by
  unfold Room
  infer_instance

/-- A round takes its block off the list. -/
theorem Advanced.allocates {c u : Chain} {g n : Nat}
    (h : Advanced c u (g / c.image.blockSize)) (hs : Sound c) (hn : 0 < n)
    (hroom : Room c g n) :
    Room u (g + c.image.chunkLen g n) (n - c.image.chunkLen g n)
      ∧ (Writable c (g / c.image.blockSize) →
        (Allocates u (g + c.image.chunkLen g n) (n - c.image.chunkLen g n) ↔
          Allocates c g n)) := by
  have hnext := h.unwritten hs.wellFormed.blockSize_pos hn
  have hcount := h.count
  have hblocks : u.image.blockCount = c.image.blockCount := by rw [h.header]
  unfold Room at hroom ⊢
  by_cases halloc : isAllocated (c.image.blockMap (g / c.image.blockSize))
  · have hnot : g / c.image.blockSize ∉ c.image.unwritten g n :=
      fun hin => (mem_unwritten.1 hin).2 halloc
    rw [if_pos halloc] at hcount
    rw [Finset.erase_eq_of_notMem hnot] at hnext
    refine ⟨by rw [hnext, hcount, hblocks]; exact hroom, fun _ => ?_⟩
    have hcopy : ∀ b ∈ c.image.unwritten g n,
        (Copyable u b ↔ Copyable c b) := fun b hb =>
      h.copyable fun heq => hnot (heq ▸ hb)
    constructor
    · rintro ⟨h1, h2⟩
      rw [hnext, hcount] at h2
      exact ⟨fun b hb => (hcopy b hb).1 (h1 b (hnext ▸ hb)), h2⟩
    · rintro ⟨h1, h2⟩
      refine ⟨fun b hb => ?_, ?_⟩
      · rw [hnext] at hb
        exact (hcopy b hb).2 (h1 b hb)
      · rwa [hnext, hcount]
  · have hin : g / c.image.blockSize ∈ c.image.unwritten g n :=
      mem_unwritten.2 ⟨⟨g, by omega, rfl⟩, halloc⟩
    have hcard := Finset.card_erase_add_one hin
    rw [if_neg halloc] at hcount
    rw [← hnext] at hcard
    refine ⟨by omega, fun hwritable => ?_⟩
    obtain ⟨hlt, hzero, hfirst⟩ := hwritable.resolve_left halloc
    have hbound := hs.wellFormed.blockCount_lt
    constructor
    · rintro ⟨h1, h2⟩
      refine ⟨fun b hb => ?_, Or.inr ?_⟩
      · by_cases heq : b = g / c.image.blockSize
        · rwa [heq]
        · rw [← h.copyable heq]
          exact h1 b (hnext ▸ Finset.mem_erase.2 ⟨heq, hb⟩)
      · rcases h2 with h2 | h2
        · rw [h2, Finset.card_empty] at hcard
          unfold VDI_MAP_ZERO at hzero ⊢
          omega
        · omega
    · rintro ⟨h1, h2⟩
      refine ⟨fun b hb => ?_, Or.inr ?_⟩
      · rw [hnext] at hb
        obtain ⟨heq, hb⟩ := Finset.mem_erase.1 hb
        exact (h.copyable heq).2 (h1 b hb)
      · rcases h2 with h2 | h2
        · rw [h2] at hin
          exact absurd hin (Finset.notMem_empty _)
        · omega

/-- A write that has what it needs can start. -/
theorem Allocates.writable {c : Chain} {g n : Nat} (h : Allocates c g n)
    (hn : 0 < n) (hroom : Room c g n) : Writable c (g / c.image.blockSize) := by
  by_cases halloc : isAllocated (c.image.blockMap (g / c.image.blockSize))
  · exact Or.inl halloc
  · have hin : g / c.image.blockSize ∈ c.image.unwritten g n :=
      mem_unwritten.2 ⟨⟨g, by omega, rfl⟩, halloc⟩
    have hpos := Finset.card_pos.2 ⟨_, hin⟩
    unfold Room at hroom
    refine Or.inr ⟨by omega, ?_, h.copyable _ hin⟩
    rcases h.numbers with hnone | hnum
    · rw [hnone] at hin
      exact absurd hin (Finset.notMem_empty _)
    · omega

/-- **The write loop succeeds** exactly when every block it must copy is there
and the numbers it gives out name data blocks.  Induction on the rounds. -/
theorem writeLoop_succeeds (fuel : Nat) : ∀ {c : Chain} {g : Nat}
    {data : List UInt8}, Sound c → g + data.length ≤ c.image.diskSize →
    data.length ≤ fuel → Room c g data.length →
    ((∃ u, writeLoop fuel g data c = .ok () u) ↔
      Allocates c g data.length) := by
  induction fuel with
  | zero =>
    intro c g data hs hin hfuel hroom
    have hdata : data.length = 0 := by omega
    rw [hdata]
    exact ⟨fun _ => ⟨by simp [unwritten_zero], Or.inl unwritten_zero⟩,
      fun _ => ⟨c, rfl⟩⟩
  | succ fuel ih =>
    intro c g data hs hin hfuel hroom
    unfold writeLoop
    by_cases hdata : data = []
    · subst hdata
      rw [if_pos rfl]
      exact ⟨fun _ => ⟨by simp [unwritten_zero], Or.inl unwritten_zero⟩,
        fun _ => ⟨c, rfl⟩⟩
    have hn : 0 < data.length := List.length_pos_of_ne_nil hdata
    have hpos := chunkLen_pos (v := c.image) (g := g)
      hs.wellFormed.blockSize_pos hn
    have hle := chunkLen_le (v := c.image) (g := g) (n := data.length)
    rw [if_neg hdata, bind_get]
    show (∃ u, (writeChunk g data >>= fun _ => writeLoop fuel
      (g + c.image.chunkLen g data.length)
      (data.drop (c.image.chunkLen g data.length))) c = .ok () u) ↔ _
    obtain ⟨hgo, hstop⟩ := writeChunk_succeeds data hs
      (show g < c.image.diskSize by omega)
    by_cases hwritable : Writable c (g / c.image.blockSize)
    · obtain ⟨u, hrun, hadv⟩ := hgo hwritable
      obtain ⟨hroom', hiff⟩ := hadv.allocates hs hn hroom
      have hdrop : (data.drop (c.image.chunkLen g data.length)).length =
        data.length - c.image.chunkLen g data.length := List.length_drop
      have hdisk : u.image.diskSize = c.image.diskSize := by rw [hadv.header]
      rw [bind_of_ok hrun, ih hadv.sound (by rw [hdrop, hdisk]; omega)
        (by omega) (by rwa [hdrop]), hdrop]
      exact hiff hwritable
    · obtain ⟨e, u, hrun⟩ := hstop hwritable
      rw [bind_of_error hrun]
      constructor
      · rintro ⟨u', hu'⟩
        cases hu'
      · intro h
        exact absurd (h.writable hn hroom) hwritable

/-! ## §5. Writing where reading succeeds. -/

/-- What a write copies and a read of its range does not look at: in every
block it must fill from the parent, the parent's image reaches the block's
end, and the bytes around the range can be read there. -/
structure CopiesRest (c : Chain) (off n : Nat) : Prop where
  reaches : ∀ b ∈ c.image.unwritten off n,
    c.image.blockMap b = VDI_MAP_UNALLOCATED → c.image.hasParent →
      b * c.image.blockSize + c.image.blockSize ≤ imageSize c.parents
  around : ∀ b ∈ c.image.unwritten off n,
    c.image.blockMap b = VDI_MAP_UNALLOCATED → c.image.hasParent →
      ∀ i, i / c.image.blockSize = b → ¬(off ≤ i ∧ i < off + n) →
        (byteAt c.parents i).isSome
  numbers : c.image.unwritten off n = ∅ ∨
    c.image.blocksAllocated + (c.image.unwritten off n).card ≤ VDI_MAP_ZERO

/-- Inside the range the read has seen the parent's bytes. -/
theorem Copyable.iff_rest {c : Chain} {off n b : Nat} (hs : Sound c)
    (hread : ∃ bs, backendRead c.images n off = .ok bs) :
    Copyable c b ↔ (c.image.blockMap b = VDI_MAP_UNALLOCATED →
      c.image.hasParent →
        b * c.image.blockSize + c.image.blockSize ≤ imageSize c.parents
        ∧ ∀ i, i / c.image.blockSize = b → ¬(off ≤ i ∧ i < off + n) →
          (byteAt c.parents i).isSome) := by
  have hbs := hs.wellFormed.blockSize_pos
  constructor
  · intro h hfree hparent
    have hwhole := h hfree hparent
    refine ⟨?_, fun i hi _ => hwhole i hi⟩
    -- the last byte of the block
    have hlast := hwhole
      (b * c.image.blockSize + (c.image.blockSize - 1))
      ((mem_block hbs).2 (by omega))
    obtain ⟨x, hx⟩ := Option.isSome_iff_exists.1 hlast
    have hlt := byteAt_lt hx
    omega
  · intro h hfree hparent i hi
    obtain ⟨hreach, haround⟩ := h hfree hparent
    by_cases hin : off ≤ i ∧ i < off + n
    · obtain ⟨bs, hrun⟩ := hread
      have hreads := (backendRead_eq c.images hs.opened n off bs
        (by omega)).1 hrun
      obtain ⟨x, -, hx⟩ := hreads.some (k := i - off) (by omega)
      rw [show off + (i - off) = i by omega] at hx
      have hdisk : i < c.image.diskSize := byteAt_lt hx
      have hblock := (mem_block hbs).1 hi
      rw [show byteAt c.images i = _ from
        hs.wellFormed.byteAt_eq hdisk c.parents, hi, hfree] at hx
      unfold Header.entryByte under at hx
      rw [if_pos rfl, if_pos hparent, if_neg (by omega)] at hx
      rw [hx]
      rfl
    · exact haround i hi hin

/-- **A write succeeds where a read does** exactly when the parents also have
the rest of every block the write must copy.  For a well-formed image whose
data blocks have file offsets the host takes, any chain of opened parents, and
a range that can be read and for whose blocks there are data blocks. -/
theorem write_succeeds_where_read {c : Chain} {data : List UInt8} {off : Nat}
    (hwell : WellFormed c.image) (haddr : Addressable c.image)
    (hparents : Opened c.parents) (hroom : Room c off data.length)
    (hread : ∃ bs, backendRead c.images data.length off = .ok bs) :
    (∃ c', backendWrite data off c = .ok () c') ↔
      CopiesRest c off data.length := by
  have hs : Sound c := ⟨hwell, haddr, hparents⟩
  have hin : ¬c.image.diskSize < off + data.length := by
    intro hout
    obtain ⟨bs, hrun⟩ := hread
    unfold Chain.images backendRead at hrun
    rw [if_pos hout] at hrun
    cases hrun
  have hwrite : backendWrite data off c = writeLoop data.length off data c := by
    unfold backendWrite
    rw [bind_get, if_neg hin]
  rw [hwrite, writeLoop_succeeds _ hs (by omega) (Nat.le_refl _) hroom]
  constructor
  · rintro ⟨hcopy, hnum⟩
    refine ⟨fun b hb hfree hparent => ?_, fun b hb hfree hparent => ?_, hnum⟩
    · exact ((Copyable.iff_rest hs hread).1 (hcopy b hb) hfree hparent).1
    · exact ((Copyable.iff_rest hs hread).1 (hcopy b hb) hfree hparent).2
  · rintro ⟨hreach, haround, hnum⟩
    exact ⟨fun b hb => (Copyable.iff_rest hs hread).2 fun hfree hparent =>
      ⟨hreach b hb hfree hparent, haround b hb hfree hparent⟩, hnum⟩

theorem baseImage_opened : Opened [baseImage] := by
  intro v hv
  obtain rfl : v = baseImage := by simpa using hv
  exact ⟨by decide, by decide⟩

/-- Three bytes across two blocks that the parent has. -/
theorem write_succeeds_where_read_diff :
    ∃ c', backendWrite [1, 2, 3] 6 ⟨diffImage, [baseImage]⟩ = .ok () c' := by
  have hlist : diffImage.unwritten 6 3 = {0, 1} := by decide
  have hblocks : ∀ b ∈ diffImage.unwritten 6 3, b ≤ 1 := by
    rw [hlist]
    decide
  have hread : ∃ bs, backendRead [diffImage, baseImage] 3 6 = .ok bs :=
    ⟨[7, 7, 7], by decide +kernel⟩
  refine (@write_succeeds_where_read ⟨diffImage, [baseImage]⟩ [1, 2, 3] 6
    diffImage_wellFormed (by decide) baseImage_opened (by decide) hread).2
    ⟨?_, ?_, Or.inr (by decide)⟩
  · intro b hb _ _
    have hle := hblocks b hb
    show b * 8 + 8 ≤ 16
    omega
  · intro b hb _ _ i hi _
    have hle := hblocks b hb
    have hlt : i < 16 := by
      have hdiv : i / 8 = b := hi
      omega
    exact (show ∀ i < 16, (byteAt [baseImage] i).isSome by decide +kernel) i hlt

/-! ## §6. A disk that ends inside a block. -/

/-- The file of an image of 20 bytes in blocks of 8, with no data block yet. -/
def emptyVdi (imageType uuid : Nat) : ByteFile :=
  fieldFile 0x20c
    [(VDI_SIG_OFF, VDI_SIGNATURE), (VDI_VERSION_OFF, VDI_VERSION),
      (VDI_HEADER_SIZE_OFF, 0x178), (VDI_TYPE_OFF, imageType),
      (VDI_BLOCKS_OFFSET_OFF, 0x200), (VDI_DATA_OFFSET_OFF, 0x20c),
      (VDI_SECTOR_SIZE_OFF, 512), (VDI_DISK_SIZE_OFF, 20),
      (VDI_BLOCK_SIZE_OFF, 8), (VDI_BLOCK_COUNT_OFF, 3),
      (VDI_UUID_IMAGE_OFF, uuid), (VDI_UUID_PARENT_OFF, uuid - 1),
      (0x200, VDI_MAP_UNALLOCATED), (0x204, VDI_MAP_UNALLOCATED),
      (0x208, VDI_MAP_UNALLOCATED)]

/-- The parent, without a data block. -/
@[irreducible] def roundParent : Backend :=
  (openedImage (initBackend (emptyVdi VDI_TYPE_DYNAMIC 1))).getD diffImage

/-- The differencing image above it, of the same size. -/
@[irreducible] def roundImage : Backend :=
  (openedImage (initBackend (emptyVdi VDI_TYPE_DIFF 2))).getD diffImage

theorem roundParent_opens :
    initBackend (emptyVdi VDI_TYPE_DYNAMIC 1) = .ok (some roundParent)
      ∧ WellFormed roundParent := by
  constructor
  · unfold roundParent
    apply openedImage_getD
    decide +kernel
  · decide +kernel

theorem roundImage_opens :
    initBackend (emptyVdi VDI_TYPE_DIFF 2) = .ok (some roundImage)
      ∧ WellFormed roundImage := by
  constructor
  · unfold roundImage
    apply openedImage_getD
    decide +kernel
  · decide +kernel

/-- **The end of the disk.**  A differencing image and its parent, both of 20
bytes in blocks of 8: the last byte can be read, there is room for its block,
and a write of it fails, for the parent has no whole third block. -/
theorem shortParent_not_written : ∃ v p : Backend,
    initBackend (emptyVdi VDI_TYPE_DIFF 2) = .ok (some v)
    ∧ initBackend (emptyVdi VDI_TYPE_DYNAMIC 1) = .ok (some p)
    ∧ v.parentUuid = p.imageUuid
    ∧ WellFormed v ∧ WellFormed p ∧ Addressable v ∧ Room ⟨v, [p]⟩ 19 1
    ∧ (∃ bs, backendRead [v, p] 1 19 = .ok bs)
    ∧ ¬∃ c', backendWrite [9] 19 ⟨v, [p]⟩ = .ok () c' := by
  obtain ⟨himage, himageWell⟩ := roundImage_opens
  obtain ⟨hparent, hparentWell⟩ := roundParent_opens
  refine ⟨roundImage, roundParent, himage, hparent, by decide +kernel, himageWell,
    hparentWell, by decide +kernel, by decide +kernel, ⟨[0], by decide +kernel⟩, ?_⟩
  rintro ⟨c', hrun⟩
  have hfail : returnedWith (fun _ => true)
    (backendWrite [9] 19 ⟨roundImage, [roundParent]⟩) = false := by
    decide +kernel
  rw [hrun] at hfail
  cases hfail

end NextUfs.Vdi
