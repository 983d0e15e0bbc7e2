/-
  NextUfs.Fsck.Pass1Spec
  ──────────────────────
  **WHAT THE CHECKER VISITS.**

  `iblock` bounds each indirect block by a residual size that still counts the
  blocks of the lower slots; each level takes one entry too many off it, and
  the two cancel.  So the walk visits the trees of `Lib.Radix`, values
  included, whatever holes they have.

    • `Visited`          — fragments were visited, and nothing was wrong,
    • `pass1check_spec`  — one run,
    • `untilStop_visits` — a list of pointers,
    • `iblock_spec`      — one tree, by induction on its levels.
-/
import NextUfs.Fsck.Pass1

namespace NextUfs.Fsck

open State Radix

/-! ## §1. Visits. -/

/-- From `s` to `s'` fragments were visited, each as often as `claims` says,
and nothing was reported. -/
structure Visited (s s' : Pass1) (claims : Nat → Nat) : Prop where
  disk : s'.disk = s.disk
  reports : s'.reports = s.reports
  count : ∀ f, s'.visited.count f = s.visited.count f + claims f
  blockmap : ∀ f, (s'.blockmap f).toNat = (s.blockmap f).toNat + claims f

/-- No fragment is claimed twice. -/
def Unclaimed (s : Pass1) (claims : Nat → Nat) : Prop :=
  ∀ f, (s.blockmap f).toNat + claims f ≤ 1

section Visited

variable {s s' s'' : Pass1} {claims claims' : Nat → Nat}

theorem Visited.refl (s : Pass1) : Visited s s fun _ => 0 :=
  ⟨rfl, rfl, fun _ => rfl, fun _ => rfl⟩

theorem Visited.trans (h : Visited s s' claims)
    (h' : Visited s' s'' claims') :
    Visited s s'' fun f => claims f + claims' f where
  disk := h'.disk.trans h.disk
  reports := h'.reports.trans h.reports
  count f := by
    rw [h'.count, h.count]
    exact Nat.add_assoc ..
  blockmap f := by
    rw [h'.blockmap, h.blockmap]
    exact Nat.add_assoc ..

theorem Visited.congr (h : Visited s s' claims)
    (hclaims : ∀ f, claims f = claims' f) : Visited s s' claims' where
  disk := h.disk
  reports := h.reports
  count f := by rw [h.count, hclaims]
  blockmap f := by rw [h.blockmap, hclaims]

/-- What is left to claim after a visit. -/
theorem Unclaimed.after (h : Unclaimed s fun f => claims f + claims' f)
    (hv : Visited s s' claims) : Unclaimed s' claims' := by
  intro f
  have hf : (s.blockmap f).toNat + (claims f + claims' f) ≤ 1 := h f
  rw [hv.blockmap]
  omega

theorem Unclaimed.mono (h : Unclaimed s claims)
    (hle : ∀ f, claims' f ≤ claims f) : Unclaimed s claims' := by
  intro f
  have hf : (s.blockmap f).toNat + claims f ≤ 1 := h f
  have hlef := hle f
  omega

/-- One fragment that is new to the block map. -/
theorem visited_one {b : Nat} (hnew : s.blockmap b = false) :
    Visited s ((s.claim b).visit b) (covers b 1) := by
  refine ⟨rfl, rfl, fun f => ?_, fun f => ?_⟩
  · show (s.visited ++ [b]).count f = _
    rw [List.count_append]
    by_cases hf : f = b
    · subst hf
      rw [covers_eq_one (by omega)]
      simp
    · rw [covers_eq_zero (by omega), List.count_singleton]
      have hne : ¬b = f := fun h => hf h.symm
      simp [hne]
  · show (Function.update s.blockmap b true f).toNat = _
    by_cases hf : f = b
    · subst hf
      rw [Function.update_self, hnew, covers_eq_one (by omega)]
      rfl
    · rw [Function.update_of_ne hf, covers_eq_zero (by omega)]
      rfl

end Visited

/-! ## §2. One run. -/

section Run

variable {sb : Superblock} {op : Operator} {inumber : Nat}

theorem checkFrags_spec (n : Nat) : ∀ {b : Nat} {s : Pass1},
    Unclaimed s (covers b n) →
    ∃ s', checkFrags sb op inumber false n b .keepon s = .ok .keepon s'
      ∧ Visited s s' (covers b n) := by
  induction n with
  | zero =>
    intro b s _
    refine ⟨s, rfl, (Visited.refl s).congr fun f => ?_⟩
    rw [covers_eq_zero (by omega)]
  | succ n ih =>
    intro b s hnew
    have hsplit : ∀ f, covers b 1 f + covers (b + 1) n f
        = covers b (n + 1) f := by
      intro f
      unfold covers
      split <;> split <;> split <;> omega
    have hb : s.blockmap b = false := by
      have hone := hnew b
      rw [covers_eq_one (by omega)] at hone
      cases hbit : s.blockmap b with
      | false => rfl
      | true =>
        rw [hbit] at hone
        exact absurd hone (by decide)
    have hfirst := visited_one hb
    have hrest : Unclaimed ((s.claim b).visit b) (covers (b + 1) n) := by
      apply Unclaimed.after _ hfirst
      intro f
      show (s.blockmap f).toNat + (covers b 1 f + covers (b + 1) n f) ≤ 1
      rw [hsplit]
      exact hnew f
    obtain ⟨s', hrun, hvisited⟩ := ih hrest
    refine ⟨s', ?_, (hfirst.trans hvisited).congr hsplit⟩
    unfold checkFrags
    rw [bind_get, if_neg (fun h => absurd h.1 (by decide)), if_pos hb,
      bind_modify]
    exact hrun

/-- **A run in range that nothing has claimed is visited.** -/
theorem pass1check_spec {b n : Nat} {s : Pass1} (hin : outrange sb b n = false)
    (hnew : Unclaimed s (covers b n)) :
    ∃ s', pass1check sb op inumber b n s = .ok .keepon s'
      ∧ Visited s s' (covers b n) := by
  obtain ⟨s', hrun, hvisited⟩ :=
    checkFrags_spec n hnew
  refine ⟨s', ?_, hvisited⟩
  unfold pass1check
  rw [bind_get, if_neg (by rw [hin]; decide)]
  exact hrun

end Run

/-! ## §3. Lists of pointers. -/

section Lists

variable {α : Type} {f : α → Pass1Op Ret}

theorem untilStop_skip {s : Pass1} :
    ∀ {l : List α}, (∀ a ∈ l, f a s = .ok .keepon s) →
      untilStop f l s = .ok .keepon s
  | [], _ => rfl
  | a :: l, h => by
    have hrest := untilStop_skip (l := l) fun x hx =>
      h x (List.mem_cons_of_mem a hx)
    unfold untilStop
    rw [bind_of_ok (h a List.mem_cons_self), if_neg (by decide)]
    exact hrest

/-- **A list of pointers**, each of which visits its claims. -/
theorem untilStop_visits {claims : α → Nat → Nat} :
    ∀ {l : List α} {s : Pass1},
      Unclaimed s (fun fr => (l.map fun a => claims a fr).sum) →
      (∀ a ∈ l, ∀ t, t.disk = s.disk → Unclaimed t (claims a) →
        ∃ t', f a t = .ok .keepon t' ∧ Visited t t' (claims a)) →
      ∃ s', untilStop f l s = .ok .keepon s'
        ∧ Visited s s' fun fr => (l.map fun a => claims a fr).sum
  | [], s, _, _ => ⟨s, rfl, Visited.refl s⟩
  | a :: l, s, hnew, hstep => by
    have hnew : Unclaimed s fun fr =>
        claims a fr + (l.map fun a => claims a fr).sum := hnew
    obtain ⟨t, hrun, hvisited⟩ := hstep a List.mem_cons_self s rfl
      (hnew.mono fun fr => Nat.le_add_right _ _)
    obtain ⟨s', hrest, hall⟩ := untilStop_visits (l := l) (s := t)
      (hnew.after hvisited) fun x hx t' ht' =>
        hstep x (List.mem_cons_of_mem a hx) t' (ht'.trans hvisited.disk)
    refine ⟨s', ?_, hvisited.trans hall⟩
    unfold untilStop
    rw [bind_of_ok hrun, if_neg (by decide)]
    exact hrest

end Lists

theorem sum_list_range (n : Nat) (g : Nat → Nat) :
    ((List.range n).map g).sum = ∑ i ∈ Finset.range n, g i := by
  induction n with
  | zero => rfl
  | succ n ih =>
    rw [List.range_succ, List.map_append, List.sum_append,
      Finset.sum_range_succ, ih]
    simp

/-! ## §4. One tree. -/

/-- A value that an `int` can hold. -/
theorem int32_eq {x : Int} (h0 : 0 ≤ x) (h : x < 2 ^ 31) : int32 x = x := by
  unfold int32
  rw [Int.bmod_def]
  omega

section Tree

variable {sb : Superblock} {op : Operator} {inumber : Nat}

theorem sizepb_eq (hN : 0 < NINDIR sb) (L : Nat) :
    sb.blockSize * NINDIR sb ^ L < 2 ^ 31 →
      sizepb sb L = ((sb.blockSize * NINDIR sb ^ L : Nat) : Int) := by
  induction L with
  | zero =>
    intro _
    show ((sb.blockSize : Nat) : Int) = _
    rw [pow_zero, Nat.mul_one]
  | succ L ih =>
    intro hlt
    have hstep : sb.blockSize * NINDIR sb ^ (L + 1)
        = sb.blockSize * NINDIR sb ^ L * NINDIR sb := by
      rw [pow_succ, Nat.mul_assoc]
    rw [hstep] at hlt ⊢
    have hle := Nat.le_mul_of_pos_right (sb.blockSize * NINDIR sb ^ L) hN
    show int32 (sizepb sb L * NINDIR sb) = _
    rw [ih (by omega), ← Nat.cast_mul, int32_eq (by omega) (by exact_mod_cast hlt)]

/-- Blocks that the residual size of a level still counts: those of the lower
slots. -/
def lowerSpan (sb : Superblock) : Nat → Nat
  | 0 => 0
  | L + 1 => lowerSpan sb L + NINDIR sb ^ (L + 1)

/-- Runs that the walk visits in the tree at `b` are in range. -/
def TreeInRange (sb : Superblock) (d : Disk) (L b : Nat) : Prop :=
  ∀ x, InTree (entry sb d) (NINDIR sb) L b x →
    outrange sb x sb.fragsPerBlock = false

/-- The entries up to the bound of `iblock` are the ones below the file's end,
and some. -/
theorem nif_eq {sz isize : Nat} (hlt : isize < 2 ^ 31 - 1) :
    (min (int32 ((isize : Int).tdiv sz + 1)) (NINDIR sb)).toNat
      = min (isize / sz + 1) (NINDIR sb) := by
  obtain ⟨q, hq⟩ : ∃ q, q = isize / sz := ⟨_, rfl⟩
  have hdiv : q ≤ isize := by
    rw [hq]
    exact Nat.div_le_self isize sz
  have hcast : (isize : Int).tdiv sz = (q : Int) := by
    rw [hq]
    rfl
  rw [hcast, ← hq, int32_eq (by omega) (by omega)]
  omega

/-- **One level of the walk**: the entries of a block are visited as far as
the residual size says, and the others are 0. -/
theorem iblock_level (hbs : 0 < sb.blockSize) (hN : 0 < NINDIR sb) {L b m rem : Nat} {s : Pass1}
    (hb : b ≠ 0) (hends : EndsAt (entry sb s.disk) (NINDIR sb) (L + 1) b m)
    (hsz : sizepb sb L = ((sb.blockSize * NINDIR sb ^ L : Nat) : Int))
    (hrem : (m - 1) * sb.blockSize < rem)
    (hlt : rem + lowerSpan sb L * sb.blockSize < 2 ^ 31 - 1)
    (hin : TreeInRange sb s.disk (L + 2) b)
    (hnew : Unclaimed s (treeFrags sb s.disk (L + 2) b))
    (hchild : ∀ i < NINDIR sb, entry sb s.disk b i ≠ 0 →
      ∀ t, t.disk = s.disk →
        Unclaimed t (treeFrags sb s.disk (L + 1) (entry sb s.disk b i)) →
      ∃ t', (if 0 < L then
            iblock sb op inumber L (entry sb s.disk b i)
              (((rem + lowerSpan sb L * sb.blockSize : Nat) : Int)
                - int32 ((i + 1 : Int) * sizepb sb L))
          else pass1check sb op inumber (entry sb s.disk b i)
            sb.fragsPerBlock) t = .ok .keepon t'
        ∧ Visited t t' (treeFrags sb s.disk (L + 1) (entry sb s.disk b i))) :
    ∃ s', iblock sb op inumber (L + 1) b
        ((rem + lowerSpan sb L * sb.blockSize : Nat) : Int) s
        = .ok .keepon s'
      ∧ Visited s s' (treeFrags sb s.disk (L + 2) b) := by
  have hroot : outrange sb b sb.fragsPerBlock = false :=
    hin b ⟨hb, Or.inl rfl⟩
  have hclaims : ∀ f, covers b sb.fragsPerBlock f
      + ∑ i ∈ Finset.range (NINDIR sb),
          treeFrags sb s.disk (L + 1) (entry sb s.disk b i) f
        = treeFrags sb s.disk (L + 2) b f :=
    fun f => (treeFrags_succ hb).symm
  have hnew : Unclaimed s fun f => covers b sb.fragsPerBlock f
      + ∑ i ∈ Finset.range (NINDIR sb),
          treeFrags sb s.disk (L + 1) (entry sb s.disk b i) f := by
    intro f
    show (s.blockmap f).toNat + (_ + _) ≤ 1
    rw [hclaims]
    exact hnew f
  obtain ⟨s₁, hfirst, hvisited₁⟩ := pass1check_spec hroot (hnew.mono fun f => Nat.le_add_right _ _)
  have hentries : entry sb s₁.disk b = entry sb s.disk b := by
    rw [hvisited₁.disk]
  -- `nif` entries are below the residual size
  obtain ⟨isize, hisize⟩ :
      ∃ isize, isize = rem + lowerSpan sb L * sb.blockSize := ⟨_, rfl⟩
  obtain ⟨sz, hszeq⟩ : ∃ sz, sz = sb.blockSize * NINDIR sb ^ L := ⟨_, rfl⟩
  obtain ⟨nif, hnif⟩ : ∃ nif, nif = min (isize / sz + 1) (NINDIR sb) :=
    ⟨_, rfl⟩
  have hbound : (min (int32 (((rem + lowerSpan sb L * sb.blockSize : Nat)
      : Int).tdiv (sizepb sb L) + 1)) (NINDIR sb)).toNat = nif := by
    rw [hsz, nif_eq hlt, ← hisize, ← hszeq, hnif]
  have hpast : ∀ i < NINDIR sb, nif ≤ i → entry sb s.disk b i = 0 := by
    intro i hi hle
    apply (hends.2 hb i hi).root
    have hsize : isize < i * sz := by
      have hdiv : isize / sz < i := by omega
      have hszpos : 0 < sz := by
        rw [hszeq]
        exact Nat.mul_pos hbs (Nat.pow_pos hN)
      exact (Nat.div_lt_iff_lt_mul hszpos).mp hdiv
    have hlast : (m - 1) * sb.blockSize < i * NINDIR sb ^ L * sb.blockSize := by
      calc (m - 1) * sb.blockSize < rem := hrem
        _ ≤ isize := by omega
        _ ≤ i * sz := hsize.le
        _ = i * NINDIR sb ^ L * sb.blockSize := by
          rw [hszeq, Nat.mul_comm sb.blockSize, Nat.mul_assoc]
    have hlast := Nat.lt_of_mul_lt_mul_right hlast
    exact Nat.sub_eq_zero_of_le (by omega)
  have hskip : untilStop (truncateEntry sb op b (entry sb s₁.disk b))
      (List.range' nif (NINDIR sb - nif)) s₁ = .ok .keepon s₁ := by
    apply untilStop_skip
    intro i hi
    obtain ⟨hle, hi⟩ := List.mem_range'_1.mp hi
    have hzero : entry sb s₁.disk b i = 0 := by
      rw [hentries]
      exact hpast i (by omega) hle
    unfold truncateEntry
    rw [if_pos hzero]
    rfl
  -- the claims behind `nif` are none
  have hsum : ∀ f, ((List.range nif).map fun i =>
        treeFrags sb s.disk (L + 1) (entry sb s.disk b i) f).sum
      = ∑ i ∈ Finset.range (NINDIR sb),
          treeFrags sb s.disk (L + 1) (entry sb s.disk b i) f := by
    intro f
    rw [sum_list_range]
    apply Finset.sum_subset (Finset.range_subset_range.mpr (by omega))
    intro i hi hout
    have hle : ¬i < nif := fun h => hout (Finset.mem_range.mpr h)
    rw [hpast i (Finset.mem_range.mp hi) (by omega), treeFrags_zero_root]
  have hrest : Unclaimed s₁ fun f => ((List.range nif).map fun i =>
      treeFrags sb s.disk (L + 1) (entry sb s.disk b i) f).sum := by
    simp only [hsum]
    exact hnew.after hvisited₁
  obtain ⟨s', hrun, hvisited⟩ := untilStop_visits
    (f := fun i => if entry sb s₁.disk b i = 0 then (return .keepon)
      else if 0 < L then
        iblock sb op inumber L (entry sb s₁.disk b i)
          (((rem + lowerSpan sb L * sb.blockSize : Nat) : Int)
            - int32 ((i + 1 : Int) * sizepb sb L))
      else pass1check sb op inumber (entry sb s₁.disk b i) sb.fragsPerBlock)
    hrest (fun i hi t ht hunclaimed => by
      have hi := List.mem_range.mp hi
      rw [hentries]
      by_cases hzero : entry sb s.disk b i = 0
      · rw [if_pos hzero]
        refine ⟨t, rfl, (Visited.refl t).congr fun f => ?_⟩
        rw [hzero, treeFrags_zero_root]
      · rw [if_neg hzero]
        exact hchild i (by omega) hzero t (ht.trans hvisited₁.disk) hunclaimed)
  refine ⟨s', ?_, (hvisited₁.trans hvisited).congr fun f => ?_⟩
  · unfold iblock
    rw [bind_of_ok hfirst, if_neg (by decide), if_neg (by rw [hroot]; decide),
      bind_get]
    rw [hbound, bind_of_ok hskip]
    exact hrun
  · rw [hsum]
    exact hclaims f

theorem TreeInRange.child {d : Disk} {L b i : Nat}
    (h : TreeInRange sb d (L + 1) b) (hb : b ≠ 0) (hi : i < NINDIR sb) :
    TreeInRange sb d L (entry sb d b i) :=
  fun x hx => h x ⟨hb, Or.inr ⟨i, hi, hx⟩⟩

/-- Less `k` blocks, what is left of a file is still its last block and
more. -/
theorem rest_lt {k m rem bs : Nat} (hk : k < m) (hrem : (m - 1) * bs < rem) :
    (m - k - 1) * bs < rem - k * bs := by
  have hsplit : (m - k - 1) * bs + k * bs = (m - 1) * bs := by
    rw [← Nat.add_mul]
    congr 1
    omega
  omega

/-- **A tree is visited**, with the blocks its last level points to.  `m` is
the number of blocks of the file from the start of the tree on, and `rem` the
number of bytes. -/
theorem iblock_spec (hbs : 0 < sb.blockSize) (hN : 0 < NINDIR sb) (L : Nat) :
    ∀ {b m rem : Nat} {s : Pass1}, b ≠ 0 →
      EndsAt (entry sb s.disk) (NINDIR sb) (L + 1) b m →
      (m - 1) * sb.blockSize < rem →
      rem + lowerSpan sb L * sb.blockSize < 2 ^ 31 - 1 →
      TreeInRange sb s.disk (L + 2) b →
      Unclaimed s (treeFrags sb s.disk (L + 2) b) →
      ∃ s', iblock sb op inumber (L + 1) b
          ((rem + lowerSpan sb L * sb.blockSize : Nat) : Int) s
          = .ok .keepon s'
        ∧ Visited s s' (treeFrags sb s.disk (L + 2) b) := by
  induction L with
  | zero =>
    intro b m rem s hb hends hrem hlt hin hnew
    have hsz : sizepb sb 0 = ((sb.blockSize * NINDIR sb ^ 0 : Nat) : Int) := by
      rw [pow_zero, Nat.mul_one]
      rfl
    apply iblock_level hbs hN hb hends hsz hrem hlt hin hnew
    intro i hi hne t ht hunclaimed
    rw [if_neg (Nat.lt_irrefl 0)]
    -- the values of this level are the blocks of the file
    have hvalue : ∀ f, covers (entry sb s.disk b i) sb.fragsPerBlock f
        = treeFrags sb s.disk 1 (entry sb s.disk b i) f := by
      intro f
      rw [treeFrags_succ hne]
      exact (Nat.add_eq_left.mpr (Finset.sum_eq_zero fun _ _ => rfl)).symm
    obtain ⟨t', hrun, hvisited⟩ := pass1check_spec (hin.child hb hi _ ⟨hne, Or.inl rfl⟩)
      (hunclaimed.mono fun f => (hvalue f).le)
    exact ⟨t', hrun, hvisited.congr hvalue⟩
  | succ L ih =>
    intro b m rem s hb hends hrem hlt hin hnew
    have hspan : sb.blockSize * NINDIR sb ^ (L + 1)
        ≤ lowerSpan sb (L + 1) * sb.blockSize := by
      show _ ≤ (lowerSpan sb L + NINDIR sb ^ (L + 1)) * sb.blockSize
      rw [Nat.mul_comm]
      exact Nat.mul_le_mul_right _ (Nat.le_add_left _ _)
    have hsz := sizepb_eq hN (L + 1) (by omega)
    apply iblock_level hbs hN hb hends hsz hrem hlt hin hnew
    intro i hi hne t ht hunclaimed
    rw [if_pos (Nat.succ_pos L), hsz]
    have hendsChild := hends.2 hb i hi
    -- the tree of entry `i` starts `i` spans further on
    have hbefore : i * NINDIR sb ^ (L + 1) < m := by
      by_contra hle
      exact hne (hendsChild.root (Nat.sub_eq_zero_of_le (by omega)))
    have hbytes : i * NINDIR sb ^ (L + 1) * sb.blockSize < rem := by
      apply Nat.lt_of_le_of_lt _ hrem
      exact Nat.mul_le_mul_right _ (by omega)
    have hstep : (i + 1) * (sb.blockSize * NINDIR sb ^ (L + 1))
        = i * NINDIR sb ^ (L + 1) * sb.blockSize
          + NINDIR sb ^ (L + 1) * sb.blockSize := by ring
    have hlower : lowerSpan sb (L + 1) * sb.blockSize
        = lowerSpan sb L * sb.blockSize
          + NINDIR sb ^ (L + 1) * sb.blockSize := by
      rw [← Nat.add_mul]
      rfl
    have hisize : ((rem + lowerSpan sb (L + 1) * sb.blockSize : Nat) : Int)
          - int32 ((i + 1 : Int)
            * ((sb.blockSize * NINDIR sb ^ (L + 1) : Nat) : Int))
        = ((rem - i * NINDIR sb ^ (L + 1) * sb.blockSize
            + lowerSpan sb L * sb.blockSize : Nat) : Int) := by
      have hcast : (i + 1 : Int)
            * ((sb.blockSize * NINDIR sb ^ (L + 1) : Nat) : Int)
          = (((i + 1) * (sb.blockSize * NINDIR sb ^ (L + 1)) : Nat) : Int) := by
        push_cast
        rfl
      rw [hcast, hstep, int32_eq (by omega) (by omega)]
      omega
    rw [hisize]
    have hlt' : rem - i * NINDIR sb ^ (L + 1) * sb.blockSize
        + lowerSpan sb L * sb.blockSize < 2 ^ 31 - 1 := by
      apply Nat.lt_of_le_of_lt _ hlt
      rw [hlower]
      exact Nat.add_le_add (Nat.sub_le _ _) (Nat.le_add_right _ _)
    have hrem' := rest_lt (k := i * NINDIR sb ^ (L + 1)) hbefore hrem
    obtain ⟨t', hrun, hvisited⟩ := ih (s := t) hne (by rw [ht]; exact hendsChild)
      hrem' hlt' (by rw [ht]; exact hin.child hb hi)
      (by rw [ht]; exact hunclaimed)
    rw [ht] at hvisited
    exact ⟨t', hrun, hvisited⟩

end Tree

end NextUfs.Fsck
