/-
  NextUfs.Mutate.JoinSpec
  ───────────────────────
  **ONE RECORD JOINED TO ANOTHER.**

  `removeRecord` takes a record out of a chunk by making the last record in
  use before it longer by its length, or, when there is none, by clearing its
  inode number.  The two records need not be neighbours: records that are not
  in use may stand between them.

    • `removeRecord_hit`       — what the walk of the source does,
    • `joined_partitioned_iff` — the chunk is tiled afterwards exactly when its
      bytes are tiled from the end of the longer record on,
    • `joined_kept`            — which bytes stay.
-/
import NextUfs.Mutate.DirRecords

namespace NextUfs

/-! ## §1. The walk. -/

/-- The last record in use. -/
def lastLive (rs : List (Nat × Dirent)) : Option (Nat × Dirent) :=
  rs.reverse.find? fun r => r.2.ino ≠ 0

/-- The bytes with record `v` joined to record `prev`, or cleared. -/
def joined (block : Bytes) (base : Nat) (prev : Option (Nat × Dirent))
    (v : Nat × Dirent) : Bytes :=
  match prev with
  | some p =>
    overlay block (base + p.1 + 4) (writeBe16 (p.2.reclen + v.2.reclen))
  | none => overlay block (base + v.1) (writeBe32 0)

/-- Where the next record starts for a reader of the joined records. -/
def joinedEnd (prev : Option (Nat × Dirent)) (v : Nat × Dirent) : Nat :=
  match prev with
  | some p => p.1 + (p.2.reclen + v.2.reclen)
  | none => v.1 + v.2.reclen

section Walk

variable {name block : Bytes} {base : Nat} {prev : Option (Nat × Dirent)}
  {pre post rs : List (Nat × Dirent)} {v r : Nat × Dirent}

theorem lastLive_cons (r : Nat × Dirent) (rs : List (Nat × Dirent)) :
    lastLive (r :: rs)
      = (lastLive rs).or (if r.2.ino ≠ 0 then some r else none) := by
  unfold lastLive
  rw [List.reverse_cons, List.find?_append, List.find?_singleton]
  simp only [decide_eq_true_eq]

/-- Either nothing is in use, or the last record in use stands before records
that are not. -/
theorem lastLive_cases (rs : List (Nat × Dirent)) :
    (lastLive rs = none ∧ ∀ r ∈ rs, r.2.ino = 0) ∨
      ∃ p before frees, lastLive rs = some p ∧ rs = before ++ p :: frees ∧
        p.2.ino ≠ 0 ∧ ∀ r ∈ frees, r.2.ino = 0 := by
  cases hlast : lastLive rs with
  | none =>
    left
    refine ⟨rfl, fun r hr => ?_⟩
    have hnone := List.find?_eq_none.mp hlast r (List.mem_reverse.mpr hr)
    exact not_not.mp fun hlive => hnone (decide_eq_true hlive)
  | some p =>
    right
    obtain ⟨hlive, frees, before, heq, hfrees⟩ :=
      List.find?_eq_some_iff_append.mp hlast
    refine ⟨p, before.reverse, frees.reverse, rfl, ?_, of_decide_eq_true hlive,
      fun r hr => ?_⟩
    · rw [← List.reverse_reverse rs, heq]
      simp
    · have hfree := hfrees r (List.mem_reverse.mp hr)
      rw [Bool.not_eq_true', decide_eq_false_iff_not] at hfree
      exact not_not.mp hfree

/-- One step of the walk. -/
theorem removeRecord_cons (prev : Option (Nat × Dirent)) (r : Nat × Dirent)
    (rs : List (Nat × Dirent)) :
    removeRecord name block base prev (r :: rs)
      = if r.2.ino ≠ 0 ∧ r.2.name = name then
          if nameIsDotOrDotdot name then some (.error .EINVAL)
          else some (.ok (joined block base prev r, r.2.ino))
        else
          removeRecord name block base (if r.2.ino ≠ 0 then some r else prev)
            rs := by
  cases prev <;> rfl

/-- A walk past records that are not looked for. -/
theorem removeRecord_skip (h : ∀ r ∈ pre, ¬(r.2.ino ≠ 0 ∧ r.2.name = name)) :
    removeRecord name block base prev (pre ++ rs)
      = removeRecord name block base ((lastLive pre).or prev) rs := by
  induction pre generalizing prev with
  | nil => rfl
  | cons r pre ih =>
    rw [List.cons_append, removeRecord_cons, if_neg (h r List.mem_cons_self),
      ih fun x hx => h x (List.mem_cons_of_mem _ hx), lastLive_cons]
    congr 1
    cases lastLive pre with
    | some p => rfl
    | none =>
      show (if r.2.ino ≠ 0 then some r else prev) = _
      split <;> rfl

/-- Nothing to remove. -/
theorem removeRecord_none (h : ∀ r ∈ rs, ¬(r.2.ino ≠ 0 ∧ r.2.name = name)) :
    removeRecord name block base prev rs = none := by
  have hskip : removeRecord name block base prev (rs ++ []) = _ :=
    removeRecord_skip h
  rw [List.append_nil] at hskip
  rw [hskip]
  rfl

/-- **What the walk does**: the first record of the name is joined to the last
one in use before it. -/
theorem removeRecord_hit (hdots : nameIsDotOrDotdot name = false)
    (hpre : ∀ r ∈ pre, ¬(r.2.ino ≠ 0 ∧ r.2.name = name))
    (hlive : v.2.ino ≠ 0) (hname : v.2.name = name) :
    removeRecord name block base none (pre ++ v :: post)
      = some (.ok (joined block base (lastLive pre) v, v.2.ino)) := by
  rw [removeRecord_skip hpre, Option.or_none, removeRecord_cons,
    if_pos ⟨hlive, hname⟩, hdots]
  rfl

/-- The names of records that are not in use are not looked at. -/
theorem removeRecord_shown (rs : List (Nat × Dirent)) :
    ∀ prev, removeRecord name block base prev
        (rs.map fun r => (r.1, r.2.shown))
      = removeRecord name block base prev rs := by
  induction rs with
  | nil => exact fun _ => rfl
  | cons r rs ih =>
    intro prev
    rw [List.map_cons, removeRecord_cons, removeRecord_cons]
    by_cases hlive : r.2.ino = 0
    · have hshown : r.2.shown.ino = 0 := by
        rw [shown_ino]
        exact hlive
      simp only [hshown, hlive, ne_eq, not_true_eq_false, false_and, if_false]
      exact ih prev
    · rw [shown_of_live hlive]
      simp only [ih]

end Walk

/-! ## §2. What stays. -/

section Kept

variable {c : Bytes} {limit off stop : Nat} {ent : Dirent}
  {pre post rs rs' : List (Nat × Dirent)} {v : Nat × Dirent}

/-- **The records up to the joined ones** still lie end to end, and everything
behind them is untouched; what holds of every record, and of one that is cleared
or made longer, still does. -/
theorem joined_front_of {P : Dirent → Prop}
    (hclear : ∀ ent : Dirent, P (Dirent.shown { ent with ino := 0 }))
    (hlonger : ∀ (ent : Dirent) (n : Nat), ent.ino ≠ 0 → P ent → ent.reclen ≤ n →
      P (Dirent.shown { ent with reclen := n }))
    (hP : ∀ r ∈ pre, P r.2) (hsmall : c.length < 2 ^ 16)
    (h : Tiles c c.length 0 c.length (pre ++ v :: post))
    (hname : ∀ r ∈ pre ++ v :: post, NameInside r.2) (hlive : v.2.ino ≠ 0) :
    (joined c 0 (lastLive pre) v).length = c.length ∧
      joinedEnd (lastLive pre) v ≤ c.length ∧
      SameBytes c (joined c 0 (lastLive pre) v) (joinedEnd (lastLive pre) v)
        c.length ∧
      ∃ front, Tiles (joined c 0 (lastLive pre) v) c.length 0
          (joinedEnd (lastLive pre) v) front ∧
        (∀ r ∈ front, P r.2) ∧ entriesOf front = entriesOf pre := by
  obtain ⟨hpre, hv, hpost⟩ := h.around
  have hread := read_of_shown hlive hv
  obtain ⟨hbuf, hmin, hrec, -⟩ := readDirent_eq_some.mp hread
  have hnamev : NameInside v.2 := hname v (by simp)
  have hnamepre : ∀ r ∈ pre, NameInside r.2 := fun r hr =>
    hname r (List.mem_append_left _ hr)
  rcases lastLive_cases pre with ⟨hlast, hfree⟩ |
    ⟨p, before, frees, hlast, rfl, hplive, hfrees⟩
  · -- nothing in use before it: its inode number is cleared
    rw [hlast]
    unfold joined joinedEnd
    dsimp only
    rw [Nat.zero_add]
    have hfour : (writeBe32 0).length = 4 := rfl
    have hlen : (overlay c v.1 (writeBe32 0)).length = c.length :=
      overlay_length (by omega)
    have hout : ∀ {a b}, b ≤ v.1 ∨ v.1 + 4 ≤ a →
        SameBytes c (overlay c v.1 (writeBe32 0)) a b := by
      intro a b hab i h1 h2
      exact overlay_getD_of_not_mem (by omega) (by omega)
    refine ⟨hlen, hrec, hout (Or.inr (by omega)),
      pre ++ [(v.1, Dirent.shown { v.2 with ino := 0 })], ?_, ?_, ?_⟩
    · apply (hpre.congr le_rfl hlen.ge hnamepre (hout (Or.inl le_rfl))).append
      exact .cons (readDirent_clear le_rfl hread) (.nil _)
    · intro r hr
      rcases List.mem_append.mp hr with hr | hr
      · exact hP r hr
      · rw [List.mem_singleton.mp hr]
        exact hclear v.2
    · rw [entriesOf_append, entriesOf_cons_free (shown_ino _)]
      exact List.append_nil _
  · -- the last record in use before it takes its length
    rw [hlast]
    unfold joined joinedEnd
    dsimp only
    rw [Nat.zero_add]
    obtain ⟨hbefore, hp, hgap⟩ := hpre.around
    have hreadp := read_of_shown hplive hp
    obtain ⟨hbufp, hminp, hrecp, -⟩ := readDirent_eq_some.mp hreadp
    have hgaple := hgap.le
    have htwo : (writeBe16 (p.2.reclen + v.2.reclen)).length = 2 := rfl
    have hlen : (overlay c (p.1 + 4)
        (writeBe16 (p.2.reclen + v.2.reclen))).length = c.length :=
      overlay_length (by omega)
    have hout : ∀ {a b}, b ≤ p.1 + 4 ∨ p.1 + 6 ≤ a →
        SameBytes c (overlay c (p.1 + 4)
          (writeBe16 (p.2.reclen + v.2.reclen))) a b := by
      intro a b hab i h1 h2
      exact overlay_getD_of_not_mem (by omega) (by omega)
    have hnamep : NameInside p.2 := hnamepre p (by simp)
    have hlong : readDirent (overlay c (p.1 + 4)
          (writeBe16 (p.2.reclen + v.2.reclen))) c.length p.1
        = some { p.2 with reclen := p.2.reclen + v.2.reclen } :=
      readDirent_setReclen le_rfl hreadp (by omega) (by omega) (by omega)
    refine ⟨hlen, by omega, hout (Or.inr (by omega)),
      before ++ [(p.1, Dirent.shown
        { p.2 with reclen := p.2.reclen + v.2.reclen })], ?_, ?_, ?_⟩
    · apply (hbefore.congr le_rfl hlen.ge (fun r hr => hnamepre r
        (List.mem_append_left _ hr)) (hout (Or.inl (by omega)))).append
      exact .cons hlong (.nil _)
    · intro r hr
      rcases List.mem_append.mp hr with hr | hr
      · exact hP r (List.mem_append_left _ hr)
      · rw [List.mem_singleton.mp hr]
        exact hlonger p.2 _ hplive (hP p (by simp)) (Nat.le_add_right _ _)
    · rw [entriesOf_append, entriesOf_append, entriesOf_cons_live hplive,
        entriesOf_frees hfrees, shown_of_live (by exact hplive),
        entriesOf_cons_live (by exact hplive)]
      rfl

/-- **The records up to the joined ones** still lie end to end, with their names
inside them. -/
theorem joined_front (hsmall : c.length < 2 ^ 16)
    (h : Tiles c c.length 0 c.length (pre ++ v :: post))
    (hname : ∀ r ∈ pre ++ v :: post, NameInside r.2) (hlive : v.2.ino ≠ 0) :
    (joined c 0 (lastLive pre) v).length = c.length ∧
      joinedEnd (lastLive pre) v ≤ c.length ∧
      SameBytes c (joined c 0 (lastLive pre) v) (joinedEnd (lastLive pre) v)
        c.length ∧
      ∃ front, Tiles (joined c 0 (lastLive pre) v) c.length 0
          (joinedEnd (lastLive pre) v) front ∧
        (∀ r ∈ front, NameInside r.2) ∧ entriesOf front = entriesOf pre := by
  refine joined_front_of (fun ent => nameInside_shown.mpr fun h => absurd rfl h)
    (fun ent n hlive hin hle => nameInside_shown.mpr fun _ => ?_)
    (fun r hr => hname r (List.mem_append_left _ hr)) hsmall h hname hlive
  have hfits := hin hlive
  dsimp only
  omega

/-- **The chunk is partitioned afterwards exactly when its bytes are tiled from
the end of the joined records on.** -/
theorem joined_partitioned_iff {es : List (Nat × Bytes)}
    (hsmall : c.length < 2 ^ 16)
    (h : Tiles c c.length 0 c.length (pre ++ v :: post))
    (hname : ∀ r ∈ pre ++ v :: post, NameInside r.2) (hlive : v.2.ino ≠ 0) :
    Partitioned (joined c 0 (lastLive pre) v) es ↔
      ∃ rs, Tiles c c.length (joinedEnd (lastLive pre) v) c.length rs ∧
        (∀ r ∈ rs, NameInside r.2) ∧ es = entriesOf pre ++ entriesOf rs := by
  obtain ⟨hlen, hend, hsame, front, hfront, hinside, hentries⟩ :=
    joined_front hsmall h hname hlive
  unfold Partitioned
  rw [hlen]
  constructor
  · rintro ⟨rs, hrs, hrsname, rfl⟩
    obtain ⟨rs', rfl, hrs'⟩ := hfront.cut hrs hend
    have hname' : ∀ r ∈ rs', NameInside r.2 := fun r hr =>
      hrsname r (List.mem_append_right _ hr)
    refine ⟨rs', hrs'.congr hlen.ge le_rfl hname' ?_, hname', ?_⟩
    · exact fun i h1 h2 => (hsame i h1 h2).symm
    · rw [entriesOf_append, hentries]
  · rintro ⟨rs', hrs', hname', rfl⟩
    refine ⟨front ++ rs',
      hfront.append (hrs'.congr le_rfl hlen.ge hname' hsame), ?_, ?_⟩
    · intro r hr
      rcases List.mem_append.mp hr with hr | hr
      · exact hinside r hr
      · exact hname' r hr
    · rw [entriesOf_append, hentries]

/-- **The inode number and the name of every other record in use stay.** -/
theorem joined_kept (h : Tiles c c.length 0 c.length (pre ++ v :: post))
    (hname : ∀ r ∈ pre ++ v :: post, NameInside r.2) (hlive : v.2.ino ≠ 0)
    {r : Nat × Dirent} (hr : r ∈ pre ++ post) (hrlive : r.2.ino ≠ 0) :
    SameBytes c (joined c 0 (lastLive pre) v) r.1 (r.1 + 4) ∧
      SameBytes c (joined c 0 (lastLive pre) v) (r.1 + 8)
        (r.1 + 8 + r.2.namlen) := by
  obtain ⟨hpre, hv, hpost⟩ := h.around
  obtain ⟨hbuf, hmin, hrec, -⟩ :=
    readDirent_eq_some.mp (read_of_shown hlive hv)
  have hin : NameInside r.2 := by
    refine hname r ?_
    rcases List.mem_append.mp hr with hr | hr
    · exact List.mem_append_left _ hr
    · exact List.mem_append_right _ (List.mem_cons_of_mem _ hr)
  have hinside := hin hrlive
  rcases lastLive_cases pre with ⟨hlast, hfree⟩ |
    ⟨p, before, frees, hlast, rfl, hplive, hfrees⟩
  · rw [hlast]
    unfold joined
    dsimp only
    rw [Nat.zero_add]
    have hfour : (writeBe32 0).length = 4 := rfl
    have hafter : v.1 + v.2.reclen ≤ r.1 := by
      rcases List.mem_append.mp hr with hr | hr
      · exact absurd (hfree r hr) hrlive
      · exact (hpost.mem hr).1
    constructor
    all_goals
      intro i h1 h2
      exact overlay_getD_of_not_mem (by omega) (by omega)
  · rw [hlast]
    unfold joined
    dsimp only
    rw [Nat.zero_add]
    have htwo : (writeBe16 (p.2.reclen + v.2.reclen)).length = 2 := rfl
    obtain ⟨hbefore, hp, hgap⟩ := hpre.around
    have hgaple := hgap.le
    obtain ⟨hbufp, hminp, -⟩ :=
      readDirent_eq_some.mp (read_of_shown hplive hp)
    have hplace : r.1 + r.2.reclen ≤ p.1 ∨ p.1 = r.1 ∨
        p.1 + p.2.reclen ≤ r.1 := by
      rcases List.mem_append.mp hr with hr | hr
      · rcases List.mem_append.mp hr with hr | hr
        · exact Or.inl (hbefore.mem hr).2.1
        · rcases List.mem_cons.mp hr with rfl | hr
          · exact Or.inr (Or.inl rfl)
          · exact absurd (hfrees r hr) hrlive
      · have := (hpost.mem hr).1
        exact Or.inr (Or.inr (by omega))
    constructor
    all_goals
      intro i h1 h2
      exact overlay_getD_of_not_mem (by omega) (by omega)

end Kept

end NextUfs
