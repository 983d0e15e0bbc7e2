/-
  NextUfs.Fsck.Pass5
  ──────────────────
  **PHASE 5 OF THE CHECKER.**

  For each cylinder group, pass 5 builds the group as the block map and the
  inode state map say it should be (`expectedCg`, the source's `newcg`) and
  compares it with the group on the disk: the two bitmaps, the summary part,
  the entry of the summary table; after the last group, the superblock totals.
  Each difference is put to the operator; the first answer stands for all of
  them (`dofix`).

  `newcg` is one buffer that is cleared field by field for each group; the
  model starts each group from a record with those fields cleared.
-/
import NextUfs.Fsck.FragSupport

namespace NextUfs.Fsck

open Bits

/-! ## §1. What the earlier passes leave. -/

/-- What pass 1 to 4 say about an inode.  `unset` is the value no pass ever
wrote, as for the reserved inodes 0 and 1. -/
inductive InodeState where
  | unset | ustate | fstate | dstate | dfound | dclear | fclear
  deriving DecidableEq, Repr

/-- `ROOTINO`: the inodes below it are reserved. -/
def ROOTINO : Nat := 2

/-- Inodes a group's bitmap has room for. -/
def MAXIPG : Nat := 2048

/-- Lengths of run a group's `frsum` has room for. -/
def MAXFRAG : Nat := 8

/-- The checker gives up. -/
inductive Errexit where
  | badState (ino : Nat)
  deriving DecidableEq, Repr

/-- An `int`: what two's complement leaves of a value. -/
def int32 (x : Int) : Int := x.bmod (2 ^ 32)

/-! ## §2. The group as it should be. -/

/-- A rotor of the group if the comparison with `bound`, which is one of
`int`s, lets it pass: a rotor from 2^31 on is negative there, and stays. -/
@[irreducible]
def keptRotor (rotor bound : Nat) : Nat :=
  if int32 rotor < bound then rotor else 0

theorem keptRotor_of_lt {rotor bound : Nat} (h : rotor < bound) :
    keptRotor rotor bound = rotor := by
  have hle : int32 rotor ≤ rotor := by
    unfold int32
    rw [Int.bmod_def]
    split <;> omega
  unfold keptRotor
  rw [if_pos (by omega)]

/-- A rotor that has been put back into its range stays there. -/
theorem keptRotor_again (rotor bound : Nat) :
    keptRotor (keptRotor rotor bound) bound = keptRotor rotor bound := by
  by_cases h : int32 rotor < bound
  · have heq : keptRotor rotor bound = rotor := by
      unfold keptRotor
      exact if_pos h
    rw [heq, heq]
  · have heq : keptRotor rotor bound = 0 := by
      unfold keptRotor
      exact if_neg h
    rw [heq]
    unfold keptRotor
    exact ite_self 0

section Expected

variable (sb : Superblock)

/-- Fragments of group `c`: a full group, or what is left of the disk. -/
def groupFrags (c : Nat) : Nat :=
  min (sb.fragsPerGroup * c + sb.fragsPerGroup) sb.fragCount
    - sb.fragsPerGroup * c

/-- `cbtocylno`. -/
def cbtocylno (bno : Nat) : Nat :=
  bno * sb.sectorsPerFrag / sb.sectorsPerCyl

/-- `cbtorpos`. -/
def cbtorpos (bno : Nat) : Nat :=
  bno * sb.sectorsPerFrag % sb.sectorsPerCyl % sb.sectorsPerTrack * NRPOS
    / sb.sectorsPerTrack

/-- Cylinders of group `c`. -/
def groupCyls (c : Nat) : Nat :=
  if c = sb.cgCount - 1 then sb.ncyl % sb.cpg else sb.cpg

/-- The fixed fields of `newcg`, with the counters, tables and bitmaps
cleared. -/
def newcgHeader (now : Int) (c : Nat) (cg : Cg) : Cg where
  link := 0
  rlink := 0
  time :=
    if cg.time.toInt32.toInt < now then cg.time else (Int32.ofInt now).toUInt32
  cgx := c
  ncyl := groupCyls sb c
  niblk := sb.inodesPerGroup
  ndblk := groupFrags sb c
  cs := ⟨0, 0, UInt32.ofNat sb.inodesPerGroup, 0⟩
  rotor := keptRotor cg.rotor (groupFrags sb c)
  frotor := keptRotor cg.frotor (groupFrags sb c)
  irotor := keptRotor cg.irotor sb.inodesPerGroup
  frsum := fun _ => 0
  btot := fun _ => 0
  b := fun _ _ => 0
  iused := fun _ => false
  magic := CG_MAGIC
  free := fun _ => false

/-- Mark inode `i` of the group used. -/
def useInode (newcg : Cg) (i : Nat) : Cg :=
  { newcg with
    iused := Function.update newcg.iused i true
    cs := { newcg.cs with nifree := newcg.cs.nifree - 1 } }

/-- Inode `i` of a group whose first inode is `first`. -/
def countInode (statemap : Nat → InodeState) (first : Nat) (newcg : Cg)
    (i : Nat) : Except Errexit Cg :=
  match statemap (first + i) with
  | .ustate => .ok newcg
  | .dstate | .dclear | .dfound =>
    .ok (useInode
      { newcg with cs := { newcg.cs with ndir := newcg.cs.ndir + 1 } } i)
  | .fstate | .fclear => .ok (useInode newcg i)
  | .unset =>
    if first + i < ROOTINO then .ok newcg else .error (.badState (first + i))

/-- The inodes of group `c`, and in the first group the reserved ones. -/
def countInodes (statemap : Nat → InodeState) (c : Nat) (newcg : Cg) :
    Except Errexit Cg := do
  let newcg ← (List.range sb.inodesPerGroup).foldlM
    (countInode statemap (sb.inodesPerGroup * c)) newcg
  return if c = 0 then (List.range ROOTINO).foldl useInode newcg else newcg

/-- Copy `n` fragments from `d` on of the block map, complemented, to the
positions from `i` on of a fragment bitmap; count the free ones. -/
def copyFree (blockmap : Nat → Bool) (d i n : Nat) (free : Nat → Bool) :
    (Nat → Bool) × Nat :=
  (List.range n).foldl (fun (free, frags) j =>
    if blockmap (d + j) then (free, frags)
    else (Function.update free (i + j) true, frags + 1)) (free, 0)

/-- Block `k` of a group that starts at `dbase`. -/
def countBlock (blockmap : Nat → Bool) (dbase : Nat) (newcg : Cg) (k : Nat) :
    Cg :=
  let i := k * sb.fragsPerBlock
  let (free, frags) :=
    copyFree blockmap (dbase + i) i sb.fragsPerBlock newcg.free
  let newcg := { newcg with free := free }
  if frags = sb.fragsPerBlock then
    let j := cbtocylno sb i
    let pos := cbtorpos sb i
    { newcg with
      cs := { newcg.cs with nbfree := newcg.cs.nbfree + 1 }
      btot := Function.update newcg.btot j (newcg.btot j + 1)
      b := Function.update newcg.b j
        (Function.update (newcg.b j) pos (newcg.b j pos + 1)) }
  else if 0 < frags then
    { newcg with
      cs := { newcg.cs with nffree := newcg.cs.nffree + UInt32.ofNat frags }
      frsum := fragacct sb.fragsPerBlock (blkmap sb.fragsPerBlock free i)
        newcg.frsum 1 }
  else newcg

/-- The fragments behind the last whole block of a group of `ndblk`. -/
def countTail (blockmap : Nat → Bool) (dbase ndblk : Nat) (newcg : Cg) : Cg :=
  let n := ndblk % sb.fragsPerBlock
  let i := ndblk / sb.fragsPerBlock * sb.fragsPerBlock
  let (free, frags) := copyFree blockmap (dbase + i) i n newcg.free
  let newcg :=
    { newcg with
      free := free
      cs := { newcg.cs with nffree := newcg.cs.nffree + UInt32.ofNat frags } }
  if n ≠ 0 then
    { newcg with
      frsum := fragacct sb.fragsPerBlock (blkmap sb.fragsPerBlock free i)
        newcg.frsum 1 }
  else newcg

/-- The whole blocks of a group, then its tail. -/
def countFrags (blockmap : Nat → Bool) (c : Nat) (newcg : Cg) : Cg :=
  let dbase := sb.fragsPerGroup * c
  let ndblk := groupFrags sb c
  countTail sb blockmap dbase ndblk
    ((List.range (ndblk / sb.fragsPerBlock)).foldl
      (countBlock sb blockmap dbase) newcg)

/-- `newcg`: group `c` as the maps say it should be. -/
def expectedCg (now : Int) (blockmap : Nat → Bool)
    (statemap : Nat → InodeState) (c : Nat) (cg : Cg) : Except Errexit Cg := do
  let newcg ← countInodes sb statemap c (newcgHeader sb now c cg)
  return countFrags sb blockmap c newcg

/-! ## §3. The comparisons. -/

/-- The bytes from `cg_iused` to the end of the fragment bitmap agree. -/
def sameBitMaps (newcg cg : Cg) : Bool :=
  (List.range MAXIPG).all (fun i => newcg.iused i == cg.iused i) &&
    newcg.magic == cg.magic &&
    (List.range (8 * ((sb.fragsPerGroup + 7) / 8))).all
      (fun i => newcg.free i == cg.free i)

end Expected

/-- The bytes in front of `cg_iused` agree. -/
def sameSummary (newcg cg : Cg) : Bool :=
  newcg.link == cg.link && newcg.rlink == cg.rlink &&
    newcg.time == cg.time && newcg.cgx == cg.cgx && newcg.ncyl == cg.ncyl &&
    newcg.niblk == cg.niblk && newcg.ndblk == cg.ndblk &&
    newcg.cs == cg.cs && newcg.rotor == cg.rotor &&
    newcg.frotor == cg.frotor && newcg.irotor == cg.irotor &&
    (List.range MAXFRAG).all (fun i => newcg.frsum i == cg.frsum i) &&
    (List.range MAXCPG).all (fun i => newcg.btot i == cg.btot i) &&
    (List.range MAXCPG).all fun i =>
      (List.range NRPOS).all fun j => newcg.b i j == cg.b i j

/-! ## §4. The pass. -/

/-- `id_fix`: what the operator has said so far. -/
inductive FixMode where
  | dontknow | fix | nofix
  deriving DecidableEq, Repr

/-- A difference the pass has found. -/
inductive Difference where
  /-- `CG %d: BAD MAGIC NUMBER` -/
  | badMagic (c : Nat)
  /-- `BLK(S) MISSING IN BIT MAPS` -/
  | bitMaps (c : Nat)
  /-- `SUMMARY INFORMATION BAD` -/
  | summary (c : Nat)
  /-- `FREE BLK COUNT(S) WRONG IN SUPERBLK`, a group's entry -/
  | csumEntry (c : Nat)
  /-- `FREE BLK COUNT(S) WRONG IN SUPERBLK`, the totals -/
  | total
  deriving DecidableEq, Repr

/-- What the pass reads and repairs, the operator's answer, and the
differences found, latest first. -/
structure Pass5 where
  cgs : Nat → Cg
  csum : Nat → Csum
  cstotal : Csum
  idFix : FixMode
  found : List Difference

/-- `dofix` with the operator answering `yes` or no: may it be repaired? -/
def dofix (yes : Bool) : FixMode → FixMode × Bool
  | .dontknow => if yes then (.fix, true) else (.nofix, false)
  | .fix => (.fix, true)
  | .nofix => (.nofix, false)

/-- Where `same` fails, record the difference and, if the operator agrees,
repair it. -/
def compare (yes same : Bool) (what : Difference) (repair : Pass5 → Pass5)
    (p : Pass5) : Pass5 :=
  if same then p
  else
    let (idFix, ok) := dofix yes p.idFix
    let p := { p with idFix := idFix, found := what :: p.found }
    if ok then repair p else p

section Pass

variable (sb : Superblock) (now : Int) (blockmap : Nat → Bool)
  (statemap : Nat → InodeState) (yes : Bool)

/-- The three comparisons of group `c`. -/
def compareGroup (c : Nat) (newcg : Cg) (p : Pass5) : Pass5 :=
  let p := compare yes (sameBitMaps sb newcg (p.cgs c)) (.bitMaps c)
    (fun p =>
      { p with
        cgs := Function.update p.cgs c
          { p.cgs c with
            iused := newcg.iused
            magic := newcg.magic
            free := fun i =>
              if i < 8 * ((sb.fragsPerGroup + 7) / 8) then newcg.free i
              else (p.cgs c).free i } }) p
  let p := compare yes (sameSummary newcg (p.cgs c)) (.summary c)
    (fun p =>
      { p with
        cgs := Function.update p.cgs c
          { newcg with
            iused := (p.cgs c).iused
            magic := (p.cgs c).magic
            free := (p.cgs c).free } }) p
  compare yes (newcg.cs == p.csum c) (.csumEntry c)
    (fun p => { p with csum := Function.update p.csum c newcg.cs }) p

/-- One round of the loop over the groups; the second component is the
source's `cstotal`. -/
def pass5Group (s : Pass5 × Csum) (c : Nat) :
    Except Errexit (Pass5 × Csum) := do
  let (p, cstotal) := s
  let p :=
    if (p.cgs c).magic ≠ CG_MAGIC then
      { p with found := .badMagic c :: p.found }
    else p
  let newcg ← expectedCg sb now blockmap statemap c (p.cgs c)
  return (compareGroup sb yes c newcg p, cstotal + newcg.cs)

/-- `pass5`. -/
def pass5 (p : Pass5) : Except Errexit Pass5 := do
  let (p, cstotal) ← (List.range sb.cgCount).foldlM
    (pass5Group sb now blockmap statemap yes) (p, 0)
  return compare yes (cstotal == p.cstotal) .total
    (fun p => { p with cstotal := cstotal }) p

end Pass

end NextUfs.Fsck
