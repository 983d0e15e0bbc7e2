/-
  NextUfs.Vdi.ParentChain
  ───────────────────────
  **OPENING A CHAIN OF VIRTUAL DISKS.**

  A differencing VDI names its parent by a UUID.  The opener looks for a file
  with that UUID beside the child and one directory up, and opens it the same
  way.

    • `searchDir`, `findParent` — the search, over a host of files,
    • `openBackend`             — `nextufs_init_backend` with its recursion,
    • `parentPlace`             — the path that is opened next,
    • `openBackend_eq_none_iff` — the recursion is as deep as the chain of
      paths is long,
    • `open_returns_iff`        — so an open returns exactly when no path comes
      up twice; a cyclic chain is followed until the process dies.
-/
import Mathlib.Data.Set.Finite.List
import NextUfs.Core.Path
import NextUfs.Lib.Links
import NextUfs.Vdi.Backend

namespace NextUfs.Vdi

open Host Links

/-! ## §1. The search. -/

/-- What the host answers: to an open for reading or writing, and to a listing
of a directory, in the order of `readdir`. -/
structure HostFiles where
  opens : (writable : Bool) → Bytes → Except Errno ByteFile
  listing : Bytes → Except Errno (List Bytes)

/-- `".vdi"`. -/
def VDI_SUFFIX : Bytes := [46, 118, 100, 105]

/-- `nextufs_path_dirname`. -/
def pathDirname (outSize : Nat) (path : Bytes) : Except Errno Bytes :=
  if SLASH ∉ path then
    if outSize < 2 then .error .ENAMETOOLONG else .ok [DOT]
  else
    let name := path.reverse.takeWhile (· ≠ SLASH)
    let slash := path.length - name.length - 1
    let len := if slash = 0 then 1 else slash
    if outSize < len + 1 then .error .ENAMETOOLONG else .ok (path.take len)

/-- `nextufs_vdi_uuid_matches`. -/
def uuidMatches (host : HostFiles) (path : Bytes) (targetUuid : List UInt8) :
    Bool :=
  match host.opens false path with
  | .error _ => false
  | .ok f =>
    match f.pread 0 (VDI_UUID_PARENT_OFF + 16) with
    | none => false
    | some hdr =>
      if readLe32 (hdr.drop VDI_SIG_OFF) ≠ VDI_SIGNATURE then false
      else decide ((hdr.drop VDI_UUID_IMAGE_OFF).take 16 = targetUuid)

/-- One round of `nextufs_vdi_search_dir`: the path of an entry that is the
parent. -/
def candidateParent (host : HostFiles) (dir selfPath : Bytes)
    (parentUuid : List UInt8) (name : Bytes) : Option Bytes :=
  if name.head? = some DOT then none
  else if name.length < 4 ∨ name.drop (name.length - 4) ≠ VDI_SUFFIX then none
  else if MAX_PATH_LEN < dir.length + 1 + name.length + 1 then none
  else
    let candidate := dir ++ SLASH :: name
    if candidate = selfPath then none
    else if uuidMatches host candidate parentUuid then some candidate
    else none

/-- `nextufs_vdi_search_dir`. -/
def searchDir (host : HostFiles) (outSize : Nat) (dir selfPath : Bytes)
    (parentUuid : List UInt8) : Except Errno Bytes :=
  match host.listing dir with
  | .error e => .error e
  | .ok names =>
    match names.findSome? (candidateParent host dir selfPath parentUuid) with
    | none => .error .ENOENT
    | some candidate =>
      if outSize < candidate.length + 1 then .error .ENAMETOOLONG
      else .ok candidate

/-- `nextufs_vdi_find_parent`. -/
def findParent (host : HostFiles) (outSize : Nat) (path : Bytes)
    (parentUuid : List UInt8) : Except Errno Bytes :=
  match pathDirname MAX_PATH_LEN path with
  | .error e => .error e
  | .ok dir =>
    match searchDir host outSize dir path parentUuid with
    | .ok parent => .ok parent
    | .error _ =>
      match pathDirname MAX_PATH_LEN dir with
      | .error e => .error e
      | .ok parentDir =>
        if parentDir = dir then .error .ENOENT
        else searchDir host outSize parentDir path parentUuid

/-! ## §2. The opener. -/

/-- An open image: the virtual disks of its chain, nearest first, and the raw
file, if one is at its end. -/
structure OpenChain where
  images : List Backend
  base : Option ByteFile

/-- A parent that was opened is put below its child; its error is the
child's. -/
def Backend.over (v : Backend) : Except Errno OpenChain → Except Errno OpenChain
  | .error e => .error e
  | .ok parent => .ok ⟨v :: parent.images, parent.base⟩

/-- How far an open comes by itself: to its end, or to a parent that is to be
opened. -/
inductive Progress where
  | done (result : Except Errno OpenChain)
  | needs (image : Backend) (parentPath : Bytes)

/-- `nextufs_init_backend` up to its recursive call. -/
def openImage (host : HostFiles) (writable : Bool) (path : Bytes) : Progress :=
  match host.opens writable path with
  | .error e => .done (.error e)
  | .ok raw =>
    match initBackend raw with
    | .error e => .done (.error e)
    | .ok none => .done (.ok ⟨[], some raw⟩)
    | .ok (some v) =>
      if v.hasParent = false then .done (.ok ⟨[v], none⟩)
      else
        match findParent host MAX_PATH_LEN path v.parentUuid with
        | .error e => .done (.error e)
        | .ok parentPath => .needs v parentPath

/-- `nextufs_init_backend`, with at most `depth` images open at once: `none`
when that was not enough. -/
def openBackend (host : HostFiles) :
    (depth : Nat) → (writable : Bool) → Bytes → Option (Except Errno OpenChain)
  | 0, _, _ => none
  | depth + 1, writable, path =>
    match openImage host writable path with
    | .done result => some result
    | .needs v parentPath =>
      (openBackend host depth false parentPath).map v.over

/-! ## §3. The chain of paths. -/

/-- The open that another one makes for its parent, if it comes to that. -/
def parentPlace (host : HostFiles) (place : Bool × Bytes) :
    Option (Bool × Bytes) :=
  match openImage host place.1 place.2 with
  | .done _ => none
  | .needs _ parentPath => some (false, parentPath)

section Places

variable {host : HostFiles} {place next : Bool × Bytes}

/-- **The recursion is as deep as the chain of paths is long.** -/
theorem openBackend_eq_none_iff (depth : Nat) : ∀ place : Bool × Bytes,
    openBackend host depth place.1 place.2 = none ↔
      ∃ last, follow (parentPlace host) depth place = some last := by
  induction depth with
  | zero => exact fun place => ⟨fun _ => ⟨place, rfl⟩, fun _ => rfl⟩
  | succ depth ih =>
    intro place
    rw [openBackend]
    cases hopen : openImage host place.1 place.2 with
    | done result =>
      have hend : parentPlace host place = none := by
        unfold parentPlace
        rw [hopen]
      rw [follow_succ_of_none hend]
      exact ⟨fun h => (Option.some_ne_none _ h).elim, fun ⟨_, h⟩ => by cases h⟩
    | needs v parentPath =>
      have hstep : parentPlace host place = some (false, parentPath) := by
        unfold parentPlace
        rw [hopen]
      rw [follow_succ_of_some hstep, Option.map_eq_none_iff]
      exact ih (false, parentPath)

/-- The open comes back, with some number of images open at once. -/
def Returns (host : HostFiles) (writable : Bool) (path : Bytes) : Prop :=
  ∃ depth result, openBackend host depth writable path = some result

theorem returns_iff_ends {writable : Bool} {path : Bytes} :
    Returns host writable path ↔ Ends (parentPlace host) (writable, path) := by
  constructor
  · rintro ⟨depth, result, hrun⟩
    refine ⟨depth, Option.eq_none_iff_forall_not_mem.mpr fun last hlast => ?_⟩
    have hnone := (openBackend_eq_none_iff depth (writable, path)).2 ⟨last, hlast⟩
    rw [hnone] at hrun
    cases hrun
  · rintro ⟨depth, hend⟩
    cases hrun : openBackend host depth writable path with
    | some result => exact ⟨depth, result, hrun⟩
    | none =>
      obtain ⟨last, hlast⟩ :=
        (openBackend_eq_none_iff depth (writable, path)).1 hrun
      rw [hend] at hlast
      cases hlast

/-! ## §4. Paths that are searched. -/

theorem candidateParent_length {dir selfPath name candidate : Bytes}
    {parentUuid : List UInt8}
    (h : candidateParent host dir selfPath parentUuid name = some candidate) :
    candidate.length < MAX_PATH_LEN := by
  unfold candidateParent at h
  split at h
  · cases h
  split at h
  · cases h
  split at h
  · cases h
  rename_i hfits
  dsimp only at h
  split at h
  · cases h
  split at h
  · cases h
    rw [List.length_append, List.length_cons]
    omega
  · cases h

theorem searchDir_length {outSize : Nat} {dir selfPath candidate : Bytes}
    {parentUuid : List UInt8}
    (h : searchDir host outSize dir selfPath parentUuid = .ok candidate) :
    candidate.length < MAX_PATH_LEN := by
  unfold searchDir at h
  split at h
  · cases h
  split at h
  · cases h
  · rename_i found hfound
    split at h
    · cases h
    · cases h
      obtain ⟨name, -, hname⟩ := List.exists_of_findSome?_eq_some hfound
      exact candidateParent_length hname

theorem findParent_length {outSize : Nat} {path candidate : Bytes}
    {parentUuid : List UInt8}
    (h : findParent host outSize path parentUuid = .ok candidate) :
    candidate.length < MAX_PATH_LEN := by
  unfold findParent at h
  split at h
  · cases h
  split at h
  · rename_i hfound
    cases h
    exact searchDir_length hfound
  · split at h
    · cases h
    · split at h
      · cases h
      · exact searchDir_length h

theorem parentPlace_length (h : parentPlace host place = some next) :
    next.2.length < MAX_PATH_LEN := by
  unfold parentPlace openImage at h
  split at h
  · cases h
  rename_i v parentPath hneeds
  cases h
  split at hneeds
  · cases hneeds
  split at hneeds
  · cases hneeds
  · cases hneeds
  split at hneeds
  · cases hneeds
  split at hneeds
  · cases hneeds
  · rename_i hfind
    cases hneeds
    exact findParent_length hfind

theorem follow_length {last : Bool × Bytes} (i : Nat) : ∀ {place},
    follow (parentPlace host) (i + 1) place = some last →
    last.2.length < MAX_PATH_LEN := by
  induction i with
  | zero =>
    intro place h
    cases hstep : parentPlace host place with
    | none =>
      rw [follow_succ_of_none hstep] at h
      cases h
    | some next =>
      rw [follow_succ_of_some hstep] at h
      cases h
      exact parentPlace_length hstep
  | succ i ih =>
    intro place h
    cases hstep : parentPlace host place with
    | none =>
      rw [follow_succ_of_none hstep] at h
      cases h
    | some next =>
      rw [follow_succ_of_some hstep] at h
      exact ih h

/-- There are finitely many paths a search can come to. -/
theorem finite_places :
    {place : Bool × Bytes | place.2.length < MAX_PATH_LEN}.Finite := by
  have : Finite UInt8 := Finite.of_injective
    (fun b => (⟨b.toNat, b.toNat_lt⟩ : Fin 256)) fun a b h =>
      UInt8.toNat_inj.mp (congrArg Fin.val h)
  have hall := (Set.finite_univ (α := Bool)).prod
    (List.finite_length_lt UInt8 MAX_PATH_LEN)
  exact hall.subset fun place hplace => ⟨Set.mem_univ _, hplace⟩

end Places

/-- **The parent chain is cyclic**: a path comes up twice. -/
def CyclicChain (host : HostFiles) (writable : Bool) (path : Bytes) : Prop :=
  Repeats (parentPlace host) (writable, path)

/-- **Opening terminates exactly on chains that are not cyclic.**  Every other
open returns; on a cyclic chain there is neither a result nor an error. -/
theorem open_returns_iff (host : HostFiles) (writable : Bool) (path : Bytes) :
    (Returns host writable path ∧
      (CyclicChain host writable path →
        ∃ depth e, openBackend host depth writable path = some (.error e))) ↔
      ¬CyclicChain host writable path := by
  have hreturns : Returns host writable path ↔
      ¬CyclicChain host writable path := by
    rw [returns_iff_ends]
    exact ends_iff_not_repeats_of_finite finite_places fun i _ h =>
      follow_length i h
  constructor
  · exact fun h => hreturns.1 h.1
  · exact fun h => ⟨hreturns.2 h, fun hcyclic => absurd hcyclic h⟩

/-! ## §5. Two disks that are each other's parents. -/

/-- A differencing VDI with these first bytes of its UUIDs. -/
def diffFile (imageUuid parentUuid : UInt8) : ByteFile where
  size := 1024
  byte i :=
    if VDI_SIG_OFF ≤ i ∧ i < VDI_SIG_OFF + 16 then
      -- signature, version, header size, type
      ([0x7f, 0x10, 0xda, 0xbe, 1, 0, 1, 0, 0x90, 1, 0, 0, 4] : Bytes).getD
        (i - VDI_SIG_OFF) 0
    else if i = VDI_BLOCKS_OFFSET_OFF + 1 ∨ i = VDI_DATA_OFFSET_OFF + 1 ∨
        i = VDI_SECTOR_SIZE_OFF + 1 then 2
    else if i = VDI_BLOCK_SIZE_OFF ∨ i = VDI_BLOCK_COUNT_OFF then 1
    else if i = VDI_UUID_IMAGE_OFF then imageUuid
    else if i = VDI_UUID_PARENT_OFF then parentUuid
    else 0

/-- `d/a.vdi` and `d/b.vdi`. -/
def pathA : Bytes := [100, 47, 97, 46, 118, 100, 105]
def pathB : Bytes := [100, 47, 98, 46, 118, 100, 105]

/-- A host with these two files, whose parents are each other. -/
def twoFiles : HostFiles where
  opens _ path :=
    if path = pathA then .ok (diffFile 1 2)
    else if path = pathB then .ok (diffFile 2 1)
    else .error .ENOENT
  listing dir :=
    if dir = [100] then
      .ok [[97, 46, 118, 100, 105], [98, 46, 118, 100, 105]]
    else .error .ENOENT

/-- **A circle of two**: opening one of the disks neither succeeds nor
fails. -/
theorem open_returns_not : ¬∀ (host : HostFiles) (writable : Bool)
    (path : Bytes), Returns host writable path := by
  intro hall
  have hreturns := returns_iff_ends.1 (hall twoFiles false pathA)
  have hup : parentPlace twoFiles (false, pathA) = some (false, pathB) := by
    decide +kernel
  have hdown : parentPlace twoFiles (false, pathB) = some (false, pathA) := by
    decide +kernel
  refine not_ends_of_repeats ⟨0, 2, _, by decide, rfl, ?_⟩ hreturns
  rw [follow_succ_of_some hup, follow_succ_of_some hdown]
  rfl

end NextUfs.Vdi
