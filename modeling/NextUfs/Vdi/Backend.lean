/-
  NextUfs.Vdi.Backend
  ───────────────────
  **THE VDI BACKEND.**

  `image.c`: reading and writing the guest bytes of a dynamic or differencing
  VDI.  A guest block is unallocated (the parent's bytes, or zeros), discarded
  (zeros) or allocated to a data block of the file; a write allocates first.

    • `initBackend`      — the header and the block map of a file,
    • `backendRead`      — a read, through the chain of parents,
    • `materializeBlock` — the host writes that publish a new data block,
    • `backendWrite`     — a write.

  A chain is the list of an image and its parents, nearest first; every file
  is a different one, and only the first is written.  File offsets are kept
  modulo 2^64, as the `uint64_t` product and the `off_t` sums are; a host call
  at a negative offset fails.
-/
import NextUfs.Core.Types
import NextUfs.Lib.HostFile

namespace NextUfs.Vdi

open Host

/-! ## §1. The header. -/

def VDI_SIGNATURE : Nat := 0xbeda107f
def VDI_VERSION : Nat := 0x00010001
def VDI_TYPE_DYNAMIC : Nat := 1
def VDI_TYPE_DIFF : Nat := 4
def VDI_MAP_UNALLOCATED : Nat := 0xffffffff
def VDI_MAP_ZERO : Nat := 0xfffffffe
def VDI_SIG_OFF : Nat := 0x40
def VDI_VERSION_OFF : Nat := 0x44
def VDI_HEADER_SIZE_OFF : Nat := 0x48
def VDI_TYPE_OFF : Nat := 0x4c
def VDI_BLOCKS_OFFSET_OFF : Nat := 0x154
def VDI_DATA_OFFSET_OFF : Nat := 0x158
def VDI_SECTOR_SIZE_OFF : Nat := 0x168
def VDI_DISK_SIZE_OFF : Nat := 0x170
def VDI_BLOCK_SIZE_OFF : Nat := 0x178
def VDI_BLOCK_EXTRA_OFF : Nat := 0x17c
def VDI_BLOCK_COUNT_OFF : Nat := 0x180
def VDI_BLOCKS_ALLOC_OFF : Nat := 0x184
def VDI_UUID_IMAGE_OFF : Nat := 0x188
def VDI_UUID_PARENT_OFF : Nat := 0x1a8

/-- `read_le32`. -/
def readLe32 (p : List UInt8) : Nat :=
  (p.getD 0 0).toNat + (p.getD 1 0).toNat * 2 ^ 8
    + (p.getD 2 0).toNat * 2 ^ 16 + (p.getD 3 0).toNat * 2 ^ 24

/-- `read_le64`. -/
def readLe64 (p : List UInt8) : Nat :=
  readLe32 p + readLe32 (p.drop 4) * 2 ^ 32

/-- The four bytes `nextufs_vdi_write_le32` writes. -/
def le32 (value : Nat) : List UInt8 :=
  [UInt8.ofNat value, UInt8.ofNat (value / 2 ^ 8),
    UInt8.ofNat (value / 2 ^ 16), UInt8.ofNat (value / 2 ^ 24)]

/-- The fields of `struct nextufs_vdi_backend` that are set when the image is
opened. -/
structure Header where
  imageType : Nat
  mapOffset : Nat
  dataOffset : Nat
  sectorSize : Nat
  blockSize : Nat
  blockExtra : Nat
  blockCount : Nat
  diskSize : Nat
  imageUuid : List UInt8
  parentUuid : List UInt8
  hasParent : Bool

/-- `struct nextufs_vdi_backend`. -/
structure Backend extends Header where
  blocksAllocated : Nat
  blockMap : Nat → Nat
  file : HostFile

/-- `nextufs_init_backend` on a file: the VDI it holds, or none where the
signature is missing and the file is opened as a raw image.  The search for
the parent is left to the caller, who passes the chain. -/
def initBackend (raw : ByteFile) : Except Errno (Option Backend) :=
  match raw.pread 0 512 with
  | none => .error Errno.EIO
  | some hdr =>
    let field (off : Nat) := readLe32 (hdr.drop off)
    let headerSize := field VDI_HEADER_SIZE_OFF
    if field VDI_SIG_OFF ≠ VDI_SIGNATURE then .ok none
    else if VDI_SIG_OFF + headerSize < VDI_UUID_PARENT_OFF + 16 ∨
        field VDI_VERSION_OFF ≠ VDI_VERSION then
      .error .EINVAL
    else if (field VDI_TYPE_OFF ≠ VDI_TYPE_DYNAMIC ∧
          field VDI_TYPE_OFF ≠ VDI_TYPE_DIFF) ∨
        field VDI_SECTOR_SIZE_OFF = 0 ∨ field VDI_BLOCK_SIZE_OFF = 0 ∨
        field VDI_BLOCK_COUNT_OFF = 0 ∨
        field VDI_BLOCKS_OFFSET_OFF < headerSize ∨
        field VDI_DATA_OFFSET_OFF < field VDI_BLOCKS_OFFSET_OFF then
      .error .EINVAL
    else
      match raw.pread (field VDI_BLOCKS_OFFSET_OFF)
          (field VDI_BLOCK_COUNT_OFF * 4) with
      | none => .error Errno.EIO
      | some map =>
        .ok (some
          { imageType := field VDI_TYPE_OFF
            mapOffset := field VDI_BLOCKS_OFFSET_OFF
            dataOffset := field VDI_DATA_OFFSET_OFF
            sectorSize := field VDI_SECTOR_SIZE_OFF
            blockSize := field VDI_BLOCK_SIZE_OFF
            blockExtra := field VDI_BLOCK_EXTRA_OFF
            blockCount := field VDI_BLOCK_COUNT_OFF
            blocksAllocated := field VDI_BLOCKS_ALLOC_OFF
            diskSize := readLe64 (hdr.drop VDI_DISK_SIZE_OFF)
            blockMap := fun b => readLe32 (map.drop (b * 4))
            imageUuid := (hdr.drop VDI_UUID_IMAGE_OFF).take 16
            parentUuid := (hdr.drop VDI_UUID_PARENT_OFF).take 16
            hasParent := field VDI_TYPE_OFF == VDI_TYPE_DIFF
            file := ⟨raw, []⟩ })

/-! ## §2. Reading. -/

/-- An entry of the block map that names a data block. -/
def isAllocated (entry : Nat) : Prop :=
  entry ≠ VDI_MAP_UNALLOCATED ∧ entry ≠ VDI_MAP_ZERO

instance (entry : Nat) : Decidable (isAllocated entry) := by
  unfold isAllocated
  infer_instance

/-- `memset(out, 0, n)`. -/
def zeros (n : Nat) : List UInt8 := List.replicate n 0

/-- `map_entry * stride`, a `uint64_t`. -/
def Header.strideOff (h : Header) (entry : Nat) : Nat :=
  entry * (h.blockSize + h.blockExtra) % 2 ^ 64

/-- Offset in the file of a byte of a data block. -/
def Header.fileOff (h : Header) (entry blockOff : Nat) : Nat :=
  (h.dataOffset + h.strideOff entry + h.blockExtra + blockOff) % 2 ^ 64

/-- `(uint32_t)(guest_off / block_size)`. -/
def Header.blockIndex (h : Header) (guestOff : Nat) : Nat :=
  guestOff / h.blockSize % 2 ^ 32

/-- What is left of a block from `guestOff`, at most `remaining`. -/
def Header.chunkLen (h : Header) (guestOff remaining : Nat) : Nat :=
  min (h.blockSize - guestOff % h.blockSize) remaining

/-- `image_size` of the parent, and its reads: `nextufs__read_exact`. -/
structure Parent where
  imageSize : Nat
  read : Nat → Nat → Except Errno (List UInt8)

/-- One round of the read loop: `chunk` bytes of one block. -/
def readChunk (v : Backend) (parent : Parent) (guestOff chunk : Nat) :
    Except Errno (List UInt8) :=
  let mapEntry := v.blockMap (v.blockIndex guestOff)
  if mapEntry = VDI_MAP_UNALLOCATED then
    if v.hasParent then
      if parent.imageSize ≤ guestOff then .ok (zeros chunk)
      else
        let parentChunk := min chunk (parent.imageSize - guestOff)
        match parent.read parentChunk guestOff with
        | .error _ => .error Errno.EIO
        | .ok bs => .ok (bs ++ zeros (chunk - parentChunk))
    else .ok (zeros chunk)
  else if mapEntry = VDI_MAP_ZERO then .ok (zeros chunk)
  else
    match v.file.contents.pread
        (v.fileOff mapEntry (guestOff % v.blockSize)) chunk with
    | none => .error Errno.EIO
    | some bs => .ok bs

/-- The read loop from `guestOff`, with `remaining` bytes to go.  Every round
reads a byte, so their number bounds the rounds. -/
def readLoop (v : Backend) (parent : Parent) :
    Nat → Nat → Nat → Except Errno (List UInt8)
  | 0, _, _ => .ok []
  | fuel + 1, guestOff, remaining =>
    if remaining = 0 then .ok []
    else if v.blockCount ≤ v.blockIndex guestOff then .error Errno.EIO
    else
      let chunk := v.chunkLen guestOff remaining
      match readChunk v parent guestOff chunk with
      | .error e => .error e
      | .ok bs =>
        match readLoop v parent fuel (guestOff + chunk) (remaining - chunk) with
        | .error e => .error e
        | .ok rest => .ok (bs ++ rest)

/-- `image_size` of the first image of a chain. -/
def imageSize : List Backend → Nat
  | [] => 0
  | v :: _ => v.diskSize

/-- `nextufs_vdi_backend_read` on the first image of a chain. -/
def backendRead : List Backend → Nat → Nat → Except Errno (List UInt8)
  | [], _, _ => .error .EINVAL
  | v :: parents, size, offset =>
    if v.diskSize < offset + size then .error Errno.EIO
    else readLoop v ⟨imageSize parents, backendRead parents⟩ size offset size

/-- The parent an image's backend holds. -/
def parentOf (parents : List Backend) : Parent :=
  ⟨imageSize parents, backendRead parents⟩

/-! ## §3. Writing. -/

/-- An open image and its parents, nearest first. -/
structure Chain where
  image : Backend
  parents : List Backend

/-- The images of a chain, from the open one down. -/
def Chain.images (c : Chain) : List Backend := c.image :: c.parents

/-- The write operations leave behind what they have done when they fail. -/
abbrev VdiOp := EStateM Errno Chain

/-- The open image with another state of its file. -/
def Chain.withFile (c : Chain) (file : HostFile) : Chain :=
  { c with image := { c.image with file := file } }

/-- `nextufs__write_exact_fd` on the image's file: the host refuses an offset
that `off_t` does not have. -/
def writeExactFd (off : Nat) (data : List UInt8) : VdiOp Unit := do
  if OFFSET_END < off + data.length then throw .EFBIG
  else modify fun c => c.withFile (c.image.file.pwrite off data)

/-- `nextufs_vdi_write_le32`. -/
def writeLe32 (off value : Nat) : VdiOp Unit := writeExactFd off (le32 value)

/-- The bytes a new data block starts with: the parent's where the guest block
was unallocated, zeros otherwise. -/
def fillBlock (index : Nat) : VdiOp (List UInt8) := do
  let c ← get
  if c.image.blockMap index = VDI_MAP_UNALLOCATED ∧ c.image.hasParent then
    match backendRead c.parents c.image.blockSize
        (index * c.image.blockSize) with
    | .error e => throw e
    | .ok bs => return bs
  else return zeros c.image.blockSize

/-- `vdi->block_map[index] = entry; vdi->blocks_allocated++`. -/
def Chain.mapBlock (c : Chain) (index entry : Nat) : Chain :=
  { c with
    image :=
      { c.image with
        blockMap := Function.update c.image.blockMap index entry
        blocksAllocated := entry + 1 } }

/-- The `block_extra` bytes before a data block, if it has any. -/
def writeExtra (off extra : Nat) : VdiOp Unit :=
  if extra ≠ 0 then writeExactFd off (zeros extra) else return ()

/-- The host writes of `nextufs_vdi_materialize_block`, in its order: the
block's leading extra bytes, the block, the map entry, the count. -/
def publishBlock (index : Nat) (blockBuf : List UInt8) : VdiOp Unit := do
  let v := (← get).image
  let newEntry := v.blocksAllocated
  let blockFileOff := (v.dataOffset + v.strideOff newEntry) % 2 ^ 64
  writeExtra blockFileOff v.blockExtra
  writeExactFd ((blockFileOff + v.blockExtra) % 2 ^ 64) blockBuf
  writeLe32 (v.mapOffset + index * 4) newEntry
  modify fun c => c.mapBlock index newEntry
  writeLe32 VDI_BLOCKS_ALLOC_OFF (newEntry + 1)

/-- `nextufs_vdi_materialize_block`. -/
def materializeBlock (index : Nat) : VdiOp Unit := do
  let v := (← get).image
  if isAllocated (v.blockMap index) then return ()
  else if v.blockCount ≤ v.blocksAllocated then throw .ENOSPC
  else do
    let blockBuf ← fillBlock index
    publishBlock index blockBuf

/-- One round of the write loop: the bytes of `data` that fall into the block
of `guestOff`. -/
def writeChunk (guestOff : Nat) (data : List UInt8) : VdiOp Unit := do
  let index := (← get).image.blockIndex guestOff
  if (← get).image.blockCount ≤ index then throw Errno.EIO
  else do
    materializeBlock index
    let v := (← get).image
    if isAllocated (v.blockMap index) then
      writeExactFd (v.fileOff (v.blockMap index) (guestOff % v.blockSize))
        (data.take (v.chunkLen guestOff data.length))
    else throw Errno.EIO

/-- The write loop.  Every round writes a byte, so their number bounds the
rounds. -/
def writeLoop : Nat → Nat → List UInt8 → VdiOp Unit
  | 0, _, _ => return ()
  | fuel + 1, guestOff, data => do
    if data = [] then return ()
    else do
      let chunk := (← get).image.chunkLen guestOff data.length
      writeChunk guestOff data
      writeLoop fuel (guestOff + chunk) (data.drop chunk)

/-- `nextufs_vdi_backend_write`. -/
def backendWrite (data : List UInt8) (offset : Nat) : VdiOp Unit := do
  if (← get).image.diskSize < offset + data.length then throw Errno.EIO
  else writeLoop data.length offset data

end NextUfs.Vdi
