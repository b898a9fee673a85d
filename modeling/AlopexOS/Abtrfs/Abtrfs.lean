import AlopexOS.Lib.Prog
import AlopexOS.Lib.ByteString
import AlopexOS.Abtrfs.Path

/-!
# `Abtrfs.Abtrfs` — the file system (`src/abtrfs/abtrfs.cpp`)

Every function is a program over the state of a machine that the file system reaches in three ways only:
`operator new`, a read request for one block, and a write request for one block. Sizes and block numbers
are the 64-bit words of the source, with their wrap-around; contents are byte strings.

An index outside an array is the fault `wild`. Two things make a call wait for ever: `operator new`
without room, which halts the machine, and a header walk that never reaches its end.

## Contents
- **The machine** as the file system sees it, and `AbtrFS` itself.
- **Mounting**: `mount`, `mountExisting`, `format`.
- **The name tree** and **the header walk**.
- **`readFile`**, **`writeFile`** and **`exists`**.
-/

namespace AlopexOS

open Packed ByteString

/-! ## The machine and the file system object -/

/-- What the file system asks of a machine with states `σ`. -/
structure Platform (σ : Type) where
  /-- `operator new` for so many bytes. -/
  operatorNew : Nat → Prog σ Unit
  /-- Read a block: whether the request completed well, and what the buffer holds afterwards. -/
  submitRead : Handle → UInt64 → Prog σ (Bool × Block)
  /-- Write a block: whether the request completed well. -/
  submitWrite : Handle → UInt64 → Block → Prog σ Bool
  /-- How many rounds of the header walk are followed before it counts as endless. -/
  walkBound : Nat

/-- `TreeNode*`. -/
inductive TreeNode where
  | null
  | node (name : List UInt8) (isDirectory : Bool) (left right : TreeNode)
  deriving DecidableEq

/-- An `AbtrFS` object. `deviceHandle` stands for the `gaossd` it asks. -/
structure AbtrFS where
  isMounted : Bool
  partitionHeader : PartitionHeader
  deviceBaseAddress : UInt64
  hhdmOffset : UInt64
  deviceHandle : Handle
  rootNode : TreeNode

/-- `AbtrFS{}`. -/
def AbtrFS.init : AbtrFS where
  isMounted := false
  partitionHeader := PartitionHeader.init
  deviceBaseAddress := 0
  hhdmOffset := 0
  deviceHandle := invalidHandle
  rootNode := .null

variable {σ : Type}

/-- `read_block`: the result, and what the buffer holds afterwards. The platform is given the block; that the
    request names the sector `block_address * 8`, in 64 bits, is a matter of the platform (`onSectors`, and
    `blockRequest` of the storage layer). -/
def readBlock (P : Platform σ) (fs : AbtrFS) (blockAddress : UInt64) (buffer : Block) :
    Prog σ (Bool × Block) :=
  if fs.deviceHandle = invalidHandle then pure (false, buffer)
  else P.submitRead fs.deviceHandle blockAddress

/-- `write_block`, with the same scaling. -/
def writeBlock (P : Platform σ) (fs : AbtrFS) (blockAddress : UInt64) (buffer : Block) : Prog σ Bool :=
  if fs.deviceHandle = invalidHandle then pure false
  else P.submitWrite fs.deviceHandle blockAddress buffer

/-! ## Mounting -/

/-- The magic number of a formatted volume. -/
def volumeMagic : UInt64 := 0xABF4

/-- The assignments that `mount`, `mount_existing` and `format` start with. -/
def attach (fs : AbtrFS) (base hhdm : UInt64) (handle : Handle) : AbtrFS :=
  { fs with deviceBaseAddress := base, hhdmOffset := hhdm, deviceHandle := handle }

/-- `AbtrFS::mount`: true when block 0 is read and has the magic number of a volume. -/
def mount (P : Platform σ) (fs : AbtrFS) (base hhdm : UInt64) (handle : Handle) :
    Prog σ (Bool × AbtrFS) := do
  -- the object keeps the device, and what it read, also when there is no volume
  let fs := attach fs base hhdm handle
  let r ← readBlock P fs 0 fs.partitionHeader.bytes
  let fs := { fs with partitionHeader := ⟨r.2⟩ }
  if r.1 = true ∧ fs.partitionHeader.magic = volumeMagic then
    pure (true, { fs with isMounted := true })
  else pure (false, { fs with isMounted := false })

/-- `AbtrFS::mount_existing`: the same without an answer, and without taking back that it is mounted. -/
def mountExisting (P : Platform σ) (fs : AbtrFS) (base hhdm : UInt64) (handle : Handle) :
    Prog σ AbtrFS := do
  let fs := attach fs base hhdm handle
  let r ← readBlock P fs 0 fs.partitionHeader.bytes
  let fs := { fs with partitionHeader := ⟨r.2⟩ }
  if r.1 = true ∧ fs.partitionHeader.magic = volumeMagic then
    pure { fs with isMounted := true }
  -- `_is_mounted` is not taken back
  else pure fs

/-- The partition header `format` writes. -/
def formatHeader : PartitionHeader :=
  ((((PartitionHeader.init.set .magic volumeMagic.toNat).set .totalBlocks 204800).set
    .freeBlocksCount (204800 - 1)).set .blockSize 4096)

/-- `AbtrFS::format`: the header of an empty partition goes to block 0. -/
def format (P : Platform σ) (fs : AbtrFS) (base hhdm : UInt64) (handle : Handle) :
    Prog σ (Bool × AbtrFS) := do
  let fs := { attach fs base hhdm handle with partitionHeader := formatHeader }
  let ok ← writeBlock P fs 0 formatHeader.bytes
  if ok = true then pure (true, { fs with isMounted := true })
  else pure (false, fs)

/-! ## The name tree -/

/-- `char` is signed. -/
def charLt (a b : UInt8) : Bool := a.toInt8 < b.toInt8

/-- `operator<` on strings. -/
def stringLt : List UInt8 → List UInt8 → Bool
  | [], ys => !ys.isEmpty
  | _ :: _, [] => false
  | x :: xs, y :: ys => if charLt x y then true else if charLt y x then false else stringLt xs ys

/-- `sizeof(TreeNode)`. -/
def treeNodeSize : Nat := 64

/-- `find_or_create_node` for one segment. `next` goes on below a node that carries it; the children of a
    directory hang off its `left`, where names that sort before it go too. -/
def descend (P : Platform σ) (segment : List UInt8) (isLast : Bool)
    (next : TreeNode → Prog σ TreeNode) : TreeNode → Prog σ TreeNode
  | .null => do
      -- a node that is on the way to the last segment is made as a directory
      P.operatorNew treeNodeSize
      if isLast then pure (.node segment false .null .null)
      else do
        let left ← next .null
        pure (.node segment true left .null)
  | .node name isDirectory left right =>
      if segment = name then
        if isLast then pure (.node name isDirectory left right)
        else do
          let left ← next left
          pure (.node name isDirectory left right)
      else if stringLt segment name then do
        let left ← descend P segment isLast next left
        pure (.node name isDirectory left right)
      else do
        let right ← descend P segment isLast next right
        pure (.node name isDirectory left right)

/-- The tree after `find_or_create_node`; nothing uses the node it points at. -/
def findOrCreateNode (P : Platform σ) : List (List UInt8) → TreeNode → Prog σ TreeNode
  | [], root => pure root
  | segment :: segments, root =>
      descend P segment segments.isEmpty (fun left => findOrCreateNode P segments left) root

/-! ## The header walk -/

namespace AbtrFSDiskHeader

/-- What the walk takes for the header of a file. -/
def isFile (h : AbtrFSDiskHeader) : Bool := h.magic = 0xABF5 ∧ h.flags &&& isFileFlag ≠ 0

/-- How far the walk steps from this header. -/
def skip (h : AbtrFSDiskHeader) : UInt64 :=
  if h.magic = 0xABF5 ∧ 0 < h.sectionCount then 1 + h.sectionCount else 1

/-- The length of the file: whole blocks but the last, which holds `size` bytes. -/
def totalSize (h : AbtrFSDiskHeader) : UInt64 :=
  if 0 < h.sectionCount then (h.sectionCount - 1) * 4096 + h.size.toUInt64 else 0

end AbtrFSDiskHeader

/-- The loop of `find_file_header` from block `curr` on. -/
def walk (P : Platform σ) (fs : AbtrFS) (path : Path) (used : UInt64) :
    Nat → UInt64 → Block → Prog σ (Option AbtrFSDiskHeader)
  | 0, _, _ => Prog.fail .hang
  | n + 1, curr, buffer =>
      if curr < used then do
        let r ← readBlock P fs curr buffer
        if r.1 = true then
          let header : AbtrFSDiskHeader := ⟨r.2⟩
          if header.isFile = true ∧ isPathEqual path header.pathByte = true then pure (some header)
          else walk P fs path used n (curr + header.skip) r.2
        else pure none
      else pure none

/-- `total_blocks - free_blocks_count`. -/
def PartitionHeader.used (h : PartitionHeader) : UInt64 := h.totalBlocks - h.freeBlocksCount

/-- `find_file_header`: the walk over all blocks in use, with a buffer of its own. -/
def findFileHeader (P : Platform σ) (fs : AbtrFS) (path : Path) :
    Prog σ (Option AbtrFSDiskHeader) := do
  P.operatorNew 4096
  walk P fs path fs.partitionHeader.used P.walkBound 1 AbtrFSDiskHeader.init.bytes

/-- `AbtrFS::exists`. -/
def exists' (P : Platform σ) (fs : AbtrFS) (path : Path) : Prog σ ErrorCode :=
  if fs.isMounted = false then pure .deviceNotMounted
  else if chopPath path = [] then pure .invalidPath
  else do
    P.operatorNew 4096
    let found ← findFileHeader P fs path
    if found.isNone then pure .fileNotFound else pure .success

/-! ## `readFile` -/

/-- A `dynarr<byte>` that owns its storage. -/
structure Dynarr where
  elems : List UInt8
  capacity : Nat
  fits : elems.length ≤ capacity

namespace Dynarr

/-- `dynarr<byte>{}`. -/
def empty : Dynarr := ⟨[], 0, Nat.le_refl 0⟩

/-- The elements after `resize(n)`: the old ones, and zeros. -/
def resized (xs : List UInt8) (n : Nat) : List UInt8 := xs.take n ++ List.replicate (n - xs.length) 0

theorem length_resized (xs : List UInt8) (n : Nat) : (resized xs n).length = n := by
  simp only [resized, List.length_append, List.length_take, List.length_replicate]
  omega

/-- `resize`: memory is asked for when the capacity is not enough. -/
def resize (P : Platform σ) (d : Dynarr) (n : Nat) : Prog σ Dynarr :=
  if h : d.capacity < n then do
    P.operatorNew n
    pure ⟨resized d.elems n, n, Nat.le_of_eq (length_resized _ _)⟩
  else pure ⟨resized d.elems n, d.capacity, by rw [length_resized]; omega⟩

/-- Its first bytes assigned one by one. -/
def assign (d : Dynarr) (bytes : List UInt8) : Dynarr where
  elems := bytes.take d.elems.length ++ d.elems.drop bytes.length
  capacity := d.capacity
  fits := by
    have := d.fits
    simp only [List.length_append, List.length_take, List.length_drop]
    omega

/-- `clear()`. -/
def clear (d : Dynarr) : Dynarr := ⟨[], d.capacity, Nat.zero_le _⟩

end Dynarr

/-- The copying loop of `read_file` from block `b` on: whether every read completed well, and the bytes
    copied. A round copies at least one byte, so `remaining` bounds the rounds. -/
def readBlocks (P : Platform σ) (fs : AbtrFS) (payloadOffset dataBlocksCount : UInt64) :
    Nat → UInt64 → Nat → Nat → Block → Prog σ (Bool × List UInt8)
  | 0, _, _, _, _ => pure (true, [])
  | n + 1, b, shift, remaining, buffer =>
      if b < dataBlocksCount ∧ 0 < remaining then do
        let r ← readBlock P fs (payloadOffset + b) buffer
        if r.1 = true then do
          let bytes := (r.2.toList.drop shift).take remaining
          let rest ← readBlocks P fs payloadOffset dataBlocksCount n (b + 1) 0
            (remaining - bytes.length) r.2
          pure (rest.1, bytes ++ rest.2)
        else pure (false, [])
      else pure (true, [])

/-- The result, and the caller's array when it gave one. -/
def readFile (P : Platform σ) (fs : AbtrFS) (path : Path) (data : Option Dynarr)
    (readOffset maxReadSize : UInt64) :
    Prog σ (Except ErrorCode (List UInt8) × Option Dynarr) :=
  if fs.isMounted = false then pure (.error .deviceNotMounted, data)
  else if chopPath path = [] then pure (.error .invalidPath, data)
  else do
    P.operatorNew 4096
    let found ← findFileHeader P fs path
    match found with
    | none => pure (.error .fileNotFound, data)
    | some header =>
        if header.totalSize ≤ readOffset then pure (.ok [], data.map Dynarr.clear)
        else do
          let available := header.totalSize - readOffset
          let bytesToRead := if 0 < maxReadSize ∧ maxReadSize < available then maxReadSize else available
          let target ← (data.getD Dynarr.empty).resize P bytesToRead.toNat
          -- `block_buffer`
          P.operatorNew 4096
          let r ← readBlocks P fs header.payloadOffset header.sectionCount bytesToRead.toNat
            (readOffset / 4096) (readOffset % 4096).toNat bytesToRead.toNat Bytes.zero
          let target := target.assign r.2
          if r.1 = true then do
            -- the array is copied into the result
            P.operatorNew bytesToRead.toNat
            pure (.ok target.elems, data.map fun _ => target)
          else pure (.error .ioError, data.map fun _ => target)

/-! ## `writeFile` -/

/-- The loop `expanded_data[write_offset + i] = data[i]` from `i` on; `none` when an index is out of
    range. The array does not check its index: the call goes on after a write out of range, and what it does then
    is not followed. -/
def putBytes (writeOffset : UInt64) : Nat → List UInt8 → List UInt8 → Option (List UInt8)
  | _, [], expanded => some expanded
  | i, x :: data, expanded =>
      let j := (writeOffset + UInt64.ofNat i).toNat
      if j < expanded.length then putBytes writeOffset (i + 1) data (expanded.set j x) else none

/-- `expanded_data`: zeros, the old bytes, and `data` over them. There is none when a byte of `data` falls out
    of it, for which `write_offset + data.size()` has to reach 2^64. -/
def expandedData (finalSize : UInt64) (old data : List UInt8) (writeOffset : UInt64) :
    Option (List UInt8) :=
  putBytes writeOffset 0 data (Dynarr.resized old finalSize.toNat)

/-- The bytes of the old content; when it cannot be read there are none. -/
def oldContent (P : Platform σ) (fs : AbtrFS) (path : Path) (found : Option AbtrFSDiskHeader) :
    Prog σ (List UInt8) :=
  match found with
  | none => pure []
  | some _ => do
      -- the file is looked for a second time
      let r ← readFile P fs path none 0 0
      match r.1 with
      | .ok bytes => pure bytes
      | .error _ => pure []

/-- `final_size`. -/
def finalSize (found : Option AbtrFSDiskHeader) (data : List UInt8) (writeOffset : UInt64) : UInt64 :=
  let existing := match found with
    | none => 0
    | some header => header.totalSize
  let targetEnd := writeOffset + UInt64.ofNat data.length
  if existing < targetEnd then targetEnd else existing

/-- `required_blocks`. -/
def requiredBlocks (finalSize : UInt64) : UInt64 := (finalSize + 4096 - 1) / 4096

/-- The space check, and the partition header once the blocks are counted as used. -/
def claimBlocks (h : PartitionHeader) (found : Option AbtrFSDiskHeader) (required : UInt64) :
    Option PartitionHeader :=
  match found with
  | none =>
      -- a new file needs a block for its header as well
      if h.freeBlocksCount < 1 + required ∨ h.totalBlocks < h.used + 1 + required then none
      else some (h.setFree (h.freeBlocksCount - (1 + required)))
  | some header =>
      if header.sectionCount < required then
        -- the blocks are counted, though the payload grows where it is
        if h.freeBlocksCount < required - header.sectionCount then none
        else some (h.setFree (h.freeBlocksCount - (required - header.sectionCount)))
      else some h

/-- `file_header` when it is written: `assigned` is the block of a new header. -/
def fillHeader (path : Path) (found : Option AbtrFSDiskHeader) (assigned required finalSize : UInt64) :
    AbtrFSDiskHeader :=
  let h := match found with
    | none => AbtrFSDiskHeader.init.set .payloadOffset (assigned + 1).toNat
    | some header => header
  let h := h.set .magic 0xABF5
  let h := h.set .flags isFileFlag.toNat
  let h := h.set .sectionCount required.toNat
  let remainder := finalSize % 4096
  let h := h.set .size (if remainder = 0 then 4096 else remainder).toNat
  let h := h.set .blockSize 4096
  copyPath path h

/-- The block writes, in order: the header of a new file, the payload, the partition header. -/
def plannedWrites (found : Option AbtrFSDiskHeader) (header : AbtrFSDiskHeader)
    (assigned required : UInt64) (expanded : List UInt8) (h : PartitionHeader) :
    List (UInt64 × Block) :=
  (if found.isNone then [(assigned, header.bytes)] else [])
    ++ (List.range required.toNat).map
        (fun b => (header.payloadOffset + UInt64.ofNat b, chunk 4096 expanded b))
    ++ [(0, h.bytes)]

/-- Write block after block until one write fails. -/
def writeAll (P : Platform σ) (fs : AbtrFS) : List (UInt64 × Block) → Prog σ Bool
  | [] => pure true
  | w :: ws => do
      let ok ← writeBlock P fs w.1 w.2
      if ok = true then writeAll P fs ws else pure false

/-- The rest of `write_file` once the header walk has answered. -/
def writeFound (P : Platform σ) (fs : AbtrFS) (path : Path) (data : List UInt8) (writeOffset : UInt64)
    (found : Option AbtrFSDiskHeader) : Prog σ (ErrorCode × AbtrFS) :=
  let final := finalSize found data writeOffset
  if final = 0 then pure (.invalidParameters, fs)
  else do
    P.operatorNew final.toNat
    let old ← oldContent P fs path found
    match expandedData final old data writeOffset with
    | none => Prog.fail .wild
    | some expanded =>
        let required := requiredBlocks final
        let assigned := fs.partitionHeader.used
        match claimBlocks fs.partitionHeader found required with
        | none => pure (.noSpaceLeft, fs)
        | some h => do
            -- from here on the blocks count as used, whatever becomes of the writes
            let fs := { fs with partitionHeader := h }
            let header := fillHeader path found assigned required final
            let ok ← writeAll P fs (plannedWrites found header assigned required expanded h)
            if ok = true then pure (.success, fs) else pure (.writeFailed, fs)

/-- `AbtrFS::write_file`: the name goes into the tree before anything else is looked at. -/
def writeFile (P : Platform σ) (fs : AbtrFS) (path : Path) (data : List UInt8) (writeOffset : UInt64) :
    Prog σ (ErrorCode × AbtrFS) :=
  if fs.isMounted = false then pure (.deviceNotMounted, fs)
  else if chopPath path = [] then pure (.invalidPath, fs)
  else do
    let root ← findOrCreateNode P (chopPath path) fs.rootNode
    let fs := { fs with rootNode := root }
    let found ← findFileHeader P fs path
    writeFound P fs path data writeOffset found

end AlopexOS
