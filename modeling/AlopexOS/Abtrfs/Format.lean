import AlopexOS.Lib.Packed
import AlopexOS.Lib.CString

/-!
# `Abtrfs.Format` — what is on the disk

Two records fill a block each: the partition header in block 0 and the header of a file. Both are packed,
so each is an array of 4096 bytes read through its members. The members that no function touches
(checksums, times, owners, extents) are bytes of the array like any other.

## Contents
- **Primitives.** Error codes, handles, blocks and paths.
- **`AbtrFSDiskHeader`** and its members.
- **`PartitionHeader`** and its members.
-/

namespace AlopexOS

open Packed CString

/-! ## Primitives -/

/-- `errorCode`. -/
inductive ErrorCode where
  | success | genericError | invalidParameters | notImplemented | permissionDenied | timeout | busy
  | alreadyExists | notFound
  | outOfMemory | invalidAddress | alignmentFault | pageFault
  | deviceNotReady | deviceTimeout | deviceInitializationFailed | ioError | hardwareFault
  | invalidLBA | outOfBounds | bufferUnaligned | writeProtected
  | invalidSuperblock | corruptedHeader | nodeNotFound | noSpaceLeft | readOnlyFilesystem | isDirectory
  | notDirectory | fileNotFound | fileAlreadyExists | bufferTooSmall | deviceNotMounted | invalidPath
  | allocationFailed | writeFailed
  deriving DecidableEq, Repr

/-- `Handle`, the index of a device in the table of `gaossd`. -/
abbrev Handle := UInt64

/-- `InvalidHandle`, which no device has. -/
def invalidHandle : Handle := 0xFFFFFFFFFFFFFFFF

/-- A block is `ABTRFS_HEADER_BLOCK_SIZE` bytes, which is 4096. -/
abbrev Block := Bytes 4096

/-- `Path`, an `arr<byte, 2048>`. -/
abbrev Path := Bytes 2048

/-- The string a path spells: up to its first NUL, or all of it. -/
def Path.str (p : Path) : List UInt8 := cstr p.get 0 2048

/-! ## `AbtrFSDiskHeader` -/

/-- The members of `AbtrFSDiskHeader` that the file system reads or assigns, `path` aside. -/
inductive HeaderMember where
  | magic | flags | sectionCount | size | blockSize | payloadOffset
  deriving DecidableEq, Repr

/-- Their places in the packed struct. -/
def headerLayout : Layout HeaderMember 4096 where
  field
    | .magic => ⟨0, 2, by decide⟩
    | .flags => ⟨2, 4, by decide⟩
    | .sectionCount => ⟨92, 8, by decide⟩
    | .size => ⟨764, 2, by decide⟩
    | .blockSize => ⟨766, 8, by decide⟩
    | .payloadOffset => ⟨774, 8, by decide⟩
  apart := by
    intro i j h
    cases i <;> cases j <;> first | exact absurd rfl h | decide

/-- Where `path` starts; it is `char path[256]`. -/
def pathOff : Nat := 124

/-- `AbtrfsDiskFlags::IsFile`. -/
def isFileFlag : UInt32 := 8

/-- The header of a file: the packed struct, which fills a block. -/
structure AbtrFSDiskHeader where
  bytes : Block

namespace AbtrFSDiskHeader

/-- The number in a member. -/
def get (h : AbtrFSDiskHeader) (m : HeaderMember) : Nat := headerLayout.get m h.bytes

/-- Assign a member, which keeps the low bytes of `v` that it has room for. -/
def set (h : AbtrFSDiskHeader) (m : HeaderMember) (v : Nat) : AbtrFSDiskHeader :=
  ⟨headerLayout.set m h.bytes v⟩

/-- `magic`, by which the walk tells a header from other blocks. -/
def magic (h : AbtrFSDiskHeader) : UInt16 := UInt16.ofNat (h.get .magic)

/-- `flags`; a file has `isFileFlag`. -/
def flags (h : AbtrFSDiskHeader) : UInt32 := UInt32.ofNat (h.get .flags)

/-- `section_count`, the number of payload blocks. -/
def sectionCount (h : AbtrFSDiskHeader) : UInt64 := UInt64.ofNat (h.get .sectionCount)

/-- `size`, the number of bytes in the last payload block. -/
def size (h : AbtrFSDiskHeader) : UInt16 := UInt16.ofNat (h.get .size)

/-- `payload_offset`, the first payload block. -/
def payloadOffset (h : AbtrFSDiskHeader) : UInt64 := UInt64.ofNat (h.get .payloadOffset)

/-- `path[i]`. -/
def pathByte (h : AbtrFSDiskHeader) (i : Nat) : UInt8 := h.bytes.get (pathOff + i)

/-- Assign `path[i]`. -/
def setPathByte (h : AbtrFSDiskHeader) (i : Nat) (v : UInt8) : AbtrFSDiskHeader :=
  ⟨h.bytes.put (pathOff + i) v⟩

/-- The string in `path`. -/
def str (h : AbtrFSDiskHeader) : List UInt8 := cstr h.pathByte 0 256

/-- `AbtrFSDiskHeader{}`: the default member initialisers, and zero. -/
def init : AbtrFSDiskHeader := (AbtrFSDiskHeader.set ⟨Bytes.zero⟩ .magic 0xABF5).set .blockSize 4096

theorem get_set (h : AbtrFSDiskHeader) (m m' : HeaderMember) (v : Nat) :
    (h.set m' v).get m = if m = m' then v % 256 ^ (headerLayout.field m).width else h.get m :=
  headerLayout.get_set m m' h.bytes v

/-- The default values fit their members. -/
theorem magic_fits : 0xABF5 % 256 ^ 2 = 0xABF5 := rfl

theorem blockSize_fits : 4096 % 256 ^ 8 = 4096 := rfl

/-- The members lie outside `path`. -/
theorem get_setPathByte (h : AbtrFSDiskHeader) {i : Nat} (hi : i < 256) (v : UInt8) (m : HeaderMember) :
    (h.setPathByte i v).get m = h.get m := by
  apply Field.get_put_outside
  cases m <;> simp only [headerLayout, pathOff] <;> omega

theorem pathByte_setPathByte (h : AbtrFSDiskHeader) (v : UInt8) {i j : Nat} (hi : i < 256) :
    (h.setPathByte j v).pathByte i = if i = j then v else h.pathByte i := by
  unfold pathByte setPathByte
  split
  · rename_i hij
    subst hij
    exact Bytes.get_put_same (by unfold pathOff; omega)
  · rename_i hij
    exact Bytes.get_put_ne (by omega)

end AbtrFSDiskHeader

/-! ## `PARTITION_HEADER` -/

/-- The members of `PARTITION_HEADER` that are read or assigned. -/
inductive PartitionMember where
  | magic | blockSize | totalBlocks | freeBlocksCount | version
  deriving DecidableEq, Repr

/-- Their places in the packed struct. -/
def partitionLayout : Layout PartitionMember 4096 where
  field
    | .magic => ⟨0, 8, by decide⟩
    | .blockSize => ⟨8, 8, by decide⟩
    | .totalBlocks => ⟨16, 8, by decide⟩
    | .freeBlocksCount => ⟨32, 8, by decide⟩
    | .version => ⟨40, 4, by decide⟩
  apart := by
    intro i j h
    cases i <;> cases j <;> first | exact absurd rfl h | decide

/-- `ABTRFS_MAGIC_64`. -/
def abtrfsMagic64 : Nat :=
  0x41 * 2 ^ 40 + 0x62 * 2 ^ 32 + 0x74 * 2 ^ 24 + 0x72 * 2 ^ 16 + 0x46 * 2 ^ 8 + 0x53

/-- `PARTITION_HEADER`, the packed struct in block 0. -/
structure PartitionHeader where
  bytes : Block

namespace PartitionHeader

/-- The number in a member. -/
def get (h : PartitionHeader) (m : PartitionMember) : Nat := partitionLayout.get m h.bytes

/-- Assign a member. -/
def set (h : PartitionHeader) (m : PartitionMember) (v : Nat) : PartitionHeader :=
  ⟨partitionLayout.set m h.bytes v⟩

/-- `magic`: letters in a record that is made, 0xABF4 on a volume. -/
def magic (h : PartitionHeader) : UInt64 := UInt64.ofNat (h.get .magic)

/-- `total_blocks`, block 0 included. -/
def totalBlocks (h : PartitionHeader) : UInt64 := UInt64.ofNat (h.get .totalBlocks)

/-- `free_blocks_count`; the blocks in use are the first ones. -/
def freeBlocksCount (h : PartitionHeader) : UInt64 := UInt64.ofNat (h.get .freeBlocksCount)

/-- Assign `free_blocks_count`. -/
def setFree (h : PartitionHeader) (v : UInt64) : PartitionHeader := h.set .freeBlocksCount v.toNat

/-- `PARTITION_HEADER{}`. -/
def init : PartitionHeader :=
  ((PartitionHeader.set ⟨Bytes.zero⟩ .magic abtrfsMagic64).set .blockSize 4096).set .version 1

theorem get_set (h : PartitionHeader) (m m' : PartitionMember) (v : Nat) :
    (h.set m' v).get m = if m = m' then v % 256 ^ (partitionLayout.field m).width else h.get m :=
  partitionLayout.get_set m m' h.bytes v

@[simp] theorem magic_setFree (h : PartitionHeader) (v : UInt64) : (h.setFree v).magic = h.magic := by
  simp [magic, setFree, get_set]

@[simp] theorem totalBlocks_setFree (h : PartitionHeader) (v : UInt64) :
    (h.setFree v).totalBlocks = h.totalBlocks := by
  simp [totalBlocks, setFree, get_set]

@[simp] theorem freeBlocksCount_setFree (h : PartitionHeader) (v : UInt64) :
    (h.setFree v).freeBlocksCount = v := by
  have hv : v.toNat < 256 ^ 8 := v.toNat_lt
  simp only [freeBlocksCount, setFree, get_set, if_true, partitionLayout, Nat.mod_eq_of_lt hv,
    UInt64.ofNat_toNat]

end PartitionHeader

end AlopexOS
