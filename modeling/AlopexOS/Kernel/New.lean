import AlopexOS.Lib.Packed

/-!
# `Kernel.New` — the kernel heap (`src/kernel/new.cpp`)

The heap is one static buffer of 16 MiB. A block is a 32-byte `BlockHeader` followed by its payload;
blocks follow each other in the buffer and the free ones are chained by address into a doubly linked
list. The model works on the bytes of memory: a header is read and written through its fields, so a
header that overlaps another, or a stale one inside a merged block, is what it would be in the machine.

The two traversals of the free list are loops without a bound in the source. Here they take `fuel`; a
traversal that has not ended by then gives `none`.
-/

namespace AlopexOS.Heap

open Packed

/-- `heap_size`. -/
def heapSize : Nat := 16 * 1024 * 1024

/-- `HEADER_SIZE`, that is `sizeof(BlockHeader)`. -/
def headerSize : Nat := 32

/-- `ALIGNMENT`. -/
def alignment : UInt64 := 16

/-- The static buffer: `alignas(16)`, not at null, inside the address space. -/
structure HeapBuffer where
  start : Nat
  pos : 0 < start
  fits : start + heapSize ≤ 2 ^ 64
  aligned : start % 16 = 0

/-- The members of `BlockHeader`. -/
inductive HeaderField where
  | size
  | isFree
  | next
  | prev
  deriving DecidableEq, Repr

namespace HeaderField

/-- The offset of a member in the struct. -/
def off : HeaderField → Nat
  | size => 0
  | isFree => 8
  | next => 16
  | prev => 24

/-- Its size; `is_free` is a `bool`. -/
def width : HeaderField → Nat
  | isFree => 1
  | _ => 8

end HeaderField

/-- Memory and the two variables of the allocator. -/
structure HeapState where
  mem : Mem
  freeListHead : Nat
  heapInitialized : Bool

namespace HeapState

/-- Member `f` of the header at `a`. -/
def get (h : HeapState) (f : HeaderField) (a : Nat) : Nat := load h.mem (a + f.off) f.width

/-- Assign member `f` of the header at `a`. -/
def set (h : HeapState) (f : HeaderField) (a v : Nat) : HeapState :=
  { h with mem := store h.mem (a + f.off) f.width v }

/-- Assign `free_list_head`. -/
def setHead (h : HeapState) (v : Nat) : HeapState := { h with freeListHead := v }

/-- Set `heap_initialized`. -/
def setInitialized (h : HeapState) : HeapState := { h with heapInitialized := true }

@[simp] theorem get_setInitialized (h : HeapState) (f : HeaderField) (a : Nat) :
    h.setInitialized.get f a = h.get f a := rfl

@[simp] theorem freeListHead_setInitialized (h : HeapState) :
    h.setInitialized.freeListHead = h.freeListHead := rfl

@[simp] theorem heapInitialized_setInitialized (h : HeapState) :
    h.setInitialized.heapInitialized = true := rfl

@[simp] theorem get_setHead (h : HeapState) (v : Nat) (f : HeaderField) (a : Nat) :
    (h.setHead v).get f a = h.get f a := rfl

@[simp] theorem freeListHead_setHead (h : HeapState) (v : Nat) : (h.setHead v).freeListHead = v := rfl

@[simp] theorem heapInitialized_setHead (h : HeapState) (v : Nat) :
    (h.setHead v).heapInitialized = h.heapInitialized := rfl

@[simp] theorem freeListHead_set (h : HeapState) (f : HeaderField) (a v : Nat) :
    (h.set f a v).freeListHead = h.freeListHead := rfl

@[simp] theorem heapInitialized_set (h : HeapState) (f : HeaderField) (a v : Nat) :
    (h.set f a v).heapInitialized = h.heapInitialized := rfl

/-- Two headers that are the same or do not overlap. -/
def SameOrApart (a b : Nat) : Prop := a = b ∨ a + headerSize ≤ b ∨ b + headerSize ≤ a

/-- **Header members are independent.** Assigning one changes nothing but that member there. -/
theorem get_set (h : HeapState) {f g : HeaderField} {a b : Nat} (v : Nat) (hs : SameOrApart a b) :
    (h.set g b v).get f a = if f = g ∧ a = b then v % 256 ^ f.width else h.get f a := by
  unfold get set SameOrApart headerSize at *
  by_cases he : f = g ∧ a = b
  · obtain ⟨rfl, rfl⟩ := he
    rw [if_pos ⟨rfl, rfl⟩]
    exact load_store_same _ _ _ _
  · rw [if_neg he]
    apply load_store_apart
    cases f <;> cases g <;> simp [HeaderField.off, HeaderField.width] at he ⊢ <;> omega

/-- The members of a header are words of memory. -/
theorem get_congr {h h' : HeapState} {f : HeaderField} {a : Nat}
    (hm : ∀ i, a ≤ i → i < a + headerSize → h'.mem i = h.mem i) : h'.get f a = h.get f a := by
  apply load_congr
  unfold headerSize at hm
  intro i hi hlt
  apply hm i
  · omega
  · cases f <;> simp [HeaderField.off, HeaderField.width] at hlt <;> omega

end HeapState

open HeapState

/-! ## The functions of `new.cpp` -/

/-- `align_up`, which is 0 for 0 and where the sum wraps. -/
def alignUp (size : UInt64) : UInt64 := (size + alignment - 1) &&& ~~~(alignment - 1)

/-- `init_heap`: once, one free block that is the whole buffer. -/
def initHeap (B : HeapBuffer) (h : HeapState) : HeapState :=
  if h.heapInitialized then h
  else
    let h := h.set .size B.start (heapSize - headerSize)
    let h := h.set .isFree B.start 1
    let h := h.set .next B.start 0
    let h := h.set .prev B.start 0
    (h.setHead B.start).setInitialized

/-- `remove_from_free_list`: the neighbours in the list are linked with each other. -/
def removeFromFreeList (h : HeapState) (block : Nat) : HeapState :=
  let h :=
    if h.get .prev block ≠ 0 then h.set .next (h.get .prev block) (h.get .next block)
    else h.setHead (h.get .next block)
  let h :=
    if h.get .next block ≠ 0 then h.set .prev (h.get .next block) (h.get .prev block) else h
  let h := h.set .next block 0
  h.set .prev block 0

/-- `add_to_free_list`: the block is marked, and becomes the head of the list. -/
def addToFreeList (h : HeapState) (block : Nat) : HeapState :=
  let h := h.set .isFree block 1
  let h := h.set .next block h.freeListHead
  let h := h.set .prev block 0
  let h := if h.freeListHead ≠ 0 then h.set .prev h.freeListHead block else h
  h.setHead block

/-- The loop of `is_in_free_list` from `curr` on. -/
def isInFreeListFrom (h : HeapState) (target : Nat) : Nat → Nat → Option Bool
  | 0, _ => none
  | fuel + 1, curr =>
      if curr = 0 then some false
      else if curr = target then some true
      else isInFreeListFrom h target fuel (h.get .next curr)

/-- `is_in_free_list`. -/
def isInFreeList (fuel : Nat) (h : HeapState) (target : Nat) : Option Bool :=
  isInFreeListFrom h target fuel h.freeListHead

/-- `coalesce`: the block takes in the one behind it, if that is free. -/
def coalesce (B : HeapBuffer) (fuel : Nat) (h : HeapState) (block : Nat) : Option HeapState :=
  let nextBlock := block + headerSize + h.get .size block
  let heapEnd := B.start + heapSize
  if nextBlock + headerSize ≤ heapEnd then
    if h.get .isFree nextBlock ≠ 0 then
      match isInFreeList fuel h nextBlock with
      | none => none
      | some true =>
          let h := removeFromFreeList h nextBlock
          some (h.set .size block (h.get .size block + (headerSize + h.get .size nextBlock)))
      -- the mark is set, but no free block starts there
      | some false => some h
    else some h
  else some h

/-- The search of `allocate_memory`: the first free block from `current` on that is large enough, or
    null. -/
def findFit (h : HeapState) (alignedSize : Nat) : Nat → Nat → Option Nat
  | 0, _ => none
  | fuel + 1, current =>
      if current = 0 then some 0
      else if h.get .isFree current ≠ 0 ∧ alignedSize ≤ h.get .size current then some current
      else findFit h alignedSize fuel (h.get .next current)

/-- Write the two headers of a block that is split after `alignedSize` bytes. -/
def cutBlock (h : HeapState) (current alignedSize remaining : Nat) : HeapState :=
  let newBlock := current + headerSize + alignedSize
  let h := h.set .size newBlock (remaining - headerSize)
  let h := h.set .isFree newBlock 0
  h.set .size current alignedSize

/-- What `allocate_memory` does to the block it found. A remainder that can hold a header and more than
    one alignment unit becomes a block of its own, linked in before `current` is unlinked. -/
def takeBlock (h : HeapState) (current alignedSize : Nat) : HeapState :=
  let remaining := h.get .size current - alignedSize
  let h :=
    if remaining > headerSize + alignment.toNat then
      addToFreeList (cutBlock h current alignedSize remaining) (current + headerSize + alignedSize)
    else h
  let h := removeFromFreeList h current
  h.set .isFree current 0

/-- The pointer it returns, null when no block fits, and the heap afterwards. -/
def allocateMemory (B : HeapBuffer) (fuel : Nat) (size : UInt64) (h : HeapState) :
    Option (Nat × HeapState) :=
  let h := initHeap B h
  -- a size that rounds up to 0 is served with one byte
  let alignedSize := if alignUp size < 1 then 1 else (alignUp size).toNat
  match findFit h alignedSize fuel h.freeListHead with
  | none => none
  | some current =>
      if current = 0 then some (0, h)
      else some (current + headerSize, takeBlock h current alignedSize)

/-- `free_memory`: nothing for null; otherwise the block goes on the list and is joined with the next one. -/
def freeMemory (B : HeapBuffer) (fuel : Nat) (ptr : Nat) (h : HeapState) : Option HeapState :=
  if ptr = 0 then some h
  else
    let block := ptr - headerSize
    -- a block that is free already is left alone
    if h.get .isFree block ≠ 0 then some h
    else coalesce B fuel (addToFreeList h block) block

end AlopexOS.Heap
