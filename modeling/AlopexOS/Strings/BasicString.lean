import AlopexOS.Lib.ByteLoops

/-!
# `Strings.BasicString` — `basic_string` in memory (`src/include/string.hpp`)

A string of at most `SSO_Capacity` bytes is in the object itself, a longer one in a block of `new char[]`.
The object has one place for both: the bytes in place share it with the pointer to the block, its size and
its capacity. Memory is flat, so what is written over what shows.

The address that `new char[]` returns is an argument of whatever may call it. `delete[]` looks for a block
that starts at the pointer and was not released; a pointer to anything else is noted.

## Contents
- **Memory** and blocks.
- **The object**: its representation, and reading it.
- **Members**: `clear`, `append`, moves and copies.
- **Programs** with several strings.
-/

namespace AlopexOS.Strings

open Packed

/-! ## Memory -/

/-- What `new char[]` returned, and how often it was released since. -/
structure Block where
  start : Nat
  size : Nat
  released : Nat
  deriving DecidableEq

/-- The bytes of memory, and what `new char[]` and `delete[]` know of it. -/
structure Memory where
  bytes : Mem
  /-- In the order of the calls. -/
  blocks : List Block
  /-- Pointers given to `delete[]` that were to no block. -/
  strays : List Nat

namespace Memory

/-- Write a byte. -/
def put (m : Memory) (a : Nat) (v : UInt8) : Memory := { m with bytes := Function.update m.bytes a v }

/-- `new char[size]`, for which `p` is returned. -/
def allocate (m : Memory) (p size : Nat) : Memory := { m with blocks := m.blocks ++ [⟨p, size, 0⟩] }

/-- `delete[] p`. -/
def delete (m : Memory) (p : Nat) : Memory :=
  match m.blocks.findIdx? fun b => b.start = p ∧ b.released = 0 with
  | some k => { m with blocks := m.blocks.modify k fun b => { b with released := b.released + 1 } }
  | none => { m with strays := m.strays ++ [p] }

end Memory

/-! ## The object -/

/-- `basic_string`; `_storage` is in memory. -/
structure BasicString where
  storage : Nat
  isSso : Bool
  length : UInt64

/-- The bytes of `_storage`, a union of the bytes in place and `heap_repr`. -/
def storageSize (SSO_Capacity : UInt64) : Nat := max (SSO_Capacity.toNat + 1) 24

namespace BasicString

variable (SSO_Capacity : UInt64) (s : BasicString) (m : Memory)

/-- `_storage.heap.ptr`. -/
def heapPtr : Nat := load m.bytes s.storage 8

/-- `_storage.heap.capacity`. -/
def heapCapacity : UInt64 := UInt64.ofNat (load m.bytes (s.storage + 16) 8)

/-- `_storage.heap`, set field by field. -/
def setHeap (ptr : Nat) (size capacity : UInt64) : Memory :=
  let bytes := store m.bytes s.storage 8 ptr
  let bytes := store bytes (s.storage + 8) 8 size.toNat
  { m with bytes := store bytes (s.storage + 16) 8 capacity.toNat }

/-- `c_str`: the address of the first byte. -/
def cStr : Nat := if s.isSso then s.storage else s.heapPtr m

/-- `capacity`: how long the string can get where it is. -/
def capacity : UInt64 := if s.isSso then SSO_Capacity else s.heapCapacity m

/-! ## Members -/

/-- The empty string in place. -/
def reset : BasicString × Memory := (⟨s.storage, true, 0⟩, m.put s.storage 0)

/-- `clear`: the block is released, and the string is empty and in place. -/
def clear : BasicString × Memory :=
  s.reset (if s.isSso = false ∧ s.heapPtr m ≠ 0 then m.delete (s.heapPtr m) else m)

/-- `append(str, len)`; `p` is what `new char[]` returns, if it is called. -/
def append (p str : Nat) (len : UInt64) : BasicString × Memory :=
  if len = 0 then (s, m)
  else
    let newLen := s.length + len
    if s.isSso then
      if newLen ≤ SSO_Capacity then
        let a := s.storage + s.length.toNat
        let bytes :=
          if s.storage ≤ str ∧ str < s.storage + SSO_Capacity.toNat + 1 ∧ len < 256 then
            -- `local_buf`
            blit m.bytes a (read m.bytes str len.toNat)
          else copy m.bytes a str len.toNat
        ({ s with length := newLen }, { m with bytes }.put (s.storage + newLen.toNat) 0)
      else
        let newCap := if newLen * 2 < 32 then 32 else newLen * 2
        let m := m.allocate p (newCap + 1).toNat
        let bytes := copy m.bytes p s.storage s.length.toNat
        let bytes := copy bytes (p + s.length.toNat) str len.toNat
        let m := { m with bytes }.put (p + newLen.toNat) 0
        ({ s with length := newLen, isSso := false }, s.setHeap m p newLen newCap)
    else if newLen ≤ s.heapCapacity m then
      let ptr := s.heapPtr m
      let m := { m with bytes := copy m.bytes (ptr + s.length.toNat) str len.toNat }.put (ptr + newLen.toNat) 0
      ({ s with length := newLen }, { m with bytes := store m.bytes (s.storage + 8) 8 newLen.toNat })
    else
      let newCap := newLen * 2
      let m := m.allocate p (newCap + 1).toNat
      let bytes := copy m.bytes p (s.heapPtr m) s.length.toNat
      let bytes := copy bytes (p + s.length.toNat) str len.toNat
      let m := { m with bytes }
      let m := (m.delete (s.heapPtr m)).put (p + newLen.toNat) 0
      ({ s with length := newLen }, s.setHeap m p newLen newCap)

/-- What a move does: the string at `s` takes over `other`, which is left empty. -/
def takeOver (other : BasicString) : BasicString × BasicString × Memory :=
  let s := ⟨s.storage, other.isSso, other.length⟩
  let m :=
    if s.isSso then { m with bytes := copy m.bytes s.storage other.storage (s.length.toNat + 1) }
    else { m with bytes := copy m.bytes s.storage other.storage 24 }
  (s, other.reset m)

end BasicString

/-! ## Programs -/

/-- The strings of a program, by variable. -/
abbrev Vars := Nat → Option BasicString

/-- A constructor has the address of the new object, a call that may allocate the address it gets. -/
inductive Op where
  | default (x addr : Nat)
  | construct (x addr str : Nat) (len : UInt64) (p : Nat)
  | append (x str : Nat) (len : UInt64) (p : Nat)
  | clear (x : Nat)
  | copy (x addr y p : Nat)
  | move (x addr y : Nat)
  | assignCopy (x y p : Nat)
  | assignMove (x y : Nat)
  | destruct (x : Nat)
  /-- Another part of the program writes to memory of its own. -/
  | write (a : Nat) (v : UInt8)

/-- The strings of a program, and the memory that they share. -/
structure Machine where
  vars : Vars
  memory : Memory

namespace Machine

variable (SSO_Capacity : UInt64) (w : Machine)

/-- No strings yet. -/
def boot (bytes : Mem) : Machine := ⟨fun _ => none, ⟨bytes, [], []⟩⟩

/-- Change a string that is declared. -/
def change (x : Nat) (f : BasicString → BasicString × Memory) : Option Machine := do
  let s ← w.vars x
  let (s, m) := f s
  pure ⟨Function.update w.vars x (some s), m⟩

/-- `basic_string()`. -/
def default (x addr : Nat) : Option Machine :=
  match w.vars x with
  | some _ => none
  | none =>
      let (s, m) := BasicString.reset ⟨addr, true, 0⟩ w.memory
      some ⟨Function.update w.vars x (some s), m⟩

/-- `x.append(str, len)`. -/
def append (x str : Nat) (len : UInt64) (p : Nat) : Option Machine :=
  w.change x fun s => s.append SSO_Capacity w.memory p str len

/-- `x.clear()`. -/
def clear (x : Nat) : Option Machine := w.change x fun s => s.clear w.memory

/-- The object at `s`, which is `x` from then on, takes over `y`. -/
def takeOver (x : Nat) (s : BasicString) (y : Nat) : Option Machine := do
  let other ← w.vars y
  let (s, other, m) := s.takeOver w.memory other
  pure ⟨Function.update (Function.update w.vars x (some s)) y (some other), m⟩

/-- One operation, where the variables are declared. -/
def step (w : Machine) : Op → Option Machine
  | .default x addr => w.default x addr
  | .construct x addr str len p => do
      let w ← w.default x addr
      w.append SSO_Capacity x str len p
  | .append x str len p => w.append SSO_Capacity x str len p
  | .clear x => w.clear x
  | .copy x addr y p => do
      let w ← w.default x addr
      let other ← w.vars y
      w.append SSO_Capacity x (other.cStr w.memory) other.length p
  | .move x addr y =>
      match w.vars x with
      | some _ => none
      | none => w.takeOver x ⟨addr, true, 0⟩ y
  | .assignCopy x y p =>
      if x = y then w.change x fun s => (s, w.memory)
      else do
        let w ← w.clear x
        let other ← w.vars y
        w.append SSO_Capacity x (other.cStr w.memory) other.length p
  | .assignMove x y =>
      if x = y then w.change x fun s => (s, w.memory)
      else do
        let w ← w.clear x
        let s ← w.vars x
        w.takeOver x s y
  | .destruct x => do
      let w ← w.clear x
      pure { w with vars := Function.update w.vars x none }
  | .write a v => pure { w with memory := w.memory.put a v }

end Machine

end AlopexOS.Strings
