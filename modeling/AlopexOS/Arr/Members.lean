import AlopexOS.Arr.Dynarr
import Mathlib.Logic.Function.Basic

/-!
# `Arr.Members` — programs with several arrays (`src/include/arr.hpp`)

The members that `Dynarr` leaves out, and the machine that runs them: variables that hold arrays, and one
memory for all. A member gets its argument by reference, so a value is read when the element is made from
it and not before. A program that uses a variable it has not declared, or declares one twice, stops.

What such a program means to its author is in lists: `onLists` is the same program over lists.

## Contents
- **Members**: `push_back`, `pop_back`, `reserve`, the constructors and the assignments.
- **Programs**: operations, and what they do to the variables.
- **The same over lists.**
-/

namespace AlopexOS.Arr

open Prog

variable {T σ α : Type}

/-! ## Members -/

/-- `q[i] = p[i]`, onto an object that is there. -/
def Memory.copyTo (E : ElementType T) (m : Memory T) (p q : Ptr) (i : Nat) : Memory T :=
  let (x, m) := m.load E p i
  let m := if (m.slots q)[i]?.any Slot.live then m else m.note (.missing q i)
  m.assign q i x

namespace Dynarr

variable (E : ElementType T) (new : Nat → Prog σ Unit) (d other : Dynarr)

/-- `dynarr()`. -/
def empty : Dynarr := ⟨.null, 0, 0⟩

/-- `reserve`, which never gives memory back. -/
def reserve (newCap : UInt64) : Prog (σ × Memory T) Dynarr :=
  if d.capacity < newCap then d.grow E new newCap else pure d

/-- The capacity that a full array grows to, before it is cut to 64 bits. -/
def doubled : Nat := if d.capacity = 0 then 1 else d.capacity.toNat * 2

/-- `push_back`; `value` reads the argument, in the memory that is there by then. -/
def pushBack (value : Memory T → T × Memory T) : Prog (σ × Memory T) Dynarr := do
  let d ← if d.capacity ≤ d.size then d.grow E new (UInt64.ofNat d.doubled) else pure d
  touch fun m =>
    let (x, m) := value m
    ({ d with size := d.size + 1 }, m.construct d.data d.size.toNat x)

/-- `pop_back`: the last element is destroyed, if there is one. -/
def popBack : Prog (σ × Memory T) Dynarr :=
  if 0 < d.size then
    let d := { d with size := d.size - 1 }
    touch fun m => (d, m.destroy d.data d.size.toNat)
  else pure d

/-- The loop of the copies: the elements of `other` one by one. -/
def copyFrom : Prog (σ × Memory T) Dynarr :=
  touch fun m => (d, m.each (fun m i => m.copyTo E other.data d.data i) 0 d.size.toNat)

/-- `dynarr(other)`. -/
def copy : Prog (σ × Memory T) Dynarr := do
  let d ← empty.resize E new other.size
  d.copyFrom E other

/-- `*this = other`, for another array. -/
def assignCopy : Prog (σ × Memory T) Dynarr := do
  let d ← d.clear
  let d ← d.resize E new other.size
  d.copyFrom E other

/-- `*this = move(other)` for another array, which is left empty. -/
def assignMove : Prog (σ × Memory T) (Dynarr × Dynarr) := do
  let d ← d.clear
  -- the pointer alone is tested, and not the capacity
  touch fun m => ((other, empty), m.delete d.data)

end Dynarr

/-! ## Programs -/

/-- The arrays of a program, by variable. -/
abbrev Vars := Nat → Option Dynarr

/-- The argument of a `push_back`. -/
inductive Value (T : Type) where
  /-- A value that is in no array. -/
  | given (x : T)
  /-- `b[j]`. -/
  | copied (b j : Nat)
  /-- `move(b[j])`. -/
  | moved (b j : Nat)

/-- What a program does with its arrays; `a` and `b` are variables. -/
inductive Op (T : Type) where
  | default (a : Nat)
  | sized (a : Nat) (n : UInt64)
  | view (a : Nat) (n : UInt64)
  | pushBack (a : Nat) (value : Value T)
  | popBack (a : Nat)
  | resize (a : Nat) (n : UInt64)
  | reserve (a : Nat) (n : UInt64)
  | clear (a : Nat)
  | copy (a b : Nat)
  | move (a b : Nat)
  | assignCopy (a b : Nat)
  | assignMove (a b : Nat)
  | destruct (a : Nat)

namespace Vars

variable (vars : Vars)

/-- The array of a variable. -/
def get (a : Nat) : Prog (σ × Memory T) Dynarr :=
  match vars a with
  | some d => pure d
  | none => fail .wild

/-- The variable holds the array. -/
def set (a : Nat) (d : Dynarr) : Vars := Function.update vars a (some d)

/-- A variable that is declared now. -/
def declare (a : Nat) (x : Prog (σ × Memory T) Dynarr) : Prog (σ × Memory T) Vars :=
  match vars a with
  | some _ => fail .wild
  | none => do
      let d ← x
      pure (vars.set a d)

/-- A member function of an array. -/
def change (a : Nat) (f : Dynarr → Prog (σ × Memory T) Dynarr) : Prog (σ × Memory T) Vars := do
  let d ← f (← vars.get a)
  pure (vars.set a d)

end Vars

/-- A reference as argument: where its element is was settled before the call. -/
def Value.bind (E : ElementType T) (vars : Vars) :
    Value T → Prog (σ × Memory T) (Memory T → T × Memory T)
  | .given x => pure fun m => (x, m)
  | .copied b j => do
      let e ← vars.get b
      pure fun m => m.load E e.data j
  | .moved b j => do
      let e ← vars.get b
      pure fun m =>
        let (x, m) := m.load E e.data j
        (x, m.put e.data j ⟨some (E.moved x), true⟩)

/-- What an operation does. -/
def Op.exec (E : ElementType T) (new : Nat → Prog σ Unit) (vars : Vars) : Op T → Prog (σ × Memory T) Vars
  | .default a => vars.declare a (pure .empty)
  | .sized a n => vars.declare a (Dynarr.empty.resize E new n)
  | .view a n => vars.declare a (pure (.view n))
  | .pushBack a value => do
      let value ← value.bind E vars
      vars.change a fun d => d.pushBack E new value
  | .popBack a => vars.change a fun d => d.popBack
  | .resize a n => vars.change a fun d => d.resize E new n
  | .reserve a n => vars.change a fun d => d.reserve E new n
  | .clear a => vars.change a fun d => d.clear
  | .copy a b => do
      let other ← vars.get b
      vars.declare a (other.copy E new)
  | .move a b => do
      let other ← vars.get b
      let vars ← vars.declare a (pure other)
      pure (vars.set b .empty)
  | .assignCopy a b => do
      let other ← vars.get b
      vars.change a fun d => if a = b then pure d else d.assignCopy E new other
  | .assignMove a b => do
      let other ← vars.get b
      let d ← vars.get a
      if a = b then pure vars else do
        let (d, other) ← d.assignMove other
        pure ((vars.set a d).set b other)
  | .destruct a => do
      let d ← vars.get a
      d.destruct
      pure (Function.update vars a none)

/-- The array that an operation calls `grow` on, and the capacity before it is cut to 64 bits. -/
def Op.grows (vars : Vars) : Op T → Option (Dynarr × Nat)
  | .sized _ n => if 0 < n then some (.empty, n.toNat) else none
  | .pushBack a _ => (vars a).bind fun d => if d.capacity ≤ d.size then some (d, d.doubled) else none
  | .resize a n | .reserve a n => (vars a).bind fun d => if d.capacity < n then some (d, n.toNat) else none
  | .copy _ b => (vars b).bind fun e => if 0 < e.size then some (.empty, e.size.toNat) else none
  | .assignCopy a b => (vars a).bind fun d => (vars b).bind fun e =>
      if a ≠ b ∧ d.capacity < e.size then some ({ d with size := 0 }, e.size.toNat) else none
  | _ => none

/-- The array that a move is assigned over. -/
def Op.overwrites (vars : Vars) : Op T → Option Dynarr
  | .assignMove a b => if a ≠ b then vars a else none
  | _ => none

/-- A program with arrays. -/
@[ext] structure Machine (T σ : Type) where
  vars : Vars
  state : σ × Memory T

namespace Machine

/-- No array is declared, and no block was handed out. -/
def boot (s : σ) (external : List (Slot T)) : Machine T σ := ⟨fun _ => none, (s, ⟨[], external, []⟩)⟩

/-- One operation that comes back. -/
def step (E : ElementType T) (new : Nat → Prog σ Unit) (w : Machine T σ) (op : Op T) : Option (Machine T σ) :=
  match (op.exec E new w.vars).run w.state with
  | (.ok vars, t) => some ⟨vars, t⟩
  | (.error _, _) => none

variable {E : ElementType T} {new : Nat → Prog σ Unit} {w w' : Machine T σ} {op : Op T}

theorem step_eq_some :
    w.step E new op = some w' ↔ (op.exec E new w.vars).run w.state = (.ok w'.vars, w'.state) := by
  unfold step
  split
  · next vars t hrun => simp [hrun, Machine.ext_iff]
  · next e t hrun => simp [hrun]

end Machine

/-! ## The same over lists -/

/-- The lists of a program, by variable. -/
abbrev Lists (T : Type) := Nat → Option (List T)

namespace Lists

variable (lists : Lists T)

/-- The variable holds the list. -/
def set (a : Nat) (xs : List T) : Lists T := Function.update lists a (some xs)

/-- A variable that is declared now. -/
def declare (a : Nat) (xs : List T) : Option (Lists T) :=
  match lists a with
  | some _ => none
  | none => some (lists.set a xs)

/-- The list of a variable that is declared becomes another one. -/
def change (a : Nat) (f : List T → List T) : Option (Lists T) := do
  let xs ← lists a
  pure (lists.set a (f xs))

end Lists

/-- The value appended to `a`, which is not inside of it, and the lists when it was read. -/
def Value.onLists (E : ElementType T) (a : Nat) (lists : Lists T) : Value T → Option (T × Lists T)
  | .given x => some (x, lists)
  | .copied b j => do
      let x ← (← lists b)[j]?
      if b = a then none else pure (x, lists)
  | .moved b j => do
      let ys ← lists b
      let x ← ys[j]?
      if b = a then none else pure (x, lists.set b (ys.set j (E.moved x)))

/-- The list of length `n`: cut, or filled up with what `T()` gives. -/
def resized (E : ElementType T) (n : Nat) (xs : List T) : List T :=
  xs.take n ++ List.replicate (n - xs.length) E.init

/-- What an operation on owned arrays means. -/
def Op.onLists (E : ElementType T) (lists : Lists T) : Op T → Option (Lists T)
  | .default a => lists.declare a []
  | .sized a n => lists.declare a (List.replicate n.toNat E.init)
  | .view _ _ => none
  | .pushBack a value => do
      let (x, lists) ← value.onLists E a lists
      lists.change a fun xs => xs ++ [x]
  | .popBack a => lists.change a List.dropLast
  | .resize a n => lists.change a (resized E n.toNat)
  | .reserve a _ => lists.change a id
  | .clear a => lists.change a fun _ => []
  | .copy a b => do
      let ys ← lists b
      lists.declare a ys
  | .move a b => do
      let ys ← lists b
      let lists ← lists.declare a ys
      pure (lists.set b [])
  | .assignCopy a b => do
      let ys ← lists b
      lists.change a fun _ => ys
  | .assignMove a b => do
      let ys ← lists b
      let lists' ← lists.change a fun _ => ys
      pure (if a = b then lists else lists'.set b [])
  | .destruct a => do
      let _ ← lists a
      pure (Function.update lists a none)

end AlopexOS.Arr
