import AlopexOS.Lib.Zoom

/-!
# `Arr.Dynarr` — `dynarr` and its storage (`src/include/arr.hpp`)

A `dynarr` is a pointer, a size and a capacity. The storage is in memory: blocks of `operator new`, or an
array that the caller gave, which is how a view starts, with capacity 0. Nothing stops the class from doing
to memory what it should not. Such an access is noted and changes nothing else.

`operator new` is a parameter over the states of the machine. What is wrong with a `delete` of other
storage is in the notes as well; what the kernel heap makes of it is not followed.

## Contents
- **Memory**: slots, blocks and notes.
- **`dynarr`**: `grow`, `resize`, `clear`, the destructor.
- **Notes stay**, whatever an array does.
-/

namespace AlopexOS.Arr

open Prog

/-! ## Memory -/

/-- What a `T*` points at. -/
inductive Ptr where
  | null
  /-- The start of a block of `operator new`. -/
  | heap (block : Nat)
  /-- The start of the array the caller gave. -/
  | external
  deriving DecidableEq

/-- Storage for one element: what is there, and whether it is a live object. -/
structure Slot (T : Type) where
  value : Option T
  live : Bool

/-- What a program can do wrong with storage, and what it gives back. -/
inductive Note where
  /-- `operator delete(p)`. -/
  | deleted (p : Ptr)
  /-- A write to an element behind the end of the storage. -/
  | outside (p : Ptr) (i : Nat)
  /-- An object constructed over a live one. -/
  | overwritten (p : Ptr) (i : Nat)
  /-- An object read or destroyed that is not there. -/
  | missing (p : Ptr) (i : Nat)
  deriving DecidableEq

/-- The storage of all arrays, and what was noted about it. -/
structure Memory (T : Type) where
  /-- The blocks of `operator new`, in the order of the calls. -/
  blocks : List (List (Slot T))
  /-- The array the caller gave. -/
  external : List (Slot T)
  /-- What happened so far, in order. -/
  notes : List Note

/-- What an array needs to know of its element type. -/
structure ElementType (T : Type) where
  sizeof : UInt64
  /-- `T()`. -/
  init : T
  /-- What a move leaves of its source. -/
  moved : T → T

/-- `byte`. -/
def byteType : ElementType UInt8 := ⟨1, 0, id⟩

variable {T σ α : Type}

namespace Memory

/-- Note something. -/
def note (m : Memory T) (n : Note) : Memory T := { m with notes := m.notes ++ [n] }

/-- The slots behind a pointer. -/
def slots (m : Memory T) : Ptr → List (Slot T)
  | .null => []
  | .heap k => m.blocks.getD k []
  | .external => m.external

/-- Other slots behind a pointer. -/
def setSlots (m : Memory T) (p : Ptr) (xs : List (Slot T)) : Memory T :=
  match p with
  | .null => m
  | .heap k => { m with blocks := m.blocks.set k xs }
  | .external => { m with external := xs }

/-- A store to element `i` behind a pointer. -/
def put (m : Memory T) (p : Ptr) (i : Nat) (x : Slot T) : Memory T :=
  if i < (m.slots p).length then m.setSlots p ((m.slots p).set i x) else m.note (.outside p i)

/-- A block of so many elements, all of them raw. -/
def allocate (m : Memory T) (count : Nat) : Ptr × Memory T :=
  (.heap m.blocks.length, { m with blocks := m.blocks ++ [List.replicate count ⟨none, false⟩] })

/-- `operator delete(p)`, which does nothing for the null pointer. -/
def delete (m : Memory T) (p : Ptr) : Memory T := if p = .null then m else m.note (.deleted p)

/-- `new (&p[i]) T(x)`. -/
def construct (m : Memory T) (p : Ptr) (i : Nat) (x : T) : Memory T :=
  let m := if (m.slots p)[i]?.any Slot.live then m.note (.overwritten p i) else m
  m.put p i ⟨some x, true⟩

/-- `p[i] = x`. -/
def assign (m : Memory T) (p : Ptr) (i : Nat) (x : T) : Memory T := m.put p i ⟨some x, true⟩

/-- `p[i].~T()`. The bytes stay. -/
def destroy (m : Memory T) (p : Ptr) (i : Nat) : Memory T :=
  match (m.slots p)[i]? with
  | some ⟨value, true⟩ => m.put p i ⟨value, false⟩
  | _ => m.note (.missing p i)

/-- The object `p[i]`, or a new one where there is none. -/
def load (E : ElementType T) (m : Memory T) (p : Ptr) (i : Nat) : T × Memory T :=
  match (m.slots p)[i]? with
  | some ⟨some x, true⟩ => (x, m)
  | _ => (E.init, m.note (.missing p i))

/-- `new (&q[i]) T(move(p[i]))`. -/
def moveTo (E : ElementType T) (m : Memory T) (p q : Ptr) (i : Nat) : Memory T :=
  let (x, m) := m.load E p i
  (m.put p i ⟨some (E.moved x), true⟩).construct q i x

/-- One access after the other, to the elements from `i` up to `j`. -/
def each (f : Memory T → Nat → Memory T) (i j : Nat) (m : Memory T) : Memory T :=
  (List.range' i (j - i)).foldl f m

end Memory

/-! ## `dynarr` -/

/-- `dynarr<T>`. -/
structure Dynarr where
  data : Ptr
  size : UInt64
  capacity : UInt64

/-- A step that only works on memory. -/
def touch (f : Memory T → α × Memory T) : Prog (σ × Memory T) α :=
  ⟨fun s => (.ok (f s.2).1, (s.1, (f s.2).2))⟩

/-- `dynarr(external_data, n)`. -/
def Dynarr.view (n : UInt64) : Dynarr := ⟨.external, n, 0⟩

/-- `grow`; the size in bytes is a 64-bit product. -/
def Dynarr.grow (E : ElementType T) (new : Nat → Prog σ Unit) (d : Dynarr) (newCap : UInt64) :
    Prog (σ × Memory T) Dynarr := do
  zoom .fst (new (E.sizeof * newCap).toNat)
  touch fun m =>
    let (newData, m) := m.allocate ((E.sizeof * newCap).toNat / E.sizeof.toNat)
    let m := m.each (fun m i => m.moveTo E d.data newData i) 0 d.size.toNat
    let m := m.each (fun m i => m.destroy d.data i) 0 d.size.toNat
    -- the old storage is deleted, also when it is not the array's own
    (⟨newData, d.size, newCap⟩, m.delete d.data)

/-- `resize`. -/
def Dynarr.resize (E : ElementType T) (new : Nat → Prog σ Unit) (d : Dynarr) (n : UInt64) :
    Prog (σ × Memory T) Dynarr := do
  let d ← if d.capacity < n then d.grow E new n else pure d
  touch fun m =>
    let m := m.each (fun m i => m.construct d.data i E.init) d.size.toNat n.toNat
    let m := m.each (fun m i => m.destroy d.data i) n.toNat d.size.toNat
    ({ d with size := n }, m)

/-- `clear`: the elements are destroyed, the storage stays. -/
def Dynarr.clear (d : Dynarr) : Prog (σ × Memory T) Dynarr :=
  touch fun m => ({ d with size := 0 }, m.each (fun m i => m.destroy d.data i) 0 d.size.toNat)

/-- `~dynarr()`. -/
def Dynarr.destruct (d : Dynarr) : Prog (σ × Memory T) Unit := do
  let d ← d.clear
  -- an array over external data has capacity 0
  touch fun m => ((), if 0 < d.capacity then m.delete d.data else m)

/-- The elements assigned one by one, from the first on. -/
def Dynarr.assign (d : Dynarr) (xs : List T) : Prog (σ × Memory T) Dynarr :=
  touch fun m => (d, xs.zipIdx.foldl (fun m x => m.assign d.data x.2 x.1) m)

/-- The elements, one after the other. -/
def Dynarr.elems (E : ElementType T) (d : Dynarr) : Prog (σ × Memory T) (List T) :=
  touch fun m => (List.range d.size.toNat).foldl (fun r i =>
    let x := r.2.load E d.data i
    (r.1 ++ [x.1], x.2)) ([], m)

/-! ## Notes stay -/

namespace Memory

variable {E : ElementType T} {m m' : Memory T} {p q : Ptr} {i : Nat}

/-- The notes of `m` are the first ones of `m'`. -/
def Grows (m m' : Memory T) : Prop := m.notes <+: m'.notes

theorem Grows.refl (m : Memory T) : Grows m m := List.prefix_rfl

theorem Grows.trans {m₁ m₂ m₃ : Memory T} (h : Grows m₁ m₂) (h' : Grows m₂ m₃) : Grows m₁ m₃ :=
  List.IsPrefix.trans h h'

theorem grows_note (m : Memory T) (n : Note) : m.Grows (m.note n) := List.prefix_append _ _

@[simp] theorem notes_setSlots (xs : List (Slot T)) : (m.setSlots p xs).notes = m.notes := by
  cases p <;> rfl

theorem grows_put (x : Slot T) : m.Grows (m.put p i x) := by
  unfold put
  split
  · have hnotes : (m.setSlots p ((m.slots p).set i x)).notes = m.notes := notes_setSlots _
    exact ⟨[], by rw [List.append_nil, hnotes]⟩
  · exact grows_note _ _

theorem grows_delete : m.Grows (m.delete p) := by
  unfold delete
  split
  · exact Grows.refl m
  · exact grows_note _ _

theorem grows_construct (x : T) : m.Grows (m.construct p i x) := by
  unfold construct
  refine Grows.trans ?_ (grows_put _)
  split
  · exact grows_note _ _
  · exact Grows.refl m

theorem grows_destroy : m.Grows (m.destroy p i) := by
  unfold destroy
  split
  · exact grows_put _
  · exact grows_note _ _

theorem grows_load : m.Grows (m.load E p i).2 := by
  unfold load
  split
  · exact Grows.refl m
  · exact grows_note _ _

theorem grows_foldl {β : Type} {f : Memory T → β → Memory T} (hf : ∀ (m : Memory T) b, m.Grows (f m b))
    (bs : List β) (m : Memory T) : m.Grows (bs.foldl f m) := by
  induction bs generalizing m with
  | nil => exact Grows.refl m
  | cons b bs ih => exact (hf m b).trans (ih (f m b))

theorem grows_each {f : Memory T → Nat → Memory T} (hf : ∀ (m : Memory T) i, m.Grows (f m i)) (i j : Nat) :
    m.Grows (m.each f i j) := grows_foldl hf _ m

end Memory

/-- The memory of `t'` has the notes of `t`. -/
def Kept (t t' : σ × Memory T) : Prop := t.2.Grows t'.2

theorem Kept.refl (t : σ × Memory T) : Kept t t := Memory.Grows.refl _

theorem Kept.trans {t₁ t₂ t₃ : σ × Memory T} (h : Kept t₁ t₂) (h' : Kept t₂ t₃) : Kept t₁ t₃ :=
  Memory.Grows.trans h h'

/-- What works on the machine alone leaves memory as it is. -/
theorem moves_zoom_fst (x : Prog σ α) : Moves (Kept (T := T)) (zoom .fst x) := fun t => Memory.Grows.refl t.2

theorem moves_touch {f : Memory T → α × Memory T} (h : ∀ m : Memory T, m.Grows (f m).2) :
    Moves (Kept (σ := σ)) (touch f) := fun t => h t.2

namespace Dynarr

variable {E : ElementType T} {new : Nat → Prog σ Unit} {d d' : Dynarr} {n : UInt64} {t t' : σ × Memory T}

theorem moves_clear : Moves (Kept (σ := σ) (T := T)) d.clear :=
  moves_touch fun _ => Memory.grows_each (fun _ _ => Memory.grows_destroy) _ _

theorem moves_destruct : Moves (Kept (σ := σ) (T := T)) d.destruct := by
  refine Moves.bind Kept.trans moves_clear fun d => moves_touch fun m => ?_
  split
  · exact Memory.grows_delete
  · exact Memory.Grows.refl m

theorem moves_assign (xs : List T) : Moves (Kept (σ := σ)) (d.assign xs) :=
  moves_touch fun _ => Memory.grows_foldl (fun _ _ => Memory.grows_put _) _ _

theorem moves_elems : Moves (Kept (σ := σ)) (d.elems E) := by
  have hfold : ∀ (is : List Nat) (r : List T × Memory T), r.2.Grows (is.foldl (fun r i =>
      (r.1 ++ [(r.2.load E d.data i).1], (r.2.load E d.data i).2)) r).2 := by
    intro is
    induction is with
    | nil => exact fun r => Memory.Grows.refl r.2
    | cons i is ih =>
        intro r
        rw [List.foldl_cons]
        have hload : r.2.Grows (r.2.load E d.data i).2 := Memory.grows_load
        exact hload.trans (ih (r.1 ++ [(r.2.load E d.data i).1], (r.2.load E d.data i).2))
  exact moves_touch fun m => hfold _ ([], m)

/-- **Growing deletes the storage**, whoever it belongs to. -/
theorem deleted_of_grow (hd : d.data ≠ .null) (h : (d.grow E new n).run t = (.ok d', t')) :
    .deleted d.data ∈ t'.2.notes := by
  obtain ⟨_, t₁, _, hrest⟩ := bind_eq_ok h
  obtain ⟨_, rfl⟩ := Prod.mk.inj hrest
  simp only [Memory.delete, hd, if_false, Memory.note, List.mem_append, List.mem_singleton, or_true]

theorem deleted_of_resize (hd : d.data ≠ .null) (hn : d.capacity < n)
    (h : (d.resize E new n).run t = (.ok d', t')) : .deleted d.data ∈ t'.2.notes := by
  unfold resize at h
  rw [if_pos hn] at h
  obtain ⟨d₁, t₁, hgrow, hrest⟩ := bind_eq_ok h
  obtain ⟨_, rfl⟩ := Prod.mk.inj hrest
  have hkept : t₁.2.Grows (Memory.each (fun m i => m.destroy d₁.data i) n.toNat d₁.size.toNat
      (Memory.each (fun m i => m.construct d₁.data i E.init) d₁.size.toNat n.toNat t₁.2)) :=
    Memory.Grows.trans (Memory.grows_each (fun _ _ => Memory.grows_construct _) _ _)
      (Memory.grows_each (fun _ _ => Memory.grows_destroy) _ _)
  exact hkept.subset (deleted_of_grow hd hgrow)

end Dynarr

end AlopexOS.Arr
