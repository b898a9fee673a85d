import AlopexOS.Lib.Run
import Mathlib.Data.List.Basic

/-!
# `Lib.ObjectStore` — objects at addresses, and what they hold

An allocator hands out objects: each has a start, and a value at every address from there up to its end. An object
is apart from those that are there when it is handed out. After that only a put to an address of it changes it,
until it is released.

## Contents
- **Objects**, and putting a value at an address.
- **Steps** of a store of objects.
- **Runs**: the objects stay apart (`apart_of_run`), and each holds what was put into it (`kept_of_run`).
- **Memories**: objects by their starts, and `slice`, the values of one that is in a memory.
-/

namespace ObjectStore

variable {V : Type}

/-! ## Objects -/

/-- A row of values from an address on. -/
structure Object (V : Type) where
  start : Nat
  values : List V

/-- The first address behind the object. -/
def Object.stop (o : Object V) : Nat := o.start + o.values.length

/-- The address is one of the object. -/
def Object.Has (o : Object V) (a : Nat) : Prop := o.start ≤ a ∧ a < o.stop

/-- No address is one of both, and they start at different ones. -/
def Object.Apart (o o' : Object V) : Prop := o.start ≠ o'.start ∧ (o.stop ≤ o'.start ∨ o'.stop ≤ o.start)

/-- Put a value at an address, if the object has it. -/
def Object.put (a : Nat) (v : V) (o : Object V) : Object V :=
  if o.start ≤ a then { o with values := o.values.set (a - o.start) v } else o

/-! ## Steps -/

/-- What happens to objects. -/
inductive Event (V : Type) where
  | allocated (o : Object V)
  | released (start : Nat)
  | put (a : Nat) (v : V)
  | nothing

/-- An event leads from some objects to the next: a new one is apart from all others. -/
inductive Step (s : List (Object V)) : Event V → List (Object V) → Prop
  | allocated {o : Object V} (h : ∀ o' ∈ s, o.Apart o') : Step s (.allocated o) (o :: s)
  | released {o : Object V} (h : o ∈ s) : Step s (.released o.start) (s.filter fun o' => o'.start ≠ o.start)
  | put {o : Object V} {a : Nat} (v : V) (h : o ∈ s) (ha : o.Has a) : Step s (.put a v) (s.map (Object.put a v))
  | nothing : Step s .nothing s

/-- What an event makes of an object that it does not release. -/
def Event.after (o : Object V) : Event V → Object V
  | .put a v => o.put a v
  | _ => o

variable {o o' : Object V} {s s' : List (Object V)} {a b : Nat} {v : V} {events : List (Event V)}

@[simp] theorem start_put : (o.put a v).start = o.start := by
  unfold Object.put
  split <;> rfl

@[simp] theorem length_put : (o.put a v).values.length = o.values.length := by
  unfold Object.put
  split
  · exact List.length_set
  · rfl

@[simp] theorem stop_put : (o.put a v).stop = o.stop := by
  unfold Object.stop
  rw [start_put, length_put]

theorem Object.Apart.symm (h : o.Apart o') : o'.Apart o := ⟨fun he => h.1 he.symm, h.2.symm⟩

theorem apart_put (h : o.Apart o') : (o.put a v).Apart (o'.put a v) := by
  unfold Object.Apart
  rw [start_put, start_put, stop_put, stop_put]
  exact h

/-! ## Runs -/

/-- **Objects stay apart.** -/
theorem Step.apart {e : Event V} (h : Step s e s') (hs : s.Pairwise Object.Apart) : s'.Pairwise Object.Apart := by
  cases h with
  | allocated h => exact List.pairwise_cons.mpr ⟨h, hs⟩
  | released h => exact hs.filter _
  | put v h ha => exact hs.map _ fun _ _ => apart_put
  | nothing => exact hs

theorem apart_of_run (h : Run Step s events s') (hs : s.Pairwise Object.Apart) : s'.Pairwise Object.Apart :=
  h.invariant (fun _ _ _ hstep => hstep.apart) hs

/-- An event that does not release an object leaves it, with what the event puts into it. -/
theorem Step.kept {e : Event V} (h : Step s e s') (ho : o ∈ s) (he : e ≠ .released o.start) :
    e.after o ∈ s' ∧ (e.after o).start = o.start := by
  cases h with
  | allocated h => exact ⟨List.mem_cons_of_mem _ ho, rfl⟩
  | @released o' h =>
      refine ⟨List.mem_filter.mpr ⟨ho, ?_⟩, rfl⟩
      rw [decide_eq_true_iff]
      intro hstart
      exact he (congrArg Event.released hstart.symm)
  | @put o' a v h ha => exact ⟨List.mem_map_of_mem ho, start_put⟩
  | nothing => exact ⟨ho, rfl⟩

/-- **An object holds what was put into it** since it was seen, and else what it held then. -/
theorem kept_of_run (h : Run Step s events s') (ho : o ∈ s) (he : .released o.start ∉ events) :
    events.foldl Event.after o ∈ s' ∧ (events.foldl Event.after o).start = o.start := by
  induction h with
  | start => exact ⟨ho, rfl⟩
  | step _ hstep ih =>
      rw [List.mem_append, not_or, List.mem_singleton] at he
      obtain ⟨hmem, hstart⟩ := ih he.1
      rw [List.foldl_append]
      obtain ⟨hmem', hstart'⟩ := hstep.kept hmem fun hreleased => he.2 (by rw [hreleased, hstart])
      exact ⟨hmem', hstart'.trans hstart⟩

/-! ## Memories -/

/-- Objects by their starts, when one is taken away. -/
theorem map_erase {f : Nat → Object V} (hf : ∀ p, (f p).start = p) {starts : List Nat} (hnd : starts.Nodup) (p : Nat) :
    (starts.erase p).map f = (starts.map f).filter fun o => o.start ≠ p := by
  rw [hnd.erase_eq_filter, List.filter_map]
  congr 1
  apply List.filter_congr
  intro q _
  show (q != p) = decide ((f q).start ≠ p)
  rw [hf q, Bool.eq_iff_iff, bne_iff_ne, decide_eq_true_iff]

/-- The `n` values of a memory from an address on. -/
def slice (m : Nat → V) (a n : Nat) : List V := (List.range n).map fun i => m (a + i)

@[simp] theorem length_slice (m : Nat → V) (a n : Nat) : (slice m a n).length = n := by
  rw [slice, List.length_map, List.length_range]

theorem getElem_slice {m : Nat → V} {n i : Nat} (h : i < (slice m a n).length) : (slice m a n)[i] = m (a + i) := by
  simp only [slice, List.getElem_map, List.getElem_range]

theorem slice_congr {m m' : Nat → V} {n : Nat} (h : ∀ i, a ≤ i → i < a + n → m' i = m i) :
    slice m' a n = slice m a n := by
  apply List.map_congr_left
  intro i hi
  rw [List.mem_range] at hi
  apply h <;> omega

/-- A memory in which one value is replaced. -/
theorem slice_put {m m' : Nat → V} {n : Nat} (hv : m' b = v) (hm : ∀ i, i ≠ b → m' i = m i) :
    (⟨a, slice m' a n⟩ : Object V) = Object.put b v ⟨a, slice m a n⟩ := by
  unfold Object.put
  by_cases hle : a ≤ b
  · rw [if_pos hle]
    congr 1
    apply List.ext_getElem
    · simp
    · intro i hi hi'
      rw [List.getElem_set, getElem_slice, getElem_slice]
      by_cases hib : b - a = i
      · rw [if_pos hib, ← hv]
        congr 1
        omega
      · rw [if_neg hib]
        apply hm
        omega
  · rw [if_neg hle]
    congr 1
    apply slice_congr
    intro i hi _
    apply hm
    omega

end ObjectStore
