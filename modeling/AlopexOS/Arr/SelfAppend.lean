import AlopexOS.Arr.Refinement

/-!
# `Arr.SelfAppend` — an array that is given its own element (`src/include/arr.hpp`)

`a.push_back(a[i])` gets a reference into the storage of `a`. A full array grows first: by the time the
element is copied the objects have moved, and the storage that the reference is into was deleted.

## Contents
- **Destroyed slots** stay without an object.
- **`a.push_back(a[i])`** with room to spare, and without.
-/

namespace AlopexOS.Arr

open Prog

variable {T σ : Type} {E : ElementType T} {new : Nat → Prog σ Unit}

/-- `a.push_back(a[i])`. -/
def Dynarr.pushBackOwn (E : ElementType T) (new : Nat → Prog σ Unit) (d : Dynarr) (i : Nat) :
    Prog (σ × Memory T) Dynarr := d.pushBack E new fun m => m.load E d.data i

/-- The call comes back with the contents and the element that was at `i`, and reads no storage that was
    deleted. -/
def AppendsOld (E : ElementType T) (new : Nat → Prog σ Unit) (d : Dynarr) (i : Nat) (xs : List T)
    (t : σ × Memory T) : Prop :=
  ∃ d' t', (d.pushBackOwn E new i).run t = (.ok d', t')
    ∧ (∃ x, xs[i]? = some x ∧ (d'.elems E).run t' = (.ok (xs ++ [x]), t'))
    ∧ ∀ p j, .deleted p ∈ t'.2.notes → t'.2.notes.count (.missing p j) = t.2.notes.count (.missing p j)

/-! ## Destroyed slots -/

namespace Memory

variable {m m' : Memory T} {p : Ptr} {i k : Nat}

/-- There is an object at `i`. -/
def LiveAt (m : Memory T) (p : Ptr) (i : Nat) : Prop := ∃ s ∈ (m.slots p)[i]?, s.live = true

theorem slots_note (m : Memory T) (n : Note) : (m.note n).slots p = m.slots p := by
  cases p <;> rfl

theorem liveAt_destroy (h : (m.destroy p k).LiveAt p i) : m.LiveAt p i ∧ i ≠ k := by
  obtain ⟨s, hs, hlive⟩ := h
  rw [Option.mem_def] at hs
  unfold destroy at hs
  split at hs
  · next value hk =>
      have hlt : k < (m.slots p).length := (List.getElem?_eq_some_iff.mp hk).1
      rw [put, if_pos hlt, slots_setSlots_of_length List.length_set] at hs
      by_cases hik : i = k
      · -- the slot that was destroyed
        rw [hik, List.getElem?_set_self hlt] at hs
        rw [← Option.some.inj hs] at hlive
        cases hlive
      · rw [List.getElem?_set_ne (Ne.symm hik)] at hs
        exact ⟨⟨s, hs, hlive⟩, hik⟩
  · next hdead =>
      rw [slots_note] at hs
      refine ⟨⟨s, hs, hlive⟩, ?_⟩
      rintro rfl
      obtain ⟨value, live⟩ := s
      obtain rfl : live = true := hlive
      exact hdead value hs

/-- **Nothing is left** of the elements that a loop destroyed. -/
theorem not_liveAt_each (hi : i < k) : ¬ (m.each (fun m j => m.destroy p j) 0 k).LiveAt p i := by
  induction k with
  | zero => exact absurd hi (Nat.not_lt_zero i)
  | succ k ih =>
      intro hlive
      rw [each_succ] at hlive
      obtain ⟨hlive, hne⟩ := liveAt_destroy hlive
      exact ih (by omega) hlive

theorem load_of_not_liveAt (h : ¬ m.LiveAt p i) : m.load E p i = (E.init, m.note (.missing p i)) := by
  unfold load
  split
  · next x hx => exact absurd ⟨_, hx, rfl⟩ h
  · rfl

end Memory

/-! ## `a.push_back(a[i])` -/

namespace Dynarr

variable {d : Dynarr} {i : Nat} {xs : List T} {t t' : σ × Memory T}

theorem pushBackOwn_of_room {x : T} (h : Contains t.2 d xs) (hx : xs[i]? = some x) (hroom : d.size < d.capacity) :
    AppendsOld E new d i xs t := by
  have hrun : (d.pushBackOwn E new i).run t
      = (.ok { d with size := d.size + 1 }, (t.1, t.2.construct d.data d.size.toNat x)) := by
    rw [pushBackOwn, pushBack_eq, if_neg (UInt64.not_le.mpr hroom), pure_bind]
    simp only [touch, Memory.load_eq (h.getElem? hx)]
  refine ⟨_, _, hrun, ⟨x, hx, (leads_constructed h hroom x).2.elems⟩, fun p j _ => ?_⟩
  obtain ⟨raw, _, _, hconstruct⟩ := constructed_eq h hroom x
  rw [hconstruct, Memory.notes_setSlots]

theorem grows_moveInto (m : Memory T) (count : Nat) : m.Grows (d.moveInto E count m) := by
  have hmoves : (m.allocate count).2.Grows _ := Memory.grows_each (f := fun m' i =>
    m'.moveTo E d.data (.heap m.blocks.length) i) (fun m' i =>
      Memory.grows_load.trans ((Memory.grows_put _).trans (Memory.grows_construct _))) 0 d.size.toNat
  exact (hmoves.trans (Memory.grows_each (fun _ _ => Memory.grows_destroy) _ _)).trans Memory.grows_delete

/-- **A full array reads what it deleted.** -/
theorem pushBackOwn_of_full {d' : Dynarr} (h : Contains t.2 d xs) (hi : i < xs.length) (hfull : d.capacity ≤ d.size)
    (hrun : (d.pushBackOwn E new i).run t = (.ok d', t')) :
    .deleted d.data ∈ t'.2.notes
      ∧ t.2.notes.count (.missing d.data i) < t'.2.notes.count (.missing d.data i) := by
  rw [pushBackOwn, pushBack_eq, if_pos hfull] at hrun
  obtain ⟨d₁, t₁, hgrow, hrest⟩ := bind_eq_ok hrun
  obtain ⟨_, rfl⟩ := touch_eq_ok hrest
  obtain ⟨_, hmoved⟩ := grow_eq_ok hgrow
  have hdata : d.data ≠ .null := by
    intro hnull
    have hslot := h.getElem? (List.getElem?_eq_getElem hi)
    rw [hnull] at hslot
    cases hslot
  -- the objects were destroyed before the storage was deleted
  have hdead : ¬ t₁.2.LiveAt d.data i := by
    rw [hmoved, moveInto, Memory.LiveAt, Memory.slots_delete]
    exact Memory.not_liveAt_each (by rwa [h.size])
  have hload := Memory.load_of_not_liveAt (E := E) hdead
  have hbefore : t.2.notes.count (.missing d.data i) ≤ t₁.2.notes.count (.missing d.data i) := by
    rw [hmoved]
    exact (grows_moveInto _ _).sublist.count_le _
  have hread : t₁.2.notes.count (.missing d.data i)
      < (t₁.2.note (.missing d.data i)).notes.count (.missing d.data i) := by
    rw [Memory.note, List.count_append, List.count_singleton_self]
    exact Nat.lt_succ_self _
  have hafter := Memory.grows_construct (m := t₁.2.note (.missing d.data i)) (p := d₁.data)
    (i := d₁.size.toNat) E.init
  rw [hload]
  refine ⟨hafter.subset (List.mem_append_left _ (deleted_of_grow hdata hgrow)), ?_⟩
  exact Nat.lt_of_le_of_lt hbefore (Nat.lt_of_lt_of_le hread (hafter.sublist.count_le _))

end Dynarr

theorem not_appendsOld {d : Dynarr} {i : Nat} {xs : List T} {t : σ × Memory T} (h : Contains t.2 d xs)
    (hi : i < xs.length) (hfull : d.capacity ≤ d.size) : ¬ AppendsOld E new d i xs t := by
  rintro ⟨d', t', hrun, _, hreads⟩
  obtain ⟨hdeleted, hmissing⟩ := Dynarr.pushBackOwn_of_full h hi hfull hrun
  exact Nat.ne_of_gt hmissing (hreads _ _ hdeleted)

/-- **The element is appended as it was** exactly when there is room for it without growing. -/
theorem appendsOld_iff {d : Dynarr} {i : Nat} {xs : List T} {t : σ × Memory T} (h : Contains t.2 d xs)
    (hi : i < xs.length) : AppendsOld E new d i xs t ↔ d.size < d.capacity := by
  constructor
  · intro happends
    by_contra hfull
    exact not_appendsOld h hi (UInt64.not_lt.mp hfull) happends
  · exact Dynarr.pushBackOwn_of_room h (List.getElem?_eq_getElem hi)

/-- Strings of 23 characters in place, which a move leaves empty. -/
def stringType : ElementType (List UInt8) := ⟨40, [], fun _ => []⟩

/-- An array of one string, with room for so many. -/
def oneString (c : UInt64) : Dynarr × Unit × Memory (List UInt8) :=
  (⟨.heap 0, 1, c⟩, (), ⟨[object [97] :: List.replicate (c.toNat - 1) ⟨none, false⟩], [], []⟩)

theorem contains_oneString {c : UInt64} (h : 0 < c) :
    Contains (oneString c).2.2 (oneString c).1 [[97]] := by
  have hpos : 0 < c.toNat := h
  refine ⟨rfl, ⟨List.replicate (c.toNat - 1) ⟨none, false⟩, rfl, ?_, ?_⟩, Or.inr ⟨h, 0, Nat.one_pos, rfl, ?_⟩⟩
  · exact fun s hs => by rw [List.eq_of_mem_replicate hs]
  · rw [List.length_singleton, List.length_replicate]
    show 1 + (c.toNat - 1) = c.toNat
    omega
  · exact List.not_mem_nil

theorem appendsOld_oneString :
    AppendsOld stringType (fun _ => (pure () : Prog Unit Unit)) (oneString 2).1 0 [[97]] (oneString 2).2 :=
  (appendsOld_iff (contains_oneString (c := 2) (by decide)) Nat.one_pos).mpr (by decide)

/-- **The only string of a full array** is gone when it is copied. -/
theorem not_appendsOld_oneString :
    ¬ ∀ (T σ : Type) (E : ElementType T) (new : Nat → Prog σ Unit) (d : Dynarr) (i : Nat) (xs : List T)
      (t : σ × Memory T), 0 < E.sizeof → (∀ x, E.moved x = E.init) → (∀ n s, ∃ s', (new n).run s = (.ok (), s')) →
      Contains t.2 d xs → i < xs.length → AppendsOld E new d i xs t := by
  intro hall
  refine not_appendsOld (contains_oneString (c := 1) (by decide)) Nat.one_pos (by decide)
    (hall _ Unit stringType (fun _ => pure ()) _ 0 _ _ (by decide) (fun _ => rfl) (fun _ s => ⟨s, rfl⟩)
      (contains_oneString (c := 1) (by decide)) Nat.one_pos)

end AlopexOS.Arr
