import AlopexOS.Lib.Run
import AlopexOS.Strings.Contents

/-!
# `Strings.Refinement` — strings are byte lists (`src/include/string.hpp`)

A program with strings and the same program with byte lists take their steps together. What is common to
both is `Refines`: every string holds its list in memory of its own, and every block has one string or was
released once.

`append` copies forward into what it extends. Bytes to append that reach from before the end of the contents
to behind it are overwritten as they are read, for which only the contents in place have a buffer.

## Contents
- **Lists**: what an operation means.
- **`Refines`** when one string changes, and when contents are handed over.
- **Operations**, one lemma for each member.
- **Runs.**
-/

namespace AlopexOS.Strings

open Packed Ownership

variable {SSO_Capacity : UInt64} {m m' : Memory} {s s' t : BasicString} {own own' : Option Nat}
  {bs ys : List UInt8}

/-! ## The same over lists -/

/-- The byte lists of a program, by variable. -/
abbrev Lists := Nat → Option (List UInt8)

namespace Lists

variable (lists : Lists)

/-- Another list for `x`. -/
def set (x : Nat) (bs : List UInt8) : Lists := Function.update lists x (some bs)

/-- A list for an `x` that has none. -/
def declare (x : Nat) (bs : List UInt8) : Option Lists :=
  match lists x with
  | some _ => none
  | none => some (lists.set x bs)

/-- Another list for an `x` that has one. -/
def change (x : Nat) (f : List UInt8 → List UInt8) : Option Lists := do
  let bs ← lists x
  pure (lists.set x (f bs))

end Lists

/-- What an operation means, where the memory has these bytes. -/
def Op.onLists (bytes : Mem) (lists : Lists) : Op → Option Lists
  | .default x _ => lists.declare x []
  | .construct x _ str len _ => lists.declare x (read bytes str len.toNat)
  | .append x str len _ => lists.change x fun bs => bs ++ read bytes str len.toNat
  | .clear x => lists.change x fun _ => []
  | .copy x _ y _ => do
      let ys ← lists y
      lists.declare x ys
  | .move x _ y => do
      let ys ← lists y
      let lists ← lists.declare x ys
      pure (lists.set y [])
  | .assignCopy x y _ => do
      let ys ← lists y
      lists.change x fun _ => ys
  | .assignMove x y => do
      let ys ← lists y
      let lists' ← lists.change x fun _ => ys
      pure (if x = y then lists else lists'.set y [])
  | .destruct x => do
      let _ ← lists x
      pure (Function.update lists x none)
  | .write _ _ => some lists

/-! ## One string changes -/

/-- A variable and its list. -/
inductive Held (SSO_Capacity : UInt64) (m : Memory) :
    Option Nat → Option BasicString → Option (List UInt8) → Prop where
  | none : Held SSO_Capacity m none none none
  | some {s : BasicString} {own : Option Nat} {bs : List UInt8} (h : Holds SSO_Capacity m s own bs) :
      Held SSO_Capacity m own (some s) (some bs)

/-- No string occupies it. -/
def Free (SSO_Capacity : UInt64) (vars : Vars) (m : Memory) (a : Nat) : Prop :=
  ∀ x s, vars x = some s → ¬ s.Occupies SSO_Capacity m a

/-- The strings of a program hold the lists of another one. -/
structure Refines (SSO_Capacity : UInt64) (owner : Nat → Option Nat) (vars : Vars) (lists : Lists) (m : Memory) :
    Prop where
  held : ∀ x, Held SSO_Capacity m (owner x) (vars x) (lists x)
  apart : ∀ x y s t, x ≠ y → vars x = some s → vars y = some t →
    ∀ a, s.Occupies SSO_Capacity m a → ¬ t.Occupies SSO_Capacity m a
  accounted : Accounted Gone owner m.stock
  strays : m.strays = []

namespace Refines

variable {owner : Nat → Option Nat} {vars : Vars} {lists : Lists} {x y k : Nat}

theorem string (h : Refines SSO_Capacity owner vars lists m) (hl : lists x = some bs) :
    ∃ s, vars x = some s ∧ Holds SSO_Capacity m s (owner x) bs := by
  have hheld := h.held x
  rw [hl] at hheld
  generalize vars x = v, owner x = own at hheld
  cases hheld with
  | some hs => exact ⟨_, rfl, hs⟩

theorem holds (h : Refines SSO_Capacity owner vars lists m) (hs : vars x = some s) :
    ∃ bs, lists x = some bs ∧ Holds SSO_Capacity m s (owner x) bs := by
  have hheld := h.held x
  rw [hs] at hheld
  generalize lists x = l, owner x = own at hheld
  cases hheld with
  | some hs => exact ⟨_, rfl, hs⟩

theorem undeclared (h : Refines SSO_Capacity owner vars lists m) (hl : lists x = none) :
    vars x = none ∧ owner x = none := by
  have hheld := h.held x
  rw [hl] at hheld
  generalize vars x = v, owner x = own at hheld
  cases hheld with
  | none => exact ⟨rfl, rfl⟩

theorem unheld (h : Refines SSO_Capacity owner vars lists m) (hv : vars x = none) :
    lists x = none ∧ owner x = none := by
  have hheld := h.held x
  rw [hv] at hheld
  generalize lists x = l, owner x = own at hheld
  cases hheld with
  | none => exact ⟨rfl, rfl⟩

/-- No other block in use starts where the block of a string does. -/
theorem sole (h : Refines SSO_Capacity owner vars lists m) (hs : vars x = some s) (hk : owner x = some k) :
    m.Sole (s.heapPtr m) k := by
  intro j b hj hstart hin
  have hlt : j < m.blocks.length := (List.getElem?_eq_some_iff.mp hj).1
  obtain ⟨bs, _, hholds⟩ := h.holds hs
  have hheap := hholds.onHeap hk
  rcases h.accounted.settled j hlt with ⟨y, hy⟩ | ⟨b', hb', hgone⟩
  · by_cases hxy : x = y
    · rw [← hxy, hk] at hy
      exact (Option.some.inj hy).symm
    · -- another string would be in the same place
      have hvar : vars y ≠ none := fun hv => by
        rw [(h.unheld hv).2] at hy
        cases hy
      obtain ⟨t, ht⟩ := Option.ne_none_iff_exists'.mp hvar
      obtain ⟨ys, _, hys⟩ := h.holds ht
      have hheap' := hys.onHeap hy
      obtain rfl := Option.some.inj (hheap'.block.symm.trans hj)
      have hsame : t.heapPtr m = s.heapPtr m := hstart
      refine absurd ?_ (h.apart x y s t hxy hs ht _ (occupies_heapPtr hheap.isSso))
      rw [← hsame]
      exact occupies_heapPtr hheap'.isSso
  · have hsame : m.blocks[j]? = some b' := hb'
    rw [hj] at hsame
    rw [← Option.some.inj hsame, hin] at hgone
    exact absurd hgone Nat.zero_ne_one

/-- The block of a string was handed out. -/
theorem lt_of_held {v : Option BasicString} {l : Option (List UInt8)} (h : Held SSO_Capacity m own v l)
    (hk : own = some k) : k < m.stock.count := by
  cases h with
  | none => cases hk
  | some hs => exact (List.getElem?_eq_some_iff.mp (hs.onHeap hk).block).1

/-- A variable is as it was, when what its string occupies is, and the block. -/
theorem kept (h : Refines SSO_Capacity owner vars lists m)
    (hbytes : ∀ s, vars x = some s → ∀ a, s.Occupies SSO_Capacity m a → m'.bytes a = m.bytes a)
    (hblock : ∀ k, owner x = some k → m'.blocks[k]? = m.blocks[k]?) :
    Held SSO_Capacity m' (owner x) (vars x) (lists x)
    ∧ ∀ s, vars x = some s → ∀ a, s.Occupies SSO_Capacity m' a ↔ s.Occupies SSO_Capacity m a := by
  cases hv : vars x with
  | none =>
      obtain ⟨hl, hown⟩ := h.unheld hv
      rw [hl, hown]
      exact ⟨.none, fun _ he => nomatch he⟩
  | some s =>
      obtain ⟨bs, hbs, hholds⟩ := h.holds hv
      obtain ⟨hholds', hsame⟩ := hholds.frame (hbytes s hv) hblock
      rw [hbs]
      refine ⟨.some hholds', fun s' hs' => ?_⟩
      rwa [← Option.some.inj hs']

/-- **One variable changes.** The other strings are as they were, and it is apart from them. -/
theorem update (h : Refines SSO_Capacity owner vars lists m) {v : Option BasicString} {l : Option (List UInt8)}
    (hworks : Works Gone (owner x) m.stock own' m'.stock)
    (hframe : ∀ y t, y ≠ x → vars y = some t → ∀ a, t.Occupies SSO_Capacity m a → m'.bytes a = m.bytes a)
    (hheld : Held SSO_Capacity m' own' v l)
    (hapart : ∀ s', v = some s' → ∀ a, s'.Occupies SSO_Capacity m' a →
      ∀ y t, y ≠ x → vars y = some t → ¬ t.Occupies SSO_Capacity m a)
    (hstrays : m'.strays = m.strays) :
    Refines SSO_Capacity (Function.update owner x own') (Function.update vars x v)
      (Function.update lists x l) m' := by
  have hother : ∀ y, y ≠ x → Held SSO_Capacity m' (owner y) (vars y) (lists y)
      ∧ ∀ t, vars y = some t → ∀ a, t.Occupies SSO_Capacity m' a ↔ t.Occupies SSO_Capacity m a := fun y hyx =>
    h.kept (hframe y · hyx) fun k hk => h.accounted.frame hworks hyx hk
  refine ⟨fun y => ?_, fun y z s₁ s₂ hyz hs₁ hs₂ a ha ha' => ?_, ?_, hstrays.trans h.strays⟩
  · by_cases hyx : y = x
    · rw [hyx, Function.update_self, Function.update_self, Function.update_self]
      exact hheld
    · rw [Function.update_of_ne hyx, Function.update_of_ne hyx, Function.update_of_ne hyx]
      exact (hother y hyx).1
  · by_cases hyx : y = x <;> by_cases hzx : z = x
    · exact hyz (hyx.trans hzx.symm)
    · rw [hyx, Function.update_self] at hs₁
      rw [Function.update_of_ne hzx] at hs₂
      exact hapart s₁ hs₁ a ha z s₂ hzx hs₂ (((hother z hzx).2 s₂ hs₂ a).mp ha')
    · rw [Function.update_of_ne hyx] at hs₁
      rw [hzx, Function.update_self] at hs₂
      exact hapart s₂ hs₂ a ha' y s₁ hyx hs₁ (((hother y hyx).2 s₁ hs₁ a).mp ha)
    · rw [Function.update_of_ne hyx] at hs₁
      rw [Function.update_of_ne hzx] at hs₂
      have hy := ((hother y hyx).2 s₁ hs₁ a).mp ha
      have hz := ((hother z hzx).2 s₂ hs₂ a).mp ha'
      exact h.apart y z s₁ s₂ hyz hs₁ hs₂ a hy hz
  · exact h.accounted.works hworks fun k hk => lt_of_held hheld hk

/-- A string whose member was called. -/
theorem turn (h : Refines SSO_Capacity owner vars lists m) (hs : vars x = some s)
    (hturn : Turns SSO_Capacity (Free SSO_Capacity vars m) s (owner x) m s' own' m')
    (hholds : Holds SSO_Capacity m' s' own' bs) :
    Refines SSO_Capacity (Function.update owner x own') (Function.update vars x (some s'))
      (lists.set x bs) m' := by
  -- another string is neither where this one was nor where it is free
  have hout : ∀ y t, y ≠ x → vars y = some t → ∀ a, t.Occupies SSO_Capacity m a →
      ¬ s.Occupies SSO_Capacity m a ∧ ¬ Free SSO_Capacity vars m a := fun y t hyx ht a ha =>
    ⟨h.apart y x t s hyx ht hs a ha, fun hfree => hfree y t ht ha⟩
  refine h.update hturn.works (fun y t hyx ht a ha => ?_) (.some hholds) (fun s'' hs'' a ha y t hyx ht hin => ?_)
    hturn.strays
  · obtain ⟨hns, hnf⟩ := hout y t hyx ht a ha
    exact hturn.frame a hns hnf
  · obtain rfl := Option.some.inj hs''
    obtain ⟨hns, hnf⟩ := hout y t hyx ht a hin
    exact (hturn.within a ha).elim hns hnf

/-- Who a string is, after two variables were set. -/
theorem cases_of_two {u v w : BasicString} {z : Nat}
    (h : Function.update (Function.update vars x (some u)) y (some v) z = some w) :
    z = y ∧ w = v ∨ z ≠ y ∧ (z = x ∧ w = u ∨ z ≠ x ∧ vars z = some w) := by
  by_cases hzy : z = y
  · rw [hzy, Function.update_self] at h
    exact Or.inl ⟨hzy, (Option.some.inj h).symm⟩
  · rw [Function.update_of_ne hzy] at h
    by_cases hzx : z = x
    · rw [hzx, Function.update_self] at h
      exact Or.inr ⟨hzy, Or.inl ⟨hzx, (Option.some.inj h).symm⟩⟩
    · rw [Function.update_of_ne hzx] at h
      exact Or.inr ⟨hzy, Or.inr ⟨hzx, h⟩⟩

/-- **One string takes over the contents of another**, in memory where no third one is. -/
theorem hand_over (h : Refines SSO_Capacity owner vars lists m) (hxy : x ≠ y) (hx : owner x = none)
    (ht : vars y = some t) (hl : lists y = some ys)
    (hspace : ∀ z u, z ≠ x → vars z = some u → ∀ a, s.InStorage SSO_Capacity a → ¬ u.Occupies SSO_Capacity m a) :
    Refines SSO_Capacity (Function.update (Function.update owner x (owner y)) y none)
      (Function.update (Function.update vars x (some (s.takeOver m t).1)) y (some (s.takeOver m t).2.1))
      ((lists.set x ys).set y []) (s.takeOver m t).2.2 := by
  obtain ⟨ys', hys', hholds⟩ := h.holds ht
  obtain rfl := Option.some.inj (hys'.symm.trans hl)
  obtain ⟨htaken, hwithin, hframe⟩ := hholds.takeOver (hspace y t (Ne.symm hxy) ht)
  have hleft : Holds SSO_Capacity (s.takeOver m t).2.2 (s.takeOver m t).2.1 none [] := holds_reset
  have hthere : ∀ a, (s.takeOver m t).2.1.Occupies SSO_Capacity (s.takeOver m t).2.2 a →
      t.InStorage SSO_Capacity a := fun a ha => occupies_reset.mp ha
  -- a third string is as it was
  have hother : ∀ z, z ≠ x → z ≠ y → Held SSO_Capacity (s.takeOver m t).2.2 (owner z) (vars z) (lists z)
      ∧ ∀ u, vars z = some u → ∀ a, u.Occupies SSO_Capacity (s.takeOver m t).2.2 a ↔ u.Occupies SSO_Capacity m a := by
    intro z hzx hzy
    refine h.kept (fun u hu a ha => hframe a (fun hs => ?_) fun hin => ?_) fun k _ => by rw [blocks_takeOver]
    · exact hspace z u hzx hu a hs ha
    · exact h.apart z y u t hzy hu ht a ha (Or.inl hin)
  -- the new string is apart from a third one, and so is the one that was left
  have hnew : ∀ z u a, z ≠ x → z ≠ y → vars z = some u → u.Occupies SSO_Capacity m a →
      ¬ (s.takeOver m t).1.Occupies SSO_Capacity (s.takeOver m t).2.2 a ∧ ¬ t.InStorage SSO_Capacity a := by
    intro z u a hzx hzy hu ha
    refine ⟨fun htaken => ?_, fun hin => h.apart z y u t hzy hu ht a ha (Or.inl hin)⟩
    rcases hwithin a htaken with hs | ⟨hin, _⟩
    · exact hspace z u hzx hu a hs ha
    · exact h.apart z y u t hzy hu ht a ha hin
  have hpair : ∀ a, (s.takeOver m t).1.Occupies SSO_Capacity (s.takeOver m t).2.2 a →
      ¬ t.InStorage SSO_Capacity a := by
    intro a ha hin
    rcases hwithin a ha with hs | ⟨_, hout⟩
    · exact hspace y t (Ne.symm hxy) ht a hs (Or.inl hin)
    · exact hout hin
  refine ⟨fun z => ?_, fun z w u v hzw hu hv a ha ha' => ?_, ?_, ?_⟩
  · by_cases hzy : z = y
    · simp only [Lists.set, hzy, Function.update_self]
      exact .some hleft
    · by_cases hzx : z = x
      · simp only [Lists.set, hzx, Function.update_of_ne hxy, Function.update_self]
        exact .some htaken
      · simp only [Lists.set, Function.update_of_ne hzy, Function.update_of_ne hzx]
        exact (hother z hzx hzy).1
  · rcases cases_of_two hu with ⟨hz, rfl⟩ | ⟨hzy, ⟨hz, rfl⟩ | ⟨hzx, hu'⟩⟩ <;>
      rcases cases_of_two hv with ⟨hw, rfl⟩ | ⟨hwy, ⟨hw, rfl⟩ | ⟨hwx, hv'⟩⟩
    · exact hzw (hz.trans hw.symm)
    · exact hpair a ha' (hthere a ha)
    · exact (hnew w v a hwx hwy hv' (((hother w hwx hwy).2 v hv' a).mp ha')).2 (hthere a ha)
    · exact hpair a ha (hthere a ha')
    · exact hzw (hz.trans hw.symm)
    · exact (hnew w v a hwx hwy hv' (((hother w hwx hwy).2 v hv' a).mp ha')).1 ha
    · exact (hnew z u a hzx hzy hu' (((hother z hzx hzy).2 u hu' a).mp ha)).2 (hthere a ha')
    · exact (hnew z u a hzx hzy hu' (((hother z hzx hzy).2 u hu' a).mp ha)).1 ha'
    · have hin := ((hother z hzx hzy).2 u hu' a).mp ha
      have hin' := ((hother w hwx hwy).2 v hv' a).mp ha'
      exact h.apart z w u v hzw hu' hv' a hin hin'
  · rw [Memory.stock_congr blocks_takeOver]
    exact h.accounted.hand_over hx
  · exact strays_takeOver.trans h.strays

/-- Bytes change where no string is. -/
theorem frame (h : Refines SSO_Capacity owner vars lists m)
    (hbytes : ∀ a, ¬ Free SSO_Capacity vars m a → m'.bytes a = m.bytes a) (hblocks : m'.blocks = m.blocks)
    (hstrays : m'.strays = m.strays) : Refines SSO_Capacity owner vars lists m' := by
  have hkept : ∀ x, Held SSO_Capacity m' (owner x) (vars x) (lists x)
      ∧ ∀ s, vars x = some s → ∀ a, s.Occupies SSO_Capacity m' a ↔ s.Occupies SSO_Capacity m a := fun x =>
    h.kept (fun s hs a ha => hbytes a fun hfree => hfree x s hs ha) fun k _ => by rw [hblocks]
  refine ⟨fun x => (hkept x).1, fun x y s t hxy hs ht a ha ha' => ?_, ?_, hstrays.trans h.strays⟩
  · have hin := ((hkept x).2 s hs a).mp ha
    have hin' := ((hkept y).2 t ht a).mp ha'
    exact h.apart x y s t hxy hs ht a hin hin'
  · rw [Memory.stock_congr hblocks]
    exact h.accounted

end Refines

/-! ## Operations -/

/-- The strings hold the lists, whoever owns the blocks. -/
def Refined (SSO_Capacity : UInt64) (w : Machine) (lists : Lists) : Prop :=
  ∃ owner, Refines SSO_Capacity owner w.vars lists w.memory

/-- The length stays below `2 ^ 62`, and `new char[]` gives memory where nothing of the program is. -/
def Appends (SSO_Capacity : UInt64) (w : Machine) (x str : Nat) (len : UInt64) (p : Nat) : Prop :=
  ∀ s, w.vars x = some s → s.length.toNat + len.toNat < 2 ^ 62
    ∧ (s.Grows SSO_Capacity w.memory len →
        s.Supplied SSO_Capacity w.memory p str len (Free SSO_Capacity w.vars w.memory))

variable {w w' : Machine} {lists lists' : Lists} {x y addr p str : Nat} {len : UInt64}

/-- Memory for an object. -/
theorem free_of_inStorage {vars : Vars} {a : Nat}
    (hfree : ∀ i < storageSize SSO_Capacity, Free SSO_Capacity vars m (addr + i))
    (ha : BasicString.InStorage SSO_Capacity ⟨addr, true, 0⟩ a) : Free SSO_Capacity vars m a := by
  obtain ⟨hle, hlt⟩ : addr ≤ a ∧ a < addr + storageSize SSO_Capacity := ha
  have hfree' := hfree (a - addr) (by omega)
  rwa [Nat.add_sub_cancel' hle] at hfree'

/-- The machine after `clear`. -/
def Machine.cleared (w : Machine) (x : Nat) (s : BasicString) : Machine :=
  ⟨Function.update w.vars x (some ⟨s.storage, true, 0⟩), (s.clear w.memory).2⟩

namespace Refined

theorem default (h : Refined SSO_Capacity w lists) (hl : lists x = none)
    (hfree : ∀ i < storageSize SSO_Capacity, Free SSO_Capacity w.vars w.memory (addr + i)) :
    w.default x addr = some ⟨Function.update w.vars x (some ⟨addr, true, 0⟩), w.memory.put addr 0⟩
    ∧ Refined SSO_Capacity ⟨Function.update w.vars x (some ⟨addr, true, 0⟩), w.memory.put addr 0⟩
      (lists.set x []) := by
  obtain ⟨owner, hr⟩ := h
  obtain ⟨hnone, hown⟩ := hr.undeclared hl
  have hspace : ∀ a, BasicString.InStorage SSO_Capacity ⟨addr, true, 0⟩ a → Free SSO_Capacity w.vars w.memory a :=
    fun _ ha => free_of_inStorage hfree ha
  refine ⟨by rw [Machine.default, hnone]; rfl, Function.update owner x none, ?_⟩
  refine hr.update (by rw [hown]; exact .refl _ _) (fun y t _ ht a ha => ?_)
    (.some (holds_reset (s := ⟨addr, true, 0⟩))) (fun s' hs' a ha y t _ ht => ?_) rfl
  · exact frame_reset (s := ⟨addr, true, 0⟩) fun hin => hspace a hin y t ht ha
  · obtain rfl := Option.some.inj hs'
    exact hspace a ((occupies_inline rfl).mp ha) y t ht

theorem append (h : Refined SSO_Capacity w lists) (hl : lists x = some bs)
    (hfits : Appends SSO_Capacity w x str len p)
    (hkeeps : ∀ s, w.vars x = some s → ¬ s.Clobbers SSO_Capacity w.memory str len) :
    ∃ w', w.append SSO_Capacity x str len p = some w'
      ∧ Refined SSO_Capacity w' (lists.set x (bs ++ read w.memory.bytes str len.toNat)) := by
  obtain ⟨owner, hr⟩ := h
  obtain ⟨s, hs, hholds⟩ := hr.string hl
  obtain ⟨hshort, hsupply⟩ := hfits s hs
  rw [hholds.length] at hshort
  obtain ⟨own', hholds', hturn⟩ := hholds.append (fun k hk => hr.sole hs hk) hshort (hkeeps s hs) hsupply
  refine ⟨⟨_, _⟩, ?_, _, hr.turn hs hturn hholds'⟩
  rw [Machine.append, Machine.change, hs]
  rfl

/-- A string can be appended a part of itself. -/
theorem append_inside {s : BasicString} {i : Nat} (h : Refined SSO_Capacity w lists) (hs : w.vars x = some s)
    (hl : lists x = some bs) (hin : i + len.toNat ≤ bs.length)
    (hfits : Appends SSO_Capacity w x (s.cStr w.memory + i) len p) :
    ∃ w', w.append SSO_Capacity x (s.cStr w.memory + i) len p = some w'
      ∧ Refined SSO_Capacity w' (lists.set x (bs ++ (bs.drop i).take len.toNat)) := by
  have hholds : ∃ own, Holds SSO_Capacity w.memory s own bs := by
    obtain ⟨owner, hr⟩ := h
    obtain ⟨t, ht, hholds⟩ := hr.string hl
    obtain rfl := Option.some.inj (hs.symm.trans ht)
    exact ⟨_, hholds⟩
  obtain ⟨own, hholds⟩ := hholds
  rw [← hholds.read_inside hin]
  refine h.append hl hfits fun t ht => ?_
  obtain rfl := Option.some.inj (hs.symm.trans ht)
  exact hholds.not_clobbers_inside (by omega)

theorem clear (h : Refined SSO_Capacity w lists) (hl : lists x = some bs) :
    ∃ s, w.vars x = some s ∧ w.clear x = some (w.cleared x s)
      ∧ Refined SSO_Capacity (w.cleared x s) (lists.set x []) := by
  obtain ⟨owner, hr⟩ := h
  obtain ⟨s, hs, hholds⟩ := hr.string hl
  obtain ⟨hholds', hturn⟩ := hholds.clear fun k hk => hr.sole hs hk
  refine ⟨s, hs, ?_, _, hr.turn hs hturn hholds'⟩
  rw [Machine.clear, Machine.change, hs]
  rfl

/-- The contents of another string are never clobbered. -/
theorem append_other (h : Refined SSO_Capacity w lists) (hxy : x ≠ y) (hl : lists x = some bs)
    (hl' : lists y = some ys)
    (hfits : ∀ other, w.vars y = some other → Appends SSO_Capacity w x (other.cStr w.memory) other.length p) :
    ∃ other w', w.vars y = some other
      ∧ w.append SSO_Capacity x (other.cStr w.memory) other.length p = some w'
      ∧ Refined SSO_Capacity w' (lists.set x (bs ++ ys)) := by
  obtain ⟨owner, hr⟩ := h
  obtain ⟨t, ht, hys⟩ := hr.string hl'
  have hread : read w.memory.bytes (t.cStr w.memory) t.length.toNat = ys := by rw [hys.length, hys.read_eq]
  obtain ⟨w', hw', hr'⟩ := append ⟨owner, hr⟩ hl (hfits t ht) fun s hs => by
    obtain ⟨_, _, hholds⟩ := hr.holds hs
    refine hholds.not_clobbers_apart fun i hi hin => ?_
    rw [hys.length] at hi
    exact hr.apart x y s t hxy hs ht _ hin (hys.occupies_text (Nat.le_of_lt hi))
  rw [hread] at hr'
  exact ⟨t, w', ht, hw', hr'⟩

theorem takeOver (h : Refined SSO_Capacity w lists) (hxy : x ≠ y) (hl : lists y = some ys)
    (hx : ∀ s', w.vars x = some s' → s'.isSso = true)
    (hspace : ∀ z u, z ≠ x → w.vars z = some u → ∀ a, s.InStorage SSO_Capacity a →
      ¬ u.Occupies SSO_Capacity w.memory a) :
    ∃ w', w.takeOver x s y = some w' ∧ Refined SSO_Capacity w' ((lists.set x ys).set y []) := by
  obtain ⟨owner, hr⟩ := h
  obtain ⟨t, ht, _⟩ := hr.string hl
  have hown : owner x = none := by
    cases hv : w.vars x with
    | none => exact (hr.unheld hv).2
    | some s' =>
        obtain ⟨_, _, hholds⟩ := hr.holds hv
        exact (hholds.inline (hx s' hv)).1
  refine ⟨⟨_, _⟩, ?_, _, hr.hand_over hxy hown ht hl hspace⟩
  rw [Machine.takeOver, ht]
  rfl

end Refined

/-- New objects are where no string is, and so is what other parts of the program write to. What is appended
    is as for `Appends`. -/
def Op.Fits (SSO_Capacity : UInt64) (w : Machine) : Op → Prop
  | .default _ addr | .move _ addr _ => ∀ i < storageSize SSO_Capacity, Free SSO_Capacity w.vars w.memory (addr + i)
  | .construct x addr str len p =>
      (∀ i < storageSize SSO_Capacity, Free SSO_Capacity w.vars w.memory (addr + i))
      ∧ (∀ i < len.toNat, ¬ (addr ≤ str + i ∧ str + i < addr + storageSize SSO_Capacity))
      ∧ ∀ w', w.default x addr = some w' → Appends SSO_Capacity w' x str len p
  | .append x str len p => Appends SSO_Capacity w x str len p
  | .copy x addr y p =>
      (∀ i < storageSize SSO_Capacity, Free SSO_Capacity w.vars w.memory (addr + i))
      ∧ ∀ w' other, w.default x addr = some w' → w'.vars y = some other →
        Appends SSO_Capacity w' x (other.cStr w'.memory) other.length p
  | .assignCopy x y p => ∀ w' other, x ≠ y → w.clear x = some w' → w'.vars y = some other →
      Appends SSO_Capacity w' x (other.cStr w'.memory) other.length p
  | .write a _ => Free SSO_Capacity w.vars w.memory a
  | _ => True

/-- An `append` overwrites what it has still to read. -/
def Op.Clobbers (SSO_Capacity : UInt64) (w : Machine) : Op → Prop
  | .append x str len _ => ∃ s, w.vars x = some s ∧ s.Clobbers SSO_Capacity w.memory str len
  | _ => False

namespace Refined

theorem declared_eq (hl : lists.declare x bs = some lists') : lists x = none ∧ lists' = lists.set x bs := by
  unfold Lists.declare at hl
  split at hl
  · cases hl
  · next hnone => exact ⟨hnone, (Option.some.inj hl).symm⟩

theorem set_set (bs ys : List UInt8) : (lists.set x bs).set x ys = lists.set x ys := Function.update_idem _ _ _

theorem construct (h : Refined SSO_Capacity w lists) (hl : lists x = none)
    (hfits : Op.Fits SSO_Capacity w (.construct x addr str len p)) :
    ∃ w', w.step SSO_Capacity (.construct x addr str len p) = some w'
      ∧ Refined SSO_Capacity w' (lists.set x (read w.memory.bytes str len.toNat)) := by
  obtain ⟨hfree, hsource, happends⟩ := hfits
  obtain ⟨hdefault, hr⟩ := h.default hl hfree
  -- the object is not what is appended
  have hread : read (w.memory.put addr 0).bytes str len.toNat = read w.memory.bytes str len.toNat :=
    read_congr fun i hi => frame_reset (s := ⟨addr, true, 0⟩) (hsource i hi)
  obtain ⟨w', hw', hr'⟩ := hr.append (Function.update_self _ _ _) (happends _ hdefault) fun s hs => by
    have hs' : Function.update w.vars x (some ⟨addr, true, 0⟩) x = some s := hs
    rw [Function.update_self] at hs'
    obtain rfl := Option.some.inj hs'
    obtain ⟨owner, hrefines⟩ := hr
    obtain ⟨_, _, hholds⟩ := hrefines.holds hs
    exact hholds.not_clobbers_apart fun i hi hin => hsource i hi ((occupies_inline rfl).mp hin)
  refine ⟨w', ?_, ?_⟩
  · rw [Machine.step, hdefault]
    exact hw'
  · rwa [set_set, List.nil_append, hread] at hr'

theorem copy (h : Refined SSO_Capacity w lists) (hl : lists x = none) (hl' : lists y = some ys)
    (hfits : Op.Fits SSO_Capacity w (.copy x addr y p)) :
    ∃ w', w.step SSO_Capacity (.copy x addr y p) = some w' ∧ Refined SSO_Capacity w' (lists.set x ys) := by
  obtain ⟨hfree, happends⟩ := hfits
  obtain ⟨hdefault, hr⟩ := h.default hl hfree
  have hxy : x ≠ y := by
    rintro rfl
    rw [hl] at hl'
    cases hl'
  have hys : lists.set x [] y = some ys := (Function.update_of_ne (Ne.symm hxy) _ _).trans hl'
  obtain ⟨t, w', ht, hw', hr'⟩ := hr.append_other hxy (Function.update_self _ _ _) hys fun other hother =>
    happends _ other hdefault hother
  refine ⟨w', ?_, ?_⟩
  · rw [Machine.step, hdefault, Option.bind_eq_bind, Option.bind_some, ht]
    exact hw'
  · rwa [set_set, List.nil_append] at hr'

theorem move (h : Refined SSO_Capacity w lists) (hl : lists x = none) (hl' : lists y = some ys)
    (hfits : Op.Fits SSO_Capacity w (.move x addr y)) :
    ∃ w', w.step SSO_Capacity (.move x addr y) = some w'
      ∧ Refined SSO_Capacity w' ((lists.set x ys).set y []) := by
  have hnone : w.vars x = none := by
    obtain ⟨owner, hr⟩ := h
    exact (hr.undeclared hl).1
  have hxy : x ≠ y := by
    rintro rfl
    rw [hl] at hl'
    cases hl'
  obtain ⟨w', hw', hr'⟩ := h.takeOver (s := ⟨addr, true, 0⟩) hxy hl'
    (fun s' hs' => nomatch hnone.symm.trans hs') fun z u _ hu a ha => free_of_inStorage hfits ha z u hu
  refine ⟨w', ?_, hr'⟩
  rw [Machine.step, hnone]
  exact hw'

/-- An assignment of a string to itself. -/
theorem change_self {s : BasicString} (hs : w.vars x = some s) : w.change x (fun s => (s, w.memory)) = some w := by
  have hsame : Function.update w.vars x (some s) = w.vars := by rw [← hs, Function.update_eq_self]
  rw [Machine.change, hs]
  exact congrArg some (by rw [hsame])

theorem assignCopy (h : Refined SSO_Capacity w lists) (hl : lists x = some bs) (hl' : lists y = some ys)
    (hfits : Op.Fits SSO_Capacity w (.assignCopy x y p)) :
    ∃ w', w.step SSO_Capacity (.assignCopy x y p) = some w' ∧ Refined SSO_Capacity w' (lists.set x ys) := by
  obtain ⟨s, hs, hclear, hr⟩ := h.clear hl
  by_cases hxy : x = y
  · subst hxy
    have hsame : lists.set x ys = lists := by rw [Lists.set, ← hl', Function.update_eq_self]
    rw [Machine.step, if_pos rfl, hsame]
    exact ⟨w, change_self hs, h⟩
  · have hys : lists.set x [] y = some ys := (Function.update_of_ne (Ne.symm hxy) _ _).trans hl'
    obtain ⟨t, w', ht, hw', hr'⟩ := hr.append_other hxy (Function.update_self _ _ _) hys fun other hother =>
      hfits _ other hxy hclear hother
    refine ⟨w', ?_, ?_⟩
    · rw [Machine.step, if_neg hxy, hclear, Option.bind_eq_bind, Option.bind_some, ht]
      exact hw'
    · rwa [set_set, List.nil_append] at hr'

theorem assignMove (h : Refined SSO_Capacity w lists) (hl : lists x = some bs) (hl' : lists y = some ys) :
    ∃ w', w.step SSO_Capacity (.assignMove x y) = some w'
      ∧ Refined SSO_Capacity w' (if x = y then lists else (lists.set x ys).set y []) := by
  obtain ⟨s, hs, hclear, hr⟩ := h.clear hl
  by_cases hxy : x = y
  · rw [Machine.step, if_pos hxy, if_pos hxy]
    exact ⟨w, change_self hs, h⟩
  · have hys : lists.set x [] y = some ys := (Function.update_of_ne (Ne.symm hxy) _ _).trans hl'
    have hx : (w.cleared x s).vars x = some ⟨s.storage, true, 0⟩ := Function.update_self _ _ _
    obtain ⟨w', hw', hr'⟩ := hr.takeOver (s := ⟨s.storage, true, 0⟩) hxy hys
      (fun s' hs' => by rw [← Option.some.inj (hx.symm.trans hs')]) fun z u hzx hu a ha hin => by
        obtain ⟨owner, hrefines⟩ := hr
        exact hrefines.apart x z _ u (Ne.symm hzx) hx hu a (Or.inl ha) hin
    refine ⟨w', ?_, ?_⟩
    · rw [Machine.step, if_neg hxy, hclear, Option.bind_eq_bind, Option.bind_some]
      exact (congrArg (Option.bind · _) hx).trans hw'
    · rwa [if_neg hxy, ← set_set [] ys]

theorem destruct (h : Refined SSO_Capacity w lists) (hl : lists x = some bs) :
    ∃ w', w.step SSO_Capacity (.destruct x) = some w'
      ∧ Refined SSO_Capacity w' (Function.update lists x none) := by
  obtain ⟨s, hs, hclear, owner, hr⟩ := h.clear hl
  have hx : (w.cleared x s).vars x = some ⟨s.storage, true, 0⟩ := Function.update_self _ _ _
  have hown : owner x = none := by
    obtain ⟨_, _, hholds⟩ := hr.holds hx
    exact (hholds.inline rfl).1
  have hworks : Works Gone (owner x) (s.clear w.memory).2.stock none (s.clear w.memory).2.stock := by
    rw [hown]
    exact .refl _ _
  have hgone := hr.update hworks (fun _ _ _ _ _ _ => rfl) .none (fun _ hs' => nomatch hs') rfl
  simp only [Lists.set, Machine.cleared, Function.update_idem] at hgone
  refine ⟨⟨Function.update w.vars x none, (s.clear w.memory).2⟩, ?_, _, hgone⟩
  rw [Machine.step, hclear, Option.bind_eq_bind, Option.bind_some, Machine.cleared, Function.update_idem]
  rfl

/-- **One operation.** -/
theorem step (h : Refined SSO_Capacity w lists) {op : Op} (hl : op.onLists w.memory.bytes lists = some lists')
    (hfits : op.Fits SSO_Capacity w) (hkeeps : ¬ op.Clobbers SSO_Capacity w) :
    ∃ w', w.step SSO_Capacity op = some w' ∧ Refined SSO_Capacity w' lists' := by
  cases op with
  | default x addr =>
      obtain ⟨hnone, rfl⟩ := declared_eq hl
      obtain ⟨hdefault, hr⟩ := h.default hnone hfits
      exact ⟨_, hdefault, hr⟩
  | construct x addr str len p =>
      obtain ⟨hnone, rfl⟩ := declared_eq hl
      exact h.construct hnone hfits
  | append x str len p =>
      obtain ⟨bs, hbs, hl⟩ := Option.bind_eq_some_iff.mp hl
      obtain rfl := Option.some.inj hl
      exact h.append hbs hfits fun s hs hclobber => hkeeps ⟨s, hs, hclobber⟩
  | clear x =>
      obtain ⟨bs, hbs, hl⟩ := Option.bind_eq_some_iff.mp hl
      obtain rfl := Option.some.inj hl
      obtain ⟨s, _, hclear, hr⟩ := h.clear hbs
      exact ⟨_, hclear, hr⟩
  | copy x addr y p =>
      obtain ⟨ys, hys, hl⟩ := Option.bind_eq_some_iff.mp hl
      obtain ⟨hnone, rfl⟩ := declared_eq hl
      exact h.copy hnone hys hfits
  | move x addr y =>
      obtain ⟨ys, hys, hl⟩ := Option.bind_eq_some_iff.mp hl
      obtain ⟨lists₁, hl₁, hl⟩ := Option.bind_eq_some_iff.mp hl
      obtain ⟨hnone, rfl⟩ := declared_eq hl₁
      obtain rfl := Option.some.inj hl
      exact h.move hnone hys hfits
  | assignCopy x y p =>
      obtain ⟨ys, hys, hl⟩ := Option.bind_eq_some_iff.mp hl
      obtain ⟨bs, hbs, hl⟩ := Option.bind_eq_some_iff.mp hl
      obtain rfl := Option.some.inj hl
      exact h.assignCopy hbs hys hfits
  | assignMove x y =>
      obtain ⟨ys, hys, hl⟩ := Option.bind_eq_some_iff.mp hl
      obtain ⟨lists₁, hl₁, hl⟩ := Option.bind_eq_some_iff.mp hl
      obtain ⟨bs, hbs, hl₁⟩ := Option.bind_eq_some_iff.mp hl₁
      obtain rfl := Option.some.inj hl₁
      obtain rfl := Option.some.inj hl
      exact h.assignMove hbs hys
  | destruct x =>
      obtain ⟨bs, hbs, hl⟩ := Option.bind_eq_some_iff.mp hl
      obtain rfl := Option.some.inj hl
      exact h.destruct hbs
  | write a v =>
      obtain rfl := Option.some.inj hl
      obtain ⟨owner, hr⟩ := h
      refine ⟨⟨w.vars, w.memory.put a v⟩, rfl, owner, hr.frame (fun b hb => ?_) rfl rfl⟩
      refine Function.update_of_ne ?_ _ _
      rintro rfl
      exact hb hfits

end Refined

/-! ## Runs -/

/-- What holds of the strings of a program, where the same program with lists has `lists`. -/
structure Sound (SSO_Capacity : UInt64) (w : Machine) (lists : Lists) : Prop where
  declared : ∀ x, (w.vars x).isSome = (lists x).isSome
  contents : ∀ x s bs, w.vars x = some s → lists x = some bs →
    s.length.toNat = bs.length ∧ read w.memory.bytes (s.cStr w.memory) bs.length = bs
  nul : ∀ x s, w.vars x = some s → w.memory.bytes (s.cStr w.memory + s.length.toNat) = 0
  length_le : ∀ x s, w.vars x = some s → s.length ≤ s.capacity SSO_Capacity w.memory
  inline : ∀ x s, w.vars x = some s → s.isSso = true → s.length ≤ SSO_Capacity
  /-- One string has the block, or it was released once. -/
  blocks : ∀ b ∈ w.memory.blocks, b.released = 1
    ∨ b.released = 0 ∧ ∃! x, ∃ s, w.vars x = some s ∧ s.isSso = false ∧ s.heapPtr w.memory = b.start
  heap : ∀ x s, w.vars x = some s → s.isSso = false →
    ∃ b ∈ w.memory.blocks, b.start = s.heapPtr w.memory ∧ b.released = 0
  strays : w.memory.strays = []

theorem Refines.sound {owner : Nat → Option Nat} (h : Refines SSO_Capacity owner w.vars lists w.memory) :
    Sound SSO_Capacity w lists := by
  refine ⟨fun x => ?_, fun x s bs hs hbs => ?_, fun x s hs => ?_, fun x s hs => ?_, fun x s hs hsso => ?_,
    fun b hb => ?_, fun x s hs hsso => ?_, h.strays⟩
  · cases hv : w.vars x with
    | none =>
        rw [(h.unheld hv).1]
        rfl
    | some s =>
        obtain ⟨bs, hbs, _⟩ := h.holds hv
        rw [hbs]
        rfl
  · obtain ⟨bs', hbs', hholds⟩ := h.holds hs
    obtain rfl := Option.some.inj (hbs.symm.trans hbs')
    exact ⟨hholds.length, hholds.read_eq⟩
  · obtain ⟨bs, _, hholds⟩ := h.holds hs
    rw [hholds.length]
    exact hholds.nul
  · obtain ⟨bs, _, hholds⟩ := h.holds hs
    refine UInt64.le_iff_toNat_le.mpr ?_
    rw [hholds.length, BasicString.capacity]
    rcases hholds.place with ⟨hsso, _, hfits⟩ | ⟨k, _, hheap⟩
    · rw [if_pos hsso]
      exact hfits
    · rw [if_neg (by simp [hheap.isSso])]
      exact hheap.fits
  · obtain ⟨bs, _, hholds⟩ := h.holds hs
    refine UInt64.le_iff_toNat_le.mpr ?_
    rw [hholds.length]
    exact (hholds.inline hsso).2
  · obtain ⟨k, hk⟩ := List.mem_iff_getElem?.mp hb
    rcases h.accounted.settled k (List.getElem?_eq_some_iff.mp hk).1 with ⟨x, hx⟩ | ⟨b', hb', hgone⟩
    · obtain ⟨s, hs⟩ := Option.ne_none_iff_exists'.mp fun hv : w.vars x = none => by
        rw [(h.unheld hv).2] at hx
        cases hx
      obtain ⟨bs, _, hholds⟩ := h.holds hs
      have hheap := hholds.onHeap hx
      obtain rfl := Option.some.inj (hk.symm.trans hheap.block)
      refine Or.inr ⟨rfl, x, ⟨s, hs, hheap.isSso, rfl⟩, ?_⟩
      rintro y ⟨t, ht, hsso, hptr⟩
      -- its own block is in use and starts there
      by_contra hyx
      refine h.apart y x t s hyx ht hs _ (occupies_heapPtr hsso) ?_
      rw [hptr]
      exact occupies_heapPtr hheap.isSso
    · have hsame : w.memory.blocks[k]? = some b' := hb'
      obtain rfl := Option.some.inj (hk.symm.trans hsame)
      exact Or.inl hgone
  · obtain ⟨bs, _, hholds⟩ := h.holds hs
    obtain ⟨k, _, hheap⟩ := hholds.place.resolve_left fun hinline =>
      Bool.noConfusion (hsso.symm.trans hinline.1)
    exact ⟨_, List.mem_of_getElem? hheap.block, rfl, rfl⟩

/-- A step of a program with strings, and the same step over lists. -/
structure Refines.Step (SSO_Capacity : UInt64) (w : Machine × Lists) (op : Op) (w' : Machine × Lists) : Prop where
  step : w.1.step SSO_Capacity op = some w'.1
  lists : op.onLists w.1.memory.bytes w.2 = some w'.2
  fits : op.Fits SSO_Capacity w.1

theorem refined_boot (bytes : Mem) : Refined SSO_Capacity (.boot bytes) (fun _ => none) :=
  ⟨fun _ => none, fun _ => .none, fun _ _ _ _ _ hs => (nomatch hs), ⟨fun _ _ he => (nomatch he),
    fun _ _ _ he => (nomatch he), fun _ hk => absurd hk (Nat.not_lt_zero _)⟩, rfl⟩

/-- **Strings refine byte lists** where no `append` overwrites what it has still to read: in every state that
    a program reaches they hold the lists of the same program over lists, and the next operation leads to
    such a state. So does the append of any part of the string itself. -/
theorem strings_refine_lists {bytes : Mem} {ops : List Op} {w : Machine × Lists}
    (h : Run (fun w op w' => Refines.Step SSO_Capacity w op w' ∧ ¬ op.Clobbers SSO_Capacity w.1)
      (.boot bytes, fun _ => none) ops w) :
    Sound SSO_Capacity w.1 w.2
    ∧ (∀ (op : Op) (lists : Lists), op.onLists w.1.memory.bytes w.2 = some lists → op.Fits SSO_Capacity w.1 →
        ¬ op.Clobbers SSO_Capacity w.1 →
        ∃ w', w.1.step SSO_Capacity op = some w' ∧ Sound SSO_Capacity w' lists)
    ∧ ∀ (x i p : Nat) (len : UInt64) (s : BasicString) (bs : List UInt8), w.1.vars x = some s →
        w.2 x = some bs → i + len.toNat ≤ bs.length →
        (Op.append x (s.cStr w.1.memory + i) len p).Fits SSO_Capacity w.1 →
        ∃ w', w.1.step SSO_Capacity (.append x (s.cStr w.1.memory + i) len p) = some w'
          ∧ Sound SSO_Capacity w' (w.2.set x (bs ++ (bs.drop i).take len.toNat)) := by
  have hr : Refined SSO_Capacity w.1 w.2 := by
    refine h.invariant (I := fun w => Refined SSO_Capacity w.1 w.2) (fun w op w' hs hi => ?_) (refined_boot bytes)
    obtain ⟨hstep, hkeeps⟩ := hs
    obtain ⟨w₁, hw₁, hr⟩ := hi.step hstep.lists hstep.fits hkeeps
    rwa [Option.some.inj (hw₁.symm.trans hstep.step)] at hr
  refine ⟨?_, fun op lists hl hfits hkeeps => ?_, fun x i p len s bs hs hl hin hfits => ?_⟩
  · obtain ⟨owner, hrefines⟩ := hr
    exact hrefines.sound
  · obtain ⟨w', hw', owner, hrefines⟩ := hr.step hl hfits hkeeps
    exact ⟨w', hw', hrefines.sound⟩
  · obtain ⟨w', hw', owner, hrefines⟩ := hr.append_inside hs hl hin hfits
    exact ⟨w', hw', hrefines.sound⟩

instance (s : BasicString) (m : Memory) (len : UInt64) : Decidable (s.Grows SSO_Capacity m len) :=
  inferInstanceAs (Decidable (_ ∧ _))

instance (s : BasicString) (m : Memory) (str : Nat) (len : UInt64) :
    Decidable (s.Clobbers SSO_Capacity m str len) :=
  inferInstanceAs (Decidable (_ ∧ _))

/-- Both steps, where they can be taken. -/
def Refines.advance (SSO_Capacity : UInt64) (w : Machine × Lists) (op : Op) : Option (Machine × Lists) := do
  let m ← w.1.step SSO_Capacity op
  let lists ← op.onLists w.1.memory.bytes w.2
  pure (m, lists)

theorem Refines.step_of_advance {w w' : Machine × Lists} {op : Op}
    (h : Refines.advance SSO_Capacity w op = some w') (hfits : op.Fits SSO_Capacity w.1) :
    Refines.Step SSO_Capacity w op w' := by
  obtain ⟨m, hm, h⟩ := Option.bind_eq_some_iff.mp h
  obtain ⟨lists, hl, h⟩ := Option.bind_eq_some_iff.mp h
  obtain rfl := Option.some.inj h
  exact ⟨hm, hl, hfits⟩

/-- The first string of a program, where its block and what it is made of are elsewhere. -/
theorem fits_first {bytes : Mem} {c : Nat} (hshort : len.toNat < 2 ^ 62)
    (hsource : str + len.toNat ≤ addr ∨ addr + storageSize SSO_Capacity ≤ str) (hp : p ≠ 0)
    (hcap : (BasicString.newCapacity ⟨addr, true, 0⟩ len).toNat = c) (htop : p + c < 2 ^ 64)
    (hown : p + c < addr ∨ addr + storageSize SSO_Capacity ≤ p) (hfresh : p + c < str ∨ str + len.toNat ≤ p) :
    (Op.construct x addr str len p).Fits SSO_Capacity (.boot bytes) := by
  have hout : ∀ (m : Memory) (i : Nat), i ≤ c →
      ¬ (⟨addr, true, 0⟩ : BasicString).Occupies SSO_Capacity m (p + i) := by
    intro m i hi hin
    have hlow : addr ≤ p + i := ((occupies_inline rfl).mp hin).1
    have hhigh : p + i < addr + storageSize SSO_Capacity := ((occupies_inline rfl).mp hin).2
    omega
  refine ⟨fun _ _ _ _ hs => (nomatch hs), fun i _ => by omega, fun w' hw' s hs => ?_⟩
  obtain rfl := Option.some.inj hw'
  have hs' : Function.update (fun _ => none) x (some ⟨addr, true, 0⟩) x = some s := hs
  rw [Function.update_self] at hs'
  obtain rfl := Option.some.inj hs'
  have hzero : (0 : UInt64).toNat + len.toNat = len.toNat := Nat.zero_add _
  refine ⟨lt_of_eq_of_lt hzero hshort, fun _ => ⟨hp, ?_, fun i hi y t ht => ?_, fun i hi => ?_, fun i hi => ?_⟩⟩
  · rw [hcap]
    exact htop
  · have ht' : Function.update (fun _ => none) x (some ⟨addr, true, 0⟩) y = some t := ht
    by_cases hy : y = x
    · rw [hy, Function.update_self] at ht'
      obtain rfl := Option.some.inj ht'
      exact hout _ i (hcap ▸ hi)
    · rw [Function.update_of_ne hy] at ht'
      cases ht'
  · exact hout _ i (hcap ▸ hi)
  · rw [hcap] at hi
    omega

/-- `append` where there is room. -/
theorem fits_append (h : ∀ s, w.vars x = some s →
      s.length.toNat + len.toNat < 2 ^ 62 ∧ ¬ s.Grows SSO_Capacity w.memory len) :
    (Op.append x str len p).Fits SSO_Capacity w := fun s hs =>
  ⟨(h s hs).1, fun hg => absurd hg (h s hs).2⟩

/-- Two bytes at 5000. -/
def twoBytes : Mem := fun a => if a = 5000 then 97 else if a = 5001 then 98 else 0

/-- A string with room for one byte in place is made of the two, so they are in a block, at 1000. Then `append`
    is called, with room for what it gets. -/
def appendTwo (str : Nat) (len : UInt64) : Option ((Machine × Lists) × (Machine × Lists)) := do
  let w ← Refines.advance 1 (.boot twoBytes, fun _ => none) (.construct 0 100 5000 2 1000)
  let w' ← Refines.advance 1 w (.append 0 str len 0)
  pure (w, w')

/-- The call has room. -/
def HasRoom (w : Machine) (len : UInt64) : Prop :=
  ∀ s ∈ w.vars 0, s.length.toNat + len.toNat < 2 ^ 62 ∧ ¬ s.Grows 1 w.memory len

instance (w : Machine) (len : UInt64) : Decidable (HasRoom w len) :=
  inferInstanceAs (Decidable (∀ s ∈ w.vars 0, _))

theorem steps_of_appendTwo {w₁ w₂ : Machine × Lists} (h : appendTwo str len = some (w₁, w₂))
    (hroom : HasRoom w₁.1 len) :
    Refines.Step 1 (.boot twoBytes, fun _ => none) (.construct 0 100 5000 2 1000) w₁
    ∧ Refines.Step 1 w₁ (.append 0 str len 0) w₂ := by
  unfold appendTwo at h
  obtain ⟨w, hw, h⟩ := Option.bind_eq_some_iff.mp h
  obtain ⟨w', hw', h⟩ := Option.bind_eq_some_iff.mp h
  obtain ⟨rfl, rfl⟩ := Prod.mk.inj (Option.some.inj h)
  refine ⟨Refines.step_of_advance hw ?_, Refines.step_of_advance hw' (fits_append hroom)⟩
  exact fits_first (c := 32) (by decide) (by decide) (by decide) (by decide) (by decide) (by decide) (by decide)

theorem strings_refine_lists_two : ∃ w : Machine × Lists, w.2 0 = some [97, 98, 97, 98] ∧ Sound 1 w.1 w.2 := by
  have hcalls : (appendTwo 1000 2).map (fun w =>
      (decide (HasRoom w.1.1 2 ∧ ∀ s ∈ w.1.1.vars 0, ¬ s.Clobbers 1 w.1.1.memory 1000 2), w.2.2 0))
        = some (true, some [97, 98, 97, 98]) := by
    decide +kernel
  obtain ⟨⟨w₁, w₂⟩, hw, hend⟩ := Option.map_eq_some_iff.mp hcalls
  obtain ⟨hchecks, hl⟩ := Prod.mk.inj hend
  obtain ⟨hroom, hkeeps⟩ := of_decide_eq_true hchecks
  obtain ⟨hfirst, hsecond⟩ := steps_of_appendTwo hw hroom
  have hrun : Run (fun w op w' => Refines.Step 1 w op w' ∧ ¬ op.Clobbers 1 w.1) (.boot twoBytes, fun _ => none)
      [.construct 0 100 5000 2 1000, .append 0 1000 2 0] w₂ :=
    (Run.single ⟨hfirst, not_false⟩).step ⟨hsecond, fun ⟨s, hs, hclobbers⟩ => hkeeps s hs hclobbers⟩
  exact ⟨w₂, hl, (strings_refine_lists hrun).1⟩

/-- **The contents and their NUL are appended**: the loop writes the first byte over the last one that it has
    still to read. -/
theorem not_sound_ownNul :
    ¬ ∀ (SSO_Capacity : UInt64) (bytes : Mem) (ops : List Op) (w : Machine × Lists), 1 ≤ SSO_Capacity →
      Run (Refines.Step SSO_Capacity) (.boot bytes, fun _ => none) ops w → Sound SSO_Capacity w.1 w.2 := by
  intro hall
  have hcalls : (appendTwo 1000 3).map (fun w => (decide (HasRoom w.1.1 3), w.2.2 0,
      (w.2.1.vars 0).map fun s => read w.2.1.memory.bytes (s.cStr w.2.1.memory) 5))
        = some (true, some [97, 98, 97, 98, 0], some [97, 98, 97, 98, 97]) := by
    decide +kernel
  obtain ⟨⟨w₁, w₂⟩, hw, hend⟩ := Option.map_eq_some_iff.mp hcalls
  obtain ⟨hroom, hend⟩ := Prod.mk.inj hend
  obtain ⟨hl, hread⟩ := Prod.mk.inj hend
  obtain ⟨s, hs, hread⟩ := Option.map_eq_some_iff.mp hread
  obtain ⟨hfirst, hsecond⟩ := steps_of_appendTwo hw (of_decide_eq_true hroom)
  have hsound := hall 1 twoBytes _ w₂ (by decide) ((Run.single hfirst).step hsecond)
  have hcontents := (hsound.contents 0 s _ hs hl).2
  rw [show ([97, 98, 97, 98, 0] : List UInt8).length = 5 from rfl, hread] at hcontents
  exact absurd hcontents (by decide)

end AlopexOS.Strings
