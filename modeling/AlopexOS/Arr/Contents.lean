import AlopexOS.Arr.Slots
import AlopexOS.Lib.Ownership

/-!
# `Arr.Contents` — the members of an array and the list it holds (`src/include/arr.hpp`)

`Contains m d xs`: the storage of `d` has the objects `xs`, then raw slots. Each member is proved to lead from
one list to another, and `Turns` says what it did to the rest of memory. The size in bytes of a new storage
must not wrap.

## Contents
- **Blocks**: what became of each, and what an array does to them.
- **`Contains`**, and members that stay in their storage.
- **`grow`** and the members that call it.
-/

namespace AlopexOS.Arr

open Prog Ownership

variable {T σ : Type}

/-! ## Blocks -/

/-- The block an array owns. -/
def Dynarr.block (d : Dynarr) : Option Nat :=
  match d.data with
  | .heap k => some k
  | _ => none

namespace Memory

/-- The slots of each block, and how often it was deleted. -/
def stock (m : Memory T) : Stock (List (Slot T) × Nat) :=
  ⟨m.blocks.length, fun k => (m.slots (.heap k), m.notes.count (.deleted (.heap k)))⟩

/-- Nothing was done but to delete blocks. -/
def Clean (m : Memory T) : Prop := ∀ n ∈ m.notes, ∃ k < m.blocks.length, n = .deleted (.heap k)

end Memory

/-- A block that was deleted once, with no object left in it. -/
def Gone (b : List (Slot T) × Nat) : Prop := (∀ s ∈ b.1, s.live = false) ∧ b.2 = 1

/-- What a member does to memory: it works on its own blocks, and notes nothing but that they are deleted. -/
structure Turns (d : Dynarr) (m : Memory T) (d' : Dynarr) (m' : Memory T) : Prop where
  works : Works Gone d.block m.stock d'.block m'.stock
  clean : m.Clean → m'.Clean

variable {m m' m'' : Memory T} {d d' d'' : Dynarr}

theorem Turns.refl (d : Dynarr) (m : Memory T) : Turns d m d m := ⟨.refl _ _, id⟩

theorem Turns.trans (h : Turns d m d' m') (h' : Turns d' m' d'' m'') : Turns d m d'' m'' :=
  ⟨h.works.trans h'.works, h'.clean ∘ h.clean⟩

theorem block_eq_some {k : Nat} : d.block = some k ↔ d.data = .heap k := by
  unfold Dynarr.block
  cases d.data with
  | null => simp
  | heap l => simp
  | external => simp

/-- New slots for the storage of an array. -/
theorem turns_setSlots (hd : d'.data = d.data) (xs : List (Slot T)) :
    Turns d m d' (m.setSlots d.data xs) := by
  have hblock : d'.block = d.block := by rw [Dynarr.block, hd, Dynarr.block]
  constructor
  · rw [hblock]
    refine ⟨Nat.le_of_eq Memory.length_blocks_setSlots.symm, fun k _ hne => ⟨hne, ?_⟩, fun k hk hown => ?_⟩
    · have hp : Ptr.heap k ≠ d.data := fun he => hne (block_eq_some.mpr he.symm)
      simp only [Memory.stock, Memory.slots_setSlots_ne hp, Memory.notes_setSlots]
    · refine Or.inl (hown.resolve_right (Nat.not_le.mpr ?_))
      simpa only [Memory.stock, Memory.length_blocks_setSlots] using hk
  · intro hclean n hn
    rw [Memory.notes_setSlots] at hn
    rw [Memory.length_blocks_setSlots]
    exact hclean n hn

namespace Memory

variable {p q : Ptr} {k : Nat}

@[simp] theorem blocks_delete : (m.delete p).blocks = m.blocks := by
  unfold delete
  split <;> rfl

@[simp] theorem slots_delete : (m.delete p).slots q = m.slots q := by
  unfold delete
  split <;> rfl

theorem notes_delete (hp : p ≠ .null) : (m.delete p).notes = m.notes ++ [.deleted p] := by
  rw [delete, if_neg hp]
  rfl

theorem count_delete : (m.delete (.heap k)).notes.count (.deleted (.heap k))
    = m.notes.count (.deleted (.heap k)) + 1 := by
  rw [notes_delete Ptr.noConfusion, List.count_append, List.count_singleton_self]

theorem count_delete_of_ne (h : p ≠ .heap k) : (m.delete p).notes.count (.deleted (.heap k))
    = m.notes.count (.deleted (.heap k)) := by
  by_cases hp : p = .null
  · rw [delete, if_pos hp]
  · rw [notes_delete hp, List.count_append, List.count_singleton]
    simp [h]

theorem Clean.delete (h : m.Clean) (hp : p = .null ∨ ∃ k < m.blocks.length, p = .heap k) :
    (m.delete p).Clean := by
  intro n hn
  rw [blocks_delete]
  rcases hp with rfl | ⟨k, hk, rfl⟩
  · exact h n hn
  · rw [notes_delete Ptr.noConfusion] at hn
    rcases List.mem_append.mp hn with hold | hnew
    · exact h n hold
    · exact ⟨k, hk, List.mem_singleton.mp hnew⟩

/-- The next block was not deleted. -/
theorem Clean.count_next (h : m.Clean) (hk : m.blocks.length ≤ k) :
    m.notes.count (.deleted (.heap k)) = 0 := by
  refine List.count_eq_zero.mpr fun hmem => ?_
  obtain ⟨l, hl, he⟩ := h _ hmem
  obtain rfl : k = l := Ptr.heap.inj (Note.deleted.inj he)
  exact absurd hl (Nat.not_lt.mpr hk)

end Memory

/-! ## The list an array holds -/

/-- The objects `xs` and then raw slots, in storage of the array's own. -/
structure Contains (m : Memory T) (d : Dynarr) (xs : List T) : Prop where
  size : d.size.toNat = xs.length
  storage : ∃ raw, m.slots d.data = xs.map object ++ raw ∧ (∀ s ∈ raw, s.live = false) ∧
    xs.length + raw.length = d.capacity.toNat
  own : d.data = .null ∨
    0 < d.capacity ∧ ∃ k < m.blocks.length, d.data = .heap k ∧ .deleted (.heap k) ∉ m.notes

/-- From `d` in `m` to an array that holds `xs`. -/
def Leads (d : Dynarr) (m : Memory T) (xs : List T) (d' : Dynarr) (t : σ × Memory T) : Prop :=
  Turns d m d' t.2 ∧ Contains t.2 d' xs

variable {E : ElementType T} {new : Nat → Prog σ Unit} {G : Prop} {xs ys : List T} {t t' : σ × Memory T}

theorem Leads.trans (h : Leads d m xs d' t) (h' : Leads d' t.2 ys d'' t') :
    Leads d m ys d'' t' := ⟨h.1.trans h'.1, h'.2⟩

theorem runs_touch {α : Type} {f : Memory T → α × Memory T} {Q : α → σ × Memory T → Prop}
    (h : Q (f t.2).1 (t.1, (f t.2).2)) : Runs G (touch f) t Q := Runs.of_ok rfl h

theorem touch_eq_ok {α : Type} {f : Memory T → α × Memory T} {a : α} (h : (touch f).run t = (.ok a, t')) :
    a = (f t.2).1 ∧ t' = (t.1, (f t.2).2) := by
  obtain ⟨ha, ht⟩ := Prod.mk.inj h
  exact ⟨(Except.ok.inj ha).symm, ht.symm⟩

namespace Contains

theorem empty (m : Memory T) : Contains m .empty [] := ⟨rfl, ⟨[], rfl, by simp, rfl⟩, Or.inl rfl⟩

theorem size_le (h : Contains m d xs) : d.size ≤ d.capacity := by
  obtain ⟨raw, _, _, hlen⟩ := h.storage
  have hsize := h.size
  rw [UInt64.le_iff_toNat_le]
  omega

theorem data_ne_next (h : Contains m d xs) : d.data ≠ .heap m.blocks.length := by
  rcases h.own with hnull | ⟨_, k, hk, hd, _⟩
  · rw [hnull]
    exact Ptr.noConfusion
  · rw [hd]
    exact fun he => Nat.ne_of_lt hk (Ptr.heap.inj he)

/-- New contents in the same storage. -/
theorem setSlots (h : Contains m d xs) {raw : List (Slot T)} (hd : d'.data = d.data)
    (hcap : d'.capacity = d.capacity) (hsize : d'.size.toNat = ys.length)
    (hraw : ∀ s ∈ raw, s.live = false) (hlen : ys.length + raw.length = d.capacity.toNat) :
    Contains (m.setSlots d.data (ys.map object ++ raw)) d' ys := by
  refine ⟨hsize, ⟨raw, ?_, hraw, by rw [hcap, hlen]⟩, ?_⟩
  · obtain ⟨raw₀, hslots, _, hlen₀⟩ := h.storage
    rw [hd]
    refine Memory.slots_setSlots_of_length ?_
    rw [hslots]
    simp only [List.length_append, List.length_map]
    omega
  · rw [hd, hcap, Memory.notes_setSlots, Memory.length_blocks_setSlots]
    exact h.own

/-- The same with what it does to the rest of memory. -/
theorem leads_setSlots {s : σ} (h : Contains m d xs) {raw : List (Slot T)} (hd : d'.data = d.data)
    (hcap : d'.capacity = d.capacity) (hsize : d'.size.toNat = ys.length)
    (hraw : ∀ s ∈ raw, s.live = false) (hlen : ys.length + raw.length = d.capacity.toNat) :
    Leads d m ys d' (s, m.setSlots d.data (ys.map object ++ raw)) :=
  ⟨turns_setSlots hd _, h.setSlots hd hcap hsize hraw hlen⟩

theorem getElem? (h : Contains m d xs) {i : Nat} {x : T} (hx : xs[i]? = some x) :
    (m.slots d.data)[i]? = some (object x) := by
  obtain ⟨raw, hslots, _, _⟩ := h.storage
  have hi : i < xs.length := (List.getElem?_eq_some_iff.mp hx).1
  rw [hslots, List.getElem?_append_left (by rwa [List.length_map]), List.getElem?_map, hx, Option.map_some]

/-- Another object at a place where there is one. -/
theorem leads_put {s : σ} (h : Contains m d xs) {i : Nat} (hi : i < xs.length) (x : T) :
    Leads d m (xs.set i x) d (s, m.put d.data i (object x)) := by
  obtain ⟨raw, hslots, hraw, hlen⟩ := h.storage
  have hlt : i < (m.slots d.data).length := by
    rw [hslots, List.length_append, List.length_map]
    omega
  rw [Memory.put, if_pos hlt, hslots, List.set_append_left _ _ (by rwa [List.length_map]), ← List.map_set]
  exact h.leads_setSlots rfl rfl (by rw [List.length_set, h.size]) hraw (by rw [List.length_set, hlen])

end Contains

/-! ## Members that stay in their storage -/

namespace Dynarr

/-- The objects from one place on are destroyed. -/
theorem each_destroy_from {zs : List T} {raw : List (Slot T)} (h : m.slots d.data = (xs ++ zs).map object ++ raw) :
    m.each (fun m i => m.destroy d.data i) xs.length (xs.length + zs.length)
      = m.setSlots d.data (xs.map object ++ (zs.map remains ++ raw)) := by
  have hslots : m.slots d.data = xs.map object ++ zs.map object ++ raw := by
    rw [h, List.map_append]
  have hloop := Memory.each_destroy hslots
  rw [List.length_map] at hloop
  rw [hloop, List.append_assoc]

theorem raw_of_remains {zs : List T} {raw : List (Slot T)} (hraw : ∀ s ∈ raw, s.live = false) :
    ∀ s ∈ zs.map remains ++ raw, s.live = false := by
  intro s hs
  rcases List.mem_append.mp hs with hmem | hmem
  · obtain ⟨z, _, rfl⟩ := List.mem_map.mp hmem
    rfl
  · exact hraw s hmem

theorem runs_clear (h : Contains t.2 d xs) :
    Runs G d.clear t (fun d' t' => d' = { d with size := 0 } ∧ Leads d t.2 [] d' t') := by
  obtain ⟨raw, hslots, hraw, hlen⟩ := h.storage
  have hslots' : t.2.slots d.data = ([] ++ xs).map object ++ raw := hslots
  have hloop := each_destroy_from hslots'
  rw [List.length_nil, Nat.zero_add, ← h.size] at hloop
  refine runs_touch ⟨rfl, ?_⟩
  rw [hloop]
  refine h.leads_setSlots rfl rfl rfl (raw_of_remains hraw) ?_
  simpa using hlen

theorem runs_popBack (h : Contains t.2 d xs) : Runs G d.popBack t (Leads d t.2 xs.dropLast) := by
  have hsize := h.size
  unfold popBack
  refine Runs.ite (fun hpos => ?_) (fun hzero => ?_)
  · obtain ⟨raw, hslots, hraw, hlen⟩ := h.storage
    have hpos' : 0 < d.size.toNat := hpos
    have hone : 1 ≤ d.size := UInt64.le_iff_toNat_le.mpr (show (1 : UInt64).toNat ≤ d.size.toNat from hpos')
    rcases List.eq_nil_or_concat xs with rfl | ⟨ys, y, rfl⟩
    · rw [List.length_nil] at hsize
      omega
    · rw [List.concat_eq_append] at hslots
      rw [List.length_concat] at hsize hlen
      have hlast : (d.size - 1).toNat = (ys.map object).length := by
        rw [UInt64.toNat_sub_of_le _ _ hone, hsize, List.length_map]
        rfl
      have hslots' : t.2.slots d.data = ys.map object ++ object y :: raw := by simpa using hslots
      refine runs_touch ?_
      rw [List.concat_eq_append, List.dropLast_concat]
      show Leads d t.2 ys _ (t.1, t.2.destroy d.data (d.size - 1).toNat)
      rw [hlast, Memory.destroy_eq hslots']
      refine h.leads_setSlots rfl rfl (by rw [hlast, List.length_map]) ?_ ?_
      · rw [List.forall_mem_cons]
        exact ⟨rfl, hraw⟩
      · rw [List.length_cons]
        omega
  · have hnone : xs = [] := by
      have hzero' : ¬ 0 < d.size.toNat := hzero
      exact List.length_eq_zero_iff.mp (by omega)
    subst hnone
    exact Runs.pure ⟨.refl _ _, h⟩

/-- The loop of the copies, over the objects of another array. -/
theorem runs_copyFrom {e : Dynarr} (h : Contains t.2 d xs) (he : Contains t.2 e ys) (hlen : xs.length = ys.length)
    (hne : d.data ≠ e.data ∨ ys = []) : Runs G (d.copyFrom E e) t (Leads d t.2 ys) := by
  obtain ⟨raw, hslots, hraw, hroom⟩ := h.storage
  obtain ⟨raw', hslots', _, _⟩ := he.storage
  refine runs_touch ?_
  have hsize : d.size.toNat = ys.length := h.size.trans hlen
  have hloop : t.2.each (fun m i => m.copyTo E e.data d.data i) 0 d.size.toNat
      = t.2.setSlots d.data (ys.map object ++ raw) := by
    rw [hsize]
    rcases hne with hne | rfl
    · exact Memory.each_copyTo hne.symm hlen hslots' hslots
    · rw [List.length_nil, Memory.each_self]
      rw [List.length_eq_zero_iff.mp hlen] at hslots
      exact (Memory.setSlots_self hslots).symm
  show Leads d t.2 ys d (t.1, t.2.each (fun m i => m.copyTo E e.data d.data i) 0 d.size.toNat)
  rw [hloop]
  exact h.leads_setSlots rfl rfl hsize hraw (by rw [← hlen, hroom])

end Dynarr

/-! ## `grow` -/

/-- The size in bytes of so many elements does not wrap. -/
def Fits (E : ElementType T) (n : Nat) : Prop := E.sizeof.toNat * n < 2 ^ 64

theorem runs_zoom_fst {x : Prog σ Unit} (h : Runs G x t.1 fun _ _ => True) :
    Runs G (zoom .fst x : Prog (σ × Memory T) Unit) t (fun _ t' => t'.2 = t.2) := by
  rcases hx : x.run t.1 with ⟨r, s'⟩
  cases r with
  | ok a =>
      have hrun : (zoom .fst x : Prog (σ × Memory T) Unit).run t = (.ok a, (s', t.2)) := zoom_ok hx
      exact Runs.of_ok hrun rfl
  | error e =>
      cases e with
      | hang => simpa only [Runs, run_zoom, Component.fst, hx] using h
      | wild => exact absurd hx h.not_wild

namespace Dynarr

variable {n : UInt64}

/-- What `grow` does to memory, for storage with room for so many elements. -/
def moveInto (E : ElementType T) (d : Dynarr) (count : Nat) (m : Memory T) : Memory T :=
  let newData := Ptr.heap m.blocks.length
  let m := (m.allocate count).2
  let m := m.each (fun m i => m.moveTo E d.data newData i) 0 d.size.toNat
  let m := m.each (fun m i => m.destroy d.data i) 0 d.size.toNat
  m.delete d.data

theorem grow_eq (E : ElementType T) (new : Nat → Prog σ Unit) (d : Dynarr) (n : UInt64) :
    d.grow E new n = (do
      zoom .fst (new (E.sizeof * n).toNat)
      touch fun m => (⟨.heap m.blocks.length, d.size, n⟩,
        d.moveInto E ((E.sizeof * n).toNat / E.sizeof.toNat) m)) := rfl

theorem grow_eq_ok (h : (d.grow E new n).run t = (.ok d', t')) :
    d' = ⟨.heap t.2.blocks.length, d.size, n⟩
      ∧ t'.2 = d.moveInto E ((E.sizeof * n).toNat / E.sizeof.toNat) t.2 := by
  rw [grow_eq] at h
  obtain ⟨_, t₁, hnew, h⟩ := bind_eq_ok h
  obtain ⟨_, he⟩ := zoom_eq_ok hnew
  have hsame := congrArg Prod.snd he
  obtain ⟨rfl, rfl⟩ := touch_eq_ok h
  exact ⟨congrArg (fun m : Memory T => (⟨.heap m.blocks.length, d.size, n⟩ : Dynarr)) hsame,
    congrArg (d.moveInto E ((E.sizeof * n).toNat / E.sizeof.toNat)) hsame⟩

/-- What is behind the pointer of an array is not in the block that comes next. -/
theorem slots_allocate (h : Contains m d xs) (count : Nat) :
    (m.allocate count).2.slots d.data = m.slots d.data := by
  rcases h.own with hnull | ⟨_, k, hk, hd, _⟩
  · rw [hnull]
    rfl
  · rw [hd]
    simp only [Memory.allocate, Memory.slots, List.getD_eq_getElem?_getD, List.getElem?_append_left hk]

/-- **`grow` moves the objects to the next block** and leaves none behind. -/
theorem moveInto_eq (h : Contains m d xs) {count : Nat} (hroom : xs.length ≤ count) :
    ∃ old, (∀ s ∈ old, s.live = false) ∧ old.length = (m.slots d.data).length ∧ d.moveInto E count m
      = (((m.allocate count).2.setSlots d.data old).setSlots (.heap m.blocks.length)
          (xs.map object ++ List.replicate (count - xs.length) ⟨none, false⟩)).delete d.data := by
  obtain ⟨raw, hslots, hraw, _⟩ := h.storage
  refine ⟨(xs.map E.moved).map remains ++ raw, raw_of_remains hraw, by simp [hslots], ?_⟩
  have hne := h.data_ne_next
  have hold : (m.allocate count).2.slots d.data = [] ++ xs.map object ++ raw := by
    rw [slots_allocate h, hslots, List.nil_append]
  have hnew : (m.allocate count).2.slots (.heap m.blocks.length)
      = [] ++ List.replicate xs.length ⟨none, false⟩ ++ List.replicate (count - xs.length) ⟨none, false⟩ := by
    rw [List.nil_append, List.replicate_append_replicate, Nat.add_sub_cancel' hroom]
    simp [Memory.allocate, Memory.slots]
  -- the objects are moved, and then what the moves left is destroyed
  have hmove := Memory.each_moveTo (E := E) hne hold hnew rfl List.length_replicate
    (fun s hs => by rw [List.eq_of_mem_replicate hs])
  rw [List.length_nil, Nat.zero_add] at hmove
  have hleft : ((m.allocate count).2.each (fun m' i => m'.moveTo E d.data (.heap m.blocks.length) i) 0
      xs.length).slots d.data = [] ++ (xs.map E.moved).map object ++ raw := by
    rw [hmove, Memory.slots_setSlots_ne hne, Memory.slots_setSlots_of_length]
    · rw [List.map_map]
      rfl
    · rw [hold]
      simp only [List.length_append, List.length_map]
  have hdestroy := Memory.each_destroy hleft
  rw [List.length_nil, Nat.zero_add, List.length_map] at hdestroy
  simp only [moveInto, h.size]
  rw [hdestroy, hmove, Memory.setSlots_comm hne.symm, Memory.setSlots_setSlots]
  rfl

/-- The objects are in the next block, and the old one is given back. -/
theorem leads_moved {m₁ : Memory T} {raw : List (Slot T)} {s : σ} (h : Contains m d xs) (hclean : m.Clean)
    (hblocks : m₁.blocks.length = m.blocks.length + 1) (hnotes : m₁.notes = m.notes)
    (hother : ∀ k < m.blocks.length, d.data ≠ .heap k → m₁.slots (.heap k) = m.slots (.heap k))
    (hold : ∀ k, d.data = .heap k → ∀ s ∈ m₁.slots (.heap k), s.live = false)
    (hnew : m₁.slots (.heap m.blocks.length) = xs.map object ++ raw) (hraw : ∀ s ∈ raw, s.live = false)
    (hlen : xs.length + raw.length = n.toNat) (hpos : 0 < n) :
    Leads d m xs ⟨.heap m.blocks.length, d.size, n⟩ (s, m₁.delete d.data) := by
  have hne := h.data_ne_next
  have hfresh : (m₁.delete d.data).notes.count (.deleted (.heap m.blocks.length)) = 0 := by
    rw [Memory.count_delete_of_ne hne, hnotes, hclean.count_next (Nat.le_refl _)]
  refine ⟨⟨⟨?_, fun k hk hown => ⟨?_, ?_⟩, fun k hk hown => ?_⟩, fun hclean => ?_⟩, h.size, ?_, ?_⟩
  · simp only [Memory.stock, Memory.blocks_delete, hblocks]
    exact Nat.le_succ _
  · exact fun he => Nat.ne_of_gt hk (Ptr.heap.inj (block_eq_some.mp he))
  · have hdata : d.data ≠ .heap k := fun he => hown (block_eq_some.mpr he)
    simp only [Memory.stock, Memory.slots_delete, hother k hk hdata, Memory.count_delete_of_ne hdata, hnotes]
  · rcases hown with hmine | hge
    · have hdata := block_eq_some.mp hmine
      obtain ⟨_, l, _, hd, hkept⟩ := h.own.resolve_left (by rw [hdata]; exact Ptr.noConfusion)
      obtain rfl : k = l := Ptr.heap.inj (hdata.symm.trans hd)
      refine Or.inr ⟨?_, ?_⟩
      · simpa only [Memory.stock, Memory.slots_delete] using hold k hdata
      · simp only [Memory.stock, hdata, Memory.count_delete, hnotes, List.count_eq_zero.mpr hkept]
    · simp only [Memory.stock, Memory.blocks_delete, hblocks] at hk hge
      exact Or.inl (block_eq_some.mpr (congrArg Ptr.heap (by omega)))
  · have hclean₁ : m₁.Clean := by
      intro note hmem
      obtain ⟨k, hk, he⟩ := hclean note (hnotes ▸ hmem)
      exact ⟨k, by omega, he⟩
    refine hclean₁.delete (h.own.imp_right ?_)
    rintro ⟨_, k, hk, hd, _⟩
    exact ⟨k, by omega, hd⟩
  · exact ⟨raw, by rw [Memory.slots_delete, hnew], hraw, hlen⟩
  · refine Or.inr ⟨hpos, m.blocks.length, ?_, rfl, List.count_eq_zero.mp hfresh⟩
    rw [Memory.blocks_delete, hblocks]
    exact Nat.lt_succ_self _

/-- **`grow`**: the same objects in storage of another capacity. -/
theorem runs_grow (hE : 0 < E.sizeof) (hnew : ∀ n s, Runs G (new n) s fun _ _ => True)
    (h : Contains t.2 d xs) (hclean : t.2.Clean) (hfits : Fits E n.toNat) (hpos : 0 < n)
    (hroom : xs.length ≤ n.toNat) :
    Runs G (d.grow E new n) t (fun d' t' => d'.size = d.size ∧ d'.capacity = n ∧ Leads d t.2 xs d' t') := by
  rw [grow_eq]
  refine Runs.bind (runs_zoom_fst (hnew _ _)) fun _ t' ht' => runs_touch ⟨rfl, rfl, ?_⟩
  have hcount : (E.sizeof * n).toNat / E.sizeof.toNat = n.toNat := by
    have hE' : 0 < E.sizeof.toNat := hE
    rw [UInt64.toNat_mul, Nat.mod_eq_of_lt hfits, Nat.mul_div_cancel_left _ hE']
  obtain ⟨old, hold, hlen, hmove⟩ := moveInto_eq (E := E) h hroom
  rw [ht', hcount, hmove]
  obtain ⟨m₂, hm₂⟩ : ∃ m₂, m₂ = (t.2.allocate n.toNat).2.setSlots d.data old := ⟨_, rfl⟩
  rw [← hm₂]
  have hlen₂ : (xs.map object ++ List.replicate (n.toNat - xs.length) (⟨none, false⟩ : Slot T)).length
      = (m₂.slots (.heap t.2.blocks.length)).length := by
    rw [hm₂, Memory.slots_setSlots_ne h.data_ne_next.symm]
    simp [Memory.allocate, Memory.slots, hroom]
  have hblock : ∀ k < t.2.blocks.length, Ptr.heap k ≠ .heap t.2.blocks.length :=
    fun k hk he => Nat.ne_of_lt hk (Ptr.heap.inj he)
  refine leads_moved h hclean ?_ ?_ ?_ ?_ (Memory.slots_setSlots_of_length hlen₂)
    (fun s hs => by rw [List.eq_of_mem_replicate hs]) ?_ hpos
  · simp [hm₂, Memory.allocate]
  · simp [hm₂, Memory.allocate]
  · intro k hk hdata
    rw [Memory.slots_setSlots_ne (hblock k hk), hm₂, Memory.slots_setSlots_ne (Ne.symm hdata)]
    simp only [Memory.allocate, Memory.slots, List.getD_eq_getElem?_getD, List.getElem?_append_left hk]
  · intro k hdata
    have hold₂ : m₂.slots (.heap k) = old := by
      rw [hm₂, ← hdata, Memory.slots_setSlots_of_length (by rw [hlen, slots_allocate h])]
    rw [← hdata, Memory.slots_setSlots_ne h.data_ne_next, hdata, hold₂]
    exact hold
  · rw [List.length_replicate, Nat.add_sub_cancel' hroom]

/-- A member that grows first, if it has to. -/
theorem runs_grow_or {c : Prop} [Decidable c] (hE : 0 < E.sizeof)
    (hnew : ∀ n s, Runs G (new n) s fun _ _ => True) (h : Contains t.2 d xs) (hclean : t.2.Clean)
    (hgrow : c → Fits E n.toNat ∧ 0 < n ∧ xs.length ≤ n.toNat) :
    Runs G (if c then d.grow E new n else pure d) t (fun d' t' =>
      d'.size = d.size ∧ (d'.capacity = if c then n else d.capacity) ∧ Leads d t.2 xs d' t') := by
  split
  · next hc =>
      obtain ⟨hfits, hpos, hroom⟩ := hgrow hc
      exact runs_grow hE hnew h hclean hfits hpos hroom
  · exact Runs.pure ⟨rfl, rfl, .refl _ _, h⟩

theorem length_le_of_lt (h : Contains m d xs) (hn : d.capacity < n) : 0 < n ∧ xs.length ≤ n.toNat := by
  have hlt : d.capacity.toNat < n.toNat := hn
  have hle : d.size.toNat ≤ d.capacity.toNat := h.size_le
  have hsize := h.size
  exact ⟨UInt64.lt_iff_toNat_lt.mpr (show 0 < n.toNat by omega), by omega⟩

theorem runs_reserve (hE : 0 < E.sizeof) (hnew : ∀ n s, Runs G (new n) s fun _ _ => True)
    (h : Contains t.2 d xs) (hclean : t.2.Clean) (hfits : d.capacity < n → Fits E n.toNat) :
    Runs G (d.reserve E new n) t (Leads d t.2 xs) :=
  (runs_grow_or hE hnew h hclean fun hn => ⟨hfits hn, length_le_of_lt h hn⟩).imp fun _ _ hd => hd.2.2

/-- The two loops of `resize`, of which one does nothing. -/
theorem leads_resized {s : σ} (h : Contains m d xs) (hroom : n ≤ d.capacity) :
    Leads d m (resized E n.toNat xs) { d with size := n } (s,
      (m.each (fun m i => m.construct d.data i E.init) d.size.toNat n.toNat).each
        (fun m i => m.destroy d.data i) n.toNat d.size.toNat) := by
  obtain ⟨raw, hslots, hraw, hlen⟩ := h.storage
  have hroom' : n.toNat ≤ d.capacity.toNat := hroom
  rw [h.size]
  rcases Nat.le_total xs.length n.toNat with hle | hle
  · -- raw slots become objects
    have hlist : resized E n.toNat xs = xs ++ List.replicate (n.toNat - xs.length) E.init := by
      rw [resized, List.take_of_length_le hle]
    have hslots' : m.slots d.data = xs.map object ++ raw.take (n.toNat - xs.length)
        ++ raw.drop (n.toNat - xs.length) := by
      rw [List.append_assoc, List.take_append_drop, hslots]
    have hloop := Memory.each_construct hslots' (fun s hs => hraw s (List.mem_of_mem_take hs)) E.init
    rw [List.length_map, List.length_take, Nat.min_eq_left (by omega), Nat.add_sub_cancel' hle] at hloop
    rw [Memory.each_of_ge _ hle, hlist, hloop, ← List.map_replicate (f := object), ← List.map_append]
    refine h.leads_setSlots rfl rfl ?_ (fun s hs => hraw s (List.mem_of_mem_drop hs)) ?_
    · rw [List.length_append, List.length_replicate, Nat.add_sub_cancel' hle]
    · rw [List.length_append, List.length_replicate, List.length_drop]
      omega
  · -- the objects behind the new end are destroyed
    have hlist : resized E n.toNat xs = xs.take n.toNat := by
      rw [resized, Nat.sub_eq_zero_of_le hle, List.replicate_zero, List.append_nil]
    have hslots' : m.slots d.data = (xs.take n.toNat ++ xs.drop n.toNat).map object ++ raw := by
      rw [List.take_append_drop, hslots]
    have hloop := each_destroy_from hslots'
    rw [List.length_take, List.length_drop, Nat.min_eq_left hle, Nat.add_sub_cancel' hle] at hloop
    rw [Memory.each_of_ge _ hle, hlist, hloop]
    refine h.leads_setSlots rfl rfl (by rw [List.length_take, Nat.min_eq_left hle]) (raw_of_remains hraw) ?_
    rw [List.length_append, List.length_map, List.length_take, List.length_drop]
    omega

theorem resize_eq (E : ElementType T) (new : Nat → Prog σ Unit) (d : Dynarr) (n : UInt64) :
    d.resize E new n = (if d.capacity < n then d.grow E new n else pure d) >>= fun d =>
      touch fun m => ({ d with size := n }, (m.each (fun m i => m.construct d.data i E.init) d.size.toNat
        n.toNat).each (fun m i => m.destroy d.data i) n.toNat d.size.toNat) := by
  unfold resize
  split <;> rfl

theorem runs_resize (hE : 0 < E.sizeof) (hnew : ∀ n s, Runs G (new n) s fun _ _ => True)
    (h : Contains t.2 d xs) (hclean : t.2.Clean) (hfits : d.capacity < n → Fits E n.toNat) :
    Runs G (d.resize E new n) t (Leads d t.2 (resized E n.toNat xs)) := by
  rw [resize_eq]
  refine Runs.bind (runs_grow_or hE hnew h hclean fun hn => ⟨hfits hn, length_le_of_lt h hn⟩) ?_
  rintro d' t' ⟨_, hcap, hleads⟩
  have hroom : n ≤ d'.capacity := by
    rw [hcap]
    split
    · exact UInt64.le_refl n
    · exact UInt64.not_lt.mp ‹_›
  exact runs_touch (hleads.trans (leads_resized hleads.2 hroom))

/-- The new element of `push_back`, in a slot that is there. -/
theorem constructed_eq (h : Contains m d xs) (hroom : d.size < d.capacity) (x : T) :
    ∃ raw, (∀ s ∈ raw, s.live = false) ∧ xs.length + 1 + raw.length = d.capacity.toNat
      ∧ m.construct d.data d.size.toNat x = m.setSlots d.data ((xs ++ [x]).map object ++ raw) := by
  obtain ⟨raw, hslots, hraw, hlen⟩ := h.storage
  have hroom' : d.size.toNat < d.capacity.toNat := hroom
  have hsize := h.size
  obtain ⟨r, raw, rfl⟩ := List.exists_cons_of_length_pos (l := raw) (by omega)
  have hconstruct := Memory.construct_eq hslots (hraw r List.mem_cons_self) x
  have hlist : xs.map object ++ object x :: raw = (xs ++ [x]).map object ++ raw := by simp
  rw [List.length_map, hlist] at hconstruct
  rw [List.length_cons] at hlen
  refine ⟨raw, fun s hs => hraw s (List.mem_cons_of_mem _ hs), by omega, ?_⟩
  rw [hsize, hconstruct]

theorem leads_constructed {s : σ} (h : Contains m d xs) (hroom : d.size < d.capacity) (x : T) :
    Leads d m (xs ++ [x]) { d with size := d.size + 1 } (s, m.construct d.data d.size.toNat x) := by
  obtain ⟨raw, hraw, hlen, hconstruct⟩ := constructed_eq h hroom x
  have hroom' : d.size.toNat < d.capacity.toNat := hroom
  have hnext : (d.size + 1).toNat = xs.length + 1 := by
    have hlt := d.capacity.toNat_lt
    rw [UInt64.toNat_add, UInt64.toNat_one, Nat.mod_eq_of_lt (by omega), h.size]
  rw [hconstruct]
  refine h.leads_setSlots rfl rfl ?_ hraw ?_
  · rw [hnext, List.length_append, List.length_singleton]
  · rw [List.length_append, List.length_singleton, hlen]

theorem lt_doubled (d : Dynarr) : d.capacity.toNat < d.doubled := by
  unfold doubled
  split
  · next hzero =>
      rw [hzero]
      exact Nat.one_pos
  · next hne =>
      have hpos : d.capacity.toNat ≠ 0 := fun he => hne (UInt64.toNat_inj.mp he)
      omega

theorem pushBack_eq (E : ElementType T) (new : Nat → Prog σ Unit) (d : Dynarr) (value : Memory T → T × Memory T) :
    d.pushBack E new value
      = (if d.capacity ≤ d.size then d.grow E new (UInt64.ofNat d.doubled) else pure d) >>= fun d =>
          touch fun m => ({ d with size := d.size + 1 }, (value m).2.construct d.data d.size.toNat (value m).1) := by
  unfold pushBack
  split <;> rfl

/-- `push_back` makes room first. -/
theorem runs_room (hE : 0 < E.sizeof) (hnew : ∀ n s, Runs G (new n) s fun _ _ => True)
    (h : Contains t.2 d xs) (hclean : t.2.Clean) (hfits : d.capacity ≤ d.size → Fits E d.doubled) :
    Runs G (if d.capacity ≤ d.size then d.grow E new (UInt64.ofNat d.doubled) else pure d) t
      (fun d' t' => d'.size < d'.capacity ∧ Leads d t.2 xs d' t') := by
  have hsize := h.size
  have hle : d.size.toNat ≤ d.capacity.toNat := h.size_le
  have hmore := d.lt_doubled
  have hcut : d.capacity ≤ d.size → (UInt64.ofNat d.doubled).toNat = d.doubled := by
    intro hfull
    have hE' : 0 < E.sizeof.toNat := hE
    have hbytes : E.sizeof.toNat * d.doubled < 2 ^ 64 := hfits hfull
    have hone : d.doubled ≤ E.sizeof.toNat * d.doubled := Nat.le_mul_of_pos_left _ hE'
    exact UInt64.toNat_ofNat_of_lt' (show d.doubled < 2 ^ 64 by omega)
  refine (runs_grow_or hE hnew h hclean fun hfull => ⟨?_, ?_, ?_⟩).imp fun d' t' hd => ⟨?_, hd.2.2⟩
  · rw [hcut hfull]
    exact hfits hfull
  · rw [UInt64.lt_iff_toNat_lt, hcut hfull]
    exact Nat.lt_of_le_of_lt (Nat.zero_le _) hmore
  · rw [hcut hfull]
    omega
  · rw [UInt64.lt_iff_toNat_lt, hd.1, hd.2.1]
    split
    · next hfull =>
        rw [hcut hfull]
        omega
    · next hroom => exact UInt64.lt_iff_toNat_lt.mp (UInt64.not_le.mp hroom)

/-! ## The end of an array -/

/-- Storage with no object in it is given back. -/
theorem leads_deleted {s : σ} (h : Contains m d []) : Leads d m [] .empty (s, m.delete d.data) := by
  refine ⟨⟨⟨?_, fun k hk hown => ⟨fun he => Ptr.noConfusion (block_eq_some.mp he), ?_⟩,
    fun k hk hown => Or.inr ?_⟩, fun hclean => ?_⟩,
    .empty _⟩
  · simp only [Memory.stock, Memory.blocks_delete, Nat.le_refl]
  · have hdata : d.data ≠ .heap k := fun he => hown (block_eq_some.mpr he)
    simp only [Memory.stock, Memory.slots_delete, Memory.count_delete_of_ne hdata]
  · simp only [Memory.stock, Memory.blocks_delete] at hk hown ⊢
    have hdata := block_eq_some.mp (hown.resolve_right (Nat.not_le.mpr hk))
    obtain ⟨_, l, _, hd, hkept⟩ := h.own.resolve_left (by rw [hdata]; exact Ptr.noConfusion)
    obtain rfl : k = l := Ptr.heap.inj (hdata.symm.trans hd)
    obtain ⟨raw, hslots, hraw, _⟩ := h.storage
    rw [hdata, List.map_nil, List.nil_append] at hslots
    refine ⟨?_, ?_⟩
    · simpa only [Memory.slots_delete, hslots] using hraw
    · rw [hdata, Memory.count_delete, List.count_eq_zero.mpr hkept]
  · refine hclean.delete (h.own.imp_right ?_)
    rintro ⟨_, k, hk, hd, _⟩
    exact ⟨k, hk, hd⟩

/-- `~dynarr()`. -/
theorem runs_destruct (h : Contains t.2 d xs) :
    Runs G d.destruct t (fun _ t' => Leads d t.2 [] .empty t') := by
  refine Runs.bind (runs_clear h) ?_
  rintro d' t' ⟨rfl, hleads⟩
  refine runs_touch (hleads.trans ?_)
  -- an array without capacity has no storage either
  have hdelete : (if 0 < d.capacity then t'.2.delete d.data else t'.2) = t'.2.delete d.data := by
    split
    · rfl
    · next hzero =>
        have hnull : d.data = .null := h.own.resolve_right fun hown => hzero hown.1
        rw [hnull]
        rfl
  rw [hdelete]
  exact leads_deleted hleads.2

/-- What `*this = move(other)` does to the array assigned to, before it takes over the other's storage. -/
theorem runs_assignMove {e : Dynarr} (h : Contains t.2 d xs) :
    Runs G (d.assignMove e) t (fun r t' => r = (e, .empty) ∧ Leads d t.2 [] .empty t') := by
  refine Runs.bind (runs_clear h) ?_
  rintro d' t' ⟨rfl, hleads⟩
  exact runs_touch ⟨rfl, hleads.trans (leads_deleted hleads.2)⟩

end Dynarr

end AlopexOS.Arr
