import AlopexOS.Arr.Dynarr
import AlopexOS.Kernel.HeapSizes

/-!
# `Arr.Growth` — how much storage a request gets (`src/kernel/new.cpp`, `src/include/arr.hpp`)

Two 64-bit computations lie between a number of elements and a block: the product in `grow` and the
rounding in `alignUp`. When one of them wraps, the request is for less than what was meant, and a block
that is large enough for the request is not large enough for the elements.

## Contents
- **Requests.** The recorded size of the block, and when it is enough.
- **`operator new`** on the kernel heap, and `grow` with it.
-/

namespace AlopexOS.Arr

open Prog Heap HeapState Client

/-! ## Requests -/

variable {B : HeapBuffer} {fuel : Nat} {c : Client} {size : UInt64} {meant : Nat}

/-- No block of the list is large enough for the request. -/
def Exhausted (B : HeapBuffer) (fuel : Nat) (h : HeapState) (size : UInt64) : Prop :=
  ∀ b, isInFreeList fuel (initHeap B h) b = some true → (initHeap B h).get .size b < requestSize size

/-- The request returns null, or a block with so many bytes at least. -/
def Enough (B : HeapBuffer) (fuel : Nat) (h : HeapState) (size : UInt64) (meant : Nat) : Prop :=
  ∀ p h', allocateMemory B fuel size h = some (p, h') → p ≠ 0 → meant ≤ h'.get .size (p - headerSize)

/-- The block taken is as large as the request, and no larger than it was. -/
theorem size_taken {h : HeapState} {blocks free : List Nat} {b n : Nat} (hi : Inv B h blocks free)
    (hb : b ∈ free) (hn : n ≤ h.get .size b) :
    n ≤ (takeBlock h b n).get .size b ∧ (takeBlock h b n).get .size b ≤ h.get .size b := by
  rcases takeBlock_cases hi hb hn with ⟨l₁, l₂, _, _, _, _, _, _, _, hsize⟩ | ⟨_, _, _, _, _, hsize⟩
  · rw [hsize b (by simp), if_pos rfl]
    exact ⟨Nat.le_refl n, hn⟩
  · rw [hsize b (hi.free_subset b hb)]
    exact ⟨hn, Nat.le_refl _⟩

/-- **What a request gets is enough** when what was meant does not wrap, or when it gets nothing. -/
theorem enough_iff {blocks free : List Nat} (hok : c.Ok B blocks free)
    (hfuel : heapSize / headerSize < fuel) (hmeant : meant % 2 ^ 64 = size.toNat) :
    Enough B fuel c.heap size meant ↔ meant ≤ 2 ^ 64 - 16 ∨ Exhausted B fuel c.heap size := by
  -- the heap that the request works on
  have hinit : allocateMemory B fuel size c.heap = allocateMemory B fuel size (initHeap B c.heap) := by
    unfold allocateMemory
    rw [initHeap_of_initialized (h := initHeap B c.heap) heapInitialized_initHeap]
  obtain ⟨blocks₀, free₀, hi⟩ : ∃ blocks free, Inv B (initHeap B c.heap) blocks free := by
    rcases hok.initHeap_cases with ⟨_, he⟩ | ⟨_, _, hi⟩
    · rw [he]
      exact ⟨blocks, free, hok.inv⟩
    · exact ⟨_, _, hi⟩
  have hin := fun b => isInFreeList_eq (t := b) hi.linked (Nat.lt_of_le_of_lt hi.length_free_le hfuel)
  unfold Enough
  rw [hinit]
  rcases allocateMemory_eq size hi heapInitialized_initHeap hfuel with ⟨he, hall⟩ | ⟨b, hbf, hle, he⟩
  · constructor
    · intro _
      refine Or.inr fun b hb => hall b ?_
      rw [hin b] at hb
      exact of_decide_eq_true (Option.some.inj hb)
    · intro _ p h' ha hp
      rw [he] at ha
      exact absurd (Prod.mk.inj (Option.some.inj ha)).1.symm hp
  · obtain ⟨hlow, hhigh⟩ := size_taken hi hbf hle
    have hbound := hi.bounds (hi.free_subset b hbf)
    have hpos := B.pos
    have hheap : heapSize ≤ 2 ^ 64 - 16 := by decide
    constructor
    · intro henough
      -- the block lies in the buffer, so what was meant fits there as well
      have hle' := henough _ _ he (by omega)
      rw [Nat.add_sub_cancel] at hle'
      exact Or.inl (by omega)
    · rintro (hsmall | hex) p h' ha _
      · obtain ⟨rfl, rfl⟩ := Prod.mk.inj (Option.some.inj (he.symm.trans ha))
        rw [Nat.add_sub_cancel]
        -- nothing wraps, so the request is for what was meant
        have hsame : meant = size.toNat := by omega
        have hround : size.toNat ≤ requestSize size := le_requestSize (by omega)
        omega
      · have hfree : isInFreeList fuel (initHeap B c.heap) b = some true := by
          rw [hin b, decide_eq_true hbf]
        exact absurd (hex b hfree) (Nat.not_lt.mpr hle)

/-! ## `operator new` -/

/-- `operator new`: a pointer the client holds from then on, or the machine halts. -/
def operatorNew (B : HeapBuffer) (fuel : Nat) (bytes : Nat) : Prog Client Unit :=
  ⟨fun c =>
    match allocateMemory B fuel (UInt64.ofNat bytes) c.heap with
    | none => (.error .hang, c)
    | some (p, h) =>
        if p = 0 then (.error .hang, { c with heap := h }) else (.ok (), ⟨h, p :: c.live⟩)⟩

theorem operatorNew_eq_ok {c' : Client} :
    (operatorNew B fuel size.toNat).run c = (.ok (), c') ↔
      ∃ p h', allocateMemory B fuel size c.heap = some (p, h') ∧ p ≠ 0 ∧ c' = ⟨h', p :: c.live⟩ := by
  unfold operatorNew
  simp only [UInt64.ofNat_toNat]
  rcases allocateMemory B fuel size c.heap with _ | ⟨p, h'⟩
  · simp
  · by_cases hp : p = 0
    · simp [hp]
    · simp [hp, eq_comm]

variable {T : Type}

/-- The storage that `grow` continues with holds so many elements. -/
def Holds (B : HeapBuffer) (fuel : Nat) (E : ElementType T) (d : Dynarr) (newCap : UInt64) (c : Client)
    (m : Memory T) : Prop :=
  ∀ d' c' m', (d.grow E (operatorNew B fuel) newCap).run (c, m) = (.ok d', (c', m')) →
    ∃ p, c'.live = p :: c.live ∧ E.sizeof.toNat * newCap.toNat ≤ c'.heap.get .size (p - headerSize)

/-- `grow` continues exactly when `operator new` does. -/
theorem holds_iff {E : ElementType T} {d : Dynarr} {newCap : UInt64} {m : Memory T} :
    Holds B fuel E d newCap c m ↔
      Enough B fuel c.heap (E.sizeof * newCap) (E.sizeof.toNat * newCap.toNat) := by
  constructor
  · intro hholds p h' ha hp
    have hnew := operatorNew_eq_ok.mpr ⟨p, h', ha, hp, rfl⟩
    have hgrow := hholds _ _ _ (by
      unfold Dynarr.grow
      rw [run_bind, zoom_ok (L := .fst) (t := (c, m)) hnew]
      rfl)
    obtain ⟨q, hlive, hle⟩ := hgrow
    obtain rfl : p = q := (List.cons.inj hlive).1
    exact hle
  · intro henough d' c' m' hrun
    obtain ⟨_, ⟨c₁, m₁⟩, hnew, hrest⟩ := bind_eq_ok hrun
    obtain ⟨hnew, -⟩ := zoom_eq_ok hnew
    obtain ⟨p, h', ha, hp, he⟩ := operatorNew_eq_ok.mp hnew
    obtain rfl : c₁ = c' := congrArg (fun t => t.2.1) hrest
    obtain rfl : c₁ = ⟨h', p :: c.live⟩ := he
    exact ⟨p, rfl, henough p h' ha hp⟩

/-- **A request is never served with less than was meant**, exactly when what was meant is at most
    `2 ^ 64 - 16` bytes or no free block is large enough for what is left of it. -/
theorem storage_enough_iff {m : Packed.Mem}
    (hz : ∀ i, B.start ≤ i → i < B.start + heapSize → m i = 0) (hfuel : heapSize / headerSize < fuel)
    (hr : Reachable B fuel m c) :
    (∀ size : UInt64, Enough B fuel c.heap size size.toNat ↔
      size.toNat ≤ 2 ^ 64 - 16 ∨ Exhausted B fuel c.heap size)
    ∧ ∀ (T : Type) (E : ElementType T) (d : Dynarr) (newCap : UInt64) (mem : Memory T),
        Holds B fuel E d newCap c mem ↔
          E.sizeof.toNat * newCap.toNat ≤ 2 ^ 64 - 16 ∨ Exhausted B fuel c.heap (E.sizeof * newCap) := by
  obtain ⟨blocks, free, hok⟩ := hr.ok hz hfuel
  constructor
  · intro size
    exact enough_iff hok hfuel (Nat.mod_eq_of_lt size.toNat_lt)
  · intro T E d newCap mem
    rw [holds_iff]
    exact enough_iff hok hfuel (UInt64.toNat_mul _ _).symm

theorem grow_to_hundred :
    Holds lowBuffer (heapSize / headerSize + 1) (⟨8, 0, id⟩ : ElementType UInt64) ⟨.null, 0, 0⟩ 100
      ⟨atBoot fun _ => 0, []⟩ ⟨[], [], []⟩ :=
  ((storage_enough_iff (fun _ _ _ => rfl) (Nat.lt_succ_self _) .boot).2 _ _ _ _ _).mpr
    (Or.inl (by decide))

/-- **A request for all but a byte of the address space** gets one byte. -/
theorem not_always_enough :
    ¬ ∀ (B : HeapBuffer) (fuel : Nat) (m : Packed.Mem) (c : Client),
      (∀ i, B.start ≤ i → i < B.start + heapSize → m i = 0) → heapSize / headerSize < fuel →
      Reachable B fuel m c →
      (∀ size : UInt64, Enough B fuel c.heap size size.toNat)
      ∧ ∀ (T : Type) (E : ElementType T) (d : Dynarr) (newCap : UInt64) (mem : Memory T),
          0 < E.sizeof → Holds B fuel E d newCap c mem := by
  intro hall
  have hfuel : heapSize / headerSize < heapSize / headerSize + 1 := Nat.lt_succ_self _
  have henough := (hall lowBuffer _ _ _ (fun _ _ _ => rfl) hfuel Reachable.boot).1 0xFFFFFFFFFFFFFFFF
  have halloc : (allocateMemory lowBuffer (heapSize / headerSize + 1) 0xFFFFFFFFFFFFFFFF (atBoot fun _ => 0)).map
      (fun r => (r.1, r.2.get .size (r.1 - headerSize))) = some (48, 1) := by decide +kernel
  obtain ⟨⟨p, h'⟩, ha, hr⟩ := Option.map_eq_some_iff.mp halloc
  obtain ⟨hp, hsize⟩ := Prod.mk.inj hr
  have hle := henough p h' ha fun he => absurd (hp.symm.trans he) (by decide)
  rw [hsize] at hle
  exact absurd hle (by decide)

end AlopexOS.Arr
