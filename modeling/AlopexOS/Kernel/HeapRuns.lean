import AlopexOS.Kernel.HeapInvariant
import AlopexOS.Lib.Run

/-!
# `Kernel.HeapRuns` — every run of `operator new` and `operator delete`

A client asks for blocks, gives back blocks it was given, and writes into the blocks it holds. In every
state such a client can bring about, the heap is well formed and the next request returns.

## Contents
- **Start.** The static buffer, all zero, is already a (useless) tiling; `initHeap` replaces it.
- **Requests.** What `allocateMemory` and `freeMemory` do to a well-formed heap.
- **Runs.** `Client`, `Reachable`, `Calls`, and the invariant of reachable states.
-/

namespace AlopexOS.Heap

open Packed Tiling DList HeapState

variable {B : HeapBuffer} {h : HeapState} {blocks free : List Nat}

/-! ## Start -/

/-- The state before the first request: static storage is zero. -/
def atBoot (m : Mem) : HeapState := { mem := m, freeListHead := 0, heapInitialized := false }

/-- A zero buffer reads as headers of empty blocks in use. -/
theorem inv_atBoot {m : Mem} (hz : ∀ i, B.start ≤ i → i < B.start + heapSize → m i = 0) :
    ∃ blocks, Inv B (atBoot m) blocks [] := by
  have hzero : ∀ f a, B.start ≤ a → a + headerSize ≤ B.start + heapSize →
      (atBoot m).get f a = 0 := by
    intro f a ha hle
    apply load_zero
    intro i hi hlt
    apply hz i (by omega)
    unfold headerSize at hle
    cases f <;> simp only [HeaderField.off, HeaderField.width] at hlt <;> omega
  obtain ⟨k, hk⟩ : ∃ k, heapSize = k * headerSize := ⟨heapSize / headerSize, by decide⟩
  have hmem : ∀ i, i < k → B.start + i * headerSize + headerSize ≤ B.start + heapSize := by
    intro i hi
    have := Nat.mul_le_mul_right headerSize hi
    rw [Nat.succ_mul] at this
    omega
  have htiles : Tiles (blockEnd (atBoot m)) B.start ((List.range k).map fun i => B.start + i * headerSize)
      (B.start + k * headerSize) := by
    apply Tiles.uniform (by decide)
    intro i hi
    unfold blockEnd
    rw [hzero .size _ (Nat.le_add_right _ _) (hmem i hi), Nat.succ_mul]
    omega
  rw [← hk] at htiles
  refine ⟨_, htiles, ⟨rfl, by simp, List.nodup_nil, trivial⟩, ?_⟩
  intro a
  simp only [List.not_mem_nil, false_iff, not_and, ne_eq, not_not, List.mem_map, List.mem_range]
  rintro ⟨i, hi, rfl⟩
  exact hzero .isFree _ (Nat.le_add_right _ _) (hmem i hi)

theorem get_initHeap (hb : h.heapInitialized = false) (f : HeaderField) :
    (initHeap B h).get f B.start =
      match f with
      | .size => heapSize - headerSize
      | .isFree => 1
      | .next => 0
      | .prev => 0 := by
  have hself : SameOrApart B.start B.start := Or.inl rfl
  have hlt : heapSize - headerSize < 2 ^ 64 := by decide
  cases f <;> simp [initHeap, hb, get_set _ _ hself, HeaderField.width]
  exact hlt

theorem freeListHead_initHeap (hb : h.heapInitialized = false) :
    (initHeap B h).freeListHead = B.start := by
  simp [initHeap, hb]

/-- **`initHeap`** turns the buffer into one free block. -/
theorem inv_initHeap (hb : h.heapInitialized = false) :
    Inv B (initHeap B h) [B.start] [B.start] := by
  have hget := get_initHeap (B := B) hb
  have hpos := B.pos
  refine ⟨⟨rfl, ?_, ?_⟩, ⟨?_, ?_, List.nodup_singleton _, hget .prev, hget .next, trivial⟩, ?_⟩
  · unfold blockEnd headerSize
    omega
  · show blockEnd _ _ = _
    unfold blockEnd
    rw [hget .size]
    have hle : headerSize ≤ heapSize := by decide
    show B.start + headerSize + (heapSize - headerSize) = _
    omega
  · rw [freeListHead_initHeap hb]
    rfl
  · rw [List.mem_singleton]
    omega
  · intro a
    simp only [List.mem_singleton]
    refine ⟨?_, fun ha => ha.1⟩
    rintro rfl
    rw [hget .isFree]
    exact ⟨rfl, by decide⟩

theorem initHeap_of_initialized (hb : h.heapInitialized = true) : initHeap B h = h := if_pos hb

@[simp] theorem heapInitialized_initHeap : (initHeap B h).heapInitialized = true := by
  unfold initHeap
  split
  · assumption
  · rfl

/-! ## Requests -/

@[simp] theorem heapInitialized_addToFreeList {x : Nat} :
    (addToFreeList h x).heapInitialized = h.heapInitialized := by
  simp only [addToFreeList, heapInitialized_setHead, apply_ite HeapState.heapInitialized,
    heapInitialized_set, ite_self]

@[simp] theorem heapInitialized_removeFromFreeList {x : Nat} :
    (removeFromFreeList h x).heapInitialized = h.heapInitialized := by
  simp only [removeFromFreeList, heapInitialized_setHead, apply_ite HeapState.heapInitialized,
    heapInitialized_set, ite_self]

@[simp] theorem heapInitialized_takeBlock {x n : Nat} :
    (takeBlock h x n).heapInitialized = h.heapInitialized := by
  simp only [takeBlock, cutBlock, heapInitialized_set, heapInitialized_removeFromFreeList,
    apply_ite HeapState.heapInitialized, heapInitialized_addToFreeList, ite_self]

theorem heapInitialized_coalesce {fuel x : Nat} {h' : HeapState}
    (hc : coalesce B fuel h x = some h') : h'.heapInitialized = h.heapInitialized := by
  unfold coalesce at hc
  dsimp only at hc
  split at hc
  · split at hc
    · split at hc
      · cases hc
      · cases hc
        simp only [heapInitialized_set, heapInitialized_removeFromFreeList]
      · cases hc
        rfl
    · cases hc
      rfl
  · cases hc
    rfl

/-- The rounded request. -/
def requestSize (size : UInt64) : Nat := if alignUp size < 1 then 1 else (alignUp size).toNat

/-- What a request returns: null, or the payload of a block of the list that is taken. -/
theorem allocateMemory_eq {fuel : Nat} (size : UInt64) (hi : Inv B h blocks free)
    (hb : h.heapInitialized = true) (hfuel : heapSize / headerSize < fuel) :
    (allocateMemory B fuel size h = some (0, h) ∧ ∀ b ∈ free, h.get .size b < requestSize size)
    ∨ ∃ b ∈ free, requestSize size ≤ h.get .size b ∧
        allocateMemory B fuel size h = some (b + headerSize, takeBlock h b (requestSize size)) := by
  unfold allocateMemory
  simp only [initHeap_of_initialized hb]
  rcases findFit_of_seg (n := requestSize size) hi.linked.seg hi.linked.2.1 hi.linked.1
      (Nat.lt_of_le_of_lt hi.length_free_le hfuel) with ⟨he, hall⟩ | ⟨b, hbf, he, hle⟩
  · unfold requestSize at he
    rw [he]
    exact Or.inl ⟨rfl, fun b hbf => hall b hbf ((hi.isFree b).mp hbf).2⟩
  · unfold requestSize at he
    rw [he]
    simp only [hi.linked.ne_zero hbf, if_false]
    exact Or.inr ⟨b, hbf, hle, rfl⟩

/-- **A request returns**: null when nothing in the list is large enough, else the payload of a block that
    was free and is now in use. -/
theorem allocateMemory_spec {fuel : Nat} (size : UInt64) (hi : Inv B h blocks free)
    (hb : h.heapInitialized = true) (hfuel : heapSize / headerSize < fuel) :
    (allocateMemory B fuel size h = some (0, h) ∧ ∀ b ∈ free, h.get .size b < requestSize size)
    ∨ ∃ b ∈ free, requestSize size ≤ h.get .size b ∧ ∃ h' blocks' free',
        allocateMemory B fuel size h = some (b + headerSize, h') ∧ Inv B h' blocks' free'
          ∧ h'.heapInitialized = true ∧ Keeps h blocks h' blocks' ∧ b ∈ blocks'
          ∧ h'.get .isFree b = 0 := by
  rcases allocateMemory_eq size hi hb hfuel with hnull | ⟨b, hbf, hle, he⟩
  · exact Or.inl hnull
  · obtain ⟨blocks', free', hi', hkeep, hmem, hused⟩ := inv_takeBlock hi hbf hle
    exact Or.inr ⟨b, hbf, hle, _, blocks', free', he, hi', by simp [hb], hkeep, hmem, hused⟩

/-- **Giving a block back returns**, and the other blocks in use are kept. -/
theorem freeMemory_spec {fuel b : Nat} (hi : Inv B h blocks free) (hbb : b ∈ blocks)
    (hused : h.get .isFree b = 0) (hfuel : heapSize / headerSize < fuel) :
    ∃ h' blocks' free', freeMemory B fuel (b + headerSize) h = some h' ∧ Inv B h' blocks' free'
      ∧ h'.heapInitialized = h.heapInitialized
      ∧ ∀ c ∈ blocks, c ≠ b → h.get .isFree c = 0 →
          c ∈ blocks' ∧ h'.get .isFree c = 0 ∧ h'.get .size c = h.get .size c := by
  have hadd := inv_addToFreeList hi hbb hused
  obtain ⟨h', blocks', free', hc, hi', hkeep⟩ := inv_coalesce hadd (x := b) (by simp) hfuel
  refine ⟨h', blocks', free', ?_, hi', ?_, ?_⟩
  · unfold freeMemory
    have hne : b + headerSize ≠ 0 := by
      have := hi.ne_zero hbb
      omega
    simp only [hne, if_false, Nat.add_sub_cancel, hused, ne_eq, not_true_eq_false]
    exact hc
  · rw [heapInitialized_coalesce hc, heapInitialized_addToFreeList]
  · intro c hcb hne hf
    obtain ⟨hf', hs'⟩ := keeps_addToFreeList hi hbb hused c hcb hne hf
    obtain ⟨hm, hf'', hs''⟩ := hkeep c hcb hf'
    exact ⟨hm, hf'', hs''.trans hs'⟩

/-- A request for more than the buffer holds is refused, whatever the history. -/
theorem allocateMemory_null_of_large {fuel : Nat} {size : UInt64} (hi : Inv B h blocks free)
    (hb : h.heapInitialized = true) (hfuel : heapSize / headerSize < fuel)
    (hlarge : heapSize - headerSize < requestSize size) :
    allocateMemory B fuel size h = some (0, h) := by
  rcases allocateMemory_spec size hi hb hfuel with ⟨he, _⟩ | ⟨b, hbf, hle, _⟩
  · exact he
  · have := hi.bounds (hi.free_subset b hbf)
    omega

/-! ## Runs -/

/-- The heap and the pointers its client holds. -/
structure Client where
  heap : HeapState
  live : List Nat

/-- What a client does next. -/
inductive HeapOp where
  | new (size : UInt64)
  | delete (ptr : Nat)
  | write (addr : Nat) (value : UInt8)

namespace Client

/-- Only null or a pointer that is held is given back, and only held blocks are written into. -/
def Allowed (c : Client) : HeapOp → Prop
  | .new _ => True
  | .delete p => p = 0 ∨ p ∈ c.live
  | .write a _ => ∃ p ∈ c.live, p ≤ a ∧ a < p + c.heap.get .size (p - headerSize)

/-- One operation; `none` when a traversal of the free list does not end. A request that fails gives the
    client nothing. -/
def step (B : HeapBuffer) (fuel : Nat) (c : Client) : HeapOp → Option Client
  | .new size =>
      match allocateMemory B fuel size c.heap with
      | none => none
      | some (p, h) => some ⟨h, if p = 0 then c.live else p :: c.live⟩
  | .delete p =>
      match freeMemory B fuel p c.heap with
      | none => none
      | some h => some ⟨h, c.live.erase p⟩
  | .write a v => some ⟨{ c.heap with mem := store c.heap.mem a 1 v.toNat }, c.live⟩

/-- The pointers held are payloads of distinct blocks in use. -/
structure Ok (B : HeapBuffer) (c : Client) (blocks free : List Nat) : Prop where
  inv : Inv B c.heap blocks free
  nodup : c.live.Nodup
  used : ∀ p ∈ c.live, ∃ b ∈ blocks, p = b + headerSize ∧ c.heap.get .isFree b = 0
  initialized : c.live ≠ [] → c.heap.heapInitialized = true

/-- The states a client can bring about from boot, when memory starts as `m`. -/
inductive Reachable (B : HeapBuffer) (fuel : Nat) (m : Mem) : Client → Prop
  | boot : Reachable B fuel m ⟨atBoot m, []⟩
  | step {c c' : Client} (op : HeapOp) (hr : Reachable B fuel m c) (ha : c.Allowed op)
      (hs : c.step B fuel op = some c') : Reachable B fuel m c'

/-- One call of `operator new` or `operator delete`, or a write into a block that is held. -/
def Calls (B : HeapBuffer) (fuel : Nat) (c : Client) (op : HeapOp) (c' : Client) : Prop :=
  c.Allowed op ∧ c.step B fuel op = some c'

theorem reachable_of_run {B : HeapBuffer} {fuel : Nat} {m : Mem} {ops : List HeapOp} {c : Client}
    (h : Run (Calls B fuel) ⟨atBoot m, []⟩ ops c) : Reachable B fuel m c :=
  h.invariant (fun _ op _ hs hr => hr.step op hs.1 hs.2) .boot

/-- The step, when it is a request or gives back a pointer that is held. -/
def call (B : HeapBuffer) (fuel : Nat) (c : Client) : HeapOp → Option Client
  | .new size => c.step B fuel (.new size)
  | .delete p => if p ∈ c.live then c.step B fuel (.delete p) else none
  | .write _ _ => none

theorem calls_of_call {B : HeapBuffer} {fuel : Nat} {c c' : Client} {op : HeapOp}
    (h : c.call B fuel op = some c') : c.Calls B fuel op c' := by
  cases op with
  | new size => exact ⟨trivial, h⟩
  | delete p =>
      simp only [call] at h
      split at h
      · rename_i hp
        exact ⟨Or.inr hp, h⟩
      · cases h
  | write a v => cases h

end Client

/-- Headers of blocks, and the list, only read the headers' own bytes. -/
theorem Inv.congr {h' : HeapState} (hi : Inv B h blocks free)
    (hget : ∀ f, ∀ b ∈ blocks, h'.get f b = h.get f b) (hhead : h'.freeListHead = h.freeListHead) :
    Inv B h' blocks free := by
  refine ⟨?_, ?_, ?_⟩
  · apply hi.tiles.congr
    intro b hb
    unfold blockEnd
    rw [hget .size b hb]
  · rw [hhead]
    exact hi.linked.congr (fun b hb => hget .next b (hi.free_subset b hb))
      (fun b hb => hget .prev b (hi.free_subset b hb))
  · intro b
    rw [hi.isFree b]
    by_cases hb : b ∈ blocks
    · rw [hget .isFree b hb]
    · simp only [hb, false_and]

namespace Client

variable {c : Client} {fuel : Nat}

theorem step_new {size : UInt64} {p : Nat} {h' : HeapState}
    (ha : allocateMemory B fuel size c.heap = some (p, h')) :
    c.step B fuel (.new size) = some ⟨h', if p = 0 then c.live else p :: c.live⟩ := by
  simp only [step, ha]

theorem step_delete {p : Nat} {h' : HeapState} (hf : freeMemory B fuel p c.heap = some h') :
    c.step B fuel (.delete p) = some ⟨h', c.live.erase p⟩ := by
  simp only [step, hf]

theorem step_new_initHeap (size : UInt64) :
    c.step B fuel (.new size) = step B fuel ⟨initHeap B c.heap, c.live⟩ (.new size) := by
  simp only [step, allocateMemory, initHeap_of_initialized heapInitialized_initHeap]

theorem Ok.new_of_initialized (hok : c.Ok B blocks free) (hb : c.heap.heapInitialized = true)
    (hfuel : heapSize / headerSize < fuel) (size : UInt64) :
    ∃ c' blocks' free', c.step B fuel (.new size) = some c' ∧ c'.Ok B blocks' free' := by
  rcases allocateMemory_spec size hok.inv hb hfuel with
    ⟨he, _⟩ | ⟨b, hbf, _, h', blocks', free', he, hi', hb', hkeep, hmem, hused⟩
  · exact ⟨c, blocks, free, step_new he, hok⟩
  · refine ⟨⟨h', (b + headerSize) :: c.live⟩, blocks', free', ?_, hi', ?_, ?_, fun _ => hb'⟩
    · rw [step_new he]
      have hne : b + headerSize ≠ 0 := by
        have := hok.inv.linked.ne_zero hbf
        omega
      simp only [hne, if_false]
    · -- the block was free, so no pointer held is its payload
      refine List.nodup_cons.mpr ⟨?_, hok.nodup⟩
      intro hm
      obtain ⟨b', hb', he', hf'⟩ := hok.used _ hm
      have : b' = b := by omega
      subst this
      exact hok.inv.not_free hf' hbf
    · intro p hp
      rcases List.mem_cons.mp hp with hp | hp
      · exact ⟨b, hmem, hp, hused⟩
      · obtain ⟨b', hb', he', hf'⟩ := hok.used p hp
        obtain ⟨hm', hf'', _⟩ := hkeep b' hb' hf'
        exact ⟨b', hm', he', hf''⟩

/-- **`operator new`** returns, and the heap stays well formed. -/
theorem Ok.new (hok : c.Ok B blocks free) (hfuel : heapSize / headerSize < fuel) (size : UInt64) :
    ∃ c' blocks' free', c.step B fuel (.new size) = some c' ∧ c'.Ok B blocks' free' := by
  by_cases hb : c.heap.heapInitialized = true
  · exact hok.new_of_initialized hb hfuel size
  · -- the first request: nothing is held yet
    have hnil : c.live = [] := by
      by_contra hne
      exact hb (hok.initialized hne)
    have hok' : Ok B ⟨initHeap B c.heap, c.live⟩ [B.start] [B.start] := by
      refine ⟨inv_initHeap (by simpa using hb), hok.nodup, ?_, fun _ => heapInitialized_initHeap⟩
      intro p hp
      rw [hnil] at hp
      exact absurd hp List.not_mem_nil
    rw [step_new_initHeap]
    exact hok'.new_of_initialized heapInitialized_initHeap hfuel size

/-- **`operator delete`** returns, and the heap stays well formed. -/
theorem Ok.delete (hok : c.Ok B blocks free) (hfuel : heapSize / headerSize < fuel) {p : Nat}
    (hp : p = 0 ∨ p ∈ c.live) :
    ∃ c' blocks' free', c.step B fuel (.delete p) = some c' ∧ c'.Ok B blocks' free' := by
  by_cases hmem : p ∈ c.live
  · obtain ⟨b, hbb, rfl, hused⟩ := hok.used p hmem
    obtain ⟨h', blocks', free', he, hi', hb', hkeep⟩ := freeMemory_spec hok.inv hbb hused hfuel
    refine ⟨_, blocks', free', step_delete he, hi', hok.nodup.erase _, ?_, ?_⟩
    · intro q hq
      obtain ⟨hne, hql⟩ := hok.nodup.mem_erase_iff.mp hq
      obtain ⟨b', hbb', rfl, hf'⟩ := hok.used q hql
      have hbne : b' ≠ b := by
        rintro rfl
        exact hne rfl
      obtain ⟨hm, hf'', _⟩ := hkeep b' hbb' hbne hf'
      exact ⟨b', hm, rfl, hf''⟩
    · intro _
      rw [hb']
      exact hok.initialized (List.ne_nil_of_mem hmem)
  · -- null is not held, and giving it back does nothing
    obtain rfl : p = 0 := hp.resolve_right hmem
    refine ⟨c, blocks, free, ?_, hok⟩
    have hfree : freeMemory B fuel 0 c.heap = some c.heap := by simp only [freeMemory, if_true]
    rw [step_delete hfree, List.erase_of_not_mem hmem]

/-- A write into a held block meets no header. -/
theorem Ok.get_write (hok : c.Ok B blocks free) {a : Nat} (v : UInt8) (ha : c.Allowed (.write a v))
    (f : HeaderField) {x : Nat} (hx : x ∈ blocks) :
    HeapState.get { c.heap with mem := store c.heap.mem a 1 v.toNat } f x = c.heap.get f x := by
  obtain ⟨p, hp, hle, hlt⟩ := ha
  obtain ⟨b, hbb, rfl, _⟩ := hok.used p hp
  rw [Nat.add_sub_cancel] at hlt
  apply get_congr
  intro i hi hi'
  -- a header is that of the block written into, or lies outside of it
  have hblock : x = b ∨ x + headerSize ≤ b ∨ b + headerSize + c.heap.get .size b ≤ x := by
    by_cases hxb : x = b
    · exact Or.inl hxb
    · have := Inv.header_le_blockEnd c.heap x
      rcases hok.inv.tiles.disjoint hx hbb hxb with hd | hd
      · omega
      · exact Or.inr (Or.inr hd)
  by_cases hia : i < a
  · exact store_of_lt hia
  · exact store_of_ge (by omega)

theorem Ok.write (hok : c.Ok B blocks free) (fuel : Nat) {a : Nat} (v : UInt8) (ha : c.Allowed (.write a v)) :
    ∃ c', c.step B fuel (.write a v) = some c' ∧ c'.Ok B blocks free := by
  have hget := fun f x (hx : x ∈ blocks) => hok.get_write v ha f hx
  refine ⟨_, rfl, hok.inv.congr hget rfl, hok.nodup, ?_, hok.initialized⟩
  intro q hq
  obtain ⟨b', hbb', he, hf⟩ := hok.used q hq
  exact ⟨b', hbb', he, (hget .isFree b' hbb').trans hf⟩

/-- **The invariant of reachable states.** -/
theorem Reachable.ok {m : Mem} (hz : ∀ i, B.start ≤ i → i < B.start + heapSize → m i = 0)
    (hfuel : heapSize / headerSize < fuel) (hr : Reachable B fuel m c) :
    ∃ blocks free, c.Ok B blocks free := by
  induction hr with
  | boot =>
      obtain ⟨blocks, hi⟩ := inv_atBoot hz
      exact ⟨blocks, [], hi, List.nodup_nil, by simp, by simp⟩
  | @step c c' op hr ha hs ih =>
      obtain ⟨blocks, free, hok⟩ := ih
      cases op with
      | new size =>
          obtain ⟨d, blocks', free', hd, hok'⟩ := hok.new hfuel size
          obtain rfl : d = c' := Option.some.inj (hd.symm.trans hs)
          exact ⟨blocks', free', hok'⟩
      | delete p =>
          obtain ⟨d, blocks', free', hd, hok'⟩ := hok.delete hfuel ha
          obtain rfl : d = c' := Option.some.inj (hd.symm.trans hs)
          exact ⟨blocks', free', hok'⟩
      | write a v =>
          obtain ⟨d, hd, hok'⟩ := hok.write fuel v ha
          obtain rfl : d = c' := Option.some.inj (hd.symm.trans hs)
          exact ⟨blocks, free, hok'⟩

/-- A well-formed heap, seen by a client: `blocks` in address order, `free` in list order. -/
structure WellFormed (B : HeapBuffer) (fuel : Nat) (c : Client) (blocks free : List Nat) : Prop where
  /-- Stepping from header to header covers the buffer exactly. -/
  tiles : Tiles (blockEnd c.heap) B.start blocks (B.start + heapSize)
  /-- The list is acyclic, and its `prev` links invert its `next` links. -/
  linked : Linked (c.heap.get .next) (c.heap.get .prev) c.heap.freeListHead free
  isFree : ∀ a, a ∈ free ↔ a ∈ blocks ∧ c.heap.get .isFree a ≠ 0
  nodup : c.live.Nodup
  used : ∀ p ∈ c.live, ∃ b ∈ blocks, p = b + headerSize ∧ c.heap.get .isFree b = 0
  payloads_disjoint : ∀ p ∈ c.live, ∀ q ∈ c.live, p ≠ q →
    p + c.heap.get .size (p - headerSize) ≤ q ∨ q + c.heap.get .size (q - headerSize) ≤ p
  headers_disjoint : ∀ p ∈ c.live, ∀ b ∈ blocks,
    b + headerSize ≤ p ∨ p + c.heap.get .size (p - headerSize) ≤ b
  inside : ∀ p ∈ c.live,
    B.start ≤ p ∧ p + c.heap.get .size (p - headerSize) ≤ B.start + heapSize
  /-- Both traversals of the list end. -/
  isInFreeList_ends : ∀ target, isInFreeList fuel c.heap target = some (decide (target ∈ free))
  findFit_ends : ∀ n, (findFit c.heap n fuel c.heap.freeListHead).isSome
  /-- Whatever is allowed next returns. -/
  progress : ∀ op, c.Allowed op → ∃ c', c.step B fuel op = some c'

/-- **The heap is well formed in every reachable state.** -/
theorem heap_wellFormed_of_reachable {m : Mem}
    (hz : ∀ i, B.start ≤ i → i < B.start + heapSize → m i = 0)
    (hfuel : heapSize / headerSize < fuel) (hr : Reachable B fuel m c) :
    ∃ blocks free, c.WellFormed B fuel blocks free := by
  obtain ⟨blocks, free, hok⟩ := hr.ok hz hfuel
  have hlen := Nat.lt_of_le_of_lt hok.inv.length_free_le hfuel
  refine ⟨blocks, free, hok.inv.tiles, hok.inv.linked, hok.inv.isFree, hok.nodup, hok.used,
    ?_, ?_, ?_, ?_, ?_, ?_⟩
  · intro p hp q hq hne
    obtain ⟨b, hb, rfl, _⟩ := hok.used p hp
    obtain ⟨b', hb', rfl, _⟩ := hok.used q hq
    rw [Nat.add_sub_cancel, Nat.add_sub_cancel]
    have hbne : b ≠ b' := by
      rintro rfl
      exact hne rfl
    rcases hok.inv.tiles.disjoint hb hb' hbne with hd | hd
    · exact Or.inl (Nat.le_trans hd (Nat.le_add_right _ _))
    · exact Or.inr (Nat.le_trans hd (Nat.le_add_right _ _))
  · intro p hp b hb
    obtain ⟨b', hb', rfl, _⟩ := hok.used p hp
    rw [Nat.add_sub_cancel]
    by_cases hbb : b = b'
    · exact Or.inl (Nat.le_of_eq (by rw [hbb]))
    · rcases hok.inv.tiles.disjoint hb hb' hbb with hd | hd
      · have := Inv.header_le_blockEnd c.heap b
        exact Or.inl (by omega)
      · exact Or.inr hd
  · intro p hp
    obtain ⟨b, hb, rfl, _⟩ := hok.used p hp
    rw [Nat.add_sub_cancel]
    have := hok.inv.bounds hb
    omega
  · exact fun target => isInFreeList_eq hok.inv.linked hlen
  · intro n
    rcases findFit_of_seg (n := n) hok.inv.linked.seg hok.inv.linked.2.1 hok.inv.linked.1 hlen with
      ⟨he, _⟩ | ⟨b, _, he, _⟩
    · rw [he]
      rfl
    · rw [he]
      rfl
  · intro op ha
    cases op with
    | new size =>
        obtain ⟨c', _, _, hs, _⟩ := hok.new hfuel size
        exact ⟨c', hs⟩
    | delete p =>
        obtain ⟨c', _, _, hs, _⟩ := hok.delete hfuel ha
        exact ⟨c', hs⟩
    | write a v =>
        obtain ⟨c', hs, _⟩ := hok.write fuel v ha
        exact ⟨c', hs⟩

/-- A buffer for the witness below. -/
def lowBuffer : HeapBuffer where
  start := 16
  pos := by decide
  fits := by decide
  aligned := by decide

/-- Two neighbours are given back and joined, and the block they make is cut for a request. -/
def joinAndCut : List HeapOp := [.new 8, .new 100, .new 8, .delete 96, .delete 48, .new 40]

theorem heap_wellFormed_joinAndCut : ∃ (c : Client) (blocks free : List Nat),
    c.live = [48, 240] ∧ (c.heap.get .size 16, c.heap.get .size 96) = (48, 80)
      ∧ c.WellFormed lowBuffer (heapSize / headerSize + 1) blocks free := by
  have hcalls : (joinAndCut.foldlM (call lowBuffer (heapSize / headerSize + 1)) ⟨atBoot fun _ => 0, []⟩).map
      (fun c => (c.live, c.heap.get .size 16, c.heap.get .size 96)) = some ([48, 240], 48, 80) := by
    decide +kernel
  obtain ⟨c, hc, hend⟩ := Option.map_eq_some_iff.mp hcalls
  obtain ⟨hlive, hsizes⟩ := Prod.mk.inj hend
  have hreach := reachable_of_run (Run.of_foldlM (fun _ _ _ => calls_of_call) .start hc)
  obtain ⟨blocks, free, hwf⟩ :=
    heap_wellFormed_of_reachable (fun _ _ _ => rfl) (Nat.lt_succ_self _) hreach
  exact ⟨c, blocks, free, hlive, hsizes, hwf⟩

end Client

end AlopexOS.Heap
