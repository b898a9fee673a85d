import AlopexOS.Kernel.New
import AlopexOS.Lib.Tiling
import AlopexOS.Lib.DList
import Mathlib.Data.List.Nodup

/-!
# `Kernel.HeapInvariant` — the heap stays well formed

The address-order view of the heap is a tiling of the buffer by blocks, the free list is a doubly linked
list over some of them, and the two views agree on which blocks are free. Each function of the allocator
keeps this.

## Contents
- **Header members.** What linking and unlinking a block does to every member of every header.
- **The invariant.** `Inv` and what it gives at once.
- **The functions.** `initHeap`, the two traversals, and what `takeBlock` and `coalesce` can do: a block is
  cut or taken whole, two blocks are joined or nothing is.
-/

namespace AlopexOS.Heap

open Packed Tiling DList HeapState

/-! ## Header members

Each result is over a set `D` of headers that do not overlap, which is all the functions rely on. -/

/-- No two headers of `D` overlap. -/
def Separated (D : List Nat) : Prop := ∀ a ∈ D, ∀ b ∈ D, SameOrApart a b

variable {D : List Nat} {h : HeapState} {x a : Nat}

@[simp] theorem freeListHead_addToFreeList : (addToFreeList h x).freeListHead = x := rfl

/-- Every header member after `addToFreeList`. -/
theorem get_addToFreeList (hD : Separated D) (hx : x ∈ D) (ha : a ∈ D)
    (hh : h.freeListHead ≠ 0 → h.freeListHead ∈ D) (hne : h.freeListHead ≠ x)
    (h64 : ∀ b ∈ D, b < 2 ^ 64) (f : HeaderField) :
    (addToFreeList h x).get f a =
      match f with
      | .size => h.get .size a
      | .isFree => if a = x then 1 else h.get .isFree a
      | .next => if a = x then h.freeListHead else h.get .next a
      | .prev =>
          if a = x then 0
          else if h.freeListHead ≠ 0 ∧ a = h.freeListHead then x else h.get .prev a := by
  have hax := hD a ha x hx
  have hx64 := h64 x hx
  by_cases h0 : h.freeListHead = 0
  · cases f <;> simp [addToFreeList, h0, get_set, hax, HeaderField.width]
  · have hah := hD a ha _ (hh h0)
    have hh64 := h64 _ (hh h0)
    cases f with
    | size => simp [addToFreeList, h0, get_set, hax, hah]
    | isFree => simp [addToFreeList, h0, get_set, hax, hah, HeaderField.width]
    | next =>
        simp only [addToFreeList, get_setHead, freeListHead_set, h0, ne_eq, not_false_eq_true,
          if_true, get_set _ _ hax, get_set _ _ hah, HeaderField.width, reduceCtorEq, false_and,
          if_false, true_and]
        rw [Nat.mod_eq_of_lt (show h.freeListHead < 256 ^ 8 by omega)]
    | prev =>
        simp only [addToFreeList, get_setHead, freeListHead_set, h0, ne_eq, not_false_eq_true,
          if_true, get_set _ _ hax, get_set _ _ hah, HeaderField.width, reduceCtorEq, false_and,
          if_false, true_and]
        rw [Nat.mod_eq_of_lt (show x < 256 ^ 8 by omega)]
        by_cases hxa : a = x
        · subst hxa
          rw [if_neg (Ne.symm hne)]
          simp
        · simp [hxa]

theorem freeListHead_removeFromFreeList :
    (removeFromFreeList h x).freeListHead
      = if h.get .prev x ≠ 0 then h.freeListHead else h.get .next x := by
  simp only [removeFromFreeList, freeListHead_set, apply_ite HeapState.freeListHead, ite_self,
    freeListHead_setHead]

/-- Every header member after `removeFromFreeList`. -/
theorem get_removeFromFreeList (hD : Separated D) (hx : x ∈ D) (ha : a ∈ D)
    (hp : h.get .prev x ≠ 0 → h.get .prev x ∈ D) (hn : h.get .next x ≠ 0 → h.get .next x ∈ D)
    (hpx : h.get .prev x ≠ x) (f : HeaderField) :
    (removeFromFreeList h x).get f a =
      match f with
      | .size => h.get .size a
      | .isFree => h.get .isFree a
      | .next =>
          if a = x then 0
          else if h.get .prev x ≠ 0 ∧ a = h.get .prev x then h.get .next x else h.get .next a
      | .prev =>
          if a = x then 0
          else if h.get .next x ≠ 0 ∧ a = h.get .next x then h.get .prev x else h.get .prev a := by
  have hax := hD a ha x hx
  have hp64 : h.get .prev x < 256 ^ 8 := load_lt _ _ _
  have hn64 : h.get .next x < 256 ^ 8 := load_lt _ _ _
  -- the first assignment leaves the links of `x` itself alone
  have hstep : ∀ g, (if h.get .prev x ≠ 0 then h.set .next (h.get .prev x) (h.get .next x)
      else h.setHead (h.get .next x)).get g x = h.get g x := by
    intro g
    split
    · rename_i hp0
      rw [get_set _ _ (hD x hx _ (hp hp0)), if_neg]
      exact fun hc => hpx hc.2.symm
    · exact HeapState.get_setHead _ _ _ _
  simp only [removeFromFreeList, hstep]
  -- a block has up to two neighbours in the list, and each has one link assigned
  by_cases hp0 : h.get .prev x = 0 <;> by_cases hn0 : h.get .next x = 0
  · cases f <;> simp [hp0, hn0, get_set, hax]
  · have han := hD a ha _ (hn hn0)
    cases f <;> simp [hp0, hn0, get_set, hax, han]
  · have hap := hD a ha _ (hp hp0)
    cases f <;> simp [hp0, hn0, get_set, hax, hap]
  · have hap := hD a ha _ (hp hp0)
    have han := hD a ha _ (hn hn0)
    cases f with
    | size => simp [hp0, hn0, get_set, hax, hap, han]
    | isFree => simp [hp0, hn0, get_set, hax, hap, han]
    | next =>
        simp only [hp0, hn0, ne_eq, not_false_eq_true, if_true, get_set _ _ hax, get_set _ _ hap,
          get_set _ _ han, reduceCtorEq, false_and, if_false, true_and, HeaderField.width,
          Nat.zero_mod, Nat.mod_eq_of_lt hn64]
    | prev =>
        simp only [hp0, hn0, ne_eq, not_false_eq_true, if_true, get_set _ _ hax, get_set _ _ hap,
          get_set _ _ han, reduceCtorEq, false_and, if_false, true_and, HeaderField.width,
          Nat.zero_mod, Nat.mod_eq_of_lt hp64]

/-- Linking a block in at the head of the list. -/
theorem linked_addToFreeList {free : List Nat} (hD : Separated D) (h64 : ∀ b ∈ D, b < 2 ^ 64)
    (hl : Linked (h.get .next) (h.get .prev) h.freeListHead free) (hf : ∀ y ∈ free, y ∈ D)
    (hx : x ∈ D) (hx0 : x ≠ 0) (hxf : x ∉ free) :
    Linked ((addToFreeList h x).get .next) ((addToFreeList h x).get .prev) x (x :: free) := by
  have hhead : h.freeListHead ≠ 0 → h.freeListHead ∈ free := hl.head_mem
  -- the head is in the list, and `x` is not
  have hne : h.freeListHead ≠ x := by
    intro he
    exact hxf (he ▸ hhead (he ▸ hx0))
  have hget := fun y (hy : y ∈ D) => get_addToFreeList hD hx hy (fun h0 => hf _ (hhead h0)) hne h64
  apply hl.push hxf hx0
  · rw [hget x hx .next]
    simp
  · rw [hget x hx .prev]
    simp
  · intro hnil
    have h0 := hl.head_ne_zero hnil
    rw [hget _ (hf _ (hhead h0)) .prev]
    simp only [hne, if_false, h0, ne_eq, not_false_eq_true, and_self, if_true]
  · intro y hy
    have hyx : y ≠ x := fun he => hxf (he ▸ hy)
    rw [hget y (hf y hy) .next]
    simp only [hyx, if_false]
  · intro y hy hyh
    have hyx : y ≠ x := fun he => hxf (he ▸ hy)
    rw [hget y (hf y hy) .prev]
    simp only [hyx, if_false, hyh, and_false]

/-- Every header member after a list member is unlinked. -/
theorem get_unlink {l₁ l₂ : List Nat} (hD : Separated D)
    (hl : Linked (h.get .next) (h.get .prev) h.freeListHead (l₁ ++ x :: l₂))
    (hf : ∀ y ∈ l₁ ++ x :: l₂, y ∈ D) (ha : a ∈ D) (f : HeaderField) :
    (removeFromFreeList h x).get f a =
      match f with
      | .size => h.get .size a
      | .isFree => h.get .isFree a
      | .next =>
          if a = x then 0
          else if h.get .prev x ≠ 0 ∧ a = h.get .prev x then h.get .next x else h.get .next a
      | .prev =>
          if a = x then 0
          else if h.get .next x ≠ 0 ∧ a = h.get .next x then h.get .prev x else h.get .prev a := by
  apply get_removeFromFreeList hD (hf x (by simp)) ha
  · intro h0
    rcases hl.prev_node with ⟨_, hz⟩ | ⟨_, hm, _⟩
    · exact absurd hz h0
    · exact hf _ (by simp [hm])
  · intro h0
    rcases hl.next_node with ⟨_, hz⟩ | ⟨_, hm, _⟩
    · exact absurd hz h0
    · exact hf _ (by simp [hm])
  · intro he
    rcases hl.prev_node with ⟨_, hz⟩ | ⟨_, hm, _⟩
    · exact hl.ne_zero (by simp) (he ▸ hz)
    · exact hl.not_mem_rest.1 (he ▸ hm)

/-- Unlinking a block, wherever it is in the list. -/
theorem linked_removeFromFreeList {l₁ l₂ : List Nat} (hD : Separated D)
    (hl : Linked (h.get .next) (h.get .prev) h.freeListHead (l₁ ++ x :: l₂))
    (hf : ∀ y ∈ l₁ ++ x :: l₂, y ∈ D) :
    Linked ((removeFromFreeList h x).get .next) ((removeFromFreeList h x).get .prev)
      (removeFromFreeList h x).freeListHead (l₁ ++ l₂) := by
  obtain ⟨hx₁, hx₂⟩ := hl.not_mem_rest
  have hget := fun y (hy : y ∈ D) => get_unlink hD hl hf hy
  have hmem : ∀ y ∈ l₁ ++ l₂, y ∈ D ∧ y ≠ x := by
    intro y hy
    rcases List.mem_append.mp hy with hy | hy
    · exact ⟨hf y (by simp [hy]), fun he => hx₁ (he ▸ hy)⟩
    · exact ⟨hf y (by simp [hy]), fun he => hx₂ (he ▸ hy)⟩
  apply hl.unlink
  · rw [freeListHead_removeFromFreeList]
    rcases hl.prev_node with ⟨hnil, hz⟩ | ⟨hnil, _, hz⟩
    · rw [if_neg (by simp [hz]), if_pos hnil]
    · rw [if_pos hz, if_neg hnil]
  · intro hnil
    rcases hl.prev_node with ⟨hnil', _⟩ | ⟨_, hm, hz⟩
    · exact absurd hnil' hnil
    · have hpx : h.get .prev x ≠ x := fun he => hx₁ (he ▸ hm)
      rw [hget _ (hf _ (by simp [hm])) .next]
      simp only [hpx, if_false, hz, ne_eq, not_false_eq_true, and_self, if_true]
  · intro hnil
    rcases hl.next_node with ⟨hnil', _⟩ | ⟨_, hm, hz⟩
    · exact absurd hnil' hnil
    · have hnx : h.get .next x ≠ x := fun he => hx₂ (he ▸ hm)
      rw [hget _ (hf _ (by simp [hm])) .prev]
      simp only [hnx, if_false, hz, ne_eq, not_false_eq_true, and_self, if_true]
  · intro y hy hyp
    rw [hget y (hmem y hy).1 .next]
    simp only [(hmem y hy).2, if_false, hyp, and_false]
  · intro y hy hyn
    rw [hget y (hmem y hy).1 .prev]
    simp only [(hmem y hy).2, if_false, hyn, and_false]

/-! ## The invariant -/

/-- Where the block at `a` ends, by its header. -/
def blockEnd (h : HeapState) (a : Nat) : Nat := a + headerSize + h.get .size a

/-- **The heap invariant**: `blocks` in address order, `free` in list order. -/
structure Inv (B : HeapBuffer) (h : HeapState) (blocks free : List Nat) : Prop where
  tiles : Tiles (blockEnd h) B.start blocks (B.start + heapSize)
  linked : Linked (h.get .next) (h.get .prev) h.freeListHead free
  isFree : ∀ a, a ∈ free ↔ a ∈ blocks ∧ h.get .isFree a ≠ 0

variable {B : HeapBuffer} {blocks free : List Nat}

theorem separated_of_tiles {next : Nat → Nat} {s e : Nat} (ht : Tiles next s blocks e)
    (hw : ∀ b ∈ blocks, b + headerSize ≤ next b) : Separated blocks := by
  intro p hp q hq
  by_cases he : p = q
  · exact Or.inl he
  · have hp' := hw p hp
    have hq' := hw q hq
    have := ht.disjoint hp hq he
    unfold SameOrApart
    omega

namespace Inv

theorem header_le_blockEnd (h : HeapState) (a : Nat) : a + headerSize ≤ blockEnd h a :=
  Nat.le_add_right _ _

theorem separated (hi : Inv B h blocks free) : Separated blocks :=
  separated_of_tiles hi.tiles fun b _ => header_le_blockEnd h b

theorem bounds (hi : Inv B h blocks free) {b : Nat} (hb : b ∈ blocks) :
    B.start ≤ b ∧ b + headerSize + h.get .size b ≤ B.start + heapSize := by
  have := hi.tiles.bounds hb
  exact ⟨this.1, this.2.2⟩

theorem lt_two_pow (hi : Inv B h blocks free) : ∀ b ∈ blocks, b < 2 ^ 64 := by
  intro b hb
  have := hi.bounds hb
  have := B.fits
  unfold headerSize at *
  omega

theorem ne_zero (hi : Inv B h blocks free) {b : Nat} (hb : b ∈ blocks) : b ≠ 0 := by
  have := (hi.bounds hb).1
  have := B.pos
  omega

theorem free_subset (hi : Inv B h blocks free) : ∀ b ∈ free, b ∈ blocks :=
  fun b hb => ((hi.isFree b).mp hb).1

theorem not_free (hi : Inv B h blocks free) {b : Nat} (hb : h.get .isFree b = 0) : b ∉ free :=
  fun hm => ((hi.isFree b).mp hm).2 hb

/-- There are never more than half a million blocks. -/
theorem length_blocks_le (hi : Inv B h blocks free) : blocks.length ≤ heapSize / headerSize := by
  have := hi.tiles.length_mul_le (w := headerSize) fun b _ => header_le_blockEnd h b
  rw [Nat.le_div_iff_mul_le (by decide)]
  omega

theorem length_free_le (hi : Inv B h blocks free) : free.length ≤ heapSize / headerSize :=
  Nat.le_trans (List.Nodup.length_le_of_subset hi.linked.nodup hi.free_subset) hi.length_blocks_le

end Inv

/-- The blocks in use are kept: still blocks, still in use, of the same size. -/
def Keeps (h : HeapState) (blocks : List Nat) (h' : HeapState) (blocks' : List Nat) : Prop :=
  ∀ b ∈ blocks, h.get .isFree b = 0 →
    b ∈ blocks' ∧ h'.get .isFree b = 0 ∧ h'.get .size b = h.get .size b

theorem Inv.used (hi : Inv B h blocks free) {b : Nat} (hb : b ∈ blocks) (hbf : b ∉ free) :
    h.get .isFree b = 0 := by
  by_contra hne
  exact hbf ((hi.isFree b).mpr ⟨hb, hne⟩)

/-- What is kept follows from the two views and the sizes. -/
theorem Inv.keeps {h' : HeapState} {blocks' free' : List Nat} (hi : Inv B h blocks free)
    (hi' : Inv B h' blocks' free')
    (hused : ∀ b ∈ blocks, b ∉ free → b ∈ blocks' ∧ b ∉ free' ∧ h'.get .size b = h.get .size b) :
    Keeps h blocks h' blocks' := by
  intro b hb hf
  obtain ⟨hb', hbf', hsize⟩ := hused b hb (hi.not_free hf)
  exact ⟨hb', hi'.used hb' hbf', hsize⟩

/-! ## The functions -/

theorem Inv.get_addToFreeList (hi : Inv B h blocks free) (hx : x ∈ blocks)
    (hu : h.get .isFree x = 0) (ha : a ∈ blocks) (f : HeaderField) :
    (addToFreeList h x).get f a =
      match f with
      | .size => h.get .size a
      | .isFree => if a = x then 1 else h.get .isFree a
      | .next => if a = x then h.freeListHead else h.get .next a
      | .prev =>
          if a = x then 0
          else if h.freeListHead ≠ 0 ∧ a = h.freeListHead then x else h.get .prev a := by
  have hhead : h.freeListHead ≠ 0 → h.freeListHead ∈ blocks :=
    fun h0 => hi.free_subset _ (hi.linked.head_mem h0)
  have hne : h.freeListHead ≠ x := by
    intro he
    exact hi.not_free hu (he ▸ hi.linked.head_mem (he ▸ hi.ne_zero hx))
  exact Heap.get_addToFreeList hi.separated hx ha hhead hne hi.lt_two_pow f

/-- **Linking in a block that was in use.** -/
theorem inv_addToFreeList (hi : Inv B h blocks free) (hx : x ∈ blocks)
    (hu : h.get .isFree x = 0) : Inv B (addToFreeList h x) blocks (x :: free) := by
  have hxf := hi.not_free hu
  have hget := fun y (hy : y ∈ blocks) => hi.get_addToFreeList hx hu hy
  refine ⟨?_, ?_, ?_⟩
  · apply hi.tiles.congr
    intro y hy
    show y + headerSize + _ = y + headerSize + _
    rw [hget y hy .size]
  · exact linked_addToFreeList hi.separated hi.lt_two_pow hi.linked hi.free_subset hx
      (hi.ne_zero hx) hxf
  · intro y
    by_cases hy : y ∈ blocks
    · rw [hget y hy .isFree, List.mem_cons, hi.isFree y]
      by_cases hyx : y = x
      · simp [hyx, hx]
      · simp [hyx]
    · have hyf : y ∉ free := fun hm => hy (hi.free_subset y hm)
      have hyx : y ≠ x := fun he => hy (he ▸ hx)
      simp [hy, hyf, hyx]

/-- The other blocks in use stay as they are. -/
theorem keeps_addToFreeList (hi : Inv B h blocks free) (hx : x ∈ blocks)
    (hu : h.get .isFree x = 0) :
    ∀ b ∈ blocks, b ≠ x → h.get .isFree b = 0 →
      (addToFreeList h x).get .isFree b = 0
        ∧ (addToFreeList h x).get .size b = h.get .size b := by
  intro b hb hbx hf
  rw [hi.get_addToFreeList hx hu hb .isFree, hi.get_addToFreeList hx hu hb .size]
  simp only [hbx, if_false]
  exact ⟨hf, trivial⟩

/-- **Unlinking a free block and marking it used.** -/
theorem inv_unlinkUsed {l₁ l₂ : List Nat} (hi : Inv B h blocks (l₁ ++ x :: l₂)) :
    Inv B ((removeFromFreeList h x).set .isFree x 0) blocks (l₁ ++ l₂) := by
  have hx : x ∈ blocks := hi.free_subset x (by simp)
  have hget := fun y (hy : y ∈ blocks) => get_unlink hi.separated hi.linked hi.free_subset hy
  have hset : ∀ y ∈ blocks, ∀ f, f ≠ .isFree →
      ((removeFromFreeList h x).set .isFree x 0).get f y = (removeFromFreeList h x).get f y := by
    intro y hy f hf
    rw [get_set _ _ (hi.separated y hy x hx), if_neg (fun hc => hf hc.1)]
  have hlink := linked_removeFromFreeList hi.separated hi.linked hi.free_subset
  have hsub : ∀ y ∈ l₁ ++ l₂, y ∈ blocks := by
    intro y hy
    apply hi.free_subset
    simp only [List.mem_append, List.mem_cons] at hy ⊢
    exact hy.imp_right Or.inr
  refine ⟨?_, ?_, ?_⟩
  · apply hi.tiles.congr
    intro y hy
    show y + headerSize + _ = y + headerSize + _
    rw [hset y hy .size (by decide), hget y hy .size]
  · rw [freeListHead_set]
    exact hlink.congr (fun y hy => hset y (hsub y hy) .next (by decide))
      (fun y hy => hset y (hsub y hy) .prev (by decide))
  · obtain ⟨hx₁, hx₂⟩ := hi.linked.not_mem_rest
    intro y
    by_cases hy : y ∈ blocks
    · rw [get_set _ _ (hi.separated y hy x hx), hget y hy .isFree]
      by_cases hyx : y = x
      · subst hyx
        simp [hx₁, hx₂]
      · have := hi.isFree y
        simp only [List.mem_append, List.mem_cons, hyx, false_or] at this
        simp only [List.mem_append, hyx, and_false, if_false, this]
    · have hyf : y ∉ l₁ ++ l₂ := fun hm => hy (hsub y hm)
      simp only [hy, hyf, false_and]

/-- Unlinking changes no size. -/
theorem size_unlinkUsed {l₁ l₂ : List Nat} (hi : Inv B h blocks (l₁ ++ x :: l₂)) (ha : a ∈ blocks) :
    ((removeFromFreeList h x).set .isFree x 0).get .size a = h.get .size a := by
  have hx : x ∈ blocks := hi.free_subset x (by simp)
  rw [get_set _ _ (hi.separated a ha x hx), if_neg (fun hc => by simp at hc),
    get_unlink hi.separated hi.linked hi.free_subset ha .size]

/-! ### Splitting -/

/-- The headers of the blocks and the new one inside `x` do not overlap. -/
theorem Inv.separated_cut {l₁ l₂ : List Nat} {n : Nat} (hi : Inv B h (l₁ ++ x :: l₂) free)
    (hn : n + headerSize ≤ h.get .size x) :
    Tiles (fun z => if z = x then x + headerSize + n
        else if z = x + headerSize + n then blockEnd h x else blockEnd h z)
      B.start (l₁ ++ x :: (x + headerSize + n) :: l₂) (B.start + heapSize)
    ∧ Separated (l₁ ++ x :: (x + headerSize + n) :: l₂) := by
  have hpos : 0 < headerSize := by decide
  obtain ⟨h₁, _, h₂⟩ := hi.tiles.split
  have hyx : x + headerSize + n ≠ x := by omega
  have htiles : Tiles (fun z => if z = x then x + headerSize + n
      else if z = x + headerSize + n then blockEnd h x else blockEnd h z)
      B.start (l₁ ++ x :: (x + headerSize + n) :: l₂) (B.start + heapSize) := by
    apply hi.tiles.cut
    · omega
    · unfold blockEnd
      omega
    · exact if_pos rfl
    · rw [if_neg hyx, if_pos rfl]
    · intro z hz
      -- the other blocks lie before `x` or after its end, so none of them is the new one
      have hz' : z < x ∨ blockEnd h x ≤ z := by
        rcases List.mem_append.mp hz with hz | hz
        · exact Or.inl (Nat.lt_of_lt_of_le (h₁.bounds hz).2.1 (h₁.bounds hz).2.2)
        · exact Or.inr (h₂.bounds hz).1
      have hend : x + headerSize + n < blockEnd h x := by
        unfold blockEnd
        omega
      rw [if_neg (by omega), if_neg (by omega)]
  refine ⟨htiles, separated_of_tiles htiles ?_⟩
  intro z _
  by_cases hzx : z = x
  · subst hzx
    rw [if_pos rfl]
    omega
  · rw [if_neg hzx]
    by_cases hzy : z = x + headerSize + n
    · rw [if_pos hzy, hzy]
      unfold blockEnd
      omega
    · rw [if_neg hzy]
      exact Inv.header_le_blockEnd h z

/-- Nothing starts inside a block, so the second half is a new block. -/
theorem Inv.cut_not_mem {l₁ l₂ : List Nat} {n : Nat} (hi : Inv B h (l₁ ++ x :: l₂) free)
    (hn : n + headerSize ≤ h.get .size x) : x + headerSize + n ∉ l₁ ++ x :: l₂ := by
  intro hm
  have hpos : 0 < headerSize := by decide
  have hend := Inv.header_le_blockEnd h (x + headerSize + n)
  have hlt : x + headerSize + n < blockEnd h x := by
    unfold blockEnd
    omega
  rcases hi.tiles.disjoint hm (show x ∈ l₁ ++ x :: l₂ by simp) (by omega) with hd | hd
  · omega
  · omega

/-- Every header member after a block is cut. -/
theorem get_cutBlock {n r : Nat} (hD : Separated D) (hx : x ∈ D) (hy : x + headerSize + n ∈ D)
    (hn : n < 2 ^ 64) (hr : r < 2 ^ 64) (ha : a ∈ D) (f : HeaderField) :
    (cutBlock h x n r).get f a =
      match f with
      | .size => if a = x then n else if a = x + headerSize + n then r - headerSize
          else h.get .size a
      | .isFree => if a = x + headerSize + n then 0 else h.get .isFree a
      | .next => h.get .next a
      | .prev => h.get .prev a := by
  have hax := hD a ha x hx
  have hay := hD a ha _ hy
  cases f with
  | size =>
      simp only [cutBlock, get_set _ _ hax, get_set _ _ hay, reduceCtorEq, false_and, if_false,
        true_and, HeaderField.width]
      rw [Nat.mod_eq_of_lt (show n < 256 ^ 8 by omega),
        Nat.mod_eq_of_lt (show r - headerSize < 256 ^ 8 by omega)]
  | isFree =>
      simp only [cutBlock, get_set _ _ hax, get_set _ _ hay, reduceCtorEq, false_and, if_false,
        true_and, Nat.zero_mod]
  | next => simp only [cutBlock, get_set _ _ hax, get_set _ _ hay, reduceCtorEq, false_and, if_false]
  | prev => simp only [cutBlock, get_set _ _ hax, get_set _ _ hay, reduceCtorEq, false_and, if_false]

/-- **Cutting a free block in two**; the second half is not in the list yet. -/
theorem inv_cutBlock {l₁ l₂ : List Nat} {n : Nat} (hi : Inv B h (l₁ ++ x :: l₂) free)
    (hn : n + headerSize ≤ h.get .size x) :
    Inv B (cutBlock h x n (h.get .size x - n)) (l₁ ++ x :: (x + headerSize + n) :: l₂) free := by
  obtain ⟨htiles, hsep⟩ := hi.separated_cut hn
  have hs64 : h.get .size x < 256 ^ 8 := load_lt _ _ _
  have hpos : 0 < headerSize := by decide
  have hyx : x + headerSize + n ≠ x := by omega
  have hget := fun b (hb : b ∈ l₁ ++ x :: (x + headerSize + n) :: l₂) =>
    get_cutBlock (h := h) (x := x) (n := n) (r := h.get .size x - n) hsep (by simp) (by simp)
      (by omega) (by omega) hb
  have hnew := hi.cut_not_mem hn
  have hsub : ∀ b ∈ l₁ ++ x :: l₂, b ∈ l₁ ++ x :: (x + headerSize + n) :: l₂ := by
    intro b hb
    simp only [List.mem_append, List.mem_cons] at hb ⊢
    exact hb.imp_right fun hb => hb.imp_right Or.inr
  refine ⟨?_, ?_, ?_⟩
  · apply htiles.congr
    intro b hb
    unfold blockEnd
    rw [hget b hb .size]
    by_cases hbx : b = x
    · subst hbx
      simp only [if_true]
    · by_cases hby : b = x + headerSize + n
      · subst hby
        simp only [hyx, if_false, if_true]
        omega
      · simp only [hbx, hby, if_false]
  · -- cutting writes sizes and marks, and no links
    have hf := fun b hb => hsub b (hi.free_subset b hb)
    exact hi.linked.congr (fun b hb => hget b (hf b hb) .next) (fun b hb => hget b (hf b hb) .prev)
  · intro b
    rw [hi.isFree b]
    by_cases hb : b ∈ l₁ ++ x :: (x + headerSize + n) :: l₂
    · rw [hget b hb .isFree]
      by_cases hby : b = x + headerSize + n
      · subst hby
        simp only [hnew, false_and, if_true, ne_eq, not_true_eq_false, and_false]
      · have hb' : b ∈ l₁ ++ x :: l₂ := by
          simp only [List.mem_append, List.mem_cons, hby, false_or] at hb ⊢
          exact hb
        simp only [hb, hb', hby, if_false]
    · have hb' : b ∉ l₁ ++ x :: l₂ := fun hm => hb (hsub b hm)
      simp only [hb, hb', false_and]

/-- The block that is cut off is not free yet. -/
theorem isFree_cutBlock {l₁ l₂ : List Nat} {n : Nat} (hi : Inv B h (l₁ ++ x :: l₂) free)
    (hn : n + headerSize ≤ h.get .size x) :
    (cutBlock h x n (h.get .size x - n)).get .isFree (x + headerSize + n) = 0 := by
  have hs64 : h.get .size x < 256 ^ 8 := load_lt _ _ _
  rw [get_cutBlock (hi.separated_cut hn).2 (by simp) (by simp) (by omega) (by omega) (by simp) .isFree]
  exact if_pos rfl

/-- **`takeBlock`** cuts the block and links the rest in, or takes it whole. -/
theorem takeBlock_cases {n : Nat} (hi : Inv B h blocks free) (hx : x ∈ free) (hn : n ≤ h.get .size x) :
    (∃ l₁ l₂ f₁ f₂, blocks = l₁ ++ x :: l₂ ∧ free = f₁ ++ x :: f₂
      ∧ n + headerSize + alignment.toNat < h.get .size x
      ∧ Inv B (takeBlock h x n) (l₁ ++ x :: (x + headerSize + n) :: l₂) ((x + headerSize + n) :: f₁ ++ f₂)
      ∧ x + headerSize + n ∉ blocks
      ∧ ∀ a ∈ l₁ ++ x :: (x + headerSize + n) :: l₂, (takeBlock h x n).get .size a =
          if a = x then n else if a = x + headerSize + n then h.get .size x - n - headerSize
            else h.get .size a)
    ∨ ∃ f₁ f₂, free = f₁ ++ x :: f₂ ∧ h.get .size x ≤ n + headerSize + alignment.toNat
      ∧ Inv B (takeBlock h x n) blocks (f₁ ++ f₂)
      ∧ ∀ a ∈ blocks, (takeBlock h x n).get .size a = h.get .size a := by
  obtain ⟨hxb, -⟩ := (hi.isFree x).mp hx
  obtain ⟨f₁, f₂, rfl⟩ := List.append_of_mem hx
  unfold takeBlock
  -- a rest that is too small for a block of its own stays with the one taken
  by_cases hr : h.get .size x - n > headerSize + alignment.toNat
  · obtain ⟨l₁, l₂, rfl⟩ := List.append_of_mem hxb
    have hn' : n + headerSize ≤ h.get .size x := by omega
    have hs64 : h.get .size x < 256 ^ 8 := load_lt _ _ _
    have hcut := inv_cutBlock hi hn'
    have hnew := isFree_cutBlock hi hn'
    have hadd := inv_addToFreeList hcut (by simp) hnew
    simp only [if_pos hr]
    rw [← List.cons_append] at hadd
    refine Or.inl ⟨l₁, l₂, f₁, f₂, rfl, rfl, by omega, inv_unlinkUsed hadd, hi.cut_not_mem hn', ?_⟩
    intro a ha
    rw [size_unlinkUsed hadd ha, hcut.get_addToFreeList (by simp) hnew ha .size]
    exact get_cutBlock (hi.separated_cut hn').2 (by simp) (by simp) (by omega) (by omega) ha .size
  · simp only [if_neg hr]
    exact Or.inr ⟨f₁, f₂, rfl, by omega, inv_unlinkUsed hi, fun a ha => size_unlinkUsed hi ha⟩

/-- **`takeBlock` keeps the heap well formed.** The block taken is in use, and so are those before. -/
theorem inv_takeBlock {n : Nat} (hi : Inv B h blocks free) (hx : x ∈ free)
    (hn : n ≤ h.get .size x) :
    ∃ blocks' free', Inv B (takeBlock h x n) blocks' free' ∧ Keeps h blocks (takeBlock h x n) blocks'
      ∧ x ∈ blocks' ∧ (takeBlock h x n).get .isFree x = 0 := by
  have hxb := hi.free_subset x hx
  rcases takeBlock_cases hi hx hn with
    ⟨l₁, l₂, f₁, f₂, rfl, rfl, -, hi', hy, hsize⟩ | ⟨f₁, f₂, rfl, -, hi', hsize⟩
  · obtain ⟨hx₁, hx₂⟩ := hi.linked.not_mem_rest
    have hyx : x ≠ x + headerSize + n := fun he => hy (he ▸ hxb)
    refine ⟨_, _, hi', hi.keeps hi' ?_, by simp, hi'.used (by simp) ?_⟩
    · intro b hb hbf
      simp only [List.mem_append, List.mem_cons, not_or] at hbf
      have hby : b ≠ x + headerSize + n := fun he => hy (he ▸ hb)
      have hb' : b ∈ l₁ ++ x :: (x + headerSize + n) :: l₂ := by
        simp only [List.mem_append, List.mem_cons] at hb ⊢
        exact hb.imp_right fun hb => hb.imp_right Or.inr
      refine ⟨hb', ?_, ?_⟩
      · simp only [List.cons_append, List.mem_cons, List.mem_append, not_or]
        exact ⟨hby, hbf.1, hbf.2.2⟩
      · rw [hsize b hb', if_neg hbf.2.1, if_neg hby]
    · simp only [List.cons_append, List.mem_cons, List.mem_append, not_or]
      exact ⟨hyx, hx₁, hx₂⟩
  · obtain ⟨hx₁, hx₂⟩ := hi.linked.not_mem_rest
    refine ⟨_, _, hi', hi.keeps hi' ?_, hxb, hi'.used hxb ?_⟩
    · intro b hb hbf
      simp only [List.mem_append, List.mem_cons, not_or] at hbf
      refine ⟨hb, ?_, hsize b hb⟩
      rw [List.mem_append, not_or]
      exact ⟨hbf.1, hbf.2.2⟩
    · rw [List.mem_append, not_or]
      exact ⟨hx₁, hx₂⟩

/-! ### Coalescing -/

/-- Every header member after the free block `y` is unlinked and its room given to `x`. -/
theorem Inv.get_join {y : Nat} {l₁ l₂ f₁ f₂ : List Nat}
    (hi : Inv B h (l₁ ++ x :: y :: l₂) (f₁ ++ y :: f₂)) (ha : a ∈ l₁ ++ x :: y :: l₂)
    (f : HeaderField) :
    ((removeFromFreeList h y).set .size x (h.get .size x + (headerSize + h.get .size y))).get f a =
      if f = .size ∧ a = x then h.get .size x + (headerSize + h.get .size y)
      else (removeFromFreeList h y).get f a := by
  have hxy : y = blockEnd h x := hi.tiles.split.2.2.1
  have hend := (hi.bounds (b := y) (by simp)).2
  have hfits := B.fits
  have hpos : 0 < headerSize := by decide
  rw [get_set _ _ (hi.separated a ha x (by simp))]
  by_cases hc : f = .size ∧ a = x
  · obtain ⟨rfl, rfl⟩ := hc
    rw [if_pos ⟨rfl, rfl⟩, if_pos ⟨rfl, rfl⟩]
    apply Nat.mod_eq_of_lt
    show _ < 2 ^ 64
    unfold blockEnd at hxy
    omega
  · rw [if_neg hc, if_neg hc]

/-- **Joining a free block with the free block after it.** -/
theorem inv_join {y : Nat} {l₁ l₂ f₁ f₂ : List Nat}
    (hi : Inv B h (l₁ ++ x :: y :: l₂) (f₁ ++ y :: f₂)) :
    Inv B ((removeFromFreeList h y).set .size x (h.get .size x + (headerSize + h.get .size y)))
      (l₁ ++ x :: l₂) (f₁ ++ f₂) := by
  have hxy : y = blockEnd h x := hi.tiles.split.2.2.1
  have hget := fun b (hb : b ∈ l₁ ++ x :: y :: l₂) =>
    get_unlink hi.separated hi.linked hi.free_subset hb
  have hlink := linked_removeFromFreeList hi.separated hi.linked hi.free_subset
  obtain ⟨hy₁, hy₂⟩ := hi.linked.not_mem_rest
  have hndup := hi.tiles.nodup
  have hperm : (l₁ ++ x :: y :: l₂).Perm (y :: (l₁ ++ x :: l₂)) := by
    have := @List.perm_middle _ y (l₁ ++ [x]) l₂
    simpa using this
  have hynot : y ∉ l₁ ++ x :: l₂ := (List.nodup_cons.mp (hperm.nodup_iff.mp hndup)).1
  have hblocks : ∀ b, b ∈ l₁ ++ x :: y :: l₂ ↔ b = y ∨ b ∈ l₁ ++ x :: l₂ := fun b => by
    rw [hperm.mem_iff, List.mem_cons]
  have hsub : ∀ b ∈ l₁ ++ x :: l₂, b ∈ l₁ ++ x :: y :: l₂ := fun b hb => (hblocks b).mpr (Or.inr hb)
  have hfree : ∀ b, b ∈ f₁ ++ f₂ → b ∈ f₁ ++ y :: f₂ := by
    intro b hb
    simp only [List.mem_append, List.mem_cons] at hb ⊢
    exact hb.imp_right Or.inr
  refine ⟨?_, ?_, ?_⟩
  · apply hi.tiles.join
    · unfold blockEnd
      rw [hi.get_join (by simp) .size, if_pos ⟨rfl, rfl⟩]
      unfold blockEnd at hxy
      omega
    · intro b hb
      have hbx : b ≠ x := by
        rintro rfl
        exact (List.nodup_cons.mp (List.nodup_middle.mp hndup)).1 (by
          simp only [List.mem_append, List.mem_cons] at hb ⊢
          exact hb.imp_right Or.inr)
      have hb' : b ∈ l₁ ++ x :: y :: l₂ := by
        simp only [List.mem_append, List.mem_cons] at hb ⊢
        exact hb.imp_right fun hb => Or.inr (Or.inr hb)
      unfold blockEnd
      rw [hi.get_join hb' .size, if_neg (fun hc => hbx hc.2), hget b hb' .size]
  · -- the size is written after the links, and is none of them
    rw [freeListHead_set]
    have hf := fun b hb => hi.free_subset b (hfree b hb)
    refine hlink.congr (fun b hb => ?_) (fun b hb => ?_)
    · rw [hi.get_join (hf b hb) .next, if_neg (fun hc => by simp at hc)]
    · rw [hi.get_join (hf b hb) .prev, if_neg (fun hc => by simp at hc)]
  · intro b
    by_cases hb : b ∈ l₁ ++ x :: l₂
    · have hby : b ≠ y := fun he => hynot (he ▸ hb)
      have := hi.isFree b
      rw [hi.get_join (hsub b hb) .isFree, if_neg (fun hc => by simp at hc), hget b (hsub b hb) .isFree]
      simp only [hsub b hb, true_and, List.mem_append, List.mem_cons, hby, false_or] at this
      simp only [hb, true_and, List.mem_append, this]
    · simp only [hb, false_and, iff_false]
      intro hm
      rcases (hblocks b).mp (hi.free_subset b (hfree b hm)) with hby | hb'
      · rw [hby, List.mem_append] at hm
        exact hm.elim hy₁ hy₂
      · exact hb hb'

/-! ### Traversals -/

theorem isInFreeListFrom_of_seg {fuel q curr t : Nat} {l : List Nat}
    (hs : Seg (h.get .next) (h.get .prev) q l 0) (h0 : 0 ∉ l) (hc : curr = l.headD 0)
    (hfuel : l.length < fuel) : isInFreeListFrom h t fuel curr = some (decide (t ∈ l)) := by
  induction l generalizing fuel q curr with
  | nil =>
      cases fuel with
      | zero => exact absurd hfuel (by simp)
      | succ fuel =>
          rw [hc]
          simp [isInFreeListFrom]
  | cons b l ih =>
      obtain ⟨_, hn, hrest⟩ := hs
      have hb : curr = b := hc
      have hb0 : b ≠ 0 := fun he => h0 (by simp [he])
      cases fuel with
      | zero => exact absurd hfuel (by simp)
      | succ fuel =>
          rw [isInFreeListFrom, hb, if_neg hb0]
          by_cases hbt : b = t
          · simp [hbt]
          · rw [if_neg hbt, ih hrest (fun hm => h0 (by simp [hm])) hn (by simpa using hfuel)]
            simp [Ne.symm hbt]

/-- **`isInFreeList` ends and decides membership.** -/
theorem isInFreeList_eq {fuel t : Nat} (hl : Linked (h.get .next) (h.get .prev) h.freeListHead free)
    (hfuel : free.length < fuel) : isInFreeList fuel h t = some (decide (t ∈ free)) :=
  isInFreeListFrom_of_seg hl.seg (fun hm => hl.ne_zero hm rfl) hl.1 hfuel

theorem findFit_of_seg {fuel q curr n : Nat} {l : List Nat}
    (hs : Seg (h.get .next) (h.get .prev) q l 0) (h0 : 0 ∉ l) (hc : curr = l.headD 0)
    (hfuel : l.length < fuel) :
    findFit h n fuel curr = some 0 ∧ (∀ b ∈ l, h.get .isFree b ≠ 0 → h.get .size b < n)
      ∨ ∃ b ∈ l, findFit h n fuel curr = some b ∧ n ≤ h.get .size b := by
  induction l generalizing fuel q curr with
  | nil =>
      cases fuel with
      | zero => exact absurd hfuel (by simp)
      | succ fuel =>
          rw [hc]
          simp [findFit]
  | cons b l ih =>
      obtain ⟨_, hnext, hrest⟩ := hs
      have hb : curr = b := hc
      have hb0 : b ≠ 0 := fun he => h0 (by simp [he])
      cases fuel with
      | zero => exact absurd hfuel (by simp)
      | succ fuel =>
          rw [findFit, hb, if_neg hb0]
          by_cases hfit : h.get .isFree b ≠ 0 ∧ n ≤ h.get .size b
          · rw [if_pos hfit]
            exact Or.inr ⟨b, by simp, rfl, hfit.2⟩
          · rw [if_neg hfit]
            rcases ih hrest (fun hm => h0 (by simp [hm])) hnext (by simpa using hfuel) with
              ⟨he, hall⟩ | ⟨c, hc, he, hle⟩
            · refine Or.inl ⟨he, ?_⟩
              intro c hc hf
              rcases List.mem_cons.mp hc with hcb | hc
              · subst hcb
                exact Nat.lt_of_not_le fun hle => hfit ⟨hf, hle⟩
              · exact hall c hc hf
            · exact Or.inr ⟨c, by simp [hc], he, hle⟩

/-- **`coalesce`** joins the block with the free one behind it, or does nothing. -/
theorem coalesce_cases {fuel : Nat} (hi : Inv B h blocks free) (hx : x ∈ free)
    (hfuel : heapSize / headerSize < fuel) :
    (blockEnd h x ∉ free ∧ coalesce B fuel h x = some h)
    ∨ ∃ l₁ l₂ f₁ f₂ h', blocks = l₁ ++ x :: blockEnd h x :: l₂ ∧ free = f₁ ++ blockEnd h x :: f₂
      ∧ coalesce B fuel h x = some h' ∧ Inv B h' (l₁ ++ x :: l₂) (f₁ ++ f₂)
      ∧ ∀ a ∈ l₁ ++ x :: l₂, h'.get .size a =
          if a = x then h.get .size x + (headerSize + h.get .size (blockEnd h x)) else h.get .size a := by
  obtain ⟨hxb, -⟩ := (hi.isFree x).mp hx
  have hnext : x + headerSize + h.get .size x = blockEnd h x := rfl
  have hin := isInFreeList_eq (t := blockEnd h x) hi.linked (Nat.lt_of_le_of_lt hi.length_free_le hfuel)
  unfold coalesce
  simp only [hnext, hin]
  by_cases hmem : blockEnd h x ∈ free
  · obtain ⟨hyb, hyf⟩ := (hi.isFree _).mp hmem
    have hend := (hi.bounds hyb).2
    have hle := Inv.header_le_blockEnd h (blockEnd h x)
    obtain ⟨l₁, l₂, rfl⟩ := List.append_of_mem hxb
    -- the block behind `x` in the buffer is the one its header points to
    have hne : blockEnd h x ≠ B.start + heapSize := by
      have : 0 < headerSize := by decide
      omega
    obtain ⟨he, _⟩ | ⟨l₃, rfl⟩ := hi.tiles.split.2.2.head_or_end
    · exact absurd he hne
    · obtain ⟨f₁, f₂, rfl⟩ := List.append_of_mem hmem
      have hsize := fun b hb => get_unlink (a := b) hi.separated hi.linked hi.free_subset hb .size
      have hfit : blockEnd h x + headerSize ≤ B.start + heapSize := by omega
      rw [if_pos hfit, if_pos hyf, hsize x (by simp), hsize (blockEnd h x) (by simp)]
      simp only [hmem, decide_true]
      refine Or.inr ⟨l₁, l₃, f₁, f₂, _, rfl, rfl, rfl, inv_join hi, ?_⟩
      intro a ha
      have ha' : a ∈ l₁ ++ x :: blockEnd h x :: l₃ := by
        simp only [List.mem_append, List.mem_cons] at ha ⊢
        exact ha.imp_right fun ha => ha.imp_right Or.inr
      rw [hi.get_join ha' .size]
      by_cases hax : a = x
      · rw [if_pos ⟨rfl, hax⟩, if_pos hax]
      · rw [if_neg (fun hc => hax hc.2), if_neg hax]
        exact hsize a ha'
  · refine Or.inl ⟨hmem, ?_⟩
    simp only [hmem, decide_false, ite_self]

/-- **`coalesce` keeps the heap well formed.** -/
theorem inv_coalesce {fuel : Nat} (hi : Inv B h blocks free) (hx : x ∈ free)
    (hfuel : heapSize / headerSize < fuel) :
    ∃ h' blocks' free', coalesce B fuel h x = some h' ∧ Inv B h' blocks' free'
      ∧ Keeps h blocks h' blocks' := by
  rcases coalesce_cases hi hx hfuel with ⟨-, he⟩ | ⟨l₁, l₂, f₁, f₂, h', rfl, rfl, he, hi', hsize⟩
  · exact ⟨h, blocks, free, he, hi, fun b hb hf => ⟨hb, hf, rfl⟩⟩
  · refine ⟨h', _, _, he, hi', hi.keeps hi' ?_⟩
    intro b hb hbf
    have hbx : b ≠ x := by
      intro hbx
      rw [hbx] at hbf
      exact hbf hx
    simp only [List.mem_append, List.mem_cons, not_or] at hbf
    have hb' : b ∈ l₁ ++ x :: l₂ := by
      simp only [List.mem_append, List.mem_cons, hbf.2.1, false_or] at hb ⊢
      exact hb
    refine ⟨hb', ?_, ?_⟩
    · rw [List.mem_append, not_or]
      exact ⟨hbf.1, hbf.2.2⟩
    · rw [hsize b hb', if_neg hbx]

end AlopexOS.Heap
