import AlopexOS.Kernel.HeapRuns
import AlopexOS.Lib.Word

/-!
# `Kernel.HeapSizes` — the blocks of the heap, call by call

Which blocks there are after a request or after a block is given back, and how large they are: a block is
cut in two or left whole, two blocks are joined or nothing is. A property of sizes that survives both
holds of every block a client can bring about.

## Contents
- **Rounding.** What `alignUp` makes of a size, and when it wraps.
- **Cases.** What a step of a client does with the blocks.
- **`SizeRule`**: properties of sizes that cutting and joining keep.
-/

namespace AlopexOS.Heap

open Packed Tiling DList HeapState

variable {B : HeapBuffer} {h h' : HeapState} {blocks blocks' free free' : List Nat} {a x : Nat}

/-! ## Rounding -/

/-- Clearing the low four bits rounds down. -/
theorem land_not_low {n : Nat} (hn : n < 2 ^ 64) : n &&& (2 ^ 64 - 16) = n / 16 * 16 := by
  apply Nat.eq_of_testBit_eq
  intro i
  have hmask : (2 ^ 64 - 16 : Nat) = (2 ^ 60 - 1) * 2 ^ 4 := rfl
  rw [Nat.testBit_and, hmask, show n / 16 * 16 = n / 2 ^ 4 * 2 ^ 4 from rfl, Nat.testBit_mul_two_pow,
    Nat.testBit_mul_two_pow, Nat.testBit_two_pow_sub_one, Nat.testBit_div_two_pow]
  by_cases hi : 4 ≤ i
  · rw [Nat.sub_add_cancel hi]
    by_cases hlt : i < 64
    · simp [hi, show i - 4 < 60 by omega]
    · have hbits : 2 ^ 64 ≤ 2 ^ i := Nat.pow_le_pow_right (by decide) (Nat.le_of_not_lt hlt)
      simp [Nat.testBit_lt_two_pow (Nat.lt_of_lt_of_le hn hbits)]
  · simp [hi]

theorem toNat_alignUp (size : UInt64) :
    (alignUp size).toNat = (size.toNat + 15) % 2 ^ 64 / 16 * 16 := by
  have hsum : size + alignment - 1 = size + 15 := by
    unfold alignment
    grind
  unfold alignUp
  rw [hsum, UInt64.toNat_and, UInt64.toNat_add]
  exact land_not_low (Nat.mod_lt _ (by decide))

/-- `alignUp` gives nothing for 0, and for the sizes that wrap. -/
theorem alignUp_eq_zero_iff {size : UInt64} :
    alignUp size = 0 ↔ size = 0 ∨ 2 ^ 64 - 16 < size.toNat := by
  have := size.toNat_lt
  rw [← UInt64.toNat_inj, ← UInt64.toNat_inj, toNat_alignUp, UInt64.toNat_zero]
  omega

theorem requestSize_of_ne {size : UInt64} (hs : alignUp size ≠ 0) :
    requestSize size = (alignUp size).toNat := by
  unfold requestSize
  have hpos := Word.ne_zero_iff.mp hs
  rw [if_neg]
  rw [UInt64.lt_iff_toNat_lt]
  exact Nat.not_lt.mpr hpos

theorem requestSize_of_eq {size : UInt64} (hs : alignUp size = 0) : requestSize size = 1 := by
  unfold requestSize
  rw [hs]
  exact if_pos (by decide)

theorem requestSize_pos (size : UInt64) : 0 < requestSize size := by
  by_cases hs : alignUp size = 0
  · rw [requestSize_of_eq hs]
    decide
  · rw [requestSize_of_ne hs]
    exact Word.ne_zero_iff.mp hs

theorem dvd_requestSize {size : UInt64} (hs : alignUp size ≠ 0) : alignment.toNat ∣ requestSize size := by
  rw [requestSize_of_ne hs, toNat_alignUp]
  exact Nat.dvd_mul_left _ _

/-- A size that does not wrap is rounded up. -/
theorem le_requestSize {size : UInt64} (hs : size.toNat ≤ 2 ^ 64 - 16) : size.toNat ≤ requestSize size := by
  by_cases h0 : alignUp size = 0
  · rcases alignUp_eq_zero_iff.mp h0 with rfl | hlt
    · exact Nat.zero_le _
    · omega
  · rw [requestSize_of_ne h0, toNat_alignUp]
    omega

/-! ## Cases -/

/-- The two views of a heap are determined by it, up to the order of the list. -/
theorem Inv.unique (hi : Inv B h blocks free) (hi' : Inv B h blocks' free') :
    blocks = blocks' ∧ ∀ a, a ∈ free ↔ a ∈ free' := by
  obtain rfl := hi.tiles.unique hi'.tiles
  exact ⟨rfl, fun a => by rw [hi.isFree, hi'.isFree]⟩

namespace Client

variable {c c' : Client} {fuel : Nat}

/-- How the blocks of a heap are listed does not matter. -/
theorem Ok.relist (hok : c.Ok B blocks free) (hi : Inv B c.heap blocks' free') :
    c.Ok B blocks' free' := by
  obtain ⟨rfl, _⟩ := hok.inv.unique hi
  exact ⟨hi, hok.nodup, hok.used, hok.initialized⟩

/-- The heap a request works on: the one there is, or one free block. -/
theorem Ok.initHeap_cases (hok : c.Ok B blocks free) :
    (c.heap.heapInitialized = true ∧ initHeap B c.heap = c.heap)
    ∨ c.heap.heapInitialized = false ∧ c.live = [] ∧ Inv B (initHeap B c.heap) [B.start] [B.start] := by
  by_cases hb : c.heap.heapInitialized = true
  · exact Or.inl ⟨hb, initHeap_of_initialized hb⟩
  · have hfalse : c.heap.heapInitialized = false := by simpa using hb
    have hnil : c.live = [] := by
      by_contra hne
      exact hb (hok.initialized hne)
    exact Or.inr ⟨hfalse, hnil, inv_initHeap hfalse⟩

/-- A request of an initialized heap finds nothing, or takes a block. -/
theorem Ok.new_cases (hok : c.Ok B blocks free) (hb : c.heap.heapInitialized = true)
    (hfuel : heapSize / headerSize < fuel) {size : UInt64}
    (hs : c.step B fuel (.new size) = some c') :
    c' = c ∨ ∃ b ∈ free, requestSize size ≤ c.heap.get .size b
      ∧ c' = ⟨takeBlock c.heap b (requestSize size), (b + headerSize) :: c.live⟩ := by
  rcases allocateMemory_eq size hok.inv hb hfuel with ⟨he, _⟩ | ⟨b, hbf, hle, he⟩
  · exact Or.inl (Option.some.inj ((step_new he).symm.trans hs)).symm
  · have hne : b + headerSize ≠ 0 := by
      have := hok.inv.linked.ne_zero hbf
      omega
    have hs' := (Option.some.inj ((step_new he).symm.trans hs)).symm
    rw [if_neg hne] at hs'
    exact Or.inr ⟨b, hbf, hle, hs'⟩

/-- Giving a block back links it in and joins it, and null does nothing. -/
theorem Ok.delete_cases (hok : c.Ok B blocks free) {p : Nat} (hp : p = 0 ∨ p ∈ c.live)
    (hs : c.step B fuel (.delete p) = some c') :
    c' = c ∨ ∃ b ∈ blocks, p = b + headerSize ∧ p ∈ c.live ∧ c.heap.get .isFree b = 0
      ∧ ∃ h', coalesce B fuel (addToFreeList c.heap b) b = some h' ∧ c' = ⟨h', c.live.erase p⟩ := by
  by_cases hmem : p ∈ c.live
  · obtain ⟨b, hbb, rfl, hused⟩ := hok.used p hmem
    have hne : b + headerSize ≠ 0 := by
      have := hok.inv.ne_zero hbb
      omega
    refine Or.inr ⟨b, hbb, rfl, hmem, hused, ?_⟩
    simp only [step, freeMemory, hne, if_false, Nat.add_sub_cancel, hused, ne_eq, not_true_eq_false] at hs
    split at hs
    · cases hs
    · rename_i h' hc
      exact ⟨h', hc, (Option.some.inj hs).symm⟩
  · obtain rfl : p = 0 := hp.resolve_right hmem
    have hfree : freeMemory B fuel 0 c.heap = some c.heap := by simp only [freeMemory, if_true]
    rw [step_delete hfree, List.erase_of_not_mem hmem] at hs
    exact Or.inl (Option.some.inj hs).symm

end Client

/-! ## Sizes -/

/-- A property of sizes that the whole heap has, and that cutting and joining keep. -/
structure SizeRule (P : Nat → Prop) : Prop where
  whole : P (heapSize - headerSize)
  rest : ∀ {s n}, P s → P n → n + headerSize + alignment.toNat < s → P (s - n - headerSize)
  join : ∀ {s t}, P s → P t → P (s + (headerSize + t))

theorem sizeRule_pos : SizeRule (0 < ·) where
  whole := by decide
  rest := by
    intro s n _ _ hlt
    have : 0 < alignment.toNat := by decide
    omega
  join := by
    intro s t hs _
    omega

theorem sizeRule_dvd : SizeRule (alignment.toNat ∣ ·) where
  whole := by decide
  rest := by
    intro s n hs hn _
    exact Nat.dvd_sub (Nat.dvd_sub hs hn) (by decide)
  join := by
    intro s t hs ht
    exact Nat.dvd_add hs (Nat.dvd_add (by decide) ht)

/-- All blocks have sizes with the property. -/
def Sizes (P : Nat → Prop) (h : HeapState) (blocks : List Nat) : Prop := ∀ b ∈ blocks, P (h.get .size b)

variable {P : Nat → Prop}

theorem Sizes.congr (hs : Sizes P h blocks) (hsize : ∀ b ∈ blocks, h'.get .size b = h.get .size b) :
    Sizes P h' blocks := by
  intro b hb
  rw [hsize b hb]
  exact hs b hb

namespace SizeRule

theorem initHeap (hP : SizeRule P) (hb : h.heapInitialized = false) :
    Sizes P (initHeap B h) [B.start] := by
  intro b hmem
  rw [List.mem_singleton.mp hmem, get_initHeap hb .size]
  exact hP.whole

theorem takeBlock (hP : SizeRule P) {n : Nat} (hi : Inv B h blocks free) (hx : x ∈ free)
    (hn : n ≤ h.get .size x) (hcut : n + headerSize + alignment.toNat < h.get .size x → P n)
    (hs : Sizes P h blocks) :
    ∃ blocks' free', Inv B (takeBlock h x n) blocks' free' ∧ Sizes P (takeBlock h x n) blocks' := by
  rcases takeBlock_cases hi hx hn with
    ⟨l₁, l₂, f₁, f₂, rfl, rfl, hlt, hi', _, hsize⟩ | ⟨f₁, f₂, rfl, _, hi', hsize⟩
  · refine ⟨_, _, hi', ?_⟩
    intro b hb
    rw [hsize b hb]
    by_cases hbx : b = x
    · rw [if_pos hbx]
      exact hcut hlt
    · rw [if_neg hbx]
      by_cases hby : b = x + headerSize + n
      · rw [if_pos hby]
        exact hP.rest (hs x (by simp)) (hcut hlt) hlt
      · rw [if_neg hby]
        apply hs
        simpa [hby] using hb
  · exact ⟨_, _, hi', hs.congr hsize⟩

theorem coalesce (hP : SizeRule P) {fuel : Nat} (hi : Inv B h blocks free) (hx : x ∈ free)
    (hfuel : heapSize / headerSize < fuel) (hs : Sizes P h blocks) :
    ∃ h' blocks' free', coalesce B fuel h x = some h' ∧ Inv B h' blocks' free' ∧ Sizes P h' blocks' := by
  rcases coalesce_cases hi hx hfuel with
    ⟨_, he⟩ | ⟨l₁, l₂, f₁, f₂, h', rfl, rfl, he, hi', hsize⟩
  · exact ⟨h, blocks, free, he, hi, hs⟩
  · refine ⟨h', _, _, he, hi', ?_⟩
    intro b hb
    rw [hsize b hb]
    by_cases hbx : b = x
    · rw [if_pos hbx]
      exact hP.join (hs x (by simp)) (hs _ (by simp))
    · rw [if_neg hbx]
      apply hs
      simp only [List.mem_append, List.mem_cons] at hb ⊢
      exact hb.imp_right fun hb => hb.imp_right Or.inr

end SizeRule

namespace Client

variable {c c' : Client} {fuel : Nat}

/-- A client of an initialized heap whose blocks have sizes with the property. -/
structure Sized (P : Nat → Prop) (B : HeapBuffer) (c : Client) (blocks free : List Nat) : Prop where
  ok : c.Ok B blocks free
  sizes : c.heap.heapInitialized = true → Sizes P c.heap blocks

/-- The heap a request works on has sizes with the property. -/
theorem Sized.initialized (hP : SizeRule P) (hc : c.Sized P B blocks free) :
    ∃ blocks free, Sized P B ⟨initHeap B c.heap, c.live⟩ blocks free := by
  rcases hc.ok.initHeap_cases with ⟨_, he⟩ | ⟨hb, hnil, hi⟩
  · rw [he]
    exact ⟨blocks, free, hc⟩
  · exact ⟨_, _, ⟨hi, hc.ok.nodup, by simp [hnil], fun _ => heapInitialized_initHeap⟩,
      fun _ => hP.initHeap hb⟩

/-- **A request** keeps the property when the request itself has it, or no block is cut for it. -/
theorem Sized.new (hP : SizeRule P) (hc : c.Sized P B blocks free)
    (hfuel : heapSize / headerSize < fuel) {size : UInt64} (hsize : P (requestSize size))
    (hs : c.step B fuel (.new size) = some c') : ∃ blocks' free', c'.Sized P B blocks' free' := by
  obtain ⟨blocks₀, free₀, hc₀⟩ := hc.initialized hP
  -- a request of a heap that was never used is one of the heap once it is initialized
  rw [step_new_initHeap] at hs
  have hb := heapInitialized_initHeap (B := B) (h := c.heap)
  obtain ⟨d, _, _, hd, hok'⟩ := hc₀.ok.new_of_initialized hb hfuel size
  obtain rfl : d = c' := Option.some.inj (hd.symm.trans hs)
  rcases hc₀.ok.new_cases hb hfuel hs with rfl | ⟨b, hbf, hle, rfl⟩
  · exact ⟨blocks₀, free₀, hc₀⟩
  · obtain ⟨blocks', free', hi', hs'⟩ :=
      hP.takeBlock hc₀.ok.inv hbf hle (fun _ => hsize) (hc₀.sizes hb)
    exact ⟨blocks', free', hok'.relist hi', fun _ => hs'⟩

/-- **Giving a block back** keeps the property. -/
theorem Sized.delete (hP : SizeRule P) (hc : c.Sized P B blocks free)
    (hfuel : heapSize / headerSize < fuel) {p : Nat} (hp : p = 0 ∨ p ∈ c.live)
    (hs : c.step B fuel (.delete p) = some c') : ∃ blocks' free', c'.Sized P B blocks' free' := by
  obtain ⟨d, _, _, hd, hok'⟩ := hc.ok.delete hfuel hp
  obtain rfl : d = c' := Option.some.inj (hd.symm.trans hs)
  rcases hc.ok.delete_cases hp hs with rfl | ⟨b, hbb, rfl, hmem, hused, h', hcoal, rfl⟩
  · exact ⟨blocks, free, hc⟩
  · have hb := hc.ok.initialized (List.ne_nil_of_mem hmem)
    have hadd := inv_addToFreeList hc.ok.inv hbb hused
    have hs₀ : Sizes P (addToFreeList c.heap b) blocks :=
      (hc.sizes hb).congr fun a ha => hc.ok.inv.get_addToFreeList hbb hused ha .size
    obtain ⟨h'', blocks', free', hcoal', hi', hs'⟩ := hP.coalesce hadd (x := b) (by simp) hfuel hs₀
    obtain rfl : h' = h'' := Option.some.inj (hcoal.symm.trans hcoal')
    exact ⟨blocks', free', hok'.relist hi', fun _ => hs'⟩

/-- **A write into a held block** keeps the property. -/
theorem Sized.write (hc : c.Sized P B blocks free) {a : Nat} {v : UInt8} (ha : c.Allowed (.write a v))
    (hs : c.step B fuel (.write a v) = some c') : c'.Sized P B blocks free := by
  obtain ⟨d, hd, hok'⟩ := hc.ok.write fuel v ha
  obtain rfl : d = c' := Option.some.inj (hd.symm.trans hs)
  obtain rfl := Option.some.inj hs
  exact ⟨hok', fun hb => (hc.sizes hb).congr fun b hb => hc.ok.get_write v ha .size hb⟩

/-- Before the first request there is nothing to show. -/
theorem sized_atBoot {m : Mem} (hz : ∀ i, B.start ≤ i → i < B.start + heapSize → m i = 0) :
    ∃ blocks free, Sized P B ⟨atBoot m, []⟩ blocks free := by
  obtain ⟨blocks, hi⟩ := inv_atBoot hz
  exact ⟨blocks, [], ⟨hi, List.nodup_nil, by simp, by simp⟩, fun hb => absurd hb (by simp [atBoot])⟩

end Client

end AlopexOS.Heap
