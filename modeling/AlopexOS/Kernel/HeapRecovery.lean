import AlopexOS.Kernel.HeapSizes

/-!
# `Kernel.HeapRecovery` — the heap after everything is given back

`coalesce` joins a block that is given back with the block behind it, never with the one in front. When
the block in front is free, two free blocks stay next to each other, and no later request can have both.
As long as no block is given back behind a free one, free blocks are never neighbours, and a client that
holds nothing has the whole heap in one block again.

## Contents
- **`Merged`**: free blocks are not neighbours, and what `takeBlock` and `coalesce` do to that.
- **The client.** Every block in use is held.
- **Runs.** `Recovered`, and the runs that lead to it.
-/

namespace AlopexOS.Heap

open Packed Tiling DList HeapState

variable {B : HeapBuffer} {h h' : HeapState} {blocks blocks' free free' : List Nat} {x : Nat}

/-! ## Free blocks that are not neighbours -/

/-- No free block ends where another one starts. -/
def Merged (h : HeapState) (free : List Nat) : Prop := ∀ a ∈ free, blockEnd h a ∉ free

/-- Headers that end alike have the same neighbours. -/
theorem Merged.congr (hm : Merged h free) (hend : ∀ a ∈ free, blockEnd h' a = blockEnd h a)
    (hfree : ∀ a, a ∈ free' ↔ a ∈ free) : Merged h' free' := by
  intro a ha hmem
  rw [hfree] at ha hmem
  rw [hend a ha] at hmem
  exact hm a ha hmem

/-- **`takeBlock`** leaves no free neighbours, and one more block in use. -/
theorem merged_takeBlock {n : Nat} (hi : Inv B h blocks free) (hx : x ∈ free) (hn : n ≤ h.get .size x)
    (hm : Merged h free) :
    ∃ blocks' free', Inv B (takeBlock h x n) blocks' free' ∧ Merged (takeBlock h x n) free'
      ∧ ∀ b ∈ blocks', b ∉ free' → b = x ∨ b ∈ blocks ∧ b ∉ free := by
  rcases takeBlock_cases hi hx hn with
    ⟨l₁, l₂, f₁, f₂, rfl, rfl, hlt, hi', hy, hsize⟩ | ⟨f₁, f₂, rfl, -, hi', hsize⟩
  · have hpos : 0 < headerSize := by decide
    have hyx : x + headerSize + n ≠ x := by omega
    obtain ⟨hx₁, hx₂⟩ := hi.linked.not_mem_rest
    have hfree : ∀ b ∈ (x + headerSize + n) :: f₁ ++ f₂,
        b = x + headerSize + n ∨ b ∈ f₁ ++ x :: f₂ ∧ b ≠ x := by
      intro b hb
      simp only [List.mem_append, List.mem_cons] at hb ⊢
      rcases hb with (hb | hb) | hb
      · exact Or.inl hb
      · exact Or.inr ⟨Or.inl hb, fun he => hx₁ (he ▸ hb)⟩
      · exact Or.inr ⟨Or.inr (Or.inr hb), fun he => hx₂ (he ▸ hb)⟩
    have hrest : blockEnd (takeBlock h x n) (x + headerSize + n) = blockEnd h x := by
      rw [blockEnd, hsize _ (by simp), if_neg hyx, if_pos rfl, blockEnd]
      omega
    have hother : ∀ a ∈ f₁ ++ x :: f₂, a ≠ x → blockEnd (takeBlock h x n) a = blockEnd h a := by
      intro a haf hax
      have hal := hi.free_subset a haf
      have hay : a ≠ x + headerSize + n := fun he => hy (he ▸ hal)
      have ha' : a ∈ l₁ ++ x :: (x + headerSize + n) :: l₂ := by
        simp only [List.mem_append, List.mem_cons] at hal ⊢
        exact hal.imp_right fun hal => hal.imp_right Or.inr
      rw [blockEnd, hsize a ha', if_neg hax, if_neg hay, blockEnd]
    have hinside : x + headerSize + n < blockEnd h x := by
      unfold blockEnd
      omega
    refine ⟨_, _, hi', ?_, ?_⟩
    · intro a ha hmem
      rcases hfree a ha with rfl | ⟨haf, hax⟩
      · -- the remainder ends where the block that was cut did
        rw [hrest] at hmem
        rcases hfree _ hmem with he | ⟨hf, _⟩
        · omega
        · exact hm x (by simp) hf
      · rw [hother a haf hax] at hmem
        rcases hfree _ hmem with he | ⟨hf, _⟩
        · -- no block ends inside another
          have hle := Inv.header_le_blockEnd h a
          have hxl : x ∈ l₁ ++ x :: l₂ := by simp
          rcases hi.tiles.disjoint (hi.free_subset a haf) hxl hax with hd | hd
          · omega
          · omega
        · exact hm a haf hf
    · intro b hb hbf
      by_cases hbx : b = x
      · exact Or.inl hbx
      · have hby : b ≠ x + headerSize + n := fun he => hbf (by simp [he])
        refine Or.inr ⟨?_, fun hmem => hbf ?_⟩
        · simpa [hby] using hb
        · simpa [hbx, hby] using hmem
  · have hsub : ∀ b ∈ f₁ ++ f₂, b ∈ f₁ ++ x :: f₂ := by
      intro b hb
      simp only [List.mem_append, List.mem_cons] at hb ⊢
      exact hb.imp_right Or.inr
    refine ⟨_, _, hi', ?_, ?_⟩
    · intro a ha hmem
      rw [blockEnd, hsize a (hi.free_subset a (hsub a ha))] at hmem
      exact hm a (hsub a ha) (hsub _ hmem)
    · intro b hb hbf
      by_cases hbx : b = x
      · exact Or.inl hbx
      · refine Or.inr ⟨hb, fun hmem => hbf ?_⟩
        simpa [hbx] using hmem

/-- **`coalesce`** leaves no free neighbours when at most the block given back had one behind it. -/
theorem merged_coalesce {fuel : Nat} (hi : Inv B h blocks free) (hx : x ∈ free)
    (hfuel : heapSize / headerSize < fuel) (hm : ∀ a ∈ free, blockEnd h a ∈ free → a = x) :
    ∃ h' blocks' free', coalesce B fuel h x = some h' ∧ Inv B h' blocks' free' ∧ Merged h' free'
      ∧ ∀ b ∈ blocks', b ∉ free' → b ∈ blocks ∧ b ∉ free := by
  rcases coalesce_cases hi hx hfuel with
    ⟨hno, he⟩ | ⟨l₁, l₂, f₁, f₂, h', rfl, rfl, he, hi', hsize⟩
  · -- without a free block behind `x` nothing happens
    refine ⟨h, blocks, free, he, hi, ?_, fun b hb hbf => ⟨hb, hbf⟩⟩
    intro a ha hmem
    have hax : a = x := hm a ha hmem
    rw [hax] at hmem
    exact hno hmem
  · have hsub : ∀ b ∈ f₁ ++ f₂, b ∈ f₁ ++ blockEnd h x :: f₂ := by
      intro b hb
      simp only [List.mem_append, List.mem_cons] at hb ⊢
      exact hb.imp_right Or.inr
    have hxlt : x < blockEnd h x := hi.tiles.split.2.1
    refine ⟨h', _, _, he, hi', ?_, ?_⟩
    · intro a ha hmem
      have hend := hsize a (hi'.free_subset a ha)
      by_cases hax : a = x
      · -- the joined block ends where the second one did
        subst hax
        have hjoin : blockEnd h' a = blockEnd h (blockEnd h a) := by
          rw [blockEnd, hend, if_pos rfl]
          simp only [blockEnd]
          omega
        rw [hjoin] at hmem
        have := hm (blockEnd h a) (by simp) (hsub _ hmem)
        omega
      · rw [if_neg hax] at hend
        have hother : blockEnd h' a = blockEnd h a := by
          rw [blockEnd, hend, blockEnd]
        rw [hother] at hmem
        exact hax (hm a (hsub a ha) (hsub _ hmem))
    · intro b hb hbf
      have hby : b ≠ blockEnd h x := by
        intro hbe
        rw [hbe] at hb
        have hnd : ((l₁ ++ [x]) ++ blockEnd h x :: l₂).Nodup := by
          simpa using hi.tiles.nodup
        exact (List.nodup_cons.mp (List.nodup_middle.mp hnd)).1 (by simpa using hb)
      refine ⟨?_, fun hmem' => hbf ?_⟩
      · simp only [List.mem_append, List.mem_cons] at hb ⊢
        exact hb.imp_right fun hb => hb.imp_right Or.inr
      · simpa [hby] using hmem'

/-! ## The whole heap -/

/-- A request is satisfied when the pointer returned is not null. -/
def Satisfies (B : HeapBuffer) (fuel : Nat) (h : HeapState) (size : UInt64) : Prop :=
  ∃ p h', p ≠ 0 ∧ allocateMemory B fuel size h = some (p, h')

/-- The heap is one free block. -/
structure Whole (B : HeapBuffer) (h : HeapState) : Prop where
  head : h.freeListHead = B.start
  next : h.get .next B.start = 0
  isFree : h.get .isFree B.start ≠ 0
  size : h.get .size B.start = heapSize - headerSize

theorem whole_initHeap (hb : h.heapInitialized = false) : Whole B (initHeap B h) := by
  have hget := get_initHeap (B := B) hb
  refine ⟨freeListHead_initHeap hb, hget .next, ?_, hget .size⟩
  rw [hget .isFree]
  decide

/-- A tiling by one free block is the whole heap. -/
theorem Inv.whole (hi : Inv B h [B.start] free) (hmem : B.start ∈ free) :
    free = [B.start] ∧ Whole B h := by
  have hall : ∀ b ∈ free, b = B.start := fun b hb => List.mem_singleton.mp (hi.free_subset b hb)
  obtain rfl : free = [B.start] := by
    match free, hi.linked.nodup with
    | [], _ => exact absurd hmem List.not_mem_nil
    | [b], _ => rw [hall b (by simp)]
    | b :: b' :: _, hnd =>
        rw [hall b (by simp), hall b' (by simp)] at hnd
        exact absurd hnd (by simp)
  have hend : blockEnd h B.start = B.start + heapSize := hi.tiles.2.2
  obtain ⟨hhead, -, -, hseg⟩ := hi.linked
  refine ⟨rfl, hhead, hseg.2.1, ((hi.isFree _).mp hmem).2, ?_⟩
  unfold blockEnd at hend
  omega

/-- The requests that one free block satisfies. -/
theorem satisfies_whole {fuel : Nat} {size : UInt64} (hi : Inv B h [B.start] [B.start])
    (hb : h.heapInitialized = true) (hfuel : heapSize / headerSize < fuel) (hw : Whole B h) :
    Satisfies B fuel h size ↔ requestSize size ≤ heapSize - headerSize := by
  rcases allocateMemory_eq size hi hb hfuel with ⟨he, hall⟩ | ⟨b, hbf, hle, he⟩
  · have hlt := hall B.start (by simp)
    rw [hw.size] at hlt
    refine ⟨?_, fun hle => by omega⟩
    rintro ⟨p, h', hp, he'⟩
    rw [he] at he'
    exact absurd (congrArg Prod.fst (Option.some.inj he')).symm hp
  · obtain rfl := List.mem_singleton.mp hbf
    rw [hw.size] at hle
    have hpos := B.pos
    exact ⟨fun _ => hle, fun _ => ⟨_, _, by omega, he⟩⟩

/-- The requests that a heap satisfies that was never used. -/
theorem satisfies_unused {fuel : Nat} {size : UInt64} (hb : h.heapInitialized = false)
    (hfuel : heapSize / headerSize < fuel) :
    Satisfies B fuel h size ↔ requestSize size ≤ heapSize - headerSize := by
  have hinit : Satisfies B fuel (initHeap B h) size ↔ Satisfies B fuel h size := by
    unfold Satisfies allocateMemory
    rw [initHeap_of_initialized heapInitialized_initHeap]
  rw [← hinit]
  exact satisfies_whole (inv_initHeap hb) heapInitialized_initHeap hfuel (whole_initHeap hb)

/-! ## The client -/

namespace Client

variable {c c' : Client} {fuel : Nat}

/-- Once the heap is initialized, free blocks are not neighbours and every block in use is held. -/
structure Tight (B : HeapBuffer) (c : Client) (blocks free : List Nat) : Prop where
  ok : c.Ok B blocks free
  merged : c.heap.heapInitialized = true → Merged c.heap free
  held : c.heap.heapInitialized = true → ∀ b ∈ blocks, b ∉ free → b + headerSize ∈ c.live

/-- The block given back, if any, does not start where a free one ends. -/
def BehindUsed (fuel : Nat) (c : Client) : HeapOp → Prop
  | .delete p =>
      p ≠ 0 → ∀ a, isInFreeList fuel c.heap a = some true → blockEnd c.heap a ≠ p - headerSize
  | _ => True

theorem Tight.new_of_initialized (ht : c.Tight B blocks free) (hb : c.heap.heapInitialized = true)
    (hfuel : heapSize / headerSize < fuel) {size : UInt64}
    (hs : c.step B fuel (.new size) = some c') : ∃ blocks' free', c'.Tight B blocks' free' := by
  obtain ⟨d, _, _, hd, hok'⟩ := ht.ok.new_of_initialized hb hfuel size
  obtain rfl : d = c' := Option.some.inj (hd.symm.trans hs)
  rcases ht.ok.new_cases hb hfuel hs with rfl | ⟨b, hbf, hle, rfl⟩
  · exact ⟨blocks, free, ht⟩
  · obtain ⟨blocks', free', hi', hm', hused⟩ := merged_takeBlock ht.ok.inv hbf hle (ht.merged hb)
    refine ⟨blocks', free', hok'.relist hi', fun _ => hm', fun _ a ha haf => ?_⟩
    rcases hused a ha haf with rfl | ⟨ha', haf'⟩
    · exact List.mem_cons_self
    · exact List.mem_cons_of_mem _ (ht.held hb a ha' haf')

theorem Tight.new (ht : c.Tight B blocks free) (hfuel : heapSize / headerSize < fuel) {size : UInt64}
    (hs : c.step B fuel (.new size) = some c') : ∃ blocks' free', c'.Tight B blocks' free' := by
  rcases ht.ok.initHeap_cases with ⟨hb, _⟩ | ⟨_, hnil, hi⟩
  · exact ht.new_of_initialized hb hfuel hs
  · -- the first request: the heap becomes one free block
    have ht' : Tight B ⟨initHeap B c.heap, c.live⟩ [B.start] [B.start] := by
      refine ⟨⟨hi, ht.ok.nodup, by simp [hnil], fun _ => heapInitialized_initHeap⟩, ?_, ?_⟩
      · intro _ a ha hmem
        rw [List.mem_singleton.mp ha] at hmem
        have hlt : B.start < blockEnd (initHeap B c.heap) B.start := hi.tiles.2.1
        exact absurd (List.mem_singleton.mp hmem) (Nat.ne_of_gt hlt)
      · exact fun _ a ha haf => absurd ha haf
    rw [step_new_initHeap] at hs
    exact ht'.new_of_initialized heapInitialized_initHeap hfuel hs

theorem Tight.delete (ht : c.Tight B blocks free) (hfuel : heapSize / headerSize < fuel) {p : Nat}
    (hp : p = 0 ∨ p ∈ c.live) (hbehind : c.BehindUsed fuel (.delete p))
    (hs : c.step B fuel (.delete p) = some c') : ∃ blocks' free', c'.Tight B blocks' free' := by
  obtain ⟨d, _, _, hd, hok'⟩ := ht.ok.delete hfuel hp
  obtain rfl : d = c' := Option.some.inj (hd.symm.trans hs)
  rcases ht.ok.delete_cases hp hs with rfl | ⟨b, hbb, rfl, hmem, hused, h', hc, rfl⟩
  · exact ⟨blocks, free, ht⟩
  · have hb := ht.ok.initialized (List.ne_nil_of_mem hmem)
    have hi := ht.ok.inv
    have hne : b + headerSize ≠ 0 := by
      have := hi.ne_zero hbb
      omega
    -- only the block given back may have a free one behind it
    have honly : ∀ a ∈ b :: free, blockEnd (addToFreeList c.heap b) a ∈ b :: free → a = b := by
      intro a ha hmem'
      rcases List.mem_cons.mp ha with rfl | haf
      · rfl
      · have hend : blockEnd (addToFreeList c.heap b) a = blockEnd c.heap a := by
          unfold blockEnd
          rw [hi.get_addToFreeList hbb hused (hi.free_subset a haf) .size]
        rw [hend] at hmem'
        rcases List.mem_cons.mp hmem' with he | hmem'
        · have hin := isInFreeList_eq (t := a) hi.linked (Nat.lt_of_le_of_lt hi.length_free_le hfuel)
          simp only [haf, decide_true] at hin
          exact absurd he (by simpa using hbehind hne a hin)
        · exact absurd hmem' (ht.merged hb a haf)
    obtain ⟨h'', blocks', free', hc', hi', hm', hkept⟩ :=
      merged_coalesce (inv_addToFreeList hi hbb hused) (x := b) (by simp) hfuel honly
    obtain rfl : h' = h'' := Option.some.inj (hc.symm.trans hc')
    refine ⟨blocks', free', hok'.relist hi', fun _ => hm', fun _ a ha haf => ?_⟩
    obtain ⟨hab, hnot⟩ := hkept a ha haf
    have hane : a ≠ b := fun he => hnot (by simp [he])
    have haf' : a ∉ free := fun hm => hnot (by simp [hm])
    have hpne : a + headerSize ≠ b + headerSize := by omega
    exact (List.mem_erase_of_ne hpne).mpr (ht.held hb a hab haf')

theorem Tight.write (ht : c.Tight B blocks free) {a : Nat} {v : UInt8} (ha : c.Allowed (.write a v))
    (hs : c.step B fuel (.write a v) = some c') : c'.Tight B blocks free := by
  obtain ⟨d, hd, hok'⟩ := ht.ok.write fuel v ha
  obtain rfl : d = c' := Option.some.inj (hd.symm.trans hs)
  obtain rfl := Option.some.inj hs
  refine ⟨hok', fun hb => ?_, ht.held⟩
  apply (ht.merged hb).congr _ fun _ => Iff.rfl
  intro x hx
  unfold blockEnd
  rw [ht.ok.get_write v ha .size (ht.ok.inv.free_subset x hx)]

/-! ## Runs -/

/-- What a client that holds nothing should find: if the heap was ever used, it is one free block, and the
    requests it satisfies are those a heap that was never used satisfies. -/
structure Recovered (B : HeapBuffer) (fuel : Nat) (m : Mem) (c : Client) : Prop where
  whole : c.heap.heapInitialized = true → Whole B c.heap
  requests : ∀ size, Satisfies B fuel c.heap size ↔ Satisfies B fuel (atBoot m) size

/-- A call that gives no block back right behind a free one. -/
def CallsBehindUsed (B : HeapBuffer) (fuel : Nat) (c : Client) (op : HeapOp) (c' : Client) : Prop :=
  c.Calls B fuel op c' ∧ c.BehindUsed fuel op

theorem Tight.step (hfuel : heapSize / headerSize < fuel) {op : HeapOp}
    (hs : c.CallsBehindUsed B fuel op c') (ht : ∃ blocks free, c.Tight B blocks free) :
    ∃ blocks free, c'.Tight B blocks free := by
  obtain ⟨blocks, free, ht⟩ := ht
  obtain ⟨⟨ha, hs⟩, hbehind⟩ := hs
  cases op with
  | new size => exact ht.new hfuel hs
  | delete p => exact ht.delete hfuel ha hbehind hs
  | write a v => exact ⟨blocks, free, ht.write ha hs⟩

/-- Free blocks that are not neighbours and tile the heap are one block. -/
theorem Tight.recovered {m : Mem} (ht : c.Tight B blocks free) (hfuel : heapSize / headerSize < fuel)
    (hlive : c.live = []) : c.Recovered B fuel m := by
  have hboot : ∀ size, Satisfies B fuel (atBoot m) size ↔ requestSize size ≤ heapSize - headerSize :=
    fun _ => satisfies_unused rfl hfuel
  by_cases hb : c.heap.heapInitialized = true
  · have hfree : ∀ b ∈ blocks, b ∈ free := by
      intro b hbb
      by_contra hbf
      have := ht.held hb b hbb hbf
      rw [hlive] at this
      exact List.not_mem_nil this
    have hi := ht.ok.inv
    obtain rfl : blocks = [B.start] := by
      cases blocks with
      | nil =>
          have hend : B.start = B.start + heapSize := hi.tiles
          have hpos : 0 < heapSize := by decide
          exact absurd hend (by omega)
      | cons x l =>
          obtain ⟨rfl, _, hrest⟩ := hi.tiles
          cases l with
          | nil => rfl
          | cons y l =>
              -- nothing is held, so two blocks in a row would both be free
              have hy : y = blockEnd c.heap B.start := hrest.1
              have hnot := ht.merged hb B.start (hfree B.start (by simp))
              exact absurd (hfree y (by simp)) (hy ▸ hnot)
    obtain ⟨rfl, hw⟩ := hi.whole (hfree _ (by simp))
    exact ⟨fun _ => hw, fun size => (satisfies_whole hi hb hfuel hw).trans (hboot size).symm⟩
  · refine ⟨fun hb' => absurd hb' hb, fun size => ?_⟩
    exact (satisfies_unused (by simpa using hb) hfuel).trans (hboot size).symm

/-- **The heap recovers** when no block was given back right behind a free one. -/
theorem recovered_of_run {m : Mem} {ops : List HeapOp}
    (hz : ∀ i, B.start ≤ i → i < B.start + heapSize → m i = 0) (hfuel : heapSize / headerSize < fuel)
    (hrun : Run (CallsBehindUsed B fuel) ⟨atBoot m, []⟩ ops c) (hlive : c.live = []) :
    c.Recovered B fuel m := by
  have hboot : ∃ blocks free, Tight B ⟨atBoot m, []⟩ blocks free := by
    obtain ⟨blocks, hi⟩ := inv_atBoot hz
    refine ⟨blocks, [], ⟨hi, List.nodup_nil, by simp, by simp⟩, ?_, ?_⟩
    · exact fun hb => absurd hb (by simp [atBoot])
    · exact fun hb => absurd hb (by simp [atBoot])
  obtain ⟨blocks, free, ht⟩ := hrun.invariant (fun _ _ _ hs ht => Tight.step hfuel hs ht) hboot
  exact ht.recovered hfuel hlive

/-- The list as `is_in_free_list` walks it. -/
def freeNodes (h : HeapState) : Nat → Nat → List Nat
  | 0, _ => []
  | fuel + 1, curr => if curr = 0 then [] else curr :: freeNodes h fuel (h.get .next curr)

theorem mem_freeNodes {h : HeapState} {a curr : Nat} (ha : isInFreeListFrom h a fuel curr = some true) :
    a ∈ freeNodes h fuel curr := by
  induction fuel generalizing curr with
  | zero => cases ha
  | succ fuel ih =>
      unfold isInFreeListFrom at ha
      unfold freeNodes
      split at ha
      · cases ha
      · rename_i h0
        rw [if_neg h0]
        split at ha
        · rename_i he
          exact he ▸ List.mem_cons_self
        · exact List.mem_cons_of_mem _ (ih ha)

/-- `call`, when nothing is given back right behind a free block. -/
def callBehindUsed (B : HeapBuffer) (fuel : Nat) (c : Client) : HeapOp → Option Client
  | .new size => c.call B fuel (.new size)
  | .delete p =>
      if ∀ a ∈ freeNodes c.heap fuel c.heap.freeListHead, blockEnd c.heap a ≠ p - headerSize then
        c.call B fuel (.delete p)
      else none
  | .write _ _ => none

theorem callsBehindUsed_of_call {op : HeapOp} (h : c.callBehindUsed B fuel op = some c') :
    c.CallsBehindUsed B fuel op c' := by
  cases op with
  | new size => exact ⟨calls_of_call h, trivial⟩
  | delete p =>
      simp only [callBehindUsed] at h
      split at h
      · rename_i hall
        exact ⟨calls_of_call h, fun _ a ha => hall a (mem_freeNodes ha)⟩
      · cases h
  | write a v => cases h

/-- Two blocks given back, the last one first. -/
theorem recovered_backwards : ∃ c : Client,
    c.live = [] ∧ c.Recovered lowBuffer (heapSize / headerSize + 1) (fun _ => 0) := by
  have hcalls : (([.new 16, .new 16, .delete 96, .delete 48] : List HeapOp).foldlM
      (callBehindUsed lowBuffer (heapSize / headerSize + 1)) ⟨atBoot fun _ => 0, []⟩).map Client.live
        = some [] := by decide +kernel
  obtain ⟨c, hc, hlive⟩ := Option.map_eq_some_iff.mp hcalls
  have hrun := Run.of_foldlM (fun _ _ _ => callsBehindUsed_of_call) .start hc
  exact ⟨c, hlive, recovered_of_run (fun _ _ _ => rfl) (Nat.lt_succ_self _) hrun hlive⟩

/-- **Given back in the order they were taken**, two blocks leave the heap in pieces. -/
theorem not_recovered_forwards :
    ¬ ∀ (B : HeapBuffer) (fuel : Nat) (m : Mem) (ops : List HeapOp) (c : Client),
      (∀ i, B.start ≤ i → i < B.start + heapSize → m i = 0) → heapSize / headerSize < fuel →
      Run (Calls B fuel) ⟨atBoot m, []⟩ ops c → c.live = [] → c.Recovered B fuel m := by
  intro hall
  have hcalls : (([.new 16, .new 16, .delete 48, .delete 96] : List HeapOp).foldlM
      (call lowBuffer (heapSize / headerSize + 1)) ⟨atBoot fun _ => 0, []⟩).map (fun c =>
        (c.live, c.heap.heapInitialized, c.heap.get .size lowBuffer.start)) = some ([], true, 16) := by
    decide +kernel
  obtain ⟨c, hc, hend⟩ := Option.map_eq_some_iff.mp hcalls
  obtain ⟨hlive, hb, hsize⟩ := by simpa only [Prod.mk.injEq] using hend
  have hrun := Run.of_foldlM (fun _ _ _ => calls_of_call) .start hc
  have hrec := hall lowBuffer _ _ _ c (fun _ _ _ => rfl) (Nat.lt_succ_self _) hrun hlive
  have := (hrec.whole hb).size
  rw [hsize] at this
  exact absurd this (by decide)

end Client

end AlopexOS.Heap
