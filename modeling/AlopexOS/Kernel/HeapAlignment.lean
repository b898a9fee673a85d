import AlopexOS.Kernel.HeapRecovery

/-!
# `Kernel.HeapAlignment` — where blocks and pointers lie

The buffer starts at a multiple of the alignment and a header takes two units of it, so headers and
pointers stay aligned as long as every block has a size that is a multiple of the alignment. `alignUp`
makes such sizes, except when it gives 0: for the size 0, and for the sizes that wrap. Then one byte is
taken instead, and the block that is cut for it leaves a header behind that is not aligned.

## Contents
- **`Aligned`**, and that it follows from the sizes.
- **The request that is not rounded.** It is served by the first block of the list.
- **Runs.** The heap stays aligned as long as no such request cuts a block, and exactly as long.
-/

namespace AlopexOS.Heap

open Packed Tiling DList HeapState

variable {B : HeapBuffer} {h : HeapState} {blocks free : List Nat} {a e : Nat}

/-- Blocks whose lengths are multiples of `d` start at multiples of `d`, if the first one does. -/
theorem dvd_of_tiles {d : Nat} {next : Nat → Nat} (ht : Tiles next a blocks e) (ha : d ∣ a)
    (hnext : ∀ b ∈ blocks, d ∣ b → d ∣ next b) : ∀ b ∈ blocks, d ∣ b := by
  induction blocks generalizing a with
  | nil => exact fun b hb => absurd hb List.not_mem_nil
  | cons x l ih =>
      obtain ⟨rfl, _, hrest⟩ := ht
      have htail := ih hrest (hnext x (by simp) ha) fun b hb => hnext b (List.mem_cons_of_mem _ hb)
      intro b hb
      rcases List.mem_cons.mp hb with rfl | hb
      · exact ha
      · exact htail b hb

/-- **Rounded sizes put every block at a multiple of the alignment.** -/
theorem Inv.aligned (hi : Inv B h blocks free) (hs : Sizes (alignment.toNat ∣ ·) h blocks) :
    ∀ b ∈ blocks, alignment.toNat ∣ b := by
  apply dvd_of_tiles hi.tiles (Nat.dvd_of_mod_eq_zero B.aligned)
  intro b hb hdvd
  exact Nat.dvd_add (Nat.dvd_add hdvd (by decide)) (hs b hb)

/-- The first block of the list, when it is large enough, is the one a request takes. -/
theorem allocateMemory_head {fuel : Nat} {size : UInt64} (hi : Inv B h blocks free)
    (hb : h.heapInitialized = true) (h0 : h.freeListHead ≠ 0) (hfuel : 0 < fuel)
    (hle : requestSize size ≤ h.get .size h.freeListHead) :
    allocateMemory B fuel size h
      = some (h.freeListHead + headerSize, takeBlock h h.freeListHead (requestSize size)) := by
  obtain ⟨k, rfl⟩ : ∃ k, fuel = k + 1 := ⟨fuel - 1, by omega⟩
  have hfree := ((hi.isFree _).mp (hi.linked.head_mem h0)).2
  have hfit : findFit h (requestSize size) (k + 1) h.freeListHead = some h.freeListHead := by
    rw [findFit, if_neg h0, if_pos ⟨hfree, hle⟩]
  unfold requestSize at hfit
  unfold allocateMemory
  simp only [initHeap_of_initialized hb, hfit, h0, if_false]
  rfl

namespace Client

variable {c c' : Client} {fuel : Nat}

/-- Headers and pointers at multiples of the alignment. -/
structure Aligned (B : HeapBuffer) (fuel : Nat) (c : Client) : Prop where
  /-- Stepping from header to header meets none that is not aligned. -/
  headers : c.heap.heapInitialized = true →
    ∃ blocks, Tiles (blockEnd c.heap) B.start blocks (B.start + heapSize)
      ∧ ∀ b ∈ blocks, alignment.toNat ∣ b
  /-- Whatever is asked for next, the pointer returned is aligned. -/
  pointers : ∀ size p h', allocateMemory B fuel size c.heap = some (p, h') → alignment.toNat ∣ p

/-- What a request may be: rounded up, or for a byte that no block is cut for, as the list has none or its
    first block is too small. -/
def Rounds (c : Client) : HeapOp → Prop
  | .new size =>
      alignUp size ≠ 0 ∨ c.heap.heapInitialized = true
        ∧ (c.heap.freeListHead = 0
          ∨ c.heap.get .size c.heap.freeListHead ≤ headerSize + alignment.toNat)
  | _ => True

/-- Sizes that are rounded, and not 0. -/
def Rounded (s : Nat) : Prop := 0 < s ∧ alignment.toNat ∣ s

theorem sizeRule_rounded : SizeRule Rounded where
  whole := ⟨sizeRule_pos.whole, sizeRule_dvd.whole⟩
  rest hs hn hlt := ⟨sizeRule_pos.rest hs.1 hn.1 hlt, sizeRule_dvd.rest hs.2 hn.2 hlt⟩
  join hs ht := ⟨sizeRule_pos.join hs.1 ht.1, sizeRule_dvd.join hs.2 ht.2⟩

theorem Sized.dvd (hc : c.Sized Rounded B blocks free) (hb : c.heap.heapInitialized = true) :
    ∀ b ∈ blocks, alignment.toNat ∣ b :=
  hc.ok.inv.aligned fun b hmem => (hc.sizes hb b hmem).2

/-- **Rounded sizes align the heap.** -/
theorem Sized.aligned (hc : c.Sized Rounded B blocks free) (hfuel : heapSize / headerSize < fuel) :
    c.Aligned B fuel := by
  constructor
  · intro hb
    exact ⟨blocks, hc.ok.inv.tiles, hc.dvd hb⟩
  · intro size p h' ha
    obtain ⟨blocks₀, free₀, hc₀⟩ := hc.initialized sizeRule_rounded
    have hb := heapInitialized_initHeap (B := B) (h := c.heap)
    have ha' : allocateMemory B fuel size (initHeap B c.heap) = some (p, h') := by
      unfold allocateMemory at ha ⊢
      rw [initHeap_of_initialized hb]
      exact ha
    rcases allocateMemory_eq size hc₀.ok.inv hb hfuel with ⟨he, _⟩ | ⟨b, hbf, _, he⟩
    · obtain ⟨rfl, _⟩ := Prod.mk.inj (Option.some.inj (he.symm.trans ha'))
      exact Nat.dvd_zero _
    · obtain ⟨rfl, _⟩ := Prod.mk.inj (Option.some.inj (he.symm.trans ha'))
      exact Nat.dvd_add (hc₀.dvd hb b (hc₀.ok.inv.free_subset b hbf)) (by decide)

/-- What a request for a byte that is not rounded does to an initialized heap. -/
theorem Sized.new_byte (hc : c.Sized Rounded B blocks free) (hb : c.heap.heapInitialized = true)
    (hfuel : heapSize / headerSize < fuel) {size : UInt64} (h0 : alignUp size = 0)
    (hs : c.step B fuel (.new size) = some c') :
    (c.heap.freeListHead = 0 ∧ c' = c)
    ∨ c.heap.freeListHead ∈ free
      ∧ c' = ⟨takeBlock c.heap c.heap.freeListHead 1, (c.heap.freeListHead + headerSize) :: c.live⟩ := by
  have hi := hc.ok.inv
  by_cases hhead : c.heap.freeListHead = 0
  · refine Or.inl ⟨hhead, ?_⟩
    rcases hc.ok.new_cases hb hfuel hs with hsame | ⟨b, hbf, _⟩
    · exact hsame
    · -- the list is empty
      obtain rfl : free = [] := by
        by_contra hne
        obtain ⟨x, f, rfl⟩ := List.exists_cons_of_ne_nil hne
        exact hi.linked.ne_zero (show x ∈ x :: f by simp) (hi.linked.1.symm.trans hhead)
      exact absurd hbf List.not_mem_nil
  · have hmem := hi.linked.head_mem hhead
    have hpos := (hc.sizes hb _ (hi.free_subset _ hmem)).1
    -- every block has at least a byte, so the search ends at the first
    have hle : requestSize size ≤ c.heap.get .size c.heap.freeListHead := by
      rw [requestSize_of_eq h0]
      exact hpos
    have halloc := allocateMemory_head hi hb hhead (Nat.zero_lt_of_lt hfuel) hle
    have hne : c.heap.freeListHead + headerSize ≠ 0 := by omega
    have hs' := (Option.some.inj ((step_new halloc).symm.trans hs)).symm
    rw [if_neg hne, requestSize_of_eq h0] at hs'
    exact Or.inr ⟨hmem, hs'⟩

/-- **A step keeps the sizes rounded** when what is requested is. -/
theorem Sized.step_rounded (hc : ∃ blocks free, c.Sized Rounded B blocks free)
    (hfuel : heapSize / headerSize < fuel) {op : HeapOp} (hs : c.Calls B fuel op c') (hr : c.Rounds op) :
    ∃ blocks free, c'.Sized Rounded B blocks free := by
  obtain ⟨blocks, free, hc⟩ := hc
  obtain ⟨ha, hs⟩ := hs
  cases op with
  | delete p => exact hc.delete sizeRule_rounded hfuel ha hs
  | write a v => exact ⟨blocks, free, hc.write ha hs⟩
  | new size =>
      by_cases h0 : alignUp size = 0
      · obtain ⟨hb, hsmall⟩ := hr.resolve_left (not_not.mpr h0)
        obtain ⟨d, _, _, hd, hok'⟩ := hc.ok.new_of_initialized hb hfuel size
        obtain rfl : d = c' := Option.some.inj (hd.symm.trans hs)
        rcases hc.new_byte hb hfuel h0 hs with ⟨_, rfl⟩ | ⟨hmem, rfl⟩
        · exact ⟨blocks, free, hc⟩
        · have hpos := (hc.sizes hb _ (hc.ok.inv.free_subset _ hmem)).1
          -- the first block is too small to be cut
          have hle := hsmall.resolve_left (hc.ok.inv.linked.ne_zero hmem)
          obtain ⟨blocks', free', hi', hs'⟩ := sizeRule_rounded.takeBlock hc.ok.inv hmem hpos
            (fun hlt => by omega) (hc.sizes hb)
          exact ⟨blocks', free', hok'.relist hi', fun _ => hs'⟩
      · exact hc.new sizeRule_rounded hfuel ⟨requestSize_pos size, dvd_requestSize h0⟩ hs

/-- **A block that is cut for one byte** leaves a header that is not aligned. -/
theorem Sized.not_aligned (hc : c.Sized Rounded B blocks free) (hfuel : heapSize / headerSize < fuel)
    {op : HeapOp} (hs : c.Calls B fuel op c') (hr : ¬ c.Rounds op) : ¬ c'.Aligned B fuel := by
  cases op with
  | delete p => exact absurd trivial hr
  | write a v => exact absurd trivial hr
  | new size =>
      obtain ⟨h0, hlarge⟩ := not_or.mp hr
      have h0 := not_not.mp h0
      -- the heap the request works on, and its first block
      obtain ⟨blocks₀, free₀, hc₀⟩ := hc.initialized sizeRule_rounded
      have hb := heapInitialized_initHeap (B := B) (h := c.heap)
      have hfirst : (initHeap B c.heap).freeListHead ≠ 0
          ∧ headerSize + alignment.toNat
            < (initHeap B c.heap).get .size (initHeap B c.heap).freeListHead := by
        by_cases hinit : c.heap.heapInitialized = true
        · rw [initHeap_of_initialized hinit]
          have hor := fun hsmall => hlarge ⟨hinit, hsmall⟩
          obtain ⟨hne, hlt⟩ := not_or.mp hor
          exact ⟨hne, Nat.lt_of_not_le hlt⟩
        · have hfalse : c.heap.heapInitialized = false := by simpa using hinit
          rw [freeListHead_initHeap hfalse, get_initHeap hfalse .size]
          exact ⟨Nat.ne_of_gt B.pos, by decide⟩
      have hs' : step B fuel ⟨initHeap B c.heap, c.live⟩ (.new size) = some c' :=
        (step_new_initHeap size).symm.trans hs.2
      rcases hc₀.new_byte hb hfuel h0 hs' with ⟨hnull, _⟩ | ⟨hmem, rfl⟩
      · exact absurd hnull hfirst.1
      · intro hal
        have hmemb := hc₀.ok.inv.free_subset _ hmem
        have hdvd : 16 ∣ (initHeap B c.heap).freeListHead := hc₀.dvd hb _ hmemb
        have hpos := (hc₀.sizes hb _ hmemb).1
        have hsdvd : 16 ∣ (initHeap B c.heap).get .size (initHeap B c.heap).freeListHead :=
          (hc₀.sizes hb _ hmemb).2
        obtain ⟨blocks', htiles, hall⟩ := hal.headers (by simp)
        have h16 : alignment.toNat = 16 := rfl
        rcases takeBlock_cases hc₀.ok.inv hmem hpos with
          ⟨l₁, l₂, f₁, f₂, _, _, _, hi', _, _⟩ | ⟨_, _, _, hle, _⟩
        · obtain rfl := htiles.unique hi'.tiles
          -- the header of the rest lies one byte behind an aligned place
          have hrest := hall ((initHeap B c.heap).freeListHead + headerSize + 1) (by simp)
          rw [h16] at hrest
          unfold headerSize at hrest
          omega
        · have hlt := hfirst.2
          dsimp only at hle
          rw [h16] at hle hlt
          unfold headerSize at hle hlt
          omega

/-! ## Runs -/

/-- A call whose request, if it is one, is rounded or cuts nothing. -/
def CallsRounded (B : HeapBuffer) (fuel : Nat) (c : Client) (op : HeapOp) (c' : Client) : Prop :=
  c.Calls B fuel op c' ∧ c.Rounds op

/-- **The heap stays aligned** as long as every request is rounded or cuts nothing, and the next call keeps
    it so exactly if it is such a call. -/
theorem aligned_of_run {m : Mem} {ops : List HeapOp}
    (hz : ∀ i, B.start ≤ i → i < B.start + heapSize → m i = 0) (hfuel : heapSize / headerSize < fuel)
    (hrun : Run (CallsRounded B fuel) ⟨atBoot m, []⟩ ops c) :
    c.Aligned B fuel ∧ ∀ op c', c.Calls B fuel op c' → (c'.Aligned B fuel ↔ c.Rounds op) := by
  have hend := hrun.invariant (I := fun c => ∃ blocks free, Sized Rounded B c blocks free)
    (fun _ _ _ hs hc => Sized.step_rounded hc hfuel hs.1 hs.2) (sized_atBoot hz)
  obtain ⟨blocks, free, hc⟩ := hend
  refine ⟨hc.aligned hfuel, ?_⟩
  intro op c' hs
  constructor
  · intro hal
    by_contra hr
    exact hc.not_aligned hfuel hs hr hal
  · intro hr
    obtain ⟨_, _, hc'⟩ := Sized.step_rounded ⟨blocks, free, hc⟩ hfuel hs hr
    exact hc'.aligned hfuel

theorem aligned_joinAndCut : ∃ c : Client, c.live = [48, 240]
    ∧ c.Aligned lowBuffer (heapSize / headerSize + 1)
    ∧ ∀ op c', c.Calls lowBuffer (heapSize / headerSize + 1) op c' →
        (c'.Aligned lowBuffer (heapSize / headerSize + 1) ↔ c.Rounds op) := by
  have hcalls : (joinAndCut.foldlM (call lowBuffer (heapSize / headerSize + 1)) ⟨atBoot fun _ => 0, []⟩).map
      Client.live = some [48, 240] := by decide +kernel
  obtain ⟨c, hc, hlive⟩ := Option.map_eq_some_iff.mp hcalls
  have hsizes : ∀ size, HeapOp.new size ∈ joinAndCut → alignUp size ≠ 0 := by
    simp only [joinAndCut, List.mem_cons, HeapOp.new.injEq, reduceCtorEq, List.not_mem_nil, or_false, false_or,
      forall_eq_or_imp, forall_eq]
    decide
  have hrun : Run (CallsRounded lowBuffer (heapSize / headerSize + 1)) ⟨atBoot fun _ => 0, []⟩ joinAndCut c := by
    refine (Run.of_foldlM (fun _ _ _ => calls_of_call) .start hc).mono_labels fun s op s' hop hs => ⟨hs, ?_⟩
    cases op with
    | new size => exact Or.inl (hsizes size hop)
    | delete p => trivial
    | write a v => trivial
  exact ⟨c, hlive, aligned_of_run (fun _ _ _ => rfl) (Nat.lt_succ_self _) hrun⟩

/-- **`operator new(0)`** as the first call leaves a header at an odd address. -/
theorem not_aligned_after_empty :
    ¬ ∀ (B : HeapBuffer) (fuel : Nat) (m : Mem) (ops : List HeapOp) (c : Client),
      (∀ i, B.start ≤ i → i < B.start + heapSize → m i = 0) → heapSize / headerSize < fuel →
      Run (Calls B fuel) ⟨atBoot m, []⟩ ops c → c.Aligned B fuel := by
  intro hall
  have hfuel : heapSize / headerSize < heapSize / headerSize + 1 := Nat.lt_succ_self _
  have hcall : (call lowBuffer (heapSize / headerSize + 1) ⟨atBoot fun _ => 0, []⟩ (.new 0)).map Client.live
      = some [48] := by decide +kernel
  obtain ⟨c, hc, -⟩ := Option.map_eq_some_iff.mp hcall
  obtain ⟨_, _, hsized⟩ := sized_atBoot (B := lowBuffer) (P := Rounded) (m := fun _ => 0) fun _ _ _ => rfl
  have hnot : ¬ Rounds ⟨atBoot fun _ => 0, []⟩ (.new 0) := by
    rintro (hne | ⟨hb, _⟩)
    · exact hne (by decide)
    · cases hb
  apply hsized.not_aligned hfuel (calls_of_call hc) hnot
  exact hall lowBuffer _ _ _ c (fun _ _ _ => rfl) hfuel (Run.single (calls_of_call hc))

end Client

end AlopexOS.Heap
