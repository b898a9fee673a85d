import AlopexOS.Kernel.HeapRecovery
import AlopexOS.Lib.ObjectStore

/-!
# `Kernel.HeapObjects` — what the heap's clients keep in their blocks

The allocator writes into the memory that it hands out: the headers and the links of the free list are there. It
writes to headers only, and a header is never inside a block in use. So a client sees a store of objects: a request
makes a new one, and an object keeps what was put into it until it is given back, however often the blocks around
it are cut and joined.

## Contents
- **Bytes that change**: `OnlyHeaders`, for each function of the allocator.
- **Objects** of a client, and what a step does to them.
- **Runs**: `heap_refines_objects` and `object_kept`.
-/

namespace AlopexOS.Heap

open Packed Tiling DList HeapState ObjectStore

/-! ## Bytes that change -/

/-- No header of `D` has the byte. -/
def Clear (D : List Nat) (i : Nat) : Prop := ∀ b ∈ D, i < b ∨ b + headerSize ≤ i

/-- From `h` to `h'` only bytes of headers of `D` change. -/
def OnlyHeaders (D : List Nat) (h h' : HeapState) : Prop := ∀ i, Clear D i → h'.mem i = h.mem i

variable {B : HeapBuffer} {h h' h'' : HeapState} {D blocks free : List Nat} {x b i : Nat}

namespace OnlyHeaders

theorem refl (D : List Nat) (h : HeapState) : OnlyHeaders D h h := fun _ _ => rfl

theorem trans (hd : OnlyHeaders D h h') (hd' : OnlyHeaders D h' h'') : OnlyHeaders D h h'' :=
  fun i hi => (hd' i hi).trans (hd i hi)

theorem set (hb : b ∈ D) (h : HeapState) (f : HeaderField) (v : Nat) : OnlyHeaders D h (h.set f b v) := by
  intro i hi
  show store h.mem (b + f.off) f.width v i = h.mem i
  rcases hi b hb with hlt | hge
  · exact store_of_lt (by omega)
  · unfold headerSize at hge
    apply store_of_ge
    cases f <;> simp only [HeaderField.off, HeaderField.width] <;> omega

theorem setHead (h : HeapState) (v : Nat) : OnlyHeaders D h (h.setHead v) := fun _ _ => rfl

theorem initHeap (hb : h.heapInitialized = false) : OnlyHeaders [B.start] h (initHeap B h) := by
  have hself : B.start ∈ [B.start] := List.mem_singleton_self _
  unfold Heap.initHeap
  rw [hb]
  exact (((set hself _ _ _).trans (set hself _ _ _)).trans (set hself _ _ _)).trans (set hself _ _ _)

theorem addToFreeList (hx : x ∈ D) (hh : h.freeListHead ≠ 0 → h.freeListHead ∈ D) :
    OnlyHeaders D h (addToFreeList h x) := by
  have hown := ((set hx h .isFree 1).trans (set hx _ .next h.freeListHead)).trans (set hx _ .prev 0)
  by_cases h0 : h.freeListHead = 0
  · simp only [Heap.addToFreeList, freeListHead_set, h0, ne_eq, not_true_eq_false, if_false] at hown ⊢
    exact hown.trans (setHead _ _)
  · simp only [Heap.addToFreeList, freeListHead_set, h0, ne_eq, not_false_eq_true, if_true]
    exact (hown.trans (set (hh h0) _ _ _)).trans (setHead _ _)

theorem removeFromFreeList {l₁ l₂ : List Nat} (hD : Separated D)
    (hl : Linked (h.get .next) (h.get .prev) h.freeListHead (l₁ ++ x :: l₂))
    (hf : ∀ y ∈ l₁ ++ x :: l₂, y ∈ D) : OnlyHeaders D h (removeFromFreeList h x) := by
  have hx : x ∈ D := hf x (by simp)
  have hprev : h.get .prev x ≠ 0 → h.get .prev x ∈ D ∧ h.get .prev x ≠ x := by
    intro h0
    rcases hl.prev_node with ⟨_, hz⟩ | ⟨_, hm, _⟩
    · exact absurd hz h0
    · exact ⟨hf _ (by simp [hm]), fun he => hl.not_mem_rest.1 (he ▸ hm)⟩
  have hnext : h.get .next x ≠ 0 → h.get .next x ∈ D := by
    intro h0
    rcases hl.next_node with ⟨_, hz⟩ | ⟨_, hm, _⟩
    · exact absurd hz h0
    · exact hf _ (by simp [hm])
  obtain ⟨h₁, hh₁⟩ : ∃ h₁, (if h.get .prev x ≠ 0 then h.set .next (h.get .prev x) (h.get .next x)
      else h.setHead (h.get .next x)) = h₁ := ⟨_, rfl⟩
  -- the first assignment leaves the links of `x` itself alone
  have hfirst : OnlyHeaders D h h₁ ∧ ∀ g, h₁.get g x = h.get g x := by
    rw [← hh₁]
    split
    · rename_i h0
      obtain ⟨hp, hne⟩ := hprev h0
      refine ⟨set hp _ _ _, fun g => ?_⟩
      rw [get_set _ _ (hD x hx _ hp), if_neg]
      exact fun hc => hne hc.2.symm
    · exact ⟨setHead _ _, fun g => HeapState.get_setHead _ _ _ _⟩
  have hsecond : OnlyHeaders D h₁
      (if h₁.get .next x ≠ 0 then h₁.set .prev (h₁.get .next x) (h₁.get .prev x) else h₁) := by
    split
    · rename_i h0
      rw [hfirst.2] at h0 ⊢
      exact set (hnext h0) _ _ _
    · exact refl D h₁
  unfold Heap.removeFromFreeList
  rw [hh₁]
  exact ((hfirst.1.trans hsecond).trans (set hx _ _ _)).trans (set hx _ _ _)

theorem cutBlock {n r : Nat} (hx : x ∈ D) (hy : x + headerSize + n ∈ D) : OnlyHeaders D h (cutBlock h x n r) :=
  ((set hy _ _ _).trans (set hy _ _ _)).trans (set hx _ _ _)

theorem coalesce {fuel : Nat} (hi : Inv B h blocks free) (hx : x ∈ blocks)
    (hfuel : heapSize / headerSize < fuel) (hc : coalesce B fuel h x = some h') : OnlyHeaders blocks h h' := by
  have hin := isInFreeList_eq (t := x + headerSize + h.get .size x) hi.linked
    (Nat.lt_of_le_of_lt hi.length_free_le hfuel)
  unfold Heap.coalesce at hc
  simp only [hin] at hc
  by_cases hmem : x + headerSize + h.get .size x ∈ free
  · obtain ⟨l₁, l₂, hsplit⟩ := List.append_of_mem hmem
    have hl := hi.linked
    have hf := hi.free_subset
    rw [hsplit] at hl hf
    have hjoin := removeFromFreeList hi.separated hl hf
    simp only [hmem, decide_true] at hc
    split at hc
    · split at hc
      · obtain rfl := Option.some.inj hc
        exact hjoin.trans (set hx _ _ _)
      · obtain rfl := Option.some.inj hc
        exact refl blocks h
    · obtain rfl := Option.some.inj hc
      exact refl blocks h
  · simp only [hmem, decide_false, ite_self, Option.some.injEq] at hc
    subst hc
    exact refl blocks h

end OnlyHeaders

/-- A byte of the payload of a block is in no header. -/
theorem Inv.clear_payload (hi : Inv B h blocks free) (hb : b ∈ blocks) (hlo : b + headerSize ≤ i)
    (hhi : i < blockEnd h b) : Clear blocks i := by
  intro b' hb'
  by_cases he : b' = b
  · subst he
    exact .inr hlo
  · have hend := Inv.header_le_blockEnd h b'
    rcases hi.tiles.disjoint hb' hb he with hd | hd <;> omega

/-- A byte outside the buffer is in no header. -/
theorem Inv.clear_outside (hi : Inv B h blocks free) (h' : i < B.start ∨ B.start + heapSize ≤ i) : Clear blocks i := by
  intro b hb
  have := hi.bounds hb
  omega

/-- **`takeBlock` writes to headers**, to that of the block it cuts off too. -/
theorem onlyHeaders_takeBlock {n : Nat} (hi : Inv B h blocks free) (hx : x ∈ free) (hn : n ≤ h.get .size x) :
    ∃ blocks' free', Inv B (takeBlock h x n) blocks' free' ∧ Keeps h blocks (takeBlock h x n) blocks'
      ∧ OnlyHeaders blocks' h (takeBlock h x n) ∧ x ∈ blocks' ∧ n ≤ (takeBlock h x n).get .size x := by
  obtain ⟨blocks', free', hi', hkeep, hmem, -⟩ := inv_takeBlock hi hx hn
  refine ⟨blocks', free', hi', hkeep, ?_⟩
  rcases takeBlock_cases hi hx hn with
    ⟨l₁, l₂, f₁, f₂, rfl, rfl, hlt, hi'', -, hsize⟩ | ⟨f₁, f₂, rfl, hle, hi'', hsize⟩
  · obtain rfl := (hi'.unique hi'').1
    have hn' : n + headerSize ≤ h.get .size x := by omega
    have hcut := inv_cutBlock hi hn'
    have hadd := inv_addToFreeList hcut (by simp) (isFree_cutBlock hi hn')
    rw [← List.cons_append] at hadd
    have hrest : h.get .size x - n > headerSize + alignment.toNat := by omega
    refine ⟨?_, hmem, ?_⟩
    · unfold takeBlock
      simp only [if_pos hrest]
      refine OnlyHeaders.trans ?_ (.set (by simp) _ _ _)
      refine OnlyHeaders.trans ?_ (.removeFromFreeList hadd.separated hadd.linked hadd.free_subset)
      refine OnlyHeaders.trans (.cutBlock (by simp) (by simp)) (.addToFreeList (by simp) ?_)
      intro h0
      exact hcut.free_subset _ (hcut.linked.head_mem h0)
    · exact Nat.le_of_eq ((hsize x hmem).trans (if_pos rfl)).symm
  · obtain rfl := (hi'.unique hi'').1
    have hrest : ¬ h.get .size x - n > headerSize + alignment.toNat := by omega
    refine ⟨?_, hmem, ?_⟩
    · unfold takeBlock
      simp only [if_neg hrest]
      exact (OnlyHeaders.removeFromFreeList hi.separated hi.linked hi.free_subset).trans (.set hmem _ _ _)
    · rw [hsize x hmem]
      exact hn

/-! ## Objects -/

/-- The block behind a pointer, as its client sees it. -/
def object (h : HeapState) (p : Nat) : Object UInt8 := ⟨p, slice h.mem p (h.get .size (p - headerSize))⟩

@[simp] theorem start_object (h : HeapState) (p : Nat) : (object h p).start = p := rfl

theorem length_object (h : HeapState) (b : Nat) :
    (object h (b + headerSize)).values.length = h.get .size b := by
  rw [object, length_slice, Nat.add_sub_cancel]

theorem stop_object (h : HeapState) (b : Nat) : (object h (b + headerSize)).stop = blockEnd h b := by
  unfold Object.stop
  rw [length_object]
  rfl

/-- A block whose header and payload stay is the same object. -/
theorem object_congr (hsize : h'.get .size b = h.get .size b)
    (hmem : ∀ i, b + headerSize ≤ i → i < blockEnd h b → h'.mem i = h.mem i) :
    object h' (b + headerSize) = object h (b + headerSize) := by
  unfold blockEnd at hmem
  unfold object
  rw [Nat.add_sub_cancel, hsize, slice_congr hmem]

/-- Different blocks are apart. -/
theorem Inv.object_apart (hi : Inv B h blocks free) {b' : Nat} (hb : b ∈ blocks) (hb' : b' ∈ blocks) (hne : b ≠ b') :
    (object h (b + headerSize)).Apart (object h (b' + headerSize)) := by
  refine ⟨fun he => hne (Nat.add_right_cancel he), ?_⟩
  rw [stop_object, stop_object]
  rcases hi.tiles.disjoint hb hb' hne with hd | hd
  · exact .inl (Nat.le_trans hd (Nat.le_add_right _ _))
  · exact .inr (Nat.le_trans hd (Nat.le_add_right _ _))

/-- What a client's own writes make of an object. -/
def HeapOp.after (o : Object UInt8) : HeapOp → Object UInt8
  | .write a v => o.put a v
  | _ => o

namespace Client

variable {c c' : Client} {fuel : Nat} {p : Nat}

/-- The objects that a client holds. -/
def objects (c : Client) : List (Object UInt8) := c.live.map (object c.heap)

theorem objects_cons (h : HeapState) (p : Nat) (live : List Nat) :
    objects ⟨h, p :: live⟩ = object h p :: live.map (object h) := List.map_cons

theorem objects_of_live_nil (h : c.live = []) : c.objects = [] := by
  unfold objects
  rw [h, List.map_nil]

/-- What a client asks for, and what happens to its objects. -/
inductive Serves : HeapOp → Event UInt8 → Prop
  | new {size : UInt64} {o : Object UInt8} (h : size.toNat ≤ 2 ^ 64 - 16 → size.toNat ≤ o.values.length) :
      Serves (.new size) (.allocated o)
  | refused (size : UInt64) : Serves (.new size) .nothing
  | delete (p : Nat) : Serves (.delete p) (.released p)
  | null : Serves (.delete 0) .nothing
  | write (a : Nat) (v : UInt8) : Serves (.write a v) (.put a v)

/-- Memory outside the buffer is as it was. -/
def SameOutside (B : HeapBuffer) (m m' : Mem) : Prop := ∀ i, i < B.start ∨ B.start + heapSize ≤ i → m' i = m i

/-- What a step does to the objects of a client, and nothing to the memory around the buffer. -/
def Shows (B : HeapBuffer) (c : Client) (op : HeapOp) (c' : Client) : Prop :=
  (∃ e, Serves op e ∧ Step c.objects e c'.objects) ∧ SameOutside B c.heap.mem c'.heap.mem

theorem Ok.shows_new_of_initialized (hok : c.Ok B blocks free) (hb : c.heap.heapInitialized = true)
    (hfuel : heapSize / headerSize < fuel) {size : UInt64} (hs : c.step B fuel (.new size) = some c') :
    c.Shows B (.new size) c' := by
  rcases hok.new_cases hb hfuel hs with rfl | ⟨b, hbf, hle, rfl⟩
  · exact ⟨⟨.nothing, .refused size, .nothing⟩, fun _ _ => rfl⟩
  · obtain ⟨blocks', free', hi', hkeep, hheaders, hmem, hsize⟩ := onlyHeaders_takeBlock hok.inv hbf hle
    refine ⟨⟨.allocated (object (takeBlock c.heap b (requestSize size)) (b + headerSize)), .new ?_, ?_⟩, ?_⟩
    · intro hsmall
      rw [length_object]
      exact Nat.le_trans (le_requestSize hsmall) hsize
    · -- the blocks that were in use are the objects they were
      have hlive : ∀ p ∈ c.live, ∃ b' ∈ blocks', p = b' + headerSize ∧ b ≠ b'
          ∧ object (takeBlock c.heap b (requestSize size)) p = object c.heap p := by
        intro p hp
        obtain ⟨b', hb', rfl, hused⟩ := hok.used p hp
        obtain ⟨hb'', -, hsame⟩ := hkeep b' hb' hused
        refine ⟨b', hb'', rfl, fun he => hok.inv.not_free hused (he ▸ hbf), object_congr hsame ?_⟩
        intro i hlo hhi
        apply hheaders
        apply hi'.clear_payload hb'' hlo
        unfold blockEnd at hhi ⊢
        rwa [hsame]
      have hobjects : c.live.map (object (takeBlock c.heap b (requestSize size))) = c.objects := by
        apply List.map_congr_left
        intro p hp
        obtain ⟨-, -, -, -, hsame⟩ := hlive p hp
        exact hsame
      rw [objects_cons, hobjects]
      apply Step.allocated
      intro o ho
      obtain ⟨p, hp, rfl⟩ := List.mem_map.mp ho
      obtain ⟨b', hb', rfl, hne, hsame⟩ := hlive p hp
      rw [← hsame]
      exact hi'.object_apart hmem hb' hne
    · intro i hi
      exact hheaders i (hi'.clear_outside hi)

/-- **A request** makes an object, or nothing happens to those there are. -/
theorem Ok.shows_new (hok : c.Ok B blocks free) (hfuel : heapSize / headerSize < fuel) {size : UInt64}
    (hs : c.step B fuel (.new size) = some c') : c.Shows B (.new size) c' := by
  rcases hok.initHeap_cases with ⟨hb, -⟩ | ⟨hb, hnil, hi⟩
  · exact hok.shows_new_of_initialized hb hfuel hs
  · -- the first request: nothing is held yet
    have hok' : Ok B ⟨initHeap B c.heap, c.live⟩ [B.start] [B.start] := by
      refine ⟨hi, hok.nodup, ?_, fun _ => heapInitialized_initHeap⟩
      intro p hp
      rw [hnil] at hp
      exact absurd hp List.not_mem_nil
    rw [step_new_initHeap] at hs
    obtain ⟨⟨e, hserves, hstep⟩, hout⟩ := hok'.shows_new_of_initialized heapInitialized_initHeap hfuel hs
    rw [objects_of_live_nil (c := ⟨initHeap B c.heap, c.live⟩) hnil, ← objects_of_live_nil hnil] at hstep
    refine ⟨⟨e, hserves, hstep⟩, fun i hi' => (hout i hi').trans ?_⟩
    exact OnlyHeaders.initHeap hb i (hi.clear_outside hi')

theorem live_of_delete (hs : c.step B fuel (.delete p) = some c') : c'.live = c.live.erase p := by
  cases hf : freeMemory B fuel p c.heap with
  | none => simp only [step, hf, reduceCtorEq] at hs
  | some h' =>
      rw [step_delete hf] at hs
      exact congrArg Client.live (Option.some.inj hs).symm

/-- **Giving a block back** releases its object. -/
theorem Ok.shows_delete (hok : c.Ok B blocks free) (hfuel : heapSize / headerSize < fuel) (hp : p = 0 ∨ p ∈ c.live)
    (hs : c.step B fuel (.delete p) = some c') : c.Shows B (.delete p) c' := by
  by_cases hmem : p ∈ c.live
  · rcases hok.delete_cases hp hs with rfl | ⟨b, hbb, rfl, -, hused, h', hcoal, rfl⟩
    · -- the pointer is not held any more
      rw [live_of_delete hs] at hmem
      exact absurd hmem hok.nodup.not_mem_erase
    · have hadd := inv_addToFreeList hok.inv hbb hused
      have hheaders : OnlyHeaders blocks c.heap h' := by
        refine OnlyHeaders.trans (.addToFreeList hbb fun h0 => ?_) (.coalesce hadd hbb hfuel hcoal)
        exact hok.inv.free_subset _ (hok.inv.linked.head_mem h0)
      obtain ⟨_, _, _, hcoal', _, hkeep⟩ := inv_coalesce hadd (x := b) (by simp) hfuel
      obtain rfl := Option.some.inj (hcoal.symm.trans hcoal')
      have hsame : ∀ q ∈ c.live.erase (b + headerSize), object h' q = object c.heap q := by
        intro q hq
        obtain ⟨hne, hq⟩ := hok.nodup.mem_erase_iff.mp hq
        obtain ⟨b', hb', rfl, hused'⟩ := hok.used q hq
        have hbne : b' ≠ b := fun he => hne (congrArg (· + headerSize) he)
        obtain ⟨hfree, hsize⟩ := keeps_addToFreeList hok.inv hbb hused b' hb' hbne hused'
        obtain ⟨-, -, hsize'⟩ := hkeep b' hb' hfree
        apply object_congr (hsize'.trans hsize)
        intro i hlo hhi
        exact hheaders i (hok.inv.clear_payload hb' hlo hhi)
      have hobjects : objects ⟨h', c.live.erase (b + headerSize)⟩
          = c.objects.filter fun o => o.start ≠ b + headerSize := by
        unfold objects
        rw [List.map_congr_left hsame]
        exact map_erase (start_object c.heap) hok.nodup _
      have hmem' : object c.heap (b + headerSize) ∈ c.objects := List.mem_map_of_mem hmem
      have hreleased := Step.released hmem'
      rw [start_object] at hreleased
      refine ⟨⟨.released (b + headerSize), .delete _, ?_⟩, fun i hi => hheaders i (hok.inv.clear_outside hi)⟩
      rw [hobjects]
      exact hreleased
  · obtain rfl : p = 0 := hp.resolve_right hmem
    have hfree : freeMemory B fuel 0 c.heap = some c.heap := by simp only [freeMemory, if_true]
    rw [step_delete hfree, List.erase_of_not_mem hmem] at hs
    obtain rfl := Option.some.inj hs
    exact ⟨⟨.nothing, .null, .nothing⟩, fun _ _ => rfl⟩

/-- **A write into a held block** is a put to its object. -/
theorem Ok.shows_write (hok : c.Ok B blocks free) {a : Nat} {v : UInt8} (ha : c.Allowed (.write a v))
    (hs : c.step B fuel (.write a v) = some c') : c.Shows B (.write a v) c' := by
  obtain rfl := Option.some.inj hs
  have hother : ∀ i, i ≠ a → store c.heap.mem a 1 v.toNat i = c.heap.mem i := by
    intro i hi
    rcases Nat.lt_or_gt_of_ne hi with hlt | hgt
    · exact store_of_lt hlt
    · exact store_of_ge hgt
  have hvalue : store c.heap.mem a 1 v.toNat a = v := by
    simp [store]
  have hobjects : objects ⟨{ c.heap with mem := store c.heap.mem a 1 v.toNat }, c.live⟩
      = c.objects.map (Object.put a v) := by
    unfold objects
    rw [List.map_map]
    apply List.map_congr_left
    intro q hq
    obtain ⟨b, hb, rfl, -⟩ := hok.used q hq
    have hsize := hok.get_write v ha .size hb
    show object _ (b + headerSize) = Object.put a v (object c.heap (b + headerSize))
    unfold object
    rw [Nat.add_sub_cancel, hsize]
    exact slice_put hvalue hother
  have hin := ha
  obtain ⟨p, hp, hlo, hhi⟩ := hin
  obtain ⟨b, hb, rfl, -⟩ := hok.used p hp
  rw [Nat.add_sub_cancel] at hhi
  refine ⟨⟨.put a v, .write a v, ?_⟩, ?_⟩
  · rw [hobjects]
    refine Step.put v (List.mem_map_of_mem hp) ⟨hlo, ?_⟩
    rw [stop_object]
    exact hhi
  · intro i hi
    have hbounds := hok.inv.bounds hb
    apply hother
    omega

/-! ## Runs -/

variable {m : Mem} {ops ops' : List HeapOp}

/-- **A step of a client** is one of its objects. -/
theorem Reachable.shows (hz : ∀ i, B.start ≤ i → i < B.start + heapSize → m i = 0)
    (hfuel : heapSize / headerSize < fuel) (hr : Reachable B fuel m c) {op : HeapOp} (hs : c.Calls B fuel op c') :
    c.Shows B op c' := by
  obtain ⟨blocks, free, hok⟩ := hr.ok hz hfuel
  cases op with
  | new size => exact hok.shows_new hfuel hs.2
  | delete p => exact hok.shows_delete hfuel hs.1 hs.2
  | write a v => exact hok.shows_write hs.1 hs.2

theorem events_of_run (hz : ∀ i, B.start ≤ i → i < B.start + heapSize → m i = 0)
    (hfuel : heapSize / headerSize < fuel) (hr : Reachable B fuel m c) (h : Run (Calls B fuel) c ops c') :
    ∃ events, List.Forall₂ Serves ops events ∧ Run Step c.objects events c'.objects
      ∧ SameOutside B c.heap.mem c'.heap.mem := by
  obtain ⟨events, _, hserves, hrun, -, rfl, hout⟩ := h.relates (Q := Serves) (S := Step) (t := c.objects)
    (P := fun d s => Reachable B fuel m d ∧ d.objects = s ∧ SameOutside B c.heap.mem d.heap.mem)
    (fun d op d' _ hs hd => by
      obtain ⟨hreach, rfl, hout⟩ := hd
      obtain ⟨⟨e, hserves, hstep⟩, hout'⟩ := hreach.shows hz hfuel hs
      exact ⟨e, d'.objects, hserves, hstep, .step op hreach hs.1 hs.2, rfl,
        fun i hi => (hout' i hi).trans (hout i hi)⟩)
    ⟨hr, rfl, fun _ _ => rfl⟩
  exact ⟨events, hserves, hrun, hout⟩

/-- **The heap is a store of objects.** Whatever a client asks for, gives back and writes, its blocks behave as
    objects that are apart from each other and inside the buffer; around the buffer no byte changes. -/
theorem heap_refines_objects (hz : ∀ i, B.start ≤ i → i < B.start + heapSize → m i = 0)
    (hfuel : heapSize / headerSize < fuel) (h : Run (Calls B fuel) ⟨atBoot m, []⟩ ops c) :
    ∃ events, List.Forall₂ Serves ops events ∧ Run Step [] events c.objects
      ∧ c.objects.Pairwise Object.Apart
      ∧ (∀ o ∈ c.objects, B.start ≤ o.start ∧ o.stop ≤ B.start + heapSize)
      ∧ SameOutside B m c.heap.mem := by
  obtain ⟨events, hserves, hrun, hout⟩ := events_of_run hz hfuel .boot h
  refine ⟨events, hserves, hrun, apart_of_run hrun .nil, ?_, hout⟩
  intro o ho
  obtain ⟨blocks, free, hok⟩ := (reachable_of_run h).ok hz hfuel
  obtain ⟨p, hp, rfl⟩ := List.mem_map.mp ho
  obtain ⟨b, hb, rfl, -⟩ := hok.used p hp
  have hbounds := hok.inv.bounds hb
  rw [stop_object, start_object]
  unfold blockEnd
  omega

theorem after_of_serves {events : List (Event UInt8)} (h : List.Forall₂ Serves ops events) (o : Object UInt8) :
    events.foldl Event.after o = ops.foldl HeapOp.after o := by
  induction h generalizing o with
  | nil => rfl
  | cons hserves _ ih =>
      rw [List.foldl_cons, List.foldl_cons, ih]
      cases hserves <;> rfl

/-- **An object is kept** until it is given back: whatever is asked for and given back in between, it holds what was
    written into it, and else what it held. -/
theorem object_kept (hz : ∀ i, B.start ≤ i → i < B.start + heapSize → m i = 0)
    (hfuel : heapSize / headerSize < fuel) (hboot : Run (Calls B fuel) ⟨atBoot m, []⟩ ops c)
    (h : Run (Calls B fuel) c ops' c') (hp : p ∈ c.live) (hkept : .delete p ∉ ops') :
    p ∈ c'.live ∧ object c'.heap p = ops'.foldl HeapOp.after (object c.heap p) := by
  obtain ⟨events, hserves, hrun, -⟩ := events_of_run hz hfuel (reachable_of_run hboot) h
  have hreleased : .released (object c.heap p).start ∉ events := by
    intro hmem
    obtain ⟨op, hop, hs⟩ := Run.exists_of_forall₂ hserves hmem
    cases hs
    exact hkept hop
  obtain ⟨hmem, hstart⟩ := kept_of_run hrun (List.mem_map_of_mem hp) hreleased
  rw [after_of_serves hserves] at hmem hstart
  obtain ⟨q, hq, he⟩ := List.mem_map.mp hmem
  obtain rfl : q = p := by
    rw [← he] at hstart
    exact hstart
  exact ⟨hq, he⟩

instance (c : Client) (op : HeapOp) : Decidable (c.Allowed op) :=
  match op with
  | .new _ => .isTrue trivial
  | .delete p => inferInstanceAs (Decidable (p = 0 ∨ p ∈ c.live))
  | .write a _ => inferInstanceAs (Decidable (∃ p ∈ c.live, p ≤ a ∧ a < p + c.heap.get .size (p - headerSize)))

/-- The step, when it is allowed. -/
def use (B : HeapBuffer) (fuel : Nat) (c : Client) (op : HeapOp) : Option Client :=
  if c.Allowed op then c.step B fuel op else none

theorem calls_of_use {op : HeapOp} (h : c.use B fuel op = some c') : c.Calls B fuel op c' := by
  unfold use at h
  split at h
  · rename_i ha
    exact ⟨ha, h⟩
  · cases h

/-- A block is asked for, written into and followed by another. -/
theorem written_between : ∃ c c' : Client,
    Run (Calls lowBuffer (heapSize / headerSize + 1)) ⟨atBoot fun _ => 0, []⟩ [.new 8] c
      ∧ Run (Calls lowBuffer (heapSize / headerSize + 1)) c [.write 50 7, .new 16] c'
      ∧ c.live = [48] ∧ c.heap.get .size 16 = 16 ∧ c'.live = [96, 48] := by
  have hfirst : (([.new 8] : List HeapOp).foldlM (use lowBuffer (heapSize / headerSize + 1))
      ⟨atBoot fun _ => 0, []⟩).map (fun c => (c.live, c.heap.get .size 16,
        ([.write 50 7, .new 16].foldlM (use lowBuffer (heapSize / headerSize + 1)) c).map Client.live))
      = some ([48], 16, some [96, 48]) := by decide +kernel
  obtain ⟨c, hc, hrest⟩ := Option.map_eq_some_iff.mp hfirst
  obtain ⟨hlive, hrest⟩ := Prod.mk.inj hrest
  obtain ⟨hsize, hsecond⟩ := Prod.mk.inj hrest
  obtain ⟨c', hc', hlive'⟩ := Option.map_eq_some_iff.mp hsecond
  exact ⟨c, c', Run.of_foldlM (fun _ _ _ => calls_of_use) .start hc,
    Run.of_foldlM (fun _ _ _ => calls_of_use) .start hc', hlive, hsize, hlive'⟩

/-- Two objects after the three calls. -/
theorem heap_refines_objects_a : ∃ (c : Client) (events : List (Event UInt8)), c.live = [96, 48]
    ∧ List.Forall₂ Serves [.new 8, .write 50 7, .new 16] events ∧ Run Step [] events c.objects := by
  obtain ⟨c, c', hfirst, hsecond, -, -, hlive⟩ := written_between
  obtain ⟨events, hserves, hrun, -⟩ := heap_refines_objects (fun _ _ _ => rfl) (Nat.lt_succ_self _)
    (hfirst.trans hsecond)
  exact ⟨c', events, hlive, hserves, hrun⟩

/-- What was written is still there after the other request. -/
theorem object_kept_a : ∃ c : Client, c.live = [96, 48] ∧ (object c.heap 48).values[2]? = some 7 := by
  obtain ⟨c, c', hfirst, hsecond, hlive, hsize, hlive'⟩ := written_between
  obtain ⟨-, hobject⟩ := object_kept (fun _ _ _ => rfl) (Nat.lt_succ_self _) hfirst hsecond (p := 48)
    (by rw [hlive]; exact List.mem_singleton_self _) (by simp)
  have hlength := length_object c.heap 16
  have hstart := start_object c.heap 48
  rw [hsize] at hlength
  refine ⟨c', hlive', ?_⟩
  rw [hobject, List.foldl_cons, List.foldl_cons, List.foldl_nil]
  change (object c.heap 48).values.length = 16 at hlength
  generalize object c.heap 48 = o at hlength hstart
  show (o.put 50 7).values[2]? = some 7
  unfold Object.put
  rw [hstart, if_pos (by decide)]
  apply List.getElem?_set_self
  omega

end Client

end AlopexOS.Heap
