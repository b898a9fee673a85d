import AlopexOS.Lib.Ownership
import AlopexOS.Strings.BasicString

/-!
# `Strings.Contents` — the members of a string and the bytes it holds (`src/include/string.hpp`)

`Holds m s own bs`: the contents of `s` are `bs`, in the object or in the block `own`. Each member is proved
to lead from some bytes to others, and `Turns` says what it did to the rest of memory: it writes to the
object, to its block and to what `new char[]` gave.

## Contents
- **Blocks** that are asked for and released.
- **`Holds`**, and what a string occupies.
- **Members**: `clear`, the branches of `append`, moves.
-/

namespace AlopexOS.Strings

open Packed Ownership

variable {SSO_Capacity : UInt64} {F : Nat → Prop} {m m' : Memory} {s s' t : BasicString}
  {own own' : Option Nat} {bs xs : List UInt8} {a k p n : Nat}

/-! ## Blocks -/

/-- A block that was released once. -/
def Gone (b : Option Block) : Prop := ∃ b' ∈ b, b'.released = 1

namespace Memory

/-- The blocks as a stock, by their numbers. -/
def stock (m : Memory) : Stock (Option Block) := ⟨m.blocks.length, fun k => m.blocks[k]?⟩

theorem stock_congr (h : m'.blocks = m.blocks) : m'.stock = m.stock := by
  rw [stock, h, stock]

/-- No other block that is in use starts there. -/
def Sole (m : Memory) (p k : Nat) : Prop :=
  ∀ j b, m.blocks[j]? = some b → b.start = p → b.released = 0 → j = k

theorem delete_eq (hk : m.blocks[k]? = some ⟨p, n, 0⟩) (hsole : m.Sole p k) :
    m.delete p = { m with blocks := m.blocks.modify k fun b => { b with released := b.released + 1 } } := by
  have hfind : m.blocks.findIdx? (fun b => b.start = p ∧ b.released = 0) = some k := by
    obtain ⟨hlt, hget⟩ := List.getElem?_eq_some_iff.mp hk
    refine List.findIdx?_eq_some_iff_getElem.mpr ⟨hlt, by simp [hget], fun j hj => ?_⟩
    have hother : ¬ (m.blocks[j].start = p ∧ m.blocks[j].released = 0) := fun hb =>
      Nat.ne_of_lt hj (hsole j _ (List.getElem?_eq_getElem (Nat.lt_trans hj hlt)) hb.1 hb.2)
    simpa using hother
  rw [delete, hfind]

@[simp] theorem bytes_delete : (m.delete p).bytes = m.bytes := by
  unfold delete
  split <;> rfl

theorem delete_bytes {bytes : Mem} :
    Memory.delete { m with bytes := bytes } p = { m.delete p with bytes := bytes } := by
  simp only [delete]
  cases m.blocks.findIdx? fun b => b.start = p ∧ b.released = 0 <;> rfl

/-- A block is released. -/
theorem works_delete (hk : m.blocks[k]? = some ⟨p, n, 0⟩) (hsole : m.Sole p k) :
    Works Gone (some k) m.stock none (m.delete p).stock := by
  rw [delete_eq hk hsole]
  refine ⟨Nat.le_of_eq (by simp [stock]), fun j _ hne => ⟨Option.some_ne_none _ ∘ Eq.symm, ?_⟩,
    fun j hj hown => ?_⟩
  · have hkj : k ≠ j := fun he => hne (congrArg some he)
    simp [stock, List.getElem?_modify, hkj]
  · have hjk : some k = some j := hown.resolve_right (Nat.not_le.mpr (by simpa [stock] using hj))
    obtain rfl := Option.some.inj hjk
    exact Or.inr ⟨⟨p, n, 1⟩, by simp [stock, List.getElem?_modify, hk], rfl⟩

/-- A block is asked for. -/
theorem works_allocate : Works Gone none m.stock (some m.blocks.length) (m.allocate p n).stock := by
  refine ⟨by simp [stock, allocate], fun j hj _ => ⟨?_, ?_⟩, fun j hj hown => Or.inl ?_⟩
  · exact fun he => Nat.ne_of_gt hj (Option.some.inj he)
  · exact List.getElem?_append_left hj
  · have hge : m.blocks.length ≤ j := hown.resolve_left (Option.some_ne_none _ ∘ Eq.symm)
    have hlt : j < m.blocks.length + 1 := by simpa [stock, allocate] using hj
    exact congrArg some (Nat.le_antisymm hge (Nat.le_of_lt_succ hlt))

/-- The old block may be released before the new one is asked for. -/
theorem delete_allocate {q c : Nat} (hk : m.blocks[k]? = some ⟨p, n, 0⟩) (hsole : m.Sole p k) (hq : q ≠ p) :
    (m.allocate q c).delete p = (m.delete p).allocate q c := by
  obtain ⟨hlt, _⟩ := List.getElem?_eq_some_iff.mp hk
  have hk' : (m.allocate q c).blocks[k]? = some ⟨p, n, 0⟩ := (List.getElem?_append_left hlt).trans hk
  have hsole' : (m.allocate q c).Sole p k := by
    intro j b hj hb hin
    rcases Nat.lt_or_ge j m.blocks.length with hold | hnew
    · exact hsole j b ((List.getElem?_append_left hold).symm.trans hj) hb hin
    · have hlast := List.mem_of_getElem? ((List.getElem?_append_right hnew).symm.trans hj)
      exact absurd ((congrArg Block.start (List.mem_singleton.mp hlast)).symm.trans hb) hq
  rw [delete_eq hk hsole, delete_eq hk' hsole']
  have hmodify : ∀ f : Block → Block, (m.allocate q c).blocks.modify k f = m.blocks.modify k f ++ [⟨q, c, 0⟩] := by
    intro f
    rw [allocate, List.modify_eq_take_cons_drop (by simp; omega), List.modify_eq_take_cons_drop hlt,
      List.take_append_of_le_length (Nat.le_of_lt hlt), List.drop_append_of_le_length hlt,
      List.getElem_append_left hlt, List.append_assoc, List.cons_append]
  rw [hmodify]
  rfl

end Memory

/-! ## Contents -/

namespace BasicString

variable (SSO_Capacity) (s m)

/-- The bytes of the object. -/
def InStorage (a : Nat) : Prop := s.storage ≤ a ∧ a < s.storage + storageSize SSO_Capacity

/-- The object and its block. -/
def Occupies (a : Nat) : Prop :=
  s.InStorage SSO_Capacity a
  ∨ s.isSso = false ∧ s.heapPtr m ≤ a ∧ a < s.heapPtr m + (s.heapCapacity m).toNat + 1

/-- `n` bytes fit in the block `k`, which is not the object's own memory. -/
structure OnHeap (n k : Nat) : Prop where
  isSso : s.isSso = false
  block : m.blocks[k]? = some ⟨s.heapPtr m, (s.heapCapacity m).toNat + 1, 0⟩
  fits : n ≤ (s.heapCapacity m).toNat
  ptr : s.heapPtr m ≠ 0
  apart : s.heapPtr m + (s.heapCapacity m).toNat + 1 ≤ s.storage
    ∨ s.storage + storageSize SSO_Capacity ≤ s.heapPtr m

end BasicString

/-- The string is `bs`, with a NUL behind it. -/
structure Holds (SSO_Capacity : UInt64) (m : Memory) (s : BasicString) (own : Option Nat) (bs : List UInt8) :
    Prop where
  length : s.length.toNat = bs.length
  short : bs.length < 2 ^ 62
  text : read m.bytes (s.cStr m) (bs.length + 1) = bs ++ [0]
  place : s.isSso = true ∧ own = none ∧ bs.length ≤ SSO_Capacity.toNat
    ∨ ∃ k, own = some k ∧ s.OnHeap SSO_Capacity m bs.length k

/-- What a member does to memory, where `F` may be given by `new char[]`. -/
structure Turns (SSO_Capacity : UInt64) (F : Nat → Prop) (s : BasicString) (own : Option Nat) (m : Memory)
    (s' : BasicString) (own' : Option Nat) (m' : Memory) : Prop where
  works : Works Gone own m.stock own' m'.stock
  frame : ∀ a, ¬ s.Occupies SSO_Capacity m a → ¬ F a → m'.bytes a = m.bytes a
  within : ∀ a, s'.Occupies SSO_Capacity m' a → s.Occupies SSO_Capacity m a ∨ F a
  strays : m'.strays = m.strays

theorem Turns.refl : Turns SSO_Capacity F s own m s own m :=
  ⟨.refl _ _, fun _ _ _ => rfl, fun _ ha => Or.inl ha, rfl⟩

theorem le_storageSize (SSO_Capacity : UInt64) :
    SSO_Capacity.toNat + 1 ≤ storageSize SSO_Capacity ∧ 24 ≤ storageSize SSO_Capacity :=
  ⟨Nat.le_max_left _ _, Nat.le_max_right _ _⟩

namespace BasicString

theorem heapPtr_congr (hs : s'.storage = s.storage)
    (hm : ∀ a, s.storage ≤ a → a < s.storage + 8 → m'.bytes a = m.bytes a) : s'.heapPtr m' = s.heapPtr m := by
  rw [heapPtr, hs]
  exact load_congr hm

theorem heapCapacity_congr (hs : s'.storage = s.storage)
    (hm : ∀ a, s.storage + 16 ≤ a → a < s.storage + 16 + 8 → m'.bytes a = m.bytes a) :
    s'.heapCapacity m' = s.heapCapacity m := by
  rw [heapCapacity, hs]
  exact congrArg UInt64.ofNat (load_congr hm)

theorem bytes_setHeap {c l : UInt64} (ha : a < s.storage ∨ s.storage + 24 ≤ a) :
    (s.setHeap m p l c).bytes a = m.bytes a := by
  simp only [setHeap]
  rcases ha with hlt | hge
  · rw [store_of_lt (by omega), store_of_lt (by omega), store_of_lt hlt]
  · rw [store_of_ge (by omega), store_of_ge (by omega), store_of_ge (by omega)]

theorem heapPtr_setHeap {c l : UInt64} (hs : s'.storage = s.storage) (hp : p < 2 ^ 64) :
    s'.heapPtr (s.setHeap m p l c) = p := by
  simp only [heapPtr, setHeap, hs]
  rw [load_store_apart (by omega), load_store_apart (by omega), load_store_same]
  exact Nat.mod_eq_of_lt hp

theorem heapCapacity_setHeap {c l : UInt64} (hs : s'.storage = s.storage) :
    s'.heapCapacity (s.setHeap m p l c) = c := by
  have hmod : c.toNat % 256 ^ 8 = c.toNat := Nat.mod_eq_of_lt c.toNat_lt
  simp only [heapCapacity, setHeap, hs]
  rw [load_store_same, hmod, UInt64.ofNat_toNat]

end BasicString

theorem Holds.occupies_text (h : Holds SSO_Capacity m s own bs) {i : Nat} (hi : i ≤ bs.length) :
    s.Occupies SSO_Capacity m (s.cStr m + i) := by
  rcases h.place with ⟨hsso, _, hfits⟩ | ⟨k, _, hheap⟩
  · rw [BasicString.cStr, if_pos hsso]
    exact Or.inl ⟨Nat.le_add_right _ _, by have := le_storageSize SSO_Capacity; omega⟩
  · rw [BasicString.cStr, if_neg (by simp [hheap.isSso])]
    exact Or.inr ⟨hheap.isSso, Nat.le_add_right _ _, by have := hheap.fits; omega⟩

theorem Holds.read_eq (h : Holds SSO_Capacity m s own bs) : read m.bytes (s.cStr m) bs.length = bs := by
  have htext := h.text
  rw [read_add] at htext
  exact (List.append_inj htext (length_read _ _ _)).1

theorem Holds.nul (h : Holds SSO_Capacity m s own bs) : m.bytes (s.cStr m + bs.length) = 0 := by
  have htext := h.text
  rw [read_add] at htext
  exact List.singleton_inj.mp (List.append_inj htext (length_read _ _ _)).2

theorem Holds.onHeap (h : Holds SSO_Capacity m s own bs) (hk : own = some k) :
    s.OnHeap SSO_Capacity m bs.length k := by
  rcases h.place with ⟨_, hnone, _⟩ | ⟨k', hk', hheap⟩
  · rw [hk] at hnone
    cases hnone
  · obtain rfl := Option.some.inj (hk.symm.trans hk')
    exact hheap

theorem Holds.inline (h : Holds SSO_Capacity m s own bs) (hsso : s.isSso = true) :
    own = none ∧ bs.length ≤ SSO_Capacity.toNat := by
  rcases h.place with ⟨_, hinline⟩ | ⟨k, _, hheap⟩
  · exact hinline
  · exact Bool.noConfusion (hheap.isSso.symm.trans hsso)

/-- What it occupies is as it was, and so is its block. -/
theorem Holds.frame (h : Holds SSO_Capacity m s own bs)
    (hbytes : ∀ a, s.Occupies SSO_Capacity m a → m'.bytes a = m.bytes a)
    (hblock : ∀ k, own = some k → m'.blocks[k]? = m.blocks[k]?) :
    Holds SSO_Capacity m' s own bs ∧ ∀ a, s.Occupies SSO_Capacity m' a ↔ s.Occupies SSO_Capacity m a := by
  have hunion : ∀ a, s.storage ≤ a → a < s.storage + 24 → m'.bytes a = m.bytes a := fun a hle hlt =>
    hbytes a (Or.inl ⟨hle, Nat.lt_of_lt_of_le hlt (Nat.add_le_add_left (le_storageSize _).2 _)⟩)
  have hptr : s.heapPtr m' = s.heapPtr m := BasicString.heapPtr_congr rfl fun a hle hlt => hunion a hle (by omega)
  have hcap : s.heapCapacity m' = s.heapCapacity m :=
    BasicString.heapCapacity_congr rfl fun a hle hlt => hunion a (by omega) (by omega)
  have hstr : s.cStr m' = s.cStr m := by rw [BasicString.cStr, hptr, BasicString.cStr]
  refine ⟨⟨h.length, h.short, ?_, ?_⟩, fun a => by rw [BasicString.Occupies, hptr, hcap, BasicString.Occupies]⟩
  · rw [hstr, ← h.text]
    exact read_congr fun i hi => hbytes _ (h.occupies_text (Nat.le_of_lt_succ hi))
  · refine h.place.imp_right ?_
    rintro ⟨k, hown, hheap⟩
    refine ⟨k, hown, hheap.isSso, ?_, ?_, ?_, ?_⟩
    · rw [hblock k hown, hptr, hcap]
      exact hheap.block
    · rw [hcap]
      exact hheap.fits
    · rw [hptr]
      exact hheap.ptr
    · rw [hptr, hcap]
      exact hheap.apart

/-! ## Members -/

theorem occupies_inline (hs : s.isSso = true) : s.Occupies SSO_Capacity m a ↔ s.InStorage SSO_Capacity a :=
  ⟨fun h => h.resolve_right fun hheap => Bool.noConfusion (hs.symm.trans hheap.1), Or.inl⟩

theorem occupies_heapPtr (hs : s.isSso = false) : s.Occupies SSO_Capacity m (s.heapPtr m) :=
  Or.inr ⟨hs, Nat.le_refl _, Nat.lt_succ_of_le (Nat.le_add_right _ _)⟩

theorem inStorage_self : s.InStorage SSO_Capacity s.storage :=
  ⟨Nat.le_refl _, by have := le_storageSize SSO_Capacity; omega⟩

/-- A range that does not meet the object is before it or behind it. -/
theorem apart_of_forall (h : ∀ a, p ≤ a → a < p + n + 1 → ¬ s.InStorage SSO_Capacity a) :
    p + n + 1 ≤ s.storage ∨ s.storage + storageSize SSO_Capacity ≤ p := by
  by_contra hmeet
  rcases Nat.lt_or_ge p s.storage with hlt | hge
  · exact h s.storage (Nat.le_of_lt hlt) (by omega) inStorage_self
  · exact h p (Nat.le_refl p) (by omega) ⟨hge, by omega⟩

theorem holds_reset : Holds SSO_Capacity (s.reset m).2 (s.reset m).1 none [] where
  length := rfl
  short := by decide
  text := congrArg (· :: []) (Function.update_self _ _ _)
  place := Or.inl ⟨rfl, rfl, Nat.zero_le _⟩

theorem frame_reset (ha : ¬ s.InStorage SSO_Capacity a) : (s.reset m).2.bytes a = m.bytes a := by
  refine Function.update_of_ne ?_ _ _
  rintro rfl
  exact ha inStorage_self

theorem occupies_reset : (s.reset m).1.Occupies SSO_Capacity m' a ↔ s.InStorage SSO_Capacity a :=
  occupies_inline (s := (s.reset m).1) rfl

theorem Holds.clear (h : Holds SSO_Capacity m s own bs) (hsole : ∀ k, own = some k → m.Sole (s.heapPtr m) k) :
    Holds SSO_Capacity (s.clear m).2 (s.clear m).1 none []
    ∧ Turns SSO_Capacity F s own m (s.clear m).1 none (s.clear m).2 := by
  rcases h.place with ⟨hsso, rfl, _⟩ | ⟨k, rfl, hheap⟩
  · rw [BasicString.clear, if_neg (by simp [hsso])]
    refine ⟨holds_reset, .refl _ _, fun a ha _ => frame_reset fun hin => ha (Or.inl hin), fun a ha => ?_, rfl⟩
    exact Or.inl (Or.inl (occupies_reset.mp ha))
  · rw [BasicString.clear, if_pos ⟨hheap.isSso, hheap.ptr⟩]
    have hworks := Memory.works_delete hheap.block (hsole k rfl)
    refine ⟨holds_reset, hworks, fun a ha _ => ?_, fun a ha => ?_, ?_⟩
    · exact (frame_reset fun hin => ha (Or.inl hin)).trans (congrFun Memory.bytes_delete a)
    · exact Or.inl (Or.inl (occupies_reset.mp ha))
    · rw [Memory.delete_eq hheap.block (hsole k rfl)]
      rfl

/-! ## Appending -/

namespace BasicString

variable (SSO_Capacity) (s m) (p str : Nat) (len : UInt64)

/-- `append` calls `new char[]`. -/
def Grows : Prop := len ≠ 0 ∧ s.capacity SSO_Capacity m < s.length + len

/-- The capacity it gets. -/
def newCapacity : UInt64 :=
  if s.isSso = true ∧ (s.length + len) * 2 < 32 then 32 else (s.length + len) * 2

/-- `new char[]` gives memory of `F`, apart from the string and from what is appended. -/
structure Supplied (F : Nat → Prop) : Prop where
  ptr : p ≠ 0
  top : p + (s.newCapacity len).toNat < 2 ^ 64
  free : ∀ i ≤ (s.newCapacity len).toNat, F (p + i)
  own : ∀ i ≤ (s.newCapacity len).toNat, ¬ s.Occupies SSO_Capacity m (p + i)
  source : ∀ i ≤ (s.newCapacity len).toNat, ¬ (str ≤ p + i ∧ p + i < str + len.toNat)

/-- The bytes to append begin before the end of the contents and reach behind it, and the loop writes there
    without a buffer. -/
def Clobbers : Prop :=
  ¬ s.Grows SSO_Capacity m len
  ∧ ¬ (s.isSso = true ∧ s.storage ≤ str ∧ str < s.storage + SSO_Capacity.toNat + 1 ∧ len < 256)
  ∧ str < s.cStr m + s.length.toNat ∧ s.cStr m + s.length.toNat < str + len.toNat

/-- Both loops that fill a new block, from the contents at `c`. -/
def joined (c : Nat) : Mem := Packed.copy (Packed.copy m.bytes p c s.length.toNat) (p + s.length.toNat) str len.toNat

variable {SSO_Capacity s m p str len}

/-! The branches of `append`. -/

theorem append_inline (hzero : len ≠ 0) (hsso : s.isSso = true) (hroom : s.length + len ≤ SSO_Capacity) :
    s.append SSO_Capacity m p str len = ({ s with length := s.length + len }, { m with
      bytes := Function.update
        (if s.storage ≤ str ∧ str < s.storage + SSO_Capacity.toNat + 1 ∧ len < 256 then
          blit m.bytes (s.storage + s.length.toNat) (read m.bytes str len.toNat)
        else copy m.bytes (s.storage + s.length.toNat) str len.toNat)
        (s.storage + (s.length + len).toNat) 0 }) := by
  simp only [append, if_neg hzero, if_pos hsso, if_pos hroom, Memory.put]

theorem append_toHeap (hzero : len ≠ 0) (hsso : s.isSso = true) (hroom : ¬ s.length + len ≤ SSO_Capacity) :
    s.append SSO_Capacity m p str len = (⟨s.storage, false, s.length + len⟩,
      s.setHeap { m.allocate p (s.newCapacity len + 1).toNat with
        bytes := Function.update (s.joined m p str len s.storage) (p + (s.length + len).toNat) 0 }
        p (s.length + len) (s.newCapacity len)) := by
  have hcap : s.newCapacity len = if (s.length + len) * 2 < 32 then 32 else (s.length + len) * 2 := by
    simp only [newCapacity, hsso, true_and]
  simp only [append, if_neg hzero, if_pos hsso, if_neg hroom, hcap, joined, Memory.put, Memory.allocate]

theorem append_heap (hzero : len ≠ 0) (hsso : s.isSso = false) (hroom : s.length + len ≤ s.heapCapacity m) :
    s.append SSO_Capacity m p str len = ({ s with length := s.length + len }, { m with
      bytes := store (Function.update (copy m.bytes (s.heapPtr m + s.length.toNat) str len.toNat)
        (s.heapPtr m + (s.length + len).toNat) 0) (s.storage + 8) 8 (s.length + len).toNat }) := by
  simp only [append, if_neg hzero, if_neg (Bool.not_eq_true _ ▸ hsso), if_pos hroom, Memory.put]

theorem append_regrow (hzero : len ≠ 0) (hsso : s.isSso = false) (hroom : ¬ s.length + len ≤ s.heapCapacity m)
    (hptr : load (s.joined m p str len (s.heapPtr m)) s.storage 8 = s.heapPtr m) :
    s.append SSO_Capacity m p str len = ({ s with length := s.length + len },
      s.setHeap { (m.allocate p (s.newCapacity len + 1).toNat).delete (s.heapPtr m) with
        bytes := Function.update (s.joined m p str len (s.heapPtr m)) (p + (s.length + len).toNat) 0 }
        p (s.length + len) (s.newCapacity len)) := by
  have hcap : s.newCapacity len = (s.length + len) * 2 := by
    simp only [newCapacity, hsso, Bool.false_eq_true, false_and, if_false]
  have hptr' : ∀ blocks strays, s.heapPtr ⟨s.joined m p str len (s.heapPtr m), blocks, strays⟩ = s.heapPtr m :=
    fun _ _ => hptr
  unfold joined at hptr'
  have hheap : s.heapPtr (m.allocate p ((s.length + len) * 2 + 1).toNat) = s.heapPtr m := rfl
  have hbytes : (m.allocate p ((s.length + len) * 2 + 1).toNat).bytes = m.bytes := rfl
  simp only [append, if_neg hzero, hsso, Bool.false_eq_true, if_false, if_neg hroom, hcap, hheap, hbytes, joined,
    hptr', Memory.delete_bytes, Memory.put]

end BasicString

namespace BasicString.Supplied

variable {str : Nat} {len : UInt64}

theorem isFree (h : s.Supplied SSO_Capacity m p str len F) (hle : p ≤ a)
    (hlt : a < p + (s.newCapacity len).toNat + 1) : F a := by
  have hfree := h.free (a - p) (by omega)
  rwa [Nat.add_sub_cancel' hle] at hfree

theorem not_occupies (h : s.Supplied SSO_Capacity m p str len F) (hle : p ≤ a)
    (hlt : a < p + (s.newCapacity len).toNat + 1) : ¬ s.Occupies SSO_Capacity m a := by
  have hown := h.own (a - p) (by omega)
  rwa [Nat.add_sub_cancel' hle] at hown

theorem not_source (h : s.Supplied SSO_Capacity m p str len F) (hle : p ≤ a)
    (hlt : a < p + (s.newCapacity len).toNat + 1) : ¬ (str ≤ a ∧ a < str + len.toNat) := by
  have hsource := h.source (a - p) (by omega)
  rwa [Nat.add_sub_cancel' hle] at hsource

end BasicString.Supplied

namespace Holds

variable {str : Nat} {len : UInt64}

theorem toNat_add (h : Holds SSO_Capacity m s own bs) (hfits : bs.length + len.toNat < 2 ^ 62) :
    (s.length + len).toNat = bs.length + len.toNat := by
  rw [UInt64.toNat_add, h.length]
  exact Nat.mod_eq_of_lt (by omega)

/-- A new capacity is enough, and one more byte is not too many. -/
theorem toNat_newCapacity (h : Holds SSO_Capacity m s own bs) (hfits : bs.length + len.toNat < 2 ^ 62) :
    bs.length + len.toNat ≤ (s.newCapacity len).toNat ∧ (s.newCapacity len).toNat < 2 ^ 63 := by
  have hlen := h.toNat_add hfits
  have hdouble : ((s.length + len) * 2).toNat = (bs.length + len.toNat) * 2 := by
    rw [UInt64.toNat_mul, hlen]
    exact Nat.mod_eq_of_lt (by show (bs.length + len.toNat) * 2 < 2 ^ 64; omega)
  unfold BasicString.newCapacity
  split
  · rename_i hsmall
    have hlt : ((s.length + len) * 2).toNat < 32 := hsmall.2
    have h32 : (32 : UInt64).toNat = 32 := rfl
    omega
  · omega

/-- What the loops leave in a new block. -/
theorem copied (h : Holds SSO_Capacity m s own bs) (hfits : bs.length + len.toNat < 2 ^ 62)
    (hsupply : s.Supplied SSO_Capacity m p str len F) :
    s.joined m p str len (s.cStr m) = paste m.bytes p (bs ++ read m.bytes str len.toNat) := by
  obtain ⟨hcap, _⟩ := h.toNat_newCapacity hfits
  -- the block is apart from the contents
  have hown : ¬ (s.cStr m < p ∧ p < s.cStr m + bs.length) := fun hin => by
    refine hsupply.not_occupies (Nat.le_refl p) (by omega) ?_
    have hi := h.occupies_text (i := p - s.cStr m) (by omega)
    rwa [Nat.add_sub_cancel' (by omega)] at hi
  have hold : copy m.bytes p (s.cStr m) s.length.toNat = paste m.bytes p bs := by
    rw [h.length, copy_eq hown, h.read_eq]
  -- and from the bytes to append
  have hsource : ¬ (str < p + bs.length ∧ p + bs.length < str + len.toNat) := fun hin =>
    hsupply.not_source (Nat.le_add_right _ _) (by omega) ⟨Nat.le_of_lt hin.1, hin.2⟩
  have hread : read (paste m.bytes p bs) str len.toNat = read m.bytes str len.toNat := by
    refine read_congr fun i hi => ?_
    rcases Nat.lt_or_ge (str + i) p with hlt | hge
    · exact paste_of_lt hlt
    · refine paste_of_ge (Nat.not_lt.mp fun hlt => hsupply.not_source hge (by omega) ?_)
      exact ⟨Nat.le_add_right _ _, Nat.add_lt_add_left hi _⟩
  rw [BasicString.joined, hold, h.length, copy_eq hsource, hread, paste_append]

/-- With the NUL. -/
theorem filled (h : Holds SSO_Capacity m s own bs) (hfits : bs.length + len.toNat < 2 ^ 62)
    (hsupply : s.Supplied SSO_Capacity m p str len F) :
    Function.update (s.joined m p str len (s.cStr m)) (p + (s.length + len).toNat) 0
      = paste m.bytes p (bs ++ read m.bytes str len.toNat ++ [0]) := by
  have hend : p + (s.length + len).toNat = p + (bs ++ read m.bytes str len.toNat).length := by
    rw [h.toNat_add hfits, List.length_append, length_read]
  rw [h.copied hfits hsupply, hend, update_paste]

/-- The string is in a new block. -/
theorem moved (h : Holds SSO_Capacity m s own bs) (m₁ : Memory) (hfits : bs.length + len.toNat < 2 ^ 62)
    (hsupply : s.Supplied SSO_Capacity m p str len F) (hworks : Works Gone own m.stock (some k) m₁.stock)
    (hblock : m₁.blocks[k]? = some ⟨p, (s.newCapacity len).toNat + 1, 0⟩) (hstrays : m₁.strays = m.strays)
    (hbytes : m₁.bytes = paste m.bytes p (bs ++ read m.bytes str len.toNat ++ [0])) :
    Holds SSO_Capacity (s.setHeap m₁ p (s.length + len) (s.newCapacity len)) ⟨s.storage, false, s.length + len⟩
      (some k) (bs ++ read m.bytes str len.toNat)
    ∧ Turns SSO_Capacity F s own m ⟨s.storage, false, s.length + len⟩ (some k)
      (s.setHeap m₁ p (s.length + len) (s.newCapacity len)) := by
  obtain ⟨hcap, htop⟩ := h.toNat_newCapacity hfits
  have hsize := le_storageSize SSO_Capacity
  have hlen : (bs ++ read m.bytes str len.toNat).length = bs.length + len.toNat := by simp
  have hptr : BasicString.heapPtr ⟨s.storage, false, s.length + len⟩
      (s.setHeap m₁ p (s.length + len) (s.newCapacity len)) = p :=
    BasicString.heapPtr_setHeap rfl (by have := hsupply.top; omega)
  have hcapacity : BasicString.heapCapacity ⟨s.storage, false, s.length + len⟩
      (s.setHeap m₁ p (s.length + len) (s.newCapacity len)) = s.newCapacity len :=
    BasicString.heapCapacity_setHeap rfl
  -- the block is apart from the object
  have hapart : p + (s.newCapacity len).toNat + 1 ≤ s.storage ∨ s.storage + storageSize SSO_Capacity ≤ p := by
    exact apart_of_forall fun a hle hlt hin => hsupply.not_occupies hle hlt (Or.inl hin)
  refine ⟨⟨?_, by omega, ?_, Or.inr ⟨k, rfl, rfl, ?_, ?_, ?_, ?_⟩⟩,
    ⟨hworks, fun a ha hF => ?_, fun a ha => ?_, hstrays⟩⟩
  · exact (h.toNat_add hfits).trans hlen.symm
  · have htext := read_paste m.bytes p (bs ++ read m.bytes str len.toNat ++ [0])
    rw [BasicString.cStr, if_neg Bool.false_ne_true, hptr]
    rw [List.length_append, List.length_singleton] at htext
    refine Eq.trans (read_congr fun i hi => ?_) htext
    rw [BasicString.bytes_setHeap (by omega), hbytes]
  · rw [hptr, hcapacity]
    exact hblock
  · rw [hcapacity, hlen]
    exact hcap
  · rw [hptr]
    exact hsupply.ptr
  · rw [hptr, hcapacity]
    exact hapart
  · have hout : ¬ s.InStorage SSO_Capacity a := fun hin => ha (Or.inl hin)
    have hblk : ¬ (p ≤ a ∧ a < p + (s.newCapacity len).toNat + 1) := fun hin => hF (hsupply.isFree hin.1 hin.2)
    rw [BasicString.InStorage] at hout
    rw [BasicString.bytes_setHeap (by omega), hbytes]
    refine if_neg fun hin => hblk ⟨hin.1, ?_⟩
    rw [List.length_append, hlen, List.length_singleton] at hin
    omega
  · rcases ha with hin | ⟨_, hle, hlt⟩
    · exact Or.inl (Or.inl hin)
    · rw [hptr] at hle hlt
      rw [hcapacity] at hlt
      exact Or.inr (hsupply.isFree hle hlt)

/-- What a loop and the NUL leave behind the contents. -/
theorem behind (h : Holds SSO_Capacity m s own bs) (hfits : bs.length + len.toNat < 2 ^ 62)
    {c : Nat} {bytes : Mem} (hbytes : bytes = paste m.bytes (c + bs.length) (read m.bytes str len.toNat)) :
    Function.update bytes (c + (s.length + len).toNat) 0
      = paste m.bytes (c + bs.length) (read m.bytes str len.toNat ++ [0]) := by
  rw [hbytes, h.toNat_add hfits, ← Nat.add_assoc, ← update_paste, length_read]

/-- The bytes are behind the contents, in the object. -/
theorem extended_inline (h : Holds SSO_Capacity m s none bs) (hsso : s.isSso = true)
    (hshort : bs.length + xs.length < 2 ^ 62) (hroom : bs.length + xs.length ≤ SSO_Capacity.toNat)
    (hlen : len.toNat = bs.length + xs.length)
    (hbytes : m'.bytes = paste m.bytes (s.storage + bs.length) (xs ++ [0])) (hblocks : m'.blocks = m.blocks)
    (hstrays : m'.strays = m.strays) :
    Holds SSO_Capacity m' { s with length := len } none (bs ++ xs)
    ∧ Turns SSO_Capacity F s none m { s with length := len } none m' := by
  have hsize := le_storageSize SSO_Capacity
  have hread : read m.bytes s.storage bs.length = bs := by
    have hread := h.read_eq
    rwa [BasicString.cStr, if_pos hsso] at hread
  refine ⟨⟨?_, ?_, ?_, Or.inl ⟨hsso, rfl, ?_⟩⟩, ⟨?_, fun a ha _ => ?_, fun a ha => Or.inl (Or.inl ?_), hstrays⟩⟩
  · rw [List.length_append]
    exact hlen
  · rw [List.length_append]
    exact hshort
  · have htext := read_paste_behind hread (xs ++ [0])
    rw [BasicString.cStr, if_pos hsso, hbytes, List.append_assoc]
    rw [List.length_append, List.length_singleton] at htext
    rwa [List.length_append, Nat.add_assoc]
  · rw [List.length_append]
    exact hroom
  · rw [Memory.stock_congr hblocks]
    exact .refl _ _
  · rw [hbytes]
    refine if_neg fun hin => ha (Or.inl ⟨by omega, ?_⟩)
    rw [List.length_append, List.length_singleton] at hin
    omega
  · exact (occupies_inline (s := { s with length := len }) hsso).mp ha

/-- The bytes are behind the contents, in the block. -/
theorem extended_heap (h : Holds SSO_Capacity m s (some k) bs) (hheap : s.OnHeap SSO_Capacity m bs.length k)
    (hshort : bs.length + xs.length < 2 ^ 62) (hroom : bs.length + xs.length ≤ (s.heapCapacity m).toNat)
    (hlen : len.toNat = bs.length + xs.length)
    (hbytes : m'.bytes = store (paste m.bytes (s.heapPtr m + bs.length) (xs ++ [0])) (s.storage + 8) 8 len.toNat)
    (hblocks : m'.blocks = m.blocks) (hstrays : m'.strays = m.strays) :
    Holds SSO_Capacity m' { s with length := len } (some k) (bs ++ xs)
    ∧ Turns SSO_Capacity F s (some k) m { s with length := len } (some k) m' := by
  have hsize := le_storageSize SSO_Capacity
  have hapart := hheap.apart
  have hback : (xs ++ [0]).length = xs.length + 1 := by simp
  have hread : read m.bytes (s.heapPtr m) bs.length = bs := by
    have hread := h.read_eq
    rwa [BasicString.cStr, if_neg (by simp [hheap.isSso])] at hread
  -- of the object only the size changes, which nothing reads
  have hobject : ∀ a, s.InStorage SSO_Capacity a → a < s.storage + 8 ∨ s.storage + 16 ≤ a →
      m'.bytes a = m.bytes a := by
    rintro a ⟨hle, hlt⟩ ha
    have hpaste : paste m.bytes (s.heapPtr m + bs.length) (xs ++ [0]) a = m.bytes a := if_neg (by omega)
    rw [hbytes, ← hpaste]
    exact ha.elim store_of_lt fun hge => store_of_ge (by omega)
  have hptr : BasicString.heapPtr { s with length := len } m' = s.heapPtr m :=
    BasicString.heapPtr_congr rfl fun a hle hlt => hobject a ⟨hle, by omega⟩ (by omega)
  have hcap : BasicString.heapCapacity { s with length := len } m' = s.heapCapacity m :=
    BasicString.heapCapacity_congr rfl fun a hle hlt => hobject a ⟨by omega, by omega⟩ (by omega)
  refine ⟨⟨?_, ?_, ?_, Or.inr ⟨k, rfl, hheap.isSso, ?_, ?_, ?_, ?_⟩⟩,
    ⟨?_, fun a ha _ => ?_, fun a ha => Or.inl ?_, hstrays⟩⟩
  · rw [List.length_append]
    exact hlen
  · rw [List.length_append]
    exact hshort
  · have htext := read_paste_behind hread (xs ++ [0])
    rw [BasicString.cStr, if_neg (by simp [hheap.isSso]), hptr, hbytes, List.append_assoc]
    rw [List.length_append, List.length_singleton] at htext
    rw [List.length_append, Nat.add_assoc]
    refine Eq.trans (read_congr fun i hi => ?_) htext
    rcases hapart with hbefore | hbehind
    · exact store_of_lt (by omega)
    · exact store_of_ge (by omega)
  · rw [hblocks, hptr, hcap]
    exact hheap.block
  · rw [hcap, List.length_append]
    exact hroom
  · rw [hptr]
    exact hheap.ptr
  · rw [hptr, hcap]
    exact hapart
  · rw [Memory.stock_congr hblocks]
    exact .refl _ _
  · have hin : ¬ (s.storage ≤ a ∧ a < s.storage + storageSize SSO_Capacity) := fun hin => ha (Or.inl hin)
    have hblk : ¬ (s.heapPtr m ≤ a ∧ a < s.heapPtr m + (s.heapCapacity m).toNat + 1) := fun hin =>
      ha (Or.inr ⟨hheap.isSso, hin⟩)
    have hpaste : paste m.bytes (s.heapPtr m + bs.length) (xs ++ [0]) a = m.bytes a := if_neg (by omega)
    rw [hbytes, ← hpaste]
    rcases Nat.lt_or_ge a s.storage with hlt | hge
    · exact store_of_lt (by omega)
    · exact store_of_ge (by omega)
  · rw [BasicString.Occupies, hptr, hcap] at ha
    exact ha

theorem toNat_request (h : Holds SSO_Capacity m s own bs) (hfits : bs.length + len.toNat < 2 ^ 62) :
    (s.newCapacity len + 1).toNat = (s.newCapacity len).toNat + 1 := by
  obtain ⟨_, htop⟩ := h.toNat_newCapacity hfits
  rw [UInt64.toNat_add]
  exact Nat.mod_eq_of_lt (by show (s.newCapacity len).toNat + 1 < 2 ^ 64; omega)

/-- What a call of `append` leads to. -/
def Appended (SSO_Capacity : UInt64) (F : Nat → Prop) (s : BasicString) (own : Option Nat) (m : Memory)
    (bs : List UInt8) (r : BasicString × Memory) : Prop :=
  ∃ own', Holds SSO_Capacity r.2 r.1 own' bs ∧ Turns SSO_Capacity F s own m r.1 own' r.2

/-- In the object. -/
theorem append_inline (h : Holds SSO_Capacity m s none bs) (hfits : bs.length + len.toNat < 2 ^ 62)
    (hsso : s.isSso = true) (hzero : len ≠ 0) (hroom : s.length + len ≤ SSO_Capacity)
    (hkeeps : ¬ s.Clobbers SSO_Capacity m str len) :
    Appended SSO_Capacity F s none m (bs ++ read m.bytes str len.toNat) (s.append SSO_Capacity m p str len) := by
  have hlen : (s.length + len).toNat = bs.length + (read m.bytes str len.toNat).length := by
    rw [h.toNat_add hfits, length_read]
  have hgrows : ¬ s.Grows SSO_Capacity m len := by
    rintro ⟨_, hgrow⟩
    rw [BasicString.capacity, if_pos hsso] at hgrow
    exact UInt64.not_lt.mpr hroom hgrow
  rw [BasicString.append_inline hzero hsso hroom]
  refine ⟨none, h.extended_inline hsso ?_ ?_ hlen ?_ rfl rfl⟩
  · rwa [length_read]
  · rw [← hlen]
    exact hroom
  · refine h.behind hfits ?_
    rw [← h.length]
    split
    · rw [blit_eq]
    · rename_i hbuffer
      refine copy_eq fun hover => hkeeps ⟨hgrows, fun hin => hbuffer hin.2, ?_⟩
      rwa [BasicString.cStr, if_pos hsso]

/-- From the object to a block. -/
theorem append_toHeap (h : Holds SSO_Capacity m s none bs) (hfits : bs.length + len.toNat < 2 ^ 62)
    (hsso : s.isSso = true) (hzero : len ≠ 0) (hroom : ¬ s.length + len ≤ SSO_Capacity)
    (hsupply : s.Supplied SSO_Capacity m p str len F) :
    Appended SSO_Capacity F s none m (bs ++ read m.bytes str len.toNat) (s.append SSO_Capacity m p str len) := by
  have hfill := h.filled hfits hsupply
  rw [BasicString.cStr, if_pos hsso] at hfill
  rw [BasicString.append_toHeap hzero hsso hroom, hfill, h.toNat_request hfits]
  exact ⟨some m.blocks.length, h.moved _ hfits hsupply Memory.works_allocate List.getElem?_concat_length rfl rfl⟩

/-- In the block. -/
theorem append_heap (h : Holds SSO_Capacity m s (some k) bs) (hfits : bs.length + len.toNat < 2 ^ 62)
    (hheap : s.OnHeap SSO_Capacity m bs.length k) (hzero : len ≠ 0) (hroom : s.length + len ≤ s.heapCapacity m)
    (hkeeps : ¬ s.Clobbers SSO_Capacity m str len) :
    Appended SSO_Capacity F s (some k) m (bs ++ read m.bytes str len.toNat)
      (s.append SSO_Capacity m p str len) := by
  have hinline : ¬ s.isSso = true := fun hsso => Bool.noConfusion (hheap.isSso.symm.trans hsso)
  have hlen : (s.length + len).toNat = bs.length + (read m.bytes str len.toNat).length := by
    rw [h.toNat_add hfits, length_read]
  have hgrows : ¬ s.Grows SSO_Capacity m len := by
    rintro ⟨_, hgrow⟩
    rw [BasicString.capacity, if_neg hinline] at hgrow
    exact UInt64.not_lt.mpr hroom hgrow
  rw [BasicString.append_heap hzero hheap.isSso hroom]
  refine ⟨some k, h.extended_heap hheap ?_ ?_ hlen ?_ rfl rfl⟩
  · rwa [length_read]
  · rw [← hlen]
    exact hroom
  · refine congrArg (store · _ _ _) (h.behind hfits ?_)
    rw [← h.length]
    refine copy_eq fun hover => hkeeps ⟨hgrows, fun hin => hinline hin.1, ?_⟩
    rwa [BasicString.cStr, if_neg hinline]

/-- From one block to another. -/
theorem append_regrow (h : Holds SSO_Capacity m s (some k) bs) (hfits : bs.length + len.toNat < 2 ^ 62)
    (hheap : s.OnHeap SSO_Capacity m bs.length k) (hsole : m.Sole (s.heapPtr m) k) (hzero : len ≠ 0)
    (hroom : ¬ s.length + len ≤ s.heapCapacity m) (hsupply : s.Supplied SSO_Capacity m p str len F) :
    Appended SSO_Capacity F s (some k) m (bs ++ read m.bytes str len.toNat)
      (s.append SSO_Capacity m p str len) := by
  have hsize := le_storageSize SSO_Capacity
  have hinline : ¬ s.isSso = true := fun hsso => Bool.noConfusion (hheap.isSso.symm.trans hsso)
  obtain ⟨hcap, _⟩ := h.toNat_newCapacity hfits
  have hfill := h.filled hfits hsupply
  have hcopied := h.copied hfits hsupply
  rw [BasicString.cStr, if_neg hinline] at hfill hcopied
  -- the new block is neither in the object nor the old one
  have hptr : load (s.joined m p str len (s.heapPtr m)) s.storage 8 = s.heapPtr m := by
    rw [hcopied]
    refine load_congr fun a hle hlt => if_neg fun hin => ?_
    rw [List.length_append, length_read] at hin
    exact hsupply.not_occupies hin.1 (by omega) (Or.inl ⟨hle, by omega⟩)
  have hne : p ≠ s.heapPtr m := by
    have hown := hsupply.not_occupies (Nat.le_refl p) (by omega)
    intro he
    rw [he] at hown
    exact hown (occupies_heapPtr hheap.isSso)
  rw [BasicString.append_regrow hzero hheap.isSso hroom hptr, hfill, h.toNat_request hfits,
    Memory.delete_allocate hheap.block hsole hne, hheap.isSso]
  have hworks := (Memory.works_delete hheap.block hsole).trans
    (Memory.works_allocate (p := p) (n := (s.newCapacity len).toNat + 1))
  refine ⟨some _, h.moved _ hfits hsupply hworks List.getElem?_concat_length ?_ rfl⟩
  exact (congrArg Memory.strays (Memory.delete_eq hheap.block hsole) :)

/-- **`append`** leads to the concatenation. -/
theorem append (h : Holds SSO_Capacity m s own bs) (hsole : ∀ k, own = some k → m.Sole (s.heapPtr m) k)
    (hfits : bs.length + len.toNat < 2 ^ 62) (hkeeps : ¬ s.Clobbers SSO_Capacity m str len)
    (hsupply : s.Grows SSO_Capacity m len → s.Supplied SSO_Capacity m p str len F) :
    Appended SSO_Capacity F s own m (bs ++ read m.bytes str len.toNat) (s.append SSO_Capacity m p str len) := by
  by_cases hzero : len = 0
  · have hnone : read m.bytes str len.toNat = [] := by rw [hzero]; exact read_zero _ _
    rw [BasicString.append, if_pos hzero, hnone, List.append_nil]
    exact ⟨own, h, .refl⟩
  rcases h.place with ⟨hsso, rfl, _⟩ | ⟨k, rfl, hheap⟩
  · by_cases hroom : s.length + len ≤ SSO_Capacity
    · exact h.append_inline hfits hsso hzero hroom hkeeps
    · refine h.append_toHeap hfits hsso hzero hroom (hsupply ⟨hzero, ?_⟩)
      rw [BasicString.capacity, if_pos hsso]
      exact UInt64.not_le.mp hroom
  · by_cases hroom : s.length + len ≤ s.heapCapacity m
    · exact h.append_heap hfits hheap hzero hroom hkeeps
    · refine h.append_regrow hfits hheap (hsole k rfl) hzero hroom (hsupply ⟨hzero, ?_⟩)
      rw [BasicString.capacity, if_neg (by simp [hheap.isSso])]
      exact UInt64.not_le.mp hroom

/-- A range of the own contents is never clobbered. -/
theorem not_clobbers_inside (h : Holds SSO_Capacity m s own bs) (hin : str + len.toNat ≤ s.cStr m + bs.length) :
    ¬ s.Clobbers SSO_Capacity m str len := by
  rintro ⟨_, _, _, hover⟩
  rw [h.length] at hover
  omega

/-- Nor is memory that the string does not occupy. -/
theorem not_clobbers_apart (h : Holds SSO_Capacity m s own bs)
    (hapart : ∀ i < len.toNat, ¬ s.Occupies SSO_Capacity m (str + i)) : ¬ s.Clobbers SSO_Capacity m str len := by
  rintro ⟨_, _, hbefore, hover⟩
  have hend := h.occupies_text (Nat.le_refl bs.length)
  rw [h.length] at hbefore hover
  refine hapart (s.cStr m + bs.length - str) (by omega) ?_
  rwa [Nat.add_sub_cancel' (Nat.le_of_lt hbefore)]

/-- A range of the own contents is part of the bytes. -/
theorem read_inside (h : Holds SSO_Capacity m s own bs) {i : Nat} (hin : i + n ≤ bs.length) :
    read m.bytes (s.cStr m + i) n = (bs.drop i).take n := by
  have hread := h.read_eq
  have hsplit : bs.length = i + (n + (bs.length - (i + n))) := by omega
  rw [hsplit, read_add, read_add] at hread
  conv_rhs => rw [← hread]
  rw [List.drop_left' (length_read _ _ _), List.take_left' (length_read _ _ _)]

end Holds

/-! ## Moves -/

/-- What a move copies of `other`. -/
def moveSize (other : BasicString) : Nat := if other.isSso then other.length.toNat + 1 else 24

theorem Holds.moveSize_le (h : Holds SSO_Capacity m t own bs) : moveSize t ≤ storageSize SSO_Capacity := by
  have hsize := le_storageSize SSO_Capacity
  rcases h.place with ⟨hsso, _, hfits⟩ | ⟨k, _, hheap⟩
  · rw [moveSize, if_pos hsso, h.length]
    omega
  · rw [moveSize, if_neg (by simp [hheap.isSso])]
    exact hsize.2

theorem Holds.takeOver_eq (h : Holds SSO_Capacity m t own bs)
    (hapart : ∀ a, s.InStorage SSO_Capacity a → ¬ t.Occupies SSO_Capacity m a) :
    s.takeOver m t = (⟨s.storage, t.isSso, t.length⟩,
      t.reset { m with bytes := paste m.bytes s.storage (read m.bytes t.storage (moveSize t)) }) := by
  have hsize := h.moveSize_le
  have hcopy : copy m.bytes s.storage t.storage (moveSize t)
      = paste m.bytes s.storage (read m.bytes t.storage (moveSize t)) :=
    copy_eq fun hin => hapart s.storage inStorage_self (Or.inl ⟨Nat.le_of_lt hin.1, by omega⟩)
  rw [← hcopy, moveSize, BasicString.takeOver]
  split
  · rfl
  · rfl

theorem blocks_takeOver : (s.takeOver m t).2.2.blocks = m.blocks := by
  simp only [BasicString.takeOver]
  cases t.isSso <;> rfl

theorem strays_takeOver : (s.takeOver m t).2.2.strays = m.strays := by
  simp only [BasicString.takeOver]
  cases t.isSso <;> rfl

/-- **A move** hands the contents over. -/
theorem Holds.takeOver (h : Holds SSO_Capacity m t own bs)
    (hapart : ∀ a, s.InStorage SSO_Capacity a → ¬ t.Occupies SSO_Capacity m a) :
    Holds SSO_Capacity (s.takeOver m t).2.2 (s.takeOver m t).1 own bs
    ∧ (∀ a, (s.takeOver m t).1.Occupies SSO_Capacity (s.takeOver m t).2.2 a →
        s.InStorage SSO_Capacity a ∨ t.Occupies SSO_Capacity m a ∧ ¬ t.InStorage SSO_Capacity a)
    ∧ ∀ a, ¬ s.InStorage SSO_Capacity a → ¬ t.InStorage SSO_Capacity a →
        (s.takeOver m t).2.2.bytes a = m.bytes a := by
  have hsize := h.moveSize_le
  have hsize' := le_storageSize SSO_Capacity
  rw [h.takeOver_eq hapart]
  generalize hm : (t.reset { m with
    bytes := paste m.bytes s.storage (read m.bytes t.storage (moveSize t)) }).2 = m'
  have hblocks : m'.blocks = m.blocks := by rw [← hm]; rfl
  -- the object is a copy, and the rest is as it was
  have hcopied : ∀ i < moveSize t, m'.bytes (s.storage + i) = m.bytes (t.storage + i) := by
    intro i hi
    have hlen : (read m.bytes t.storage (moveSize t)).length = moveSize t := length_read _ _ _
    have hin : s.InStorage SSO_Capacity (s.storage + i) := ⟨Nat.le_add_right _ _, by omega⟩
    rw [← hm, frame_reset fun ht => hapart _ hin (Or.inl ht)]
    simp only [paste, if_pos (show s.storage ≤ s.storage + i ∧ s.storage + i < s.storage + (read m.bytes t.storage
      (moveSize t)).length by omega), Nat.add_sub_cancel_left]
    rw [List.getD_eq_getElem _ _ (by omega), getElem_read]
  have hframe : ∀ a, ¬ s.InStorage SSO_Capacity a → ¬ t.InStorage SSO_Capacity a → m'.bytes a = m.bytes a := by
    intro a hs ht
    rw [← hm, frame_reset ht]
    refine if_neg fun hin => hs ⟨hin.1, ?_⟩
    have hlt := hin.2
    rw [length_read] at hlt
    omega
  rcases h.place with ⟨hsso, rfl, hfits⟩ | ⟨k, rfl, hheap⟩
  · have hmove : moveSize t = bs.length + 1 := by rw [moveSize, if_pos hsso, h.length]
    refine ⟨⟨h.length, h.short, ?_, Or.inl ⟨hsso, rfl, hfits⟩⟩, fun a ha => Or.inl ?_, hframe⟩
    · have htext := h.text
      rw [BasicString.cStr, if_pos hsso] at htext ⊢
      rw [← htext]
      exact read_congr fun i hi => hcopied i (by omega)
    · exact (occupies_inline (s := ⟨s.storage, t.isSso, t.length⟩) hsso).mp ha
  · have hinline : ¬ t.isSso = true := fun hsso => Bool.noConfusion (hheap.isSso.symm.trans hsso)
    have hmove : moveSize t = 24 := by rw [moveSize, if_neg hinline]
    have hptr : BasicString.heapPtr ⟨s.storage, t.isSso, t.length⟩ m' = t.heapPtr m :=
      load_of_read (read_congr fun i hi => hcopied i (by omega))
    have hcap : BasicString.heapCapacity ⟨s.storage, t.isSso, t.length⟩ m' = t.heapCapacity m := by
      refine congrArg UInt64.ofNat (load_of_read (read_congr fun i hi => ?_))
      rw [Nat.add_assoc, Nat.add_assoc]
      exact hcopied (16 + i) (by omega)
    -- the block is in neither object
    have hblock : ∀ a, t.heapPtr m ≤ a → a < t.heapPtr m + (t.heapCapacity m).toNat + 1 →
        ¬ s.InStorage SSO_Capacity a ∧ ¬ t.InStorage SSO_Capacity a := by
      intro a hle hlt
      refine ⟨fun hs => hapart a hs (Or.inr ⟨hheap.isSso, hle, hlt⟩), fun ht => ?_⟩
      have hheapApart := hheap.apart
      rw [BasicString.InStorage] at ht
      omega
    refine ⟨⟨h.length, h.short, ?_, Or.inr ⟨k, rfl, hheap.isSso, ?_, ?_, ?_, ?_⟩⟩, fun a ha => ?_, hframe⟩
    · have htext := h.text
      have hroom := hheap.fits
      rw [BasicString.cStr, if_neg hinline] at htext ⊢
      rw [hptr, ← htext]
      refine read_congr fun i hi => ?_
      obtain ⟨hs, ht⟩ := hblock (t.heapPtr m + i) (Nat.le_add_right _ _) (by omega)
      exact hframe _ hs ht
    · rw [hblocks, hptr, hcap]
      exact hheap.block
    · rw [hcap]
      exact hheap.fits
    · rw [hptr]
      exact hheap.ptr
    · rw [hptr, hcap]
      exact apart_of_forall fun a hle hlt => (hblock a hle hlt).1
    · rcases ha with hin | ⟨_, hle, hlt⟩
      · exact Or.inl hin
      · rw [hptr] at hle hlt
        rw [hcap] at hlt
        exact Or.inr ⟨Or.inr ⟨hheap.isSso, hle, hlt⟩, (hblock a hle hlt).2⟩

end AlopexOS.Strings
