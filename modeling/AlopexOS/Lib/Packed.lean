import Mathlib.Tactic.Common
import Mathlib.Algebra.GroupWithZero.Nat

/-!
# `Lib.Packed` — byte memories and packed little-endian records

A memory is a byte at every address. `load`/`store` move little-endian words, `Bytes n` is an array of
exactly `n` bytes, and a `Field n` is a place inside such an array, carrying the proof that it fits.
Records laid out without padding are arrays of bytes with named fields.

## Contents
- **Words.** `load`, `store`: a word reads back, a disjoint word is untouched.
- **Arrays.** `Bytes n` with the total getter `get`, and the single-byte update `put`.
- **Fields.** `Field.get`, `Field.set` and `Field.Apart`.
- **Layouts.** The members of a record, and that they are independent.
-/

namespace Packed

/-- A byte at every address. -/
abbrev Mem := Nat → UInt8

/-! ## Words -/

/-- The little-endian value of the `w` bytes at `a`. -/
def load (m : Mem) : Nat → Nat → Nat
  | _, 0 => 0
  | a, w + 1 => (m a).toNat + 256 * load m (a + 1) w

/-- Write the low `w` bytes of `v` at `a`. -/
def store (m : Mem) (a w v : Nat) : Mem :=
  fun i => if a ≤ i ∧ i < a + w then UInt8.ofNat (v / 256 ^ (i - a)) else m i

theorem store_of_lt {m : Mem} {a w v i : Nat} (h : i < a) : store m a w v i = m i := by
  unfold store
  rw [if_neg (by omega)]

theorem store_of_ge {m : Mem} {a w v i : Nat} (h : a + w ≤ i) : store m a w v i = m i := by
  unfold store
  rw [if_neg (by omega)]

/-- A word depends only on the bytes it covers. -/
theorem load_congr {m m' : Mem} {a w : Nat} (h : ∀ i, a ≤ i → i < a + w → m i = m' i) :
    load m a w = load m' a w := by
  induction w generalizing a with
  | zero => rfl
  | succ w ih =>
      simp only [load]
      rw [h a (Nat.le_refl a) (by omega), ih (fun i hi hlt => h i (by omega) (by omega))]

theorem load_lt (m : Mem) (a w : Nat) : load m a w < 256 ^ w := by
  induction w generalizing a with
  | zero => simp [load]
  | succ w ih =>
      have hb : (m a).toNat < 256 := (m a).toNat_lt
      have hr := ih (a + 1)
      simp only [load, Nat.pow_succ]
      omega

/-- **A stored word reads back**, cut to its width. -/
theorem load_store_same (m : Mem) (a w v : Nat) : load (store m a w v) a w = v % 256 ^ w := by
  induction w generalizing m a v with
  | zero => simp [load, Nat.mod_one]
  | succ w ih =>
      have hhead : store m a (w + 1) v a = UInt8.ofNat v := by simp [store]
      have htail : load (store m a (w + 1) v) (a + 1) w
          = load (store m (a + 1) w (v / 256)) (a + 1) w := by
        apply load_congr
        intro i hi hlt
        have hpow : v / 256 ^ (i - a) = v / 256 / 256 ^ (i - (a + 1)) := by
          rw [Nat.div_div_eq_div_mul, ← Nat.pow_succ', show (i - (a + 1)).succ = i - a by omega]
        simp only [store]
        rw [if_pos (by omega), if_pos (by omega), hpow]
      simp only [load]
      rw [hhead, htail, ih, Nat.pow_succ', Nat.mod_mul]
      simp

/-- **A disjoint word is untouched.** -/
theorem load_store_apart {m : Mem} {a w v a' w' : Nat} (h : a' + w' ≤ a ∨ a + w ≤ a') :
    load (store m a w v) a' w' = load m a' w' := by
  apply load_congr
  intro i hi hlt
  rcases h with h | h
  · exact store_of_lt (by omega)
  · exact store_of_ge (by omega)

/-- A zero word is made of zero bytes. -/
theorem load_zero {m : Mem} {a w : Nat} (h : ∀ i, a ≤ i → i < a + w → m i = 0) :
    load m a w = 0 := by
  induction w generalizing a with
  | zero => rfl
  | succ w ih =>
      simp only [load]
      rw [h a (Nat.le_refl a) (by omega), ih (fun i hi hlt => h i (by omega) (by omega))]
      rfl

/-! ## Arrays of bytes -/

/-- An array of exactly `n` bytes. -/
abbrev Bytes (n : Nat) := Fin n → UInt8

namespace Bytes

variable {n : Nat}

/-- The byte at `i`; past the end there is nothing but zero. -/
def get (b : Bytes n) : Mem := fun i => if h : i < n then b ⟨i, h⟩ else 0

/-- The first `n` bytes of a memory. -/
def ofMem (m : Mem) : Bytes n := fun i => m i

/-- Write one byte. -/
def put (b : Bytes n) (i : Nat) (v : UInt8) : Bytes n := fun j => if j.val = i then v else b j

/-- The array with every byte zero. -/
def zero : Bytes n := fun _ => 0

theorem get_of_lt {b : Bytes n} {i : Nat} (h : i < n) : b.get i = b ⟨i, h⟩ := dif_pos h

theorem get_of_ge {b : Bytes n} {i : Nat} (h : n ≤ i) : b.get i = 0 := dif_neg (by omega)

@[simp] theorem get_zero (i : Nat) : (zero : Bytes n).get i = 0 := by
  unfold get zero
  split <;> rfl

theorem get_ofMem {m : Mem} {i : Nat} (h : i < n) : (ofMem m : Bytes n).get i = m i := get_of_lt h

theorem get_put_same {b : Bytes n} {i : Nat} {v : UInt8} (h : i < n) : (b.put i v).get i = v := by
  rw [get_of_lt h]
  simp only [put, if_true]

theorem get_put_ne {b : Bytes n} {i j : Nat} {v : UInt8} (h : j ≠ i) :
    (b.put i v).get j = b.get j := by
  by_cases hj : j < n
  · rw [get_of_lt hj, get_of_lt hj]
    simp only [put, h, if_false]
  · rw [get_of_ge (by omega), get_of_ge (by omega)]

/-- The bytes in order. -/
def toList (b : Bytes n) : List UInt8 := List.ofFn b

@[simp] theorem length_toList (b : Bytes n) : b.toList.length = n := List.length_ofFn

theorem getElem_toList (b : Bytes n) {i : Nat} (h : i < b.toList.length) :
    b.toList[i] = b.get i := by
  have hi : i < n := by simpa using h
  rw [get_of_lt hi]
  simp [toList]

end Bytes

/-! ## Fields -/

/-- A place of `width` bytes inside an array of `n` bytes. -/
structure Field (n : Nat) where
  off : Nat
  width : Nat
  fits : off + width ≤ n

namespace Field

variable {n : Nat}

/-- The two places share no byte. -/
def Apart (f g : Field n) : Prop := f.off + f.width ≤ g.off ∨ g.off + g.width ≤ f.off

instance (f g : Field n) : Decidable (f.Apart g) := inferInstanceAs (Decidable (_ ∨ _))

def get (f : Field n) (b : Bytes n) : Nat := load b.get f.off f.width

def set (f : Field n) (b : Bytes n) (v : Nat) : Bytes n := Bytes.ofMem (store b.get f.off f.width v)

/-- Reading a field of a memory image needs only the bytes the field covers. -/
theorem get_ofMem (f : Field n) (m : Mem) : f.get (Bytes.ofMem m) = load m f.off f.width := by
  apply load_congr
  intro i _ hlt
  exact Bytes.get_ofMem (Nat.lt_of_lt_of_le hlt f.fits)

theorem get_congr (f : Field n) {b b' : Bytes n}
    (h : ∀ i, f.off ≤ i → i < f.off + f.width → b.get i = b'.get i) : f.get b = f.get b' :=
  load_congr h

@[simp] theorem get_set (f : Field n) (b : Bytes n) (v : Nat) :
    f.get (f.set b v) = v % 256 ^ f.width := by
  unfold set
  rw [get_ofMem, load_store_same]

theorem get_set_apart {f g : Field n} (h : f.Apart g) (b : Bytes n) (v : Nat) :
    f.get (g.set b v) = f.get b := by
  unfold set
  rw [get_ofMem, load_store_apart h]
  rfl

/-- A single-byte write outside the field leaves it alone. -/
theorem get_put_outside (f : Field n) (b : Bytes n) {i : Nat} (v : UInt8)
    (h : i < f.off ∨ f.off + f.width ≤ i) : f.get (b.put i v) = f.get b := by
  apply get_congr
  intro j _ _
  exact Bytes.get_put_ne (by omega)

@[simp] theorem get_zero (f : Field n) : f.get Bytes.zero = 0 :=
  load_zero (fun i _ _ => Bytes.get_zero i)

end Field

/-! ## Layouts -/

/-- The members `ι` of a record of `n` bytes, each in a place of its own. -/
structure Layout (ι : Type) (n : Nat) where
  field : ι → Field n
  apart : ∀ i j, i ≠ j → (field i).Apart (field j)

namespace Layout

variable {ι : Type} {n : Nat}

def get (L : Layout ι n) (i : ι) (b : Bytes n) : Nat := (L.field i).get b

def set (L : Layout ι n) (i : ι) (b : Bytes n) (v : Nat) : Bytes n := (L.field i).set b v

/-- **Members are independent.** -/
theorem get_set [DecidableEq ι] (L : Layout ι n) (i j : ι) (b : Bytes n) (v : Nat) :
    L.get i (L.set j b v) = if i = j then v % 256 ^ (L.field i).width else L.get i b := by
  unfold get set
  split
  · rename_i h
    rw [h, Field.get_set]
  · rename_i h
    exact Field.get_set_apart (L.apart i j h) b v

end Layout

end Packed
