import AlopexOS.Lib.Packed
import Mathlib.Data.List.GetD
import Mathlib.Logic.Function.Basic

/-!
# `Lib.ByteLoops` — loops that copy bytes in a memory

`copy` goes forward and reads each byte when it is its turn, so it gives the bytes of the source as they
were unless the destination starts inside of it. `blit` has the bytes in a buffer of its own.

## Contents
- **`read`**: the bytes of a range.
- **Loops** and the memory after them.
-/

namespace Packed

variable {m m' : Mem} {a b i n k : Nat} {bs : List UInt8}

/-! ## Ranges -/

/-- The `n` bytes at `a`. -/
def read (m : Mem) (a n : Nat) : List UInt8 := (List.range n).map fun i => m (a + i)

@[simp] theorem length_read (m : Mem) (a n : Nat) : (read m a n).length = n := by
  rw [read, List.length_map, List.length_range]

@[simp] theorem getElem_read (h : i < (read m a n).length) : (read m a n)[i] = m (a + i) := by
  simp [read]

@[simp] theorem read_zero (m : Mem) (a : Nat) : read m a 0 = [] := rfl

theorem read_congr (h : ∀ i < n, m (a + i) = m' (b + i)) : read m a n = read m' b n := by
  refine List.ext_getElem (by simp) fun i hi _ => ?_
  rw [getElem_read, getElem_read]
  exact h i (by simpa using hi)

theorem read_add (m : Mem) (a n k : Nat) : read m a (n + k) = read m a n ++ read m (a + n) k := by
  rw [read, List.range_add, List.map_append, List.map_map, ← read]
  refine congrArg _ (List.map_congr_left fun i _ => ?_)
  show m (a + (n + i)) = m (a + n + i)
  rw [Nat.add_assoc]

theorem read_succ (m : Mem) (a n : Nat) : read m a (n + 1) = m a :: read m (a + 1) n := by
  rw [Nat.add_comm n 1, read_add]
  rfl

/-- A word is what its bytes are. -/
theorem load_of_read (h : read m a n = read m' b n) : load m a n = load m' b n := by
  have hbyte : ∀ i < n, m (a + i) = m' (b + i) := fun i hi => by
    have hget := congrArg (·[i]?) h
    simpa [read, hi] using hget
  clear h
  induction n generalizing a b with
  | zero => rfl
  | succ n ih =>
      have hhead : m a = m' b := hbyte 0 (Nat.succ_pos n)
      have htail : load m (a + 1) n = load m' (b + 1) n := ih fun i hi => by
        rw [Nat.add_assoc, Nat.add_assoc, Nat.add_comm 1 i]
        exact hbyte (i + 1) (Nat.succ_lt_succ hi)
      rw [load, load, hhead, htail]

/-! ## Loops -/

/-- The bytes one after the other from a buffer. -/
def blit (m : Mem) (a : Nat) (bs : List UInt8) : Mem :=
  (List.range bs.length).foldl (fun m i => Function.update m (a + i) (bs.getD i 0)) m

/-- The bytes at `b` one after the other to `a`. -/
def copy (m : Mem) (a b n : Nat) : Mem :=
  (List.range n).foldl (fun m i => Function.update m (a + i) (m (b + i))) m

/-- A memory with these bytes at `a`. -/
def paste (m : Mem) (a : Nat) (bs : List UInt8) : Mem :=
  fun i => if a ≤ i ∧ i < a + bs.length then bs.getD (i - a) 0 else m i

theorem paste_of_lt (h : i < a) : paste m a bs i = m i := if_neg (by omega)

theorem paste_of_ge (h : a + bs.length ≤ i) : paste m a bs i = m i := if_neg (by omega)

theorem read_paste (m : Mem) (a : Nat) (bs : List UInt8) : read (paste m a bs) a bs.length = bs := by
  refine List.ext_getElem (by simp) fun i hi hi' => ?_
  rw [getElem_read, paste, if_pos (by omega), Nat.add_sub_cancel_left, List.getD_eq_getElem _ _ hi']

/-- Bytes behind bytes that are in place already. -/
theorem paste_append (m : Mem) (a : Nat) (bs cs : List UInt8) :
    paste (paste m a bs) (a + bs.length) cs = paste m a (bs ++ cs) := by
  funext i
  rw [paste, paste, paste, List.length_append]
  by_cases hlow : a ≤ i ∧ i < a + bs.length
  · rw [if_neg (by omega), if_pos hlow, if_pos (by omega), List.getD_append _ _ _ _ (by omega)]
  · by_cases hhigh : a + bs.length ≤ i ∧ i < a + bs.length + cs.length
    · rw [if_pos hhigh, if_pos (by omega), List.getD_append_right _ _ _ _ (by omega), Nat.sub_add_eq]
    · rw [if_neg hhigh, if_neg hlow, if_neg (by omega)]

/-- Bytes behind others, which stay. -/
theorem read_paste_behind (h : read m a bs.length = bs) (cs : List UInt8) :
    read (paste m (a + bs.length) cs) a (bs.length + cs.length) = bs ++ cs := by
  rw [read_add, read_paste]
  refine congrArg (· ++ cs) (Eq.trans (read_congr fun i hi => ?_) h)
  exact paste_of_lt (Nat.add_lt_add_left hi a)

/-- One byte more behind the ones that are there. -/
theorem update_paste (m : Mem) (a : Nat) (bs : List UInt8) (v : UInt8) :
    Function.update (paste m a bs) (a + bs.length) v = paste m a (bs ++ [v]) := by
  rw [← paste_append]
  funext i
  by_cases hi : i = a + bs.length
  · rw [hi, Function.update_self, paste, if_pos (by simp), Nat.sub_self]
    rfl
  · rw [Function.update_of_ne hi, paste.eq_def _ _ [v], if_neg (by simp only [List.length_singleton]; omega)]

theorem paste_nil (m : Mem) (a : Nat) : paste m a [] = m := by
  funext i
  exact if_neg (by simp)

theorem blit_eq (m : Mem) (a : Nat) (bs : List UInt8) : blit m a bs = paste m a bs := by
  have hloop : ∀ n ≤ bs.length, (List.range n).foldl (fun m i => Function.update m (a + i) (bs.getD i 0)) m
      = paste m a (bs.take n) := by
    intro n
    induction n with
    | zero => exact fun _ => (paste_nil m a).symm
    | succ n ih =>
        intro hn
        rw [List.range_succ, List.foldl_append, ih (by omega), List.foldl_cons, List.foldl_nil,
          List.getD_eq_getElem _ _ hn, ← List.take_append_getElem hn, ← update_paste, List.length_take,
          Nat.min_eq_left (by omega)]
  have hall := hloop bs.length (Nat.le_refl _)
  rwa [List.take_length] at hall

/-- **A forward copy** gives what the source was, unless it writes into the source ahead of itself. -/
theorem copy_eq (h : ¬ (b < a ∧ a < b + n)) : copy m a b n = paste m a (read m b n) := by
  induction n with
  | zero => exact (paste_nil m a).symm
  | succ n ih =>
      have hprev : copy m a b n = paste m a (read m b n) := ih (by omega)
      have hbyte : paste m a (read m b n) (b + n) = m (b + n) := by
        rcases Nat.lt_or_ge (b + n) a with hlt | hge
        · exact paste_of_lt hlt
        · exact paste_of_ge (by rw [length_read]; omega)
      have hone : read m (b + n) 1 = [m (b + n)] := rfl
      rw [copy, List.range_succ, List.foldl_append, ← copy, hprev, List.foldl_cons, List.foldl_nil, hbyte,
        read_add, hone, ← update_paste, length_read]

end Packed
