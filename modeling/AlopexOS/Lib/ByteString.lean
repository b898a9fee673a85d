import AlopexOS.Lib.Packed
import Mathlib.Data.List.GetD

/-!
# `Lib.ByteString` — byte strings cut into blocks and written over one another

A byte string kept in blocks of `n` bytes is padded with zeros to a whole number of blocks and carries
its length as a pair: the number of blocks and the length of the last one, which is never zero.

## Contents
- **Overlay.** `overlay c d off` is `d` written over `c` at `off`, gaps filled with zeros.
- **Blocks.** `chunk n data b` is block `b` of a string, `joinBlocks` puts blocks back together.
- **Lengths.** `blocksFor` and `lastLen`, and that the pair determines the length.
-/

namespace ByteString

open Packed

/-! ## Overlay -/

/-- `d` written over `c` at `off`: the bytes of `d` on `[off, off + |d|)`, those of `c` elsewhere below
    `|c|`, and zero in any gap. -/
def overlay (c d : List UInt8) (off : Nat) : List UInt8 :=
  (List.range (max c.length (off + d.length))).map fun i =>
    if off ≤ i ∧ i < off + d.length then d.getD (i - off) 0 else c.getD i 0

@[simp] theorem length_overlay (c d : List UInt8) (off : Nat) :
    (overlay c d off).length = max c.length (off + d.length) := by
  simp [overlay]

theorem getElem_overlay {c d : List UInt8} {off i : Nat} (h : i < (overlay c d off).length) :
    (overlay c d off)[i]
      = if off ≤ i ∧ i < off + d.length then d.getD (i - off) 0 else c.getD i 0 := by
  simp [overlay]

/-- Written over nothing, a string is preceded by zeros. -/
theorem overlay_nil (d : List UInt8) (off : Nat) :
    overlay [] d off = List.replicate off 0 ++ d := by
  apply List.ext_getElem
  · simp
  · intro i h1 h2
    rw [getElem_overlay]
    by_cases hi : off ≤ i
    · have hd : i - off < d.length := by
        simp only [length_overlay, List.length_nil] at h1
        omega
      rw [if_pos ⟨hi, by omega⟩, List.getElem_append_right (by simpa using hi),
        List.getD_eq_getElem _ _ hd]
      simp
    · rw [if_neg (by omega), List.getElem_append_left (by simp; omega)]
      simp

/-- Written at the start, a string replaces the first bytes. -/
theorem overlay_zero (c d : List UInt8) : overlay c d 0 = d ++ c.drop d.length := by
  apply List.ext_getElem
  · simp
    omega
  · intro i h1 h2
    rw [getElem_overlay]
    by_cases hi : i < d.length
    · rw [if_pos ⟨by omega, by omega⟩, List.getElem_append_left hi,
        List.getD_eq_getElem _ _ (by omega)]
      simp
    · have hc : i < c.length := by
        simp only [length_overlay] at h1
        omega
      rw [if_neg (by omega), List.getElem_append_right (by omega), List.getElem_drop,
        List.getD_eq_getElem _ _ hc]
      congr 1
      omega

/-! ## Blocks -/

variable {n : Nat}

/-- Block `b` of a string cut every `n` bytes, padded with zeros. -/
def chunk (n : Nat) (data : List UInt8) (b : Nat) : Bytes n := fun k => data.getD (b * n + k) 0

/-- The blocks put back together. -/
def joinBlocks (bs : List (Bytes n)) : List UInt8 := bs.flatMap Bytes.toList

@[simp] theorem length_joinBlocks (bs : List (Bytes n)) : (joinBlocks bs).length = bs.length * n := by
  induction bs with
  | nil => simp [joinBlocks]
  | cons b bs ih =>
      simp only [joinBlocks, List.flatMap_cons, List.length_append, Bytes.length_toList,
        List.length_cons] at ih ⊢
      rw [ih, Nat.add_mul]
      omega

/-- Byte `i` of the joined blocks lies in block `i / n` at `i % n`. -/
theorem getElem_joinBlocks (hn : 0 < n) :
    ∀ {bs : List (Bytes n)} {i : Nat} (h : i < (joinBlocks bs).length) (hb : i / n < bs.length),
      (joinBlocks bs)[i] = (bs[i / n]).get (i % n)
  | [], i, h, _ => by simp [joinBlocks] at h
  | b :: bs, i, h, hb => by
      have hcons : joinBlocks (b :: bs) = b.toList ++ joinBlocks bs := rfl
      by_cases hi : i < n
      · have hq : i / n = 0 := Nat.div_eq_of_lt hi
        simp only [hcons, hq, List.getElem_cons_zero, Nat.mod_eq_of_lt hi]
        rw [List.getElem_append_left (by simpa using hi), Bytes.getElem_toList]
      · -- past the first block, the byte is one of the rest
        have hge : n ≤ i := by omega
        have hq : i / n = (i - n) / n + 1 := by
          rw [Nat.div_eq i n, if_pos ⟨hn, hge⟩]
        have hm : i % n = (i - n) % n := Nat.mod_eq_sub_mod hge
        have hlen : i - n < (joinBlocks bs).length := by
          rw [hcons, List.length_append, Bytes.length_toList] at h
          omega
        have hb' : (i - n) / n < bs.length := by
          rw [hq, List.length_cons] at hb
          omega
        have hr := getElem_joinBlocks hn hlen hb'
        simp only [hcons, hq, hm, List.getElem_cons_succ]
        rw [List.getElem_append_right (by simpa using hge)]
        simp only [Bytes.length_toList]
        exact hr

/-- The first blocks of a string joined again are the string and its padding. -/
theorem getElem_joinBlocks_chunk (hn : 0 < n) {data : List UInt8} {m i : Nat}
    (h : i < (joinBlocks ((List.range m).map (chunk n data))).length) :
    (joinBlocks ((List.range m).map (chunk n data)))[i] = data.getD i 0 := by
  have hb : i / n < ((List.range m).map (chunk n data)).length := by
    rw [length_joinBlocks] at h
    exact (Nat.div_lt_iff_lt_mul hn).mpr h
  rw [getElem_joinBlocks hn h hb]
  simp only [List.getElem_map, List.getElem_range]
  rw [Bytes.get_of_lt (Nat.mod_lt i hn)]
  simp only [chunk]
  congr 1
  rw [Nat.mul_comm]
  exact Nat.div_add_mod i n

/-- What is cut and joined begins like the string. -/
theorem take_joinBlocks_chunk (hn : 0 < n) {data : List UInt8} {m k : Nat} (hk : k ≤ data.length)
    (h : k ≤ m * n) : (joinBlocks ((List.range m).map (chunk n data))).take k = data.take k := by
  apply List.ext_getElem
  · simp only [List.length_take, length_joinBlocks, List.length_map, List.length_range]
    omega
  · intro i h1 h2
    have hi : i < data.length := by
      rw [List.length_take] at h2
      omega
    rw [List.getElem_take, List.getElem_take, getElem_joinBlocks_chunk hn, List.getD_eq_getElem _ _ hi]

/-- **Cutting and joining gives the string back.** -/
theorem joinBlocks_chunk (hn : 0 < n) {data : List UInt8} {m : Nat} (h : data.length ≤ m * n) :
    (joinBlocks ((List.range m).map (chunk n data))).take data.length = data := by
  rw [take_joinBlocks_chunk hn (Nat.le_refl _) h, List.take_length]

/-! ## Lengths -/

/-- How many blocks of `n` bytes a string of `len` bytes needs. -/
def blocksFor (n len : Nat) : Nat := (len + n - 1) / n

/-- How much of its last block a non-empty string of `len` bytes fills. -/
def lastLen (n len : Nat) : Nat := if len % n = 0 then n else len % n

theorem lastLen_pos (hn : 0 < n) (len : Nat) : 0 < lastLen n len := by
  unfold lastLen
  split <;> omega

theorem lastLen_le (hn : 0 < n) (len : Nat) : lastLen n len ≤ n := by
  have := Nat.mod_lt len hn
  unfold lastLen
  split <;> omega

theorem blocksFor_pos (hn : 0 < n) {len : Nat} (h : 0 < len) : 0 < blocksFor n len :=
  Nat.div_pos (by omega) hn

/-- **The pair determines the length.** -/
theorem length_of_blocks (hn : 0 < n) {len : Nat} (h : 0 < len) :
    (blocksFor n len - 1) * n + lastLen n len = len := by
  have hdm : n * (len / n) + len % n = len := Nat.div_add_mod len n
  unfold blocksFor lastLen
  -- a last block that is full counts as `n` bytes, not as none
  by_cases h0 : len % n = 0
  · have hb : (len + n - 1) / n = len / n := by
      have hz : (n - 1) / n = 0 := Nat.div_eq_of_lt (by omega)
      rw [show len + n - 1 = n * (len / n) + (n - 1) by omega, Nat.mul_add_div hn, hz, Nat.add_zero]
    have hq : 0 < len / n := by
      rcases Nat.eq_zero_or_pos (len / n) with hz | hz
      · rw [hz, h0] at hdm
        omega
      · exact hz
    rw [if_pos h0, hb, Nat.sub_mul, Nat.one_mul, Nat.mul_comm (len / n) n]
    have : n ≤ n * (len / n) := Nat.le_mul_of_pos_right n hq
    omega
  · have hlt : len % n < n := Nat.mod_lt len hn
    have hb : (len + n - 1) / n = len / n + 1 := by
      have hz : (len % n - 1) / n = 0 := Nat.div_eq_of_lt (by omega)
      rw [show len + n - 1 = n * (len / n) + (n + (len % n - 1)) by omega, Nat.mul_add_div hn,
        Nat.add_div_left _ hn, hz]
    rw [if_neg h0, hb, Nat.add_sub_cancel, Nat.mul_comm]
    exact hdm

@[simp] theorem blocksFor_zero (hn : 0 < n) : blocksFor n 0 = 0 :=
  Nat.div_eq_of_lt (by omega)

/-- A first block, and the rest. -/
theorem blocksFor_step (hn : 0 < n) {len : Nat} (h : 0 < len) :
    blocksFor n len = blocksFor n (len - n) + 1 := by
  unfold blocksFor
  by_cases hle : n ≤ len
  · rw [show len + n - 1 = (len - n + n - 1) + n by omega, Nat.add_div_right _ hn]
  · have hz : (len - n + n - 1) / n = 0 := Nat.div_eq_of_lt (by omega)
    rw [hz, show len + n - 1 = n + (len - 1) by omega, Nat.add_div_left _ hn,
      Nat.div_eq_of_lt (by omega)]

theorem le_blocksFor_mul (hn : 0 < n) (len : Nat) : len ≤ blocksFor n len * n := by
  rcases Nat.eq_zero_or_pos len with h | h
  · omega
  · have hl := length_of_blocks hn h
    have hle := lastLen_le hn len
    have hpos := blocksFor_pos hn h
    have : blocksFor n len * n = (blocksFor n len - 1) * n + n := by
      rw [← Nat.succ_mul, Nat.succ_eq_add_one, Nat.sub_add_cancel hpos]
    omega

/-- A string fits `m` blocks exactly when it needs at most `m`. -/
theorem blocksFor_le_iff (hn : 0 < n) {len m : Nat} : blocksFor n len ≤ m ↔ len ≤ m * n := by
  unfold blocksFor
  constructor
  · intro h
    have := le_blocksFor_mul hn len
    exact Nat.le_trans this (Nat.mul_le_mul_right n h)
  · intro h
    have : (len + n - 1) / n < m + 1 := by
      rw [Nat.div_lt_iff_lt_mul hn, Nat.add_mul]
      omega
    omega

end ByteString
