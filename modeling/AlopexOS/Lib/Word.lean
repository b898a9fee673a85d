import Mathlib.Tactic.Common
import Mathlib.Algebra.GroupWithZero.Nat

/-!
# `Lib.Word` — words whose arithmetic does not wrap

The value of a sum, product or quotient of words, when it is the one the natural numbers give, and of a word
that is put together from fields.
-/

namespace Word

theorem toNat_add_of_lt {a b : UInt64} (h : a.toNat + b.toNat < 2 ^ 64) :
    (a + b).toNat = a.toNat + b.toNat := by
  rw [UInt64.toNat_add]
  exact Nat.mod_eq_of_lt h

theorem toNat_succ_of_lt {a b : UInt64} (h : a < b) : (a + 1).toNat = a.toNat + 1 := by
  rw [UInt64.lt_iff_toNat_lt] at h
  have := b.toNat_lt
  exact toNat_add_of_lt (show a.toNat + 1 < 2 ^ 64 by omega)

theorem toNat_succ32_of_lt {a b : UInt32} (h : a.toNat < b.toNat) : (a + 1).toNat = a.toNat + 1 := by
  have hb := b.toNat_lt
  rw [UInt32.toNat_add]
  show (a.toNat + 1) % 2 ^ 32 = _
  exact Nat.mod_eq_of_lt (by omega)

theorem toNat_sub_of_le {a b : UInt64} (h : b.toNat ≤ a.toNat) :
    (a - b).toNat = a.toNat - b.toNat :=
  UInt64.toNat_sub_of_le _ _ (UInt64.le_iff_toNat_le.mpr h)

theorem toNat_ofNat {n : Nat} (h : n < 2 ^ 64) : (UInt64.ofNat n).toNat = n :=
  UInt64.toNat_ofNat_of_lt' h

theorem ne_zero_iff {a : UInt64} : a ≠ 0 ↔ 0 < a.toNat := by
  rw [Nat.pos_iff_ne_zero, ne_eq, ne_eq, ← UInt64.toNat_inj]
  rfl

/-- Bits that do not overlap add up. -/
theorem or_eq_add {a b : Nat} (k : Nat) (hb : b < 2 ^ k) (ha : 2 ^ k ∣ a) : a ||| b = a + b := by
  obtain ⟨c, rfl⟩ := ha
  exact (Nat.two_pow_add_eq_or_of_lt hb c).symm

end Word
