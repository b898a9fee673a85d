import Mathlib.Tactic.Common
import Mathlib.Tactic.Ring

/-!
# `Lib.DigitalLine` — a line in steps of one

A line to a point `X` to the one side and `Y` to the other is walked in steps that go on by one on one axis or on
both. An error term says which; it is kept so small that the walk stays at the line, and the longer axis goes on
in every step.

## Contents
- **The error term** `err`, and `After`: what holds after `n` steps.
- **A step** keeps it: `After.next`.
- **The end**: `After.le` and `After.arrives_iff`.
-/

namespace DigitalLine

variable {X Y n a b : Nat}

/-- The error term after `a` steps on the one axis and `b` on the other. -/
def err (X Y a b : Nat) : Int := (b + 1) * X - (a + 1) * Y

/-- How far the point `(a, b)` is from the line, times the length of the line. -/
def deviation (X Y a b : Nat) : Int := a * Y - b * X

theorem err_eq (X Y a b : Nat) : err X Y a b = X - Y - deviation X Y a b := by
  unfold err deviation
  ring

theorem err_succ_left (X Y a b : Nat) : err X Y (a + 1) b = err X Y a b - Y := by
  unfold err
  push_cast
  ring

theorem err_succ_right (X Y a b : Nat) : err X Y a (b + 1) = err X Y a b + X := by
  unfold err
  push_cast
  ring

theorem deviation_succ_left (X Y a b : Nat) : deviation X Y (a + 1) b = deviation X Y a b + Y := by
  unfold deviation
  push_cast
  ring

theorem deviation_succ_right (X Y a b : Nat) : deviation X Y a (b + 1) = deviation X Y a b - X := by
  unfold deviation
  push_cast
  ring

theorem deviation_swap (X Y a b : Nat) : deviation Y X b a = -deviation X Y a b := by
  unfold deviation
  ring

/-- After `n` steps the walk is at `(a, b)`: on the longer axis it has gone on in each. -/
structure After (X Y n a b : Nat) : Prop where
  long_left : Y ≤ X → a = n
  long_right : X ≤ Y → b = n
  near : 2 * (deviation X Y a b).natAbs ≤ max X Y

theorem After.start (X Y : Nat) : After X Y 0 0 0 where
  long_left _ := rfl
  long_right _ := rfl
  near := by simp [deviation]

/-- **A step**: both tests are made on the error term from before. -/
theorem After.next (h : After X Y n a b) :
    After X Y (n + 1) (if -(Y : Int) ≤ 2 * err X Y a b then a + 1 else a)
      (if 2 * err X Y a b ≤ (X : Int) then b + 1 else b) := by
  have hnear := h.near
  have herr := err_eq X Y a b
  constructor
  · intro hlong
    have hstep : -(Y : Int) ≤ 2 * err X Y a b := by omega
    rw [if_pos hstep, h.long_left hlong]
  · intro hlong
    have hstep : 2 * err X Y a b ≤ (X : Int) := by omega
    rw [if_pos hstep, h.long_right hlong]
  · by_cases hx : -(Y : Int) ≤ 2 * err X Y a b
    · rw [if_pos hx]
      by_cases hy : 2 * err X Y a b ≤ (X : Int)
      · rw [if_pos hy, deviation_succ_right, deviation_succ_left]
        omega
      · rw [if_neg hy, deviation_succ_left]
        omega
    · have hy : 2 * err X Y a b ≤ (X : Int) := by omega
      rw [if_neg hx, if_pos hy, deviation_succ_right]
      omega

/-- The error term stays small. -/
theorem After.err_le (h : After X Y n a b) : (err X Y a b).natAbs ≤ 2 * max X Y := by
  have hnear := h.near
  have herr := err_eq X Y a b
  omega

theorem After.swap (h : After X Y n a b) : After Y X n b a where
  long_left := h.long_right
  long_right := h.long_left
  near := by
    rw [deviation_swap, Int.natAbs_neg, Nat.max_comm]
    exact h.near

/-- On the longer axis not beyond the end, on the other not either. -/
theorem After.right_le (h : After X Y n a b) (hlong : Y ≤ X) (hn : n ≤ X) : b ≤ Y := by
  have ha : a = n := h.long_left hlong
  by_contra hb
  have hnear := h.near
  have hfar : (Y + 1) * X ≤ b * X := Nat.mul_le_mul_right X (Nat.lt_of_not_le hb)
  have hshort : a * Y ≤ X * Y := Nat.mul_le_mul_right Y (ha ▸ hn)
  have hdeviation : deviation X Y a b = ((a * Y : Nat) : Int) - ((b * X : Nat) : Int) := by
    rw [deviation, Nat.cast_mul, Nat.cast_mul]
  have hexpand : (Y + 1) * X = X * Y + X := by ring
  -- the deviation is at least the whole length, so there is none
  have hzero : X = 0 := by omega
  have hbn : b = n := h.long_right (by omega)
  omega

/-- At the end of the longer axis, at the end of the other. -/
theorem After.right_eq (h : After X Y X a b) (hlong : Y ≤ X) : b = Y := by
  have ha : a = X := h.long_left hlong
  have hle : b ≤ Y := h.right_le hlong (Nat.le_refl X)
  by_contra hb
  have hnear := h.near
  have hshort : (b + 1) * X ≤ Y * X := Nat.mul_le_mul_right X (by omega)
  have hdeviation : deviation X Y a b = ((Y * X : Nat) : Int) - ((b * X : Nat) : Int) := by
    rw [deviation, ha, Nat.cast_mul, Nat.cast_mul, Int.mul_comm X Y]
  have hexpand : (b + 1) * X = b * X + X := by ring
  omega

/-- A walk that is not longer than the longer axis is not beyond the end. -/
theorem After.le (h : After X Y n a b) (hn : n ≤ max X Y) : a ≤ X ∧ b ≤ Y := by
  rcases Nat.le_total Y X with hlong | hlong
  · have hnX : n ≤ X := by omega
    exact ⟨(h.long_left hlong).trans_le hnX, h.right_le hlong hnX⟩
  · have hnY : n ≤ Y := by omega
    exact ⟨h.swap.right_le hlong hnY, (h.long_right hlong).trans_le hnY⟩

/-- **A walk as long as the longer axis arrives**, and no shorter one does. -/
theorem After.arrives_iff (h : After X Y n a b) (hn : n ≤ max X Y) : (a = X ∧ b = Y) ↔ n = max X Y := by
  constructor
  · rintro ⟨ha, hb⟩
    rcases Nat.le_total Y X with hlong | hlong
    · have hlast : a = n := h.long_left hlong
      omega
    · have hlast : b = n := h.long_right hlong
      omega
  · intro he
    rcases Nat.le_total Y X with hlong | hlong
    · rw [Nat.max_eq_left hlong] at he
      subst he
      exact ⟨h.long_left hlong, h.right_eq hlong⟩
    · rw [Nat.max_eq_right hlong] at he
      subst he
      exact ⟨h.swap.right_eq hlong, h.long_right hlong⟩

end DigitalLine
