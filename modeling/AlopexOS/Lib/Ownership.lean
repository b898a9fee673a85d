import Mathlib.Logic.Function.Basic
import Mathlib.Tactic.Common

/-!
# `Lib.Ownership` — owners and the blocks they hold

Blocks are handed out one after the other, and their numbers are in that order. Each has a state, and some
of the states say that the block was given back. An owner holds one block or none.

`Works` says what an owner may do: to the block it holds, and to those it is handed. It composes, so it is
proved of the parts of an operation. `Accounted` is what it preserves for the whole population: no block is
held twice, and one that nobody holds was given back.

## Contents
- **`Works`**: its rules.
- **`Accounted`**: what an owner at work and a block that changes hands preserve.
-/

namespace Ownership

/-- The blocks handed out so far, and the state of each block. -/
structure Stock (β : Type) where
  count : Nat
  state : Nat → β

variable {ι β : Type} {Gone : β → Prop} {own own' own'' : Option Nat} {s s' s'' : Stock β}

/-! ## An owner at work -/

/-- From `own` in `s` to `own'` in `s'`: other blocks are left alone, and a block given up is gone. -/
structure Works (Gone : β → Prop) (own : Option Nat) (s : Stock β) (own' : Option Nat) (s' : Stock β) :
    Prop where
  count_le : s.count ≤ s'.count
  frame : ∀ k < s.count, own ≠ some k → own' ≠ some k ∧ s'.state k = s.state k
  settled : ∀ k < s'.count, own = some k ∨ s.count ≤ k → own' = some k ∨ Gone (s'.state k)

namespace Works

theorem refl (own : Option Nat) (s : Stock β) : Works Gone own s own s where
  count_le := Nat.le_refl _
  frame _ _ h := ⟨h, rfl⟩
  settled _ hk h := h.elim Or.inl fun hle => absurd hk (Nat.not_lt.mpr hle)

theorem trans (h : Works Gone own s own' s') (h' : Works Gone own' s' own'' s'') :
    Works Gone own s own'' s'' where
  count_le := Nat.le_trans h.count_le h'.count_le
  frame k hk hne := by
    obtain ⟨hne', he⟩ := h.frame k hk hne
    obtain ⟨hne'', he'⟩ := h'.frame k (Nat.lt_of_lt_of_le hk h.count_le) hne'
    exact ⟨hne'', he'.trans he⟩
  settled k hk hown := by
    rcases Nat.lt_or_ge k s'.count with hlt | hge
    · by_cases hmine : own' = some k
      · exact h'.settled k hk (Or.inl hmine)
      · -- given up by the first, and left alone by the second
        have hgone := (h.settled k hlt hown).resolve_left hmine
        rw [(h'.frame k hlt hmine).2]
        exact Or.inr hgone
    · exact h'.settled k hk (Or.inr hge)

end Works

/-! ## The population -/

/-- Each block has one owner, or none and is gone. -/
structure Accounted (Gone : β → Prop) (owner : ι → Option Nat) (s : Stock β) : Prop where
  lt : ∀ x k, owner x = some k → k < s.count
  alone : ∀ x y k, owner x = some k → owner y = some k → x = y
  settled : ∀ k < s.count, (∃ x, owner x = some k) ∨ Gone (s.state k)

namespace Accounted

variable {owner : ι → Option Nat} {x y : ι}

/-- The block of an owner is as it was when another one worked. -/
theorem frame (h : Accounted Gone owner s) (hw : Works Gone (owner x) s own' s') (hne : y ≠ x) {k : Nat}
    (hy : owner y = some k) : s'.state k = s.state k :=
  (hw.frame k (h.lt y k hy) fun hx => hne (h.alone y x k hy hx)).2

variable [DecidableEq ι]

theorem works (h : Accounted Gone owner s) (hw : Works Gone (owner x) s own' s')
    (hlt : ∀ k, own' = some k → k < s'.count) : Accounted Gone (Function.update owner x own') s' := by
  -- what `x` holds now nobody else does
  have hapart : ∀ y k, y ≠ x → owner y = some k → own' ≠ some k := fun y k hne hy =>
    (hw.frame k (h.lt y k hy) fun hx => hne (h.alone y x k hy hx)).1
  refine ⟨fun y k hy => ?_, fun y z k hy hz => ?_, fun k hk => ?_⟩
  · by_cases hyx : y = x
    · rw [hyx, Function.update_self] at hy
      exact hlt k hy
    · rw [Function.update_of_ne hyx] at hy
      exact Nat.lt_of_lt_of_le (h.lt y k hy) hw.count_le
  · by_cases hyx : y = x <;> by_cases hzx : z = x
    · exact hyx.trans hzx.symm
    · rw [hyx, Function.update_self] at hy
      rw [Function.update_of_ne hzx] at hz
      exact absurd hy (hapart z k hzx hz)
    · rw [Function.update_of_ne hyx] at hy
      rw [hzx, Function.update_self] at hz
      exact absurd hz (hapart y k hyx hy)
    · rw [Function.update_of_ne hyx] at hy
      rw [Function.update_of_ne hzx] at hz
      exact h.alone y z k hy hz
  · have hmine : own' = some k → ∃ y, Function.update owner x own' y = some k :=
      fun he => ⟨x, by rw [Function.update_self, he]⟩
    rcases Nat.lt_or_ge k s.count with hold | hnew
    · by_cases hx : owner x = some k
      · exact (hw.settled k hk (Or.inl hx)).imp_left hmine
      · rcases h.settled k hold with ⟨y, hy⟩ | hgone
        · have hyx : y ≠ x := fun he => hx (he ▸ hy)
          exact Or.inl ⟨y, by rw [Function.update_of_ne hyx, hy]⟩
        · rw [(hw.frame k hold hx).2]
          exact Or.inr hgone
    · exact (hw.settled k hk (Or.inr hnew)).imp_left hmine

/-- **A block changes hands.** -/
theorem hand_over (h : Accounted Gone owner s) (hx : owner x = none) :
    Accounted Gone (Function.update (Function.update owner x (owner y)) y none) s := by
  -- who holds a block now, and who did before
  have hcases : ∀ z k, Function.update (Function.update owner x (owner y)) y none z = some k →
      z ≠ y ∧ (z = x ∧ owner y = some k ∨ z ≠ x ∧ owner z = some k) := by
    intro z k hz
    by_cases hzy : z = y
    · rw [hzy, Function.update_self] at hz
      cases hz
    · rw [Function.update_of_ne hzy] at hz
      by_cases hzx : z = x
      · rw [hzx, Function.update_self] at hz
        exact ⟨hzy, Or.inl ⟨hzx, hz⟩⟩
      · rw [Function.update_of_ne hzx] at hz
        exact ⟨hzy, Or.inr ⟨hzx, hz⟩⟩
  refine ⟨fun z k hz => ?_, fun z w k hz hw => ?_, fun k hk => ?_⟩
  · rcases (hcases z k hz).2 with ⟨_, hy⟩ | ⟨_, hz'⟩
    · exact h.lt y k hy
    · exact h.lt z k hz'
  · obtain ⟨hzy, hz'⟩ := hcases z k hz
    obtain ⟨hwy, hw'⟩ := hcases w k hw
    rcases hz' with ⟨hzx, hy⟩ | ⟨_, hz'⟩ <;> rcases hw' with ⟨hwx, hy'⟩ | ⟨_, hw'⟩
    · exact hzx.trans hwx.symm
    · exact absurd (h.alone w y k hw' hy) hwy
    · exact absurd (h.alone z y k hz' hy') hzy
    · exact h.alone z w k hz' hw'
  · refine (h.settled k hk).imp_left ?_
    rintro ⟨z, hz⟩
    have hzx : z ≠ x := by
      rintro rfl
      rw [hx] at hz
      cases hz
    by_cases hzy : z = y
    · have hyx : x ≠ y := fun he => hzx (hzy.trans he.symm)
      exact ⟨x, by rw [Function.update_of_ne hyx, Function.update_self, ← hzy, hz]⟩
    · exact ⟨z, by rw [Function.update_of_ne hzy, Function.update_of_ne hzx, hz]⟩

end Accounted

end Ownership
