import Mathlib.Tactic.Common

/-!
# `Lib.Tiling` — an interval tiled by blocks that name their successor

Some stores have no index: each block records its own extent, and the blocks are found by stepping from
one to the next. `Tiles next a l b` says that stepping by `next` from `a` visits exactly the addresses
`l` and arrives at `b`. Blocks are half-open intervals `[x, next x)`; they are ordered, disjoint, and
cover `[a, b)`.

## Contents
- **The relation.** `Tiles`, its bounds, concatenation, and that a tiling is determined by `next`.
- **Blocks.** Distinct blocks are disjoint, and the end of a block is a block or the end.
- **Edits.** Cutting a block in two and joining a block with the next one.
-/

namespace Tiling

/-- Stepping by `next` from `a` visits exactly `l` and arrives at `b`. -/
def Tiles (next : Nat → Nat) : Nat → List Nat → Nat → Prop
  | a, [], b => a = b
  | a, x :: l, b => x = a ∧ a < next a ∧ Tiles next (next a) l b

variable {next next' : Nat → Nat} {a b : Nat} {l : List Nat}

@[simp] theorem tiles_nil : Tiles next a [] b ↔ a = b := Iff.rfl

@[simp] theorem tiles_cons {x : Nat} :
    Tiles next a (x :: l) b ↔ x = a ∧ a < next a ∧ Tiles next (next a) l b := Iff.rfl

namespace Tiles

theorem le (h : Tiles next a l b) : a ≤ b := by
  induction l generalizing a with
  | nil => exact Nat.le_of_eq h
  | cons x l ih =>
      obtain ⟨_, hlt, hrest⟩ := h
      have := ih hrest
      omega

/-- Every block lies inside the interval and is not empty. -/
theorem bounds (h : Tiles next a l b) {x : Nat} (hx : x ∈ l) : a ≤ x ∧ x < next x ∧ next x ≤ b := by
  induction l generalizing a with
  | nil => exact absurd hx (by simp)
  | cons y l ih =>
      obtain ⟨rfl, hlt, hrest⟩ := h
      rcases List.mem_cons.mp hx with rfl | hx
      · exact ⟨Nat.le_refl x, hlt, hrest.le⟩
      · have := ih hrest hx
        omega

/-- Only the successors of the visited addresses matter. -/
theorem congr (h : Tiles next a l b) (hag : ∀ x ∈ l, next' x = next x) : Tiles next' a l b := by
  induction l generalizing a with
  | nil => exact h
  | cons y l ih =>
      obtain ⟨rfl, hlt, hrest⟩ := h
      have hy : next' y = next y := hag y (by simp)
      refine ⟨rfl, by omega, ?_⟩
      rw [hy]
      exact ih hrest (fun x hx => hag x (by simp [hx]))

/-- Two adjacent tilings are one. -/
theorem append {c : Nat} {l' : List Nat} (h : Tiles next a l b) (h' : Tiles next b l' c) :
    Tiles next a (l ++ l') c := by
  induction l generalizing a with
  | nil =>
      obtain rfl : a = b := h
      exact h'
  | cons y l ih =>
      obtain ⟨rfl, hlt, hrest⟩ := h
      exact ⟨rfl, hlt, ih hrest⟩

/-- A tiling splits at any of its blocks. -/
theorem split {x : Nat} {l₁ l₂ : List Nat} (h : Tiles next a (l₁ ++ x :: l₂) b) :
    Tiles next a l₁ x ∧ x < next x ∧ Tiles next (next x) l₂ b := by
  induction l₁ generalizing a with
  | nil =>
      obtain ⟨rfl, hlt, hrest⟩ := h
      exact ⟨rfl, hlt, hrest⟩
  | cons y l₁ ih =>
      obtain ⟨rfl, hlt, hrest⟩ := h
      obtain ⟨h₁, h₂, h₃⟩ := ih hrest
      exact ⟨⟨rfl, hlt, h₁⟩, h₂, h₃⟩

/-- Blocks of one width. -/
theorem uniform {w k : Nat} (hw : 0 < w) (hn : ∀ i < k, next (a + i * w) = a + (i + 1) * w) :
    Tiles next a ((List.range k).map fun i => a + i * w) (a + k * w) := by
  induction k with
  | zero => simp
  | succ k ih =>
      rw [List.range_succ, List.map_append]
      refine (ih fun i hi => hn i (by omega)).append ?_
      have hk := hn k (Nat.lt_succ_self k)
      refine ⟨rfl, ?_, hk⟩
      rw [hk, Nat.add_mul]
      omega

/-- The first block is the start, unless there is nothing to tile. -/
theorem head_or_end (h : Tiles next a l b) : a = b ∧ l = [] ∨ ∃ l', l = a :: l' := by
  cases l with
  | nil => exact Or.inl ⟨h, rfl⟩
  | cons y l =>
      obtain ⟨rfl, _, _⟩ := h
      exact Or.inr ⟨l, rfl⟩

/-- **A tiling is determined by its steps.** -/
theorem unique {l' : List Nat} (h : Tiles next a l b) (h' : Tiles next a l' b) : l = l' := by
  induction l generalizing a l' with
  | nil =>
      obtain rfl : a = b := h
      cases l' with
      | nil => rfl
      | cons y l' =>
          obtain ⟨rfl, hlt, hrest⟩ := h'
          have := hrest.le
          omega
  | cons x l ih =>
      obtain ⟨rfl, hlt, hrest⟩ := h
      cases l' with
      | nil =>
          obtain rfl : x = b := h'
          -- a block after the end would lie before its own start
          have := hrest.le
          omega
      | cons y l' =>
          obtain ⟨rfl, _, hrest'⟩ := h'
          rw [ih hrest hrest']

/-! ## Blocks -/

/-- The blocks come in address order. -/
theorem sorted (h : Tiles next a l b) : l.Pairwise (fun x y => next x ≤ y) := by
  induction l generalizing a with
  | nil => exact List.Pairwise.nil
  | cons y l ih =>
      obtain ⟨rfl, hlt, hrest⟩ := h
      exact List.pairwise_cons.mpr ⟨fun z hz => (hrest.bounds hz).1, ih hrest⟩

theorem nodup (h : Tiles next a l b) : l.Nodup := by
  refine h.sorted.imp_of_mem ?_
  intro x y hx _ hxy
  have hlt := (h.bounds hx).2.1
  omega

/-- **Distinct blocks are disjoint.** -/
theorem disjoint (h : Tiles next a l b) {x y : Nat} (hx : x ∈ l) (hy : y ∈ l) (hne : x ≠ y) :
    next x ≤ y ∨ next y ≤ x := by
  induction l generalizing a with
  | nil => exact absurd hx (by simp)
  | cons z l ih =>
      obtain ⟨rfl, hlt, hrest⟩ := h
      rcases List.mem_cons.mp hx with rfl | hxl
      · rcases List.mem_cons.mp hy with rfl | hyl
        · exact absurd rfl hne
        · exact Or.inl (hrest.bounds hyl).1
      · rcases List.mem_cons.mp hy with rfl | hyl
        · exact Or.inr (hrest.bounds hxl).1
        · exact ih hrest hxl hyl

/-! ## Edits -/

/-- **Cut a block in two.** -/
theorem cut {x y : Nat} {l₁ l₂ : List Nat} (h : Tiles next a (l₁ ++ x :: l₂) b)
    (hxy : x < y) (hyn : y < next x) (hx : next' x = y) (hy : next' y = next x)
    (hag : ∀ z ∈ l₁ ++ l₂, next' z = next z) : Tiles next' a (l₁ ++ x :: y :: l₂) b := by
  obtain ⟨h₁, _, h₃⟩ := h.split
  -- the steps before the block and after it are the old ones
  refine (h₁.congr fun z hz => hag z (by simp [hz])).append ?_
  refine ⟨rfl, by omega, ?_⟩
  rw [hx]
  refine ⟨rfl, by omega, ?_⟩
  rw [hy]
  exact h₃.congr fun z hz => hag z (by simp [hz])

/-- **Join a block with the one after it.** -/
theorem join {x y : Nat} {l₁ l₂ : List Nat} (h : Tiles next a (l₁ ++ x :: y :: l₂) b)
    (hx : next' x = next y) (hag : ∀ z ∈ l₁ ++ l₂, next' z = next z) :
    Tiles next' a (l₁ ++ x :: l₂) b := by
  obtain ⟨h₁, hxn, rfl, hyn, h₃⟩ := h.split
  refine (h₁.congr fun z hz => hag z (by simp [hz])).append ?_
  refine ⟨rfl, by omega, ?_⟩
  rw [hx]
  exact h₃.congr fun z hz => hag z (by simp [hz])

/-- Blocks of at least `w` bytes: an interval holds only so many. -/
theorem length_mul_le {w : Nat} (h : Tiles next a l b) (hw : ∀ x ∈ l, x + w ≤ next x) :
    a + l.length * w ≤ b := by
  induction l generalizing a with
  | nil =>
      obtain rfl : a = b := h
      simp
  | cons y l ih =>
      obtain ⟨rfl, hlt, hrest⟩ := h
      have hy := hw y (by simp)
      have hr := ih hrest (fun x hx => hw x (by simp [hx]))
      rw [List.length_cons, Nat.add_mul]
      omega

end Tiles

end Tiling
