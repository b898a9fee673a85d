import Mathlib.Tactic.Common

/-!
# `Lib.DList` — doubly linked lists threaded through a store

The links of a list are two functions on addresses, `next` and `prev`; the address `0` ends the list on
both sides. `Seg next prev q l r` says that the nodes `l` are linked both ways, with `q` before the
first and `r` after the last. A whole list is a segment between `0` and `0` whose head is known.

## Contents
- **Segments.** `Seg`, concatenation, and what a segment depends on.
- **Lists.** `Linked head l`, linking a node in at the head, and unlinking any node.
-/

namespace DList

/-- The nodes `l` are linked both ways between `q` and `r`. -/
def Seg (next prev : Nat → Nat) : Nat → List Nat → Nat → Prop
  | _, [], _ => True
  | q, x :: l, r => prev x = q ∧ next x = l.headD r ∧ Seg next prev x l r

variable {next prev next' prev' : Nat → Nat} {q r head : Nat} {l l₁ l₂ : List Nat}

@[simp] theorem seg_nil : Seg next prev q [] r ↔ True := Iff.rfl

@[simp] theorem seg_cons {x : Nat} :
    Seg next prev q (x :: l) r ↔ prev x = q ∧ next x = l.headD r ∧ Seg next prev x l r := Iff.rfl

/-- A segment splits at any point into two. -/
theorem seg_append :
    Seg next prev q (l₁ ++ l₂) r
      ↔ Seg next prev q l₁ (l₂.headD r) ∧ Seg next prev (l₁.getLastD q) l₂ r := by
  induction l₁ generalizing q with
  | nil => simp
  | cons x l₁ ih =>
      have hhead : (l₁ ++ l₂).headD r = l₁.headD (l₂.headD r) := by cases l₁ <;> rfl
      have hlast : (x :: l₁).getLastD q = l₁.getLastD x := by cases l₁ <;> rfl
      simp only [List.cons_append, seg_cons, ih, hhead, hlast, and_assoc]

/-- Only the links of the nodes matter. -/
theorem Seg.congr (h : Seg next prev q l r) (hn : ∀ x ∈ l, next' x = next x)
    (hp : ∀ x ∈ l, prev' x = prev x) : Seg next' prev' q l r := by
  induction l generalizing q with
  | nil => trivial
  | cons x l ih =>
      obtain ⟨h₁, h₂, h₃⟩ := h
      refine ⟨(hp x (by simp)).trans h₁, (hn x (by simp)).trans h₂, ?_⟩
      exact ih h₃ (fun y hy => hn y (by simp [hy])) (fun y hy => hp y (by simp [hy]))

theorem getLastD_mem (h : l ≠ []) (q : Nat) : l.getLastD q ∈ l := by
  cases l with
  | nil => exact absurd rfl h
  | cons x l =>
      rw [List.getLastD_cons]
      exact List.getLastD_mem_cons

/-- Another node after the last: only the last `next` link changes. -/
theorem Seg.relinkNext {r' : Nat} (h : Seg next prev q l r) (hnd : l.Nodup)
    (hlast : l ≠ [] → next' (l.getLastD q) = r')
    (hn : ∀ x ∈ l, x ≠ l.getLastD q → next' x = next x) (hp : ∀ x ∈ l, prev' x = prev x) :
    Seg next' prev' q l r' := by
  induction l generalizing q with
  | nil => trivial
  | cons x l ih =>
      obtain ⟨h₁, h₂, h₃⟩ := h
      obtain ⟨hx, hnd'⟩ := List.nodup_cons.mp hnd
      refine ⟨(hp x (by simp)).trans h₁, ?_, ?_⟩
      · cases l with
        | nil => exact hlast (by simp)
        | cons y l =>
            have hne : x ≠ (x :: y :: l).getLastD q := by
              rw [List.getLastD_cons]
              exact fun he => hx (he ▸ getLastD_mem (by simp) x)
            rw [hn x (by simp) hne]
            exact h₂
      · apply ih h₃ hnd'
        · intro _
          have := hlast (by simp)
          rwa [List.getLastD_cons] at this
        · intro z hz hzl
          apply hn z (by simp [hz])
          rw [List.getLastD_cons]
          exact hzl
        · exact fun z hz => hp z (by simp [hz])

/-- Another node before the first: only the first `prev` link changes. -/
theorem Seg.relinkPrev {q' : Nat} (h : Seg next prev q l r) (hnd : l.Nodup)
    (hhead : l ≠ [] → prev' (l.headD r) = q')
    (hn : ∀ x ∈ l, next' x = next x) (hp : ∀ x ∈ l, x ≠ l.headD r → prev' x = prev x) :
    Seg next' prev' q' l r := by
  cases l with
  | nil => trivial
  | cons x l =>
      obtain ⟨_, h₂, h₃⟩ := h
      obtain ⟨hx, _⟩ := List.nodup_cons.mp hnd
      refine ⟨hhead (by simp), (hn x (by simp)).trans h₂, ?_⟩
      refine h₃.congr (fun y hy => hn y (by simp [hy])) (fun y hy => hp y (by simp [hy]) ?_)
      rintro rfl
      exact hx hy

/-! ## Lists -/

/-- The whole list `l`, found from `head`. -/
def Linked (next prev : Nat → Nat) (head : Nat) (l : List Nat) : Prop :=
  head = l.headD 0 ∧ 0 ∉ l ∧ l.Nodup ∧ Seg next prev 0 l 0

namespace Linked

theorem seg (h : Linked next prev head l) : Seg next prev 0 l 0 := h.2.2.2

theorem nodup (h : Linked next prev head l) : l.Nodup := h.2.2.1

theorem ne_zero (h : Linked next prev head l) {x : Nat} (hx : x ∈ l) : x ≠ 0 := by
  rintro rfl
  exact h.2.1 hx

theorem congr (h : Linked next prev head l) (hn : ∀ x ∈ l, next' x = next x)
    (hp : ∀ x ∈ l, prev' x = prev x) : Linked next' prev' head l :=
  ⟨h.1, h.2.1, h.2.2.1, h.2.2.2.congr hn hp⟩

theorem head_ne_zero (h : Linked next prev head l) (hl : l ≠ []) : head ≠ 0 := by
  cases l with
  | nil => exact absurd rfl hl
  | cons x l =>
      rw [h.1]
      exact h.ne_zero (by simp)

theorem head_mem (h : Linked next prev head l) (h0 : head ≠ 0) : head ∈ l := by
  cases l with
  | nil => exact absurd h.1 h0
  | cons x l =>
      rw [h.1]
      simp

/-- The links of a node in the middle of the list. -/
theorem links {x : Nat} (h : Linked next prev head (l₁ ++ x :: l₂)) :
    prev x = l₁.getLastD 0 ∧ next x = l₂.headD 0 := by
  have hs := (seg_append.mp h.seg).2
  exact ⟨hs.1, hs.2.1⟩

/-- What comes before a node in the list. -/
theorem prev_node {x : Nat} (h : Linked next prev head (l₁ ++ x :: l₂)) :
    l₁ = [] ∧ prev x = 0 ∨ l₁ ≠ [] ∧ prev x ∈ l₁ ∧ prev x ≠ 0 := by
  cases hl : l₁ with
  | nil =>
      have hp := h.links.1
      rw [hl] at hp
      exact Or.inl ⟨rfl, hp⟩
  | cons y l =>
      have hmem : prev x ∈ l₁ := by
        rw [h.links.1]
        exact getLastD_mem (by simp [hl]) 0
      rw [← hl]
      exact Or.inr ⟨by simp [hl], hmem, h.ne_zero (List.mem_append_left _ hmem)⟩

/-- What comes after a node in the list. -/
theorem next_node {x : Nat} (h : Linked next prev head (l₁ ++ x :: l₂)) :
    l₂ = [] ∧ next x = 0 ∨ l₂ ≠ [] ∧ next x ∈ l₂ ∧ next x ≠ 0 := by
  cases hl : l₂ with
  | nil =>
      have hn := h.links.2
      rw [hl] at hn
      exact Or.inl ⟨rfl, hn⟩
  | cons y l =>
      have hmem : next x ∈ l₂ := by
        rw [h.links.2, hl]
        simp
      rw [← hl]
      exact Or.inr ⟨by simp [hl], hmem, h.ne_zero (by simp [hmem])⟩

/-- A node occurs once. -/
theorem not_mem_rest {x : Nat} (h : Linked next prev head (l₁ ++ x :: l₂)) : x ∉ l₁ ∧ x ∉ l₂ := by
  obtain ⟨_, hnd, hdisj⟩ := List.nodup_append.mp h.nodup
  exact ⟨fun hx => hdisj x hx x (by simp) rfl, (List.nodup_cons.mp hnd).1⟩

/-- **Link a node in at the head.** -/
theorem push {x : Nat} (h : Linked next prev head l) (hx : x ∉ l) (hx0 : x ≠ 0)
    (hnx : next' x = head) (hpx : prev' x = 0) (hph : l ≠ [] → prev' head = x)
    (hn : ∀ y ∈ l, next' y = next y) (hp : ∀ y ∈ l, y ≠ head → prev' y = prev y) :
    Linked next' prev' x (x :: l) := by
  obtain ⟨hh, h0, hnd, hs⟩ := h
  refine ⟨rfl, ?_, List.nodup_cons.mpr ⟨hx, hnd⟩, hpx, by rw [hnx, hh], ?_⟩
  · simp only [List.mem_cons, not_or]
    exact ⟨Ne.symm hx0, h0⟩
  · apply hs.relinkPrev hnd
    · intro hl
      rw [← hh]
      exact hph hl
    · exact hn
    · intro y hy hyh
      exact hp y hy (by rw [hh]; exact hyh)

/-- **Unlink a node.** Its neighbours, where it has any, are linked to each other. -/
theorem unlink {x head' : Nat} (h : Linked next prev head (l₁ ++ x :: l₂))
    (hhead : head' = if l₁ = [] then next x else head)
    (hnl : l₁ ≠ [] → next' (prev x) = next x) (hpr : l₂ ≠ [] → prev' (next x) = prev x)
    (hn : ∀ y ∈ l₁ ++ l₂, y ≠ prev x → next' y = next y)
    (hp : ∀ y ∈ l₁ ++ l₂, y ≠ next x → prev' y = prev y) :
    Linked next' prev' head' (l₁ ++ l₂) := by
  obtain ⟨hpx, hnx⟩ := h.links
  obtain ⟨hh, h0, hnd, hs⟩ := h
  obtain ⟨hs₁, hs₂⟩ := seg_append.mp hs
  have hnd₁ : l₁.Nodup := (List.nodup_append.mp hnd).1
  have hnd₂ : l₂.Nodup := (List.nodup_cons.mp (List.nodup_append.mp hnd).2.1).2
  -- a node is on one side of `x` only, so each side has one link that changes
  have hdisj : ∀ y ∈ l₁, ∀ z ∈ l₂, y ≠ z := fun y hy z hz =>
    (List.nodup_append.mp hnd).2.2 y hy z (by simp [hz])
  refine ⟨?_, ?_, ?_, seg_append.mpr ⟨?_, ?_⟩⟩
  · rw [hhead, hh]
    cases l₁ with
    | nil => simpa using hnx
    | cons y l₁ => simp
  · simp only [List.mem_append, List.mem_cons, not_or] at h0 ⊢
    exact ⟨h0.1, h0.2.2⟩
  · exact List.nodup_append.mpr ⟨hnd₁, hnd₂, hdisj⟩
  · apply hs₁.relinkNext hnd₁
    · intro hne
      rw [← hpx, hnl hne, hnx]
    · intro y hy hyl
      exact hn y (by simp [hy]) (by rw [hpx]; exact hyl)
    · intro y hy
      apply hp y (by simp [hy])
      rw [hnx]
      cases l₂ with
      | nil =>
          rintro rfl
          exact h0 (List.mem_append_left _ hy)
      | cons z l₂ => exact hdisj y hy z (by simp)
  · apply hs₂.2.2.relinkPrev hnd₂
    · intro hne
      rw [← hnx, hpr hne, hpx]
    · intro y hy
      apply hn y (by simp [hy])
      rw [hpx]
      cases l₁ with
      | nil =>
          rintro rfl
          exact h0 (List.mem_cons_of_mem _ hy)
      | cons z l₁ => exact fun he => hdisj _ (getLastD_mem (by simp) 0) y hy he.symm
    · intro y hy hyh
      exact hp y (by simp [hy]) (by rw [hnx]; exact hyh)

end Linked

end DList
