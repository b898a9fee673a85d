import AlopexOS.Lib.Run
import Mathlib.Data.Set.Function

/-!
# `Lib.Painting` — pictures that are painted in strokes, and memories that show them

A stroke gives the points of a set one color, so what a point has at the end comes from the last stroke over it.
A surface says which points are shown and in which cell of a memory each of them is.

## Contents
- **Strokes** and the picture after them.
- **Surfaces**: when a memory has been painted on.
- **Runs**: `picture_of_run` and `others_of_run`.
-/

namespace Painting

variable {P C A : Type}

/-! ## Strokes -/

/-- Some points and one color. -/
structure Stroke (P C : Type) where
  points : Set P
  color : C

open Classical in
/-- The picture after one stroke. -/
noncomputable def Stroke.on (s : Stroke P C) (picture : P → C) : P → C :=
  fun p => if p ∈ s.points then s.color else picture p

/-- The picture after some strokes. -/
noncomputable def painted (picture : P → C) (strokes : List (Stroke P C)) : P → C :=
  strokes.foldl (fun picture s => s.on picture) picture

variable {s : Stroke P C} {strokes later : List (Stroke P C)} {pic : P → C} {p : P}

theorem Stroke.on_of_mem (h : p ∈ s.points) : s.on pic p = s.color := if_pos h

theorem Stroke.on_of_notMem (h : p ∉ s.points) : s.on pic p = pic p := if_neg h

theorem painted_append (picture : P → C) (strokes later : List (Stroke P C)) :
    painted picture (strokes ++ later) = painted (painted picture strokes) later := List.foldl_append

/-- Strokes that leave a point out leave its color. -/
theorem painted_of_notMem (h : ∀ s ∈ strokes, p ∉ s.points) : painted pic strokes p = pic p := by
  induction strokes generalizing pic with
  | nil => rfl
  | cons s strokes ih =>
      have hs : p ∉ s.points := h s List.mem_cons_self
      have hrest : ∀ t ∈ strokes, p ∉ t.points := fun t ht => h t (List.mem_cons_of_mem s ht)
      calc painted pic (s :: strokes) p
          = painted (s.on pic) strokes p := rfl
        _ = s.on pic p := ih hrest
        _ = pic p := Stroke.on_of_notMem hs

/-- **The last stroke over a point** gives it its color. -/
theorem painted_of_last (hs : p ∈ s.points) (h : ∀ t ∈ later, p ∉ t.points) :
    painted pic (strokes ++ s :: later) p = s.color := by
  rw [painted_append]
  show painted (s.on _) later p = _
  rw [painted_of_notMem h, Stroke.on_of_mem hs]

/-! ## Surfaces -/

/-- The points that are shown, each in a cell of its own. -/
structure Surface (P A : Type) where
  shown : Set P
  cell : P → A
  apart : Set.InjOn cell shown

/-- What a memory shows. -/
def Surface.picture (S : Surface P A) (m : A → C) : P → C := fun p => m (S.cell p)

/-- A stroke takes `m` to `m'`: the cells of the points in it that are shown have its color, all others are as
    before. -/
structure Surface.Paints (S : Surface P A) (m : A → C) (s : Stroke P C) (m' : A → C) : Prop where
  covered : ∀ p ∈ S.shown, p ∈ s.points → m' (S.cell p) = s.color
  others : ∀ a, (∀ p ∈ S.shown, p ∈ s.points → S.cell p ≠ a) → m' a = m a

variable {S : Surface P A} {m m' : A → C}

/-- The memory shows the picture after the stroke. -/
theorem Surface.Paints.picture_eq (h : S.Paints m s m') (hp : p ∈ S.shown) :
    S.picture m' p = s.on (S.picture m) p := by
  by_cases hs : p ∈ s.points
  · rw [Stroke.on_of_mem hs]
    exact h.covered p hp hs
  · rw [Stroke.on_of_notMem hs]
    apply h.others
    intro q hq hqs he
    obtain rfl := S.apart hq hp he
    exact hs hqs

/-! ## Runs -/

/-- **A memory that is painted on shows the picture after the strokes.** -/
theorem Surface.picture_of_run (h : Run S.Paints m strokes m') :
    ∀ p ∈ S.shown, S.picture m' p = painted (S.picture m) strokes p := by
  induction h with
  | start =>
      intro p _
      rfl
  | step _ ha ih =>
      intro p hp
      rw [ha.picture_eq hp, painted_append]
      show Stroke.on _ _ p = Stroke.on _ _ p
      unfold Stroke.on
      rw [ih p hp]

/-- A cell of no point that a stroke covers keeps what it has. -/
theorem Surface.others_of_run (h : Run S.Paints m strokes m') {a : A}
    (ha : ∀ s ∈ strokes, ∀ p ∈ S.shown, p ∈ s.points → S.cell p ≠ a) : m' a = m a := by
  induction h with
  | start => rfl
  | step _ hpaints ih =>
      rw [List.forall_mem_append, List.forall_mem_singleton] at ha
      rw [hpaints.others a ha.2]
      exact ih ha.1

end Painting
