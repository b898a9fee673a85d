import AlopexOS.Lib.Prog

/-!
# `Lib.Zoom` — programs that work on a part of the state

A machine has many parts, and a program for one of them runs on the whole machine and leaves the others
alone. A `Component` is such a part with the laws of reading and replacing it, `Prog.zoom` runs a program
there. What is known of the program on its own carries over.

## Contents
- **`Component`** and components of components.
- **`zoom`**: it commutes with the operations of the monad.
- **Values that come back**, of the whole and of the part.
-/

/-- A component `σ` of the states `τ`. -/
structure Component (τ σ : Type) where
  get : τ → σ
  set : τ → σ → τ
  get_set : ∀ t s, get (set t s) = s
  set_get : ∀ t, set t (get t) = t
  set_set : ∀ t s s', set (set t s) s' = set t s'

attribute [simp] Component.get_set Component.set_get Component.set_set

variable {τ σ ρ α β : Type}

/-- A component of a component. -/
def Component.comp (L : Component τ σ) (M : Component σ ρ) : Component τ ρ where
  get t := M.get (L.get t)
  set t r := L.set t (M.set (L.get t) r)
  get_set t r := by simp
  set_get t := by simp
  set_set t r r' := by simp

/-- The first component. -/
def Component.fst : Component (σ × ρ) σ where
  get := Prod.fst
  set t s := (s, t.2)
  get_set _ _ := rfl
  set_get _ := rfl
  set_set _ _ _ := rfl

namespace Prog

variable {L : Component τ σ}

/-- The program `x` on a part of the state. -/
def zoom (L : Component τ σ) (x : Prog σ α) : Prog τ α :=
  ⟨fun t => ((x.run (L.get t)).1, L.set t (x.run (L.get t)).2)⟩

theorem run_zoom (x : Prog σ α) (t : τ) :
    (zoom L x).run t = ((x.run (L.get t)).1, L.set t (x.run (L.get t)).2) := rfl

@[simp] theorem zoom_pure (a : α) : zoom L (pure a : Prog σ α) = pure a := by
  refine ext fun t => ?_
  simp [run_zoom]

@[simp] theorem zoom_fail (e : Fault) : zoom L (fail e : Prog σ α) = fail e := by
  refine ext fun t => ?_
  simp [run_zoom]

@[simp] theorem zoom_bind (x : Prog σ α) (f : α → Prog σ β) :
    zoom L (x >>= f) = zoom L x >>= fun a => zoom L (f a) := by
  refine ext fun t => ?_
  rw [run_bind, run_zoom, run_zoom, run_bind]
  rcases x.run (L.get t) with ⟨r, s⟩
  cases r with
  | ok a => simp [run_zoom]
  | error e => rfl

theorem zoom_ite (c : Prop) [Decidable c] (x y : Prog σ α) :
    zoom L (if c then x else y) = if c then zoom L x else zoom L y := by
  split <;> rfl

/-- A component of a component is zoomed to in two steps. -/
theorem zoom_comp {M : Component σ ρ} (x : Prog ρ α) : zoom (L.comp M) x = zoom L (zoom M x) := rfl

/-- A value that comes back from the whole comes back from the part, and the rest is as it was. -/
theorem zoom_eq_ok {x : Prog σ α} {t t' : τ} {a : α} (h : (zoom L x).run t = (.ok a, t')) :
    x.run (L.get t) = (.ok a, L.get t') ∧ t' = L.set t (L.get t') := by
  obtain ⟨hr, rfl⟩ := Prod.mk.inj h
  rw [L.get_set, ← hr]
  exact ⟨rfl, rfl⟩

theorem zoom_ok {x : Prog σ α} {t : τ} {s : σ} {a : α} (h : x.run (L.get t) = (.ok a, s)) :
    (zoom L x).run t = (.ok a, L.set t s) := by
  rw [run_zoom, h]

end Prog
