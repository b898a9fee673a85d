import Mathlib.Tactic.Common
import Mathlib.Algebra.GroupWithZero.Nat

/-!
# `Lib.Prog` — programs that may fail to come back

A program reads and changes a machine state and either returns a value or stops on a fault. The state
survives a fault: what a machine wrote before it stopped stays written. `Runs G x s Q` is the one
judgement about such programs. It is partial in the guard `G` and total under it:

* a value that comes back satisfies `Q`;
* the program never touches storage outside an object;
* it does come back whenever `G` holds.

## Contents
- **Programs.** `Fault`, `Prog` and its monad.
- **`Keeps`**: a part of the state that a program leaves alone.
- **`Moves`**: how the state afterwards is related to the one before.
- **`Gives`**: what the values that come back have in common.
- **The judgement.** `Runs` with its rules for `pure`, `bind`, branching and consequence.
-/

/-- Why a program does not return: it waits for ever, or it left the storage it owns. -/
inductive Fault where
  | hang
  | wild
  deriving DecidableEq, Repr

/-- A program over the machine state `σ`. -/
structure Prog (σ α : Type) where
  run : σ → Except Fault α × σ

namespace Prog

variable {σ α β : Type}

/-- Continue with `f` unless a fault stopped the machine. -/
def andThen (f : α → Prog σ β) : Except Fault α × σ → Except Fault β × σ
  | (.ok a, s) => (f a).run s
  | (.error e, s) => (.error e, s)

instance : Monad (Prog σ) where
  pure a := ⟨fun s => (.ok a, s)⟩
  bind x f := ⟨fun s => andThen f (x.run s)⟩

/-- Stop on a fault. -/
def fail (e : Fault) : Prog σ α := ⟨fun s => (.error e, s)⟩

@[simp] theorem run_pure (a : α) (s : σ) : (pure a : Prog σ α).run s = (.ok a, s) := rfl

@[simp] theorem run_fail (e : Fault) (s : σ) : (fail e : Prog σ α).run s = (.error e, s) := rfl

@[simp] theorem run_bind (x : Prog σ α) (f : α → Prog σ β) (s : σ) :
    (x >>= f).run s = andThen f (x.run s) := rfl

@[simp] theorem andThen_ok (f : α → Prog σ β) (a : α) (s : σ) :
    andThen f (.ok a, s) = (f a).run s := rfl

@[simp] theorem andThen_error (f : α → Prog σ β) (e : Fault) (s : σ) :
    andThen f (.error e, s) = (.error e, s) := rfl

theorem ext {x y : Prog σ α} (h : ∀ s, x.run s = y.run s) : x = y := by
  cases x
  cases y
  congr 1
  exact funext h

instance : LawfulMonad (Prog σ) := LawfulMonad.mk' _
  (fun x => ext fun s => by
    show andThen _ (x.run s) = x.run s
    rcases x.run s with ⟨_ | _, s'⟩ <;> rfl)
  (fun _ _ => rfl)
  (fun x f g => ext fun s => by
    simp only [run_bind]
    rcases x.run s with ⟨_ | _, s'⟩ <;> rfl)

@[simp] theorem run_map (f : α → β) (x : Prog σ α) (s : σ) :
    (f <$> x).run s = andThen (fun a => pure (f a)) (x.run s) := rfl

/-- A program whose result is worked over. -/
theorem run_bind_pure (f : α → β) (x : Prog σ α) (s : σ) :
    (x >>= fun a => pure (f a)).run s = ((x.run s).1.map f, (x.run s).2) := by
  rw [run_bind]
  rcases x.run s with ⟨_ | _, s'⟩ <;> rfl

theorem map_eq_ok {r : Except Fault α} {f : α → β} {b : β} (h : r.map f = .ok b) :
    ∃ a, r = .ok a ∧ f a = b := by
  cases r with
  | ok a => exact ⟨a, rfl, Except.ok.inj h⟩
  | error e => cases h

/-- The fault that stopped a program, if one did. -/
def stopped : Except Fault α × σ → Option Fault
  | (.ok _, _) => none
  | (.error e, _) => some e

theorem eq_error_of_stopped {r : Except Fault α × σ} {e : Fault} (h : stopped r = some e) :
    r.1 = .error e := by
  rcases r with ⟨_ | _, s⟩
  · exact congrArg _ (Option.some.inj h)
  · cases h

/-- A program whose wild stops are results: `none`. -/
def caught (x : Prog σ α) : Prog σ (Option α) :=
  ⟨fun s =>
    match x.run s with
    | (.ok a, s') => (.ok (some a), s')
    | (.error .wild, s') => (.ok none, s')
    | (.error .hang, s') => (.error .hang, s')⟩

/-- **Inversion of a sequence.** A sequence that returns is two programs that return. -/
theorem bind_eq_ok {x : Prog σ α} {f : α → Prog σ β} {s s'' : σ} {b : β}
    (h : (x >>= f).run s = (.ok b, s'')) :
    ∃ a s', x.run s = (.ok a, s') ∧ (f a).run s' = (.ok b, s'') := by
  rw [run_bind] at h
  rcases hx : x.run s with ⟨r, s'⟩
  rw [hx] at h
  cases r with
  | ok a => exact ⟨a, s', rfl, h⟩
  | error e => exact absurd h (by simp)

/-! ## What a program leaves alone -/

/-- The part `f` of the state is the same afterwards, whatever becomes of the program. -/
def Keeps {τ : Type} (f : σ → τ) (x : Prog σ α) : Prop := ∀ s, f (x.run s).2 = f s

namespace Keeps

variable {τ : Type} {g : σ → τ} {x : Prog σ α} {f : α → Prog σ β}

theorem pure (a : α) : Keeps g (Pure.pure a : Prog σ α) := fun _ => rfl

theorem fail (e : Fault) : Keeps g (Prog.fail e : Prog σ α) := fun _ => rfl

theorem bind (hx : Keeps g x) (hf : ∀ a, Keeps g (f a)) : Keeps g (x >>= f) := by
  intro s
  have hxs := hx s
  rw [run_bind]
  rcases hrun : x.run s with ⟨r, s'⟩
  rw [hrun] at hxs
  cases r with
  | ok a => exact (hf a s').trans hxs
  | error e => exact hxs

theorem ite {c : Prop} [Decidable c] {y z : Prog σ α} (hy : Keeps g y) (hz : Keeps g z) :
    Keeps g (if c then y else z) := by
  split
  · exact hy
  · exact hz

/-- The part is the same in the state that is returned. -/
theorem returned (h : Keeps g x) {s s' : σ} {a : α} (hx : x.run s = (.ok a, s')) : g s' = g s := by
  have := h s
  rwa [hx] at this

end Keeps

/-! ## How a program moves the state -/

/-- The states before and after are related, whatever becomes of the program. -/
def Moves (R : σ → σ → Prop) (x : Prog σ α) : Prop := ∀ s, R s (x.run s).2

namespace Moves

variable {R : σ → σ → Prop} {x : Prog σ α} {f : α → Prog σ β}

theorem pure (hrefl : ∀ s, R s s) (a : α) : Moves R (Pure.pure a : Prog σ α) := fun s => hrefl s

theorem bind (htrans : ∀ {s₁ s₂ s₃}, R s₁ s₂ → R s₂ s₃ → R s₁ s₃) (hx : Moves R x)
    (hf : ∀ a, Moves R (f a)) : Moves R (x >>= f) := by
  intro s
  have hxs := hx s
  rw [run_bind]
  rcases hrun : x.run s with ⟨r, s'⟩
  rw [hrun] at hxs
  cases r with
  | ok a => exact htrans hxs (hf a s')
  | error e => exact hxs

theorem ite {c : Prop} [Decidable c] {y z : Prog σ α} (hy : Moves R y) (hz : Moves R z) :
    Moves R (if c then y else z) := by
  split
  · exact hy
  · exact hz

/-- The state that is returned is related to the one before. -/
theorem returned (h : Moves R x) {s s' : σ} {a : α} (hx : x.run s = (.ok a, s')) : R s s' := by
  have := h s
  rwa [hx] at this

end Moves

/-! ## What a program gives -/

/-- A value that comes back has the property, whatever the state was. -/
def Gives (P : α → Prop) (x : Prog σ α) : Prop := ∀ s a s', x.run s = (.ok a, s') → P a

namespace Gives

variable {P : α → Prop} {R : β → Prop} {x : Prog σ α} {f : α → Prog σ β}

theorem pure {a : α} (h : P a) : Gives P (Pure.pure a : Prog σ α) := by
  rintro s b s' hrun
  obtain ⟨hab, _⟩ := Prod.mk.inj hrun
  exact Except.ok.inj hab ▸ h

theorem fail (e : Fault) : Gives P (Prog.fail e : Prog σ α) := by
  rintro s a s' hrun
  cases hrun

theorem bind (hf : ∀ a, Gives R (f a)) : Gives R (x >>= f) := by
  intro s b s' hrun
  obtain ⟨a, s₁, _, hrest⟩ := bind_eq_ok hrun
  exact hf a s₁ b s' hrest

theorem ite {c : Prop} [Decidable c] {y z : Prog σ α} (hy : Gives P y) (hz : Gives P z) :
    Gives P (if c then y else z) := by
  split
  · exact hy
  · exact hz

end Gives

/-! ## The judgement -/

/-- `x` run from `s` returns only values with `Q`, never goes wild, and returns when `G` holds. -/
@[irreducible] def Runs (G : Prop) (x : Prog σ α) (s : σ) (Q : α → σ → Prop) : Prop :=
  match x.run s with
  | (.ok a, s') => Q a s'
  | (.error .hang, _) => ¬ G
  | (.error .wild, _) => False

namespace Runs

variable {G G' : Prop} {x : Prog σ α} {f : α → Prog σ β} {s s' : σ} {Q Q' : α → σ → Prop}
  {R : β → σ → Prop}

theorem of_ok {a : α} (h : x.run s = (.ok a, s')) (hq : Q a s') : Runs G x s Q := by
  simp only [Runs, h]
  exact hq

/-- What came back has the postcondition. -/
theorem returned (h : Runs G x s Q) {a : α} (hx : x.run s = (.ok a, s')) : Q a s' := by
  simpa only [Runs, hx] using h

/-- Under the guard something does come back. -/
theorem returns (h : Runs G x s Q) (hG : G) : ∃ a s', x.run s = (.ok a, s') ∧ Q a s' := by
  rcases hx : x.run s with ⟨r, s'⟩
  cases r with
  | ok a => exact ⟨a, s', rfl, h.returned hx⟩
  | error e =>
      cases e with
      | hang => simp only [Runs, hx] at h; exact absurd hG h
      | wild => simp only [Runs, hx] at h

theorem not_wild (h : Runs G x s Q) : x.run s ≠ (.error .wild, s') := by
  intro hx
  simp only [Runs, hx] at h

/-- The judgement spelled out. -/
theorem iff_spelled : Runs G x s Q ↔
    (∀ a s', x.run s = (.ok a, s') → Q a s') ∧ (G → ∃ a s', x.run s = (.ok a, s')) ∧
      ∀ s', x.run s ≠ (.error .wild, s') := by
  constructor
  · intro h
    refine ⟨fun a s' hx => h.returned hx, fun hG => ?_, fun s' => h.not_wild⟩
    obtain ⟨a, s', hx, _⟩ := h.returns hG
    exact ⟨a, s', hx⟩
  · rintro ⟨hret, htot, hwild⟩
    rcases hx : x.run s with ⟨r, s'⟩
    cases r with
    | ok a => exact of_ok hx (hret a s' hx)
    | error e =>
        cases e with
        | hang =>
            simp only [Runs, hx]
            intro hG
            obtain ⟨a, s'', ha⟩ := htot hG
            rw [hx] at ha
            exact absurd ha (by simp)
        | wild => exact absurd hx (hwild s')

theorem pure {a : α} (h : Q a s) : Runs G (Pure.pure a) s Q := of_ok rfl h

theorem bind (hx : Runs G x s Q) (hf : ∀ a s', Q a s' → Runs G (f a) s' R) :
    Runs G (x >>= f) s R := by
  rcases h : x.run s with ⟨r, s'⟩
  cases r with
  | ok a =>
      have hfa := hf a s' (hx.returned h)
      simpa only [Runs, run_bind, h, andThen_ok] using hfa
  | error e =>
      cases e with
      -- a hang stays one, and was allowed unless the guard held
      | hang => simpa only [Runs, run_bind, h, andThen_error] using hx
      | wild => simp only [Runs, h] at hx

theorem imp (h : Runs G x s Q) (hq : ∀ a s', Q a s' → Q' a s') : Runs G x s Q' := by
  rw [iff_spelled] at h ⊢
  exact ⟨fun a s' hx => hq a s' (h.1 a s' hx), h.2⟩

theorem guard (h : Runs G x s Q) (hg : G' → G) : Runs G' x s Q := by
  rw [iff_spelled] at h ⊢
  exact ⟨h.1, fun hG => h.2.1 (hg hG), h.2.2⟩

/-- The rules for a program whose wild stops count as results. -/
theorem caught_bind {R : Option β → σ → Prop} (hx : Runs G x s Q)
    (hf : ∀ a s', Q a s' → Runs G (caught (f a)) s' R) : Runs G (caught (x >>= f)) s R := by
  rcases h : x.run s with ⟨r, s'⟩
  cases r with
  | ok a =>
      have hfa := hf a s' (hx.returned h)
      simpa only [Runs, caught, run_bind, h, andThen_ok] using hfa
  | error e =>
      cases e with
      | hang => simpa only [Runs, caught, run_bind, h, andThen_error] using hx
      | wild => simp only [Runs, h] at hx

theorem caught_pure {R : Option α → σ → Prop} {a : α} (h : R (some a) s) :
    Runs G (caught (Pure.pure a)) s R := of_ok rfl h

theorem caught_wild {R : Option α → σ → Prop} (h : R none s) :
    Runs G (caught (fail .wild : Prog σ α)) s R := of_ok rfl h

theorem caught_ite {c : Prop} [Decidable c] {y z : Prog σ α} {R : Option α → σ → Prop}
    (hy : c → Runs G (caught y) s R) (hz : ¬ c → Runs G (caught z) s R) :
    Runs G (caught (if c then y else z)) s R := by
  split
  · exact hy ‹_›
  · exact hz ‹_›

/-- A caught program that has no wild stop is the program. -/
theorem of_caught {R : Option α → σ → Prop} (h : Runs G (caught x) s R) (hw : ∀ s', ¬ R none s') :
    Runs G x s (fun a => R (some a)) := by
  rcases hx : x.run s with ⟨r, s'⟩
  cases r with
  | ok a =>
      have hcaught : (caught x).run s = (.ok (some a), s') := by simp only [caught, hx]
      exact of_ok hx (h.returned hcaught)
  | error e =>
      cases e with
      | hang => simpa only [Runs, caught, hx] using h
      | wild =>
          have hcaught : (caught x).run s = (.ok none, s') := by simp only [caught, hx]
          exact absurd (h.returned hcaught) (hw s')

/-- What a caught program says about the program itself. -/
theorem caught_returned {R : Option α → σ → Prop} (h : Runs G (caught x) s R) {a : α}
    (hx : x.run s = (.ok a, s')) : R (some a) s' := h.returned (by simp only [caught, hx])

theorem caught_stopped {R : Option α → σ → Prop} (h : Runs G (caught x) s R)
    (hx : x.run s = (.error .wild, s')) : R none s' := h.returned (by simp only [caught, hx])

theorem caught_returns {R : Option α → σ → Prop} (h : Runs G (caught x) s R) (hG : G) :
    (∃ a s', x.run s = (.ok a, s') ∧ R (some a) s') ∨ ∃ s', x.run s = (.error .wild, s') ∧ R none s' := by
  obtain ⟨r, s', hrun, hr⟩ := h.returns hG
  rcases hx : x.run s with ⟨r', s''⟩
  cases r' with
  | ok a => exact Or.inl ⟨a, s'', rfl, h.caught_returned hx⟩
  | error e =>
      cases e with
      | hang => simp only [caught, hx, Prod.mk.injEq, reduceCtorEq, false_and] at hrun
      | wild => exact Or.inr ⟨s'', rfl, h.caught_stopped hx⟩

theorem ite {c : Prop} [Decidable c] {y z : Prog σ α} (hy : c → Runs G y s Q)
    (hz : ¬ c → Runs G z s Q) : Runs G (if c then y else z) s Q := by
  split
  · exact hy ‹_›
  · exact hz ‹_›

end Runs

end Prog
