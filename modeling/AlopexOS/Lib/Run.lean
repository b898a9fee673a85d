import Mathlib.Tactic.Common
import Mathlib.Data.List.Forall2

/-!
# `Lib.Run` — runs of a labelled step relation

A system takes step after step; each step has a label that says what happened in it. A run keeps the
labels in order. What one step preserves a run preserves, and labels that say where in a growing store
a step worked are about different places.

## Contents
- **`Run`** and the rules for states: `trans`, `of_snoc`, `invariant`, `history`, `map`, `lift`, `mono`, `mono_labels`,
  `simulates`, `relates`.
- **Labels**: `labels`, `pairwise` and `exists_of_forall₂`.
- **Computed runs**: `of_foldlM`.
-/

/-- The labels `as` lead from `s` to the state reached. -/
inductive Run {σ α : Type} (R : σ → α → σ → Prop) (s : σ) : List α → σ → Prop
  | start : Run R s [] s
  | step {as : List α} {s₁ s₂ : σ} {a : α} (h : Run R s as s₁) (ha : R s₁ a s₂) :
      Run R s (as ++ [a]) s₂

namespace Run

variable {σ α : Type} {R R' : σ → α → σ → Prop} {I : σ → Prop} {P : α → Prop} {s s' : σ} {as : List α}

theorem single {a : α} (h : R s a s') : Run R s [a] s' := start.step h

theorem trans {s'' : σ} {bs : List α} (h : Run R s as s') (h' : Run R s' bs s'') :
    Run R s (as ++ bs) s'' := by
  induction h' with
  | start => simpa using h
  | step _ ha ih => simpa using ih.step ha

/-- The last step of a run. -/
theorem of_snoc {a : α} (h : Run R s (as ++ [a]) s') : ∃ s₁, Run R s as s₁ ∧ R s₁ a s' := by
  generalize he : as ++ [a] = bs at h
  cases h with
  | start =>
      have hnil := (List.append_eq_nil_iff.mp he).2
      cases hnil
  | step h ha =>
      obtain ⟨rfl, hlast⟩ := List.append_inj' he rfl
      obtain rfl := List.head_eq_of_cons_eq hlast
      exact ⟨_, h, ha⟩

/-- **What a step preserves, a run preserves.** -/
theorem invariant (hstep : ∀ s a s', R s a s' → I s → I s') (h : Run R s as s') (hi : I s) : I s' := by
  induction h with
  | start => exact hi
  | step _ ha ih => exact hstep _ _ _ ha ih

/-- The same for a property of the state and the labels so far. -/
theorem history {H : List α → σ → Prop} (hstep : ∀ as s a s', R s a s' → H as s → H (as ++ [a]) s')
    (h : Run R s as s') (hi : H [] s) : H as s' := by
  induction h with
  | start => exact hi
  | step _ ha ih => exact hstep _ _ _ _ ha ih

/-- **A run seen through `f`** is a run of what the steps look like there. -/
theorem map {τ : Type} {S : τ → α → τ → Prop} {f : σ → τ}
    (hstep : ∀ s a s', R s a s' → I s → S (f s) a (f s') ∧ I s') (h : Run R s as s') (hi : I s) :
    Run S (f s) as (f s') ∧ I s' := by
  induction h with
  | start => exact ⟨.start, hi⟩
  | step _ ha ih => exact ⟨ih.1.step (hstep _ _ _ ha ih.2).1, (hstep _ _ _ ha ih.2).2⟩

/-- **A run of what is seen through `f`** is a run, when each step there is one here. -/
theorem lift {τ : Type} {S : τ → α → τ → Prop} {f : σ → τ} {t : τ}
    (hstep : ∀ s a t, S (f s) a t → I s → ∃ s', R s a s' ∧ f s' = t ∧ I s') (h : Run S (f s) as t)
    (hi : I s) : ∃ s', Run R s as s' ∧ f s' = t ∧ I s' := by
  induction h with
  | start => exact ⟨s, .start, rfl, hi⟩
  | step _ ha ih =>
      obtain ⟨s₁, hrun, rfl, hi₁⟩ := ih
      obtain ⟨s₂, hs₂, ht, hi₂⟩ := hstep s₁ _ _ ha hi₁
      exact ⟨s₂, hrun.step hs₂, ht, hi₂⟩

/-- A run of steps of one kind, in states with the invariant, is a run of steps of another kind. -/
theorem mono (hstep : ∀ s a s', R s a s' → I s → R' s a s' ∧ I s') (h : Run R s as s') (hi : I s) :
    Run R' s as s' ∧ I s' := h.map (f := id) hstep hi

/-- A run is one of steps of another kind, when its labels say enough for that. -/
theorem mono_labels (hstep : ∀ s a s', a ∈ as → R s a s' → R' s a s') (h : Run R s as s') : Run R' s as s' := by
  induction h with
  | start => exact .start
  | step _ ha ih =>
      exact (ih fun s a s' hmem => hstep s a s' (List.mem_append_left _ hmem)).step
        (hstep _ _ _ (List.mem_append_right _ (List.mem_singleton_self _)) ha)

/-- **Forward simulation.** When each step of a state is one of the states it stands for, with what its label
    looks like there, or is not seen there at all, then a run is a run of what is seen of it. -/
theorem simulates {τ β : Type} {S : τ → β → τ → Prop} {P : σ → τ → Prop} {g : α → Option β} {t : τ}
    (hstep : ∀ s a s' t, R s a s' → P s t →
      ∃ t', P s' t' ∧ ((g a = none ∧ t' = t) ∨ ∃ b, g a = some b ∧ S t b t'))
    (h : Run R s as s') (hrel : P s t) : ∃ t', Run S t (as.filterMap g) t' ∧ P s' t' := by
  induction h with
  | start => exact ⟨t, .start, hrel⟩
  | step _ ha ih =>
      obtain ⟨t₁, hrun, hrel₁⟩ := ih
      obtain ⟨t₂, hrel₂, hsee⟩ := hstep _ _ _ _ ha hrel₁
      refine ⟨t₂, ?_, hrel₂⟩
      rw [List.filterMap_append]
      rcases hsee with ⟨hg, rfl⟩ | ⟨b, hg, hb⟩
      · rw [List.filterMap_cons_none hg, List.filterMap_nil, List.append_nil]
        exact hrun
      · rw [List.filterMap_cons_some hg, List.filterMap_nil]
        exact hrun.step hb

/-- **Simulation with labels of its own.** When each step of a state is one of the states it stands for, with a label
    that belongs to its own, a run is a run with labels that belong to its own one by one. -/
theorem relates {τ β : Type} {S : τ → β → τ → Prop} {P : σ → τ → Prop} {Q : α → β → Prop} {t : τ}
    (hstep : ∀ s a s' t, R s a s' → P s t → ∃ b t', Q a b ∧ S t b t' ∧ P s' t') (h : Run R s as s')
    (hrel : P s t) : ∃ bs t', List.Forall₂ Q as bs ∧ Run S t bs t' ∧ P s' t' := by
  induction h with
  | start => exact ⟨[], t, .nil, .start, hrel⟩
  | step _ ha ih =>
      obtain ⟨bs, t₁, hlabels, hrun, hrel₁⟩ := ih
      obtain ⟨b, t₂, hb, hs, hrel₂⟩ := hstep _ _ _ _ ha hrel₁
      exact ⟨bs ++ [b], t₂, List.rel_append hlabels (.cons hb .nil), hrun.step hs, hrel₂⟩

/-- A label on the one side belongs to one on the other. -/
theorem exists_of_forall₂ {β : Type} {Q : α → β → Prop} {bs : List β} {b : β} (h : List.Forall₂ Q as bs)
    (hb : b ∈ bs) : ∃ a ∈ as, Q a b := by
  induction h with
  | nil => cases hb
  | cons hq _ ih =>
      rcases List.mem_cons.mp hb with rfl | hb
      · exact ⟨_, List.mem_cons_self, hq⟩
      · obtain ⟨a, ha, hab⟩ := ih hb
        exact ⟨a, List.mem_cons_of_mem _ ha, hab⟩

/-- What a step says of its label in states with the invariant holds of all labels of a run. -/
theorem labels (hstep : ∀ s a s', R s a s' → I s → P a ∧ I s') (h : Run R s as s') (hi : I s) :
    (∀ a ∈ as, P a) ∧ I s' := by
  induction h with
  | start => exact ⟨by simp, hi⟩
  | step _ ha ih =>
      obtain ⟨hlabels, hi'⟩ := ih
      obtain ⟨hlabel, hi''⟩ := hstep _ _ _ ha hi'
      exact ⟨List.forall_mem_append.mpr ⟨hlabels, List.forall_mem_singleton.mpr hlabel⟩, hi''⟩

/-- Each label spans a stretch between two marks on the states. When the marks never fall, the stretches of
    a run come one after the other. -/
theorem pairwise {mark : σ → Nat} {first last : α → Nat}
    (hstep : ∀ s a s', R s a s' → I s →
      mark s ≤ first a ∧ last a ≤ mark s' ∧ mark s ≤ mark s' ∧ I s')
    (h : Run R s as s') (hi : I s) :
    as.Pairwise (fun a b => last a ≤ first b) ∧ (∀ a ∈ as, last a ≤ mark s') ∧ I s' := by
  induction h with
  | start => exact ⟨.nil, by simp, hi⟩
  | step _ ha ih =>
      obtain ⟨hpairs, hlast, hi'⟩ := ih
      obtain ⟨hfirst, hmark, hle, hi''⟩ := hstep _ _ _ ha hi'
      refine ⟨List.pairwise_append.mpr ⟨hpairs, List.pairwise_singleton _ _, ?_⟩, ?_, hi''⟩
      · intro a hmem b hb
        rw [List.mem_singleton.mp hb]
        exact Nat.le_trans (hlast a hmem) hfirst
      · exact List.forall_mem_append.mpr
          ⟨fun a hmem => Nat.le_trans (hlast a hmem) hle, List.forall_mem_singleton.mpr hmark⟩

/-- A function that takes the steps computes a run. -/
theorem of_foldlM {f : σ → α → Option σ} {s₀ : σ} {done : List α}
    (hstep : ∀ s a s', f s a = some s' → R s a s') (h : Run R s₀ done s) (he : as.foldlM f s = some s') :
    Run R s₀ (done ++ as) s' := by
  induction as generalizing done s with
  | nil =>
      obtain rfl : s = s' := Option.some.inj he
      simpa using h
  | cons a as ih =>
      rw [List.foldlM_cons] at he
      obtain ⟨s₁, hs₁, he⟩ := Option.bind_eq_some_iff.mp he
      simpa using ih (h.step (hstep _ _ _ hs₁)) he

end Run
