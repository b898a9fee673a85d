import Mathlib.Tactic.Common
import Mathlib.Data.List.Basic

/-!
# `Lib.Tokens` — the parts of a list between separators

`tokens s l` goes over `l` with what it has of the next token; a separator ends a token that has begun. What it
gives are the longest stretches without a separator, and a list that is put together from such stretches, with
separators between them, comes apart again.

## Contents
- **Stretches** of positions: `IsRun`, and the scan `runsFrom` that finds them in order.
- **Tokens** are the stretches of a list.
- **Lists put together** from tokens and separators: `tokens_spell`.
-/

namespace Tokens

/-! ## Stretches -/

/-- From `a` up to `b` is a longest stretch, below `n`, where `P` does not hold. -/
structure IsRun (P : Nat → Prop) (n a b : Nat) : Prop where
  lt : a < b
  le : b ≤ n
  clean : ∀ m, a ≤ m → m < b → ¬ P m
  left : a = 0 ∨ P (a - 1)
  right : b = n ∨ P b

/-- The stretch from `i` up to `k`, if it has begun. -/
def pending (i k : Nat) : List (Nat × Nat) := if i < k then [(i, k)] else []

/-- The stretches from `i` on, at position `k` with `n` positions left. -/
def runsFrom (P : Nat → Prop) [DecidablePred P] : Nat → Nat → Nat → List (Nat × Nat)
  | 0, i, k => pending i k
  | n + 1, i, k => if P k then pending i k ++ runsFrom P n (k + 1) (k + 1) else runsFrom P n i (k + 1)

variable {P : Nat → Prop} {n N i k a b : Nat}

theorem mem_pending : (a, b) ∈ pending i k ↔ i < k ∧ a = i ∧ b = k := by
  unfold pending
  by_cases hlt : i < k <;> simp [hlt]

/-- A stretch that ends at `k` is one that has begun at `i`. -/
theorem mem_pending_iff (hik : i ≤ k) (hk : k ≤ N) (hclean : ∀ m, i ≤ m → m < k → ¬ P m) (hleft : i = 0 ∨ P (i - 1))
    (hstop : k = N ∨ P k) : (a, b) ∈ pending i k ↔ IsRun P N a b ∧ i ≤ a ∧ a ≤ k := by
  rw [mem_pending]
  constructor
  · rintro ⟨hlt, rfl, rfl⟩
    exact ⟨⟨hlt, hk, hclean, hleft, hstop⟩, Nat.le_refl a, hik⟩
  · rintro ⟨hrun, hia, hak⟩
    have hlt := hrun.lt
    have hle := hrun.le
    have ha : a = i := by
      by_contra hne
      rcases hrun.left with hzero | hsep
      · omega
      · exact hclean (a - 1) (by omega) (by omega) hsep
    have hbk : b ≤ k := by
      by_contra hgt
      rcases hstop with hend | hsep
      · omega
      · exact hrun.clean k hak (by omega) hsep
    have hb : b = k := by
      by_contra hne
      rcases hrun.right with hend | hsep
      · omega
      · exact hclean b (by omega) (by omega) hsep
    omega

variable [DecidablePred P]

/-- **The scan finds the stretches**, and nothing else. -/
theorem mem_runsFrom (hk : k + n = N) (hik : i ≤ k) (hclean : ∀ m, i ≤ m → m < k → ¬ P m)
    (hleft : i = 0 ∨ P (i - 1)) : (a, b) ∈ runsFrom P n i k ↔ IsRun P N a b ∧ i ≤ a := by
  induction n generalizing i k with
  | zero =>
      rw [runsFrom, mem_pending_iff hik (by omega) hclean hleft (Or.inl hk)]
      refine and_congr_right fun hrun => ?_
      have hlt := hrun.lt
      have hle := hrun.le
      omega
  | succ n ih =>
      have hnext : k + 1 + n = N := by omega
      have hkN : k ≤ N := by omega
      rw [runsFrom]
      by_cases hsep : P k
      · have hnone : ∀ m, k + 1 ≤ m → m < k + 1 → ¬ P m := by
          intro m hle hlt
          omega
        rw [if_pos hsep, List.mem_append, mem_pending_iff hik hkN hclean hleft (Or.inr hsep),
          ih hnext (Nat.le_refl _) hnone (Or.inr hsep), ← and_or_left]
        refine and_congr_right fun _ => ?_
        omega
      · rw [if_neg hsep]
        refine ih hnext (by omega) ?_ hleft
        intro m hle hlt
        by_cases he : m = k
        · rwa [he]
        · exact hclean m hle (by omega)

theorem le_of_mem_runsFrom (hik : i ≤ k) (h : (a, b) ∈ runsFrom P n i k) : i ≤ a := by
  induction n generalizing i k with
  | zero =>
      obtain ⟨-, ha, -⟩ := mem_pending.mp h
      omega
  | succ n ih =>
      rw [runsFrom] at h
      split at h
      · rcases List.mem_append.mp h with hhere | hlater
        · obtain ⟨-, ha, -⟩ := mem_pending.mp hhere
          omega
        · have hle := ih (Nat.le_refl _) hlater
          omega
      · exact ih (by omega) h

/-- **In their order**, with a separator between two of them. -/
theorem pairwise_runsFrom (hik : i ≤ k) : (runsFrom P n i k).Pairwise fun r r' => r.2 < r'.1 := by
  have hsingle : ∀ i k, (pending i k).Pairwise fun r r' => r.2 < r'.1 := by
    intro i k
    unfold pending
    split
    · exact List.pairwise_singleton _ _
    · exact List.Pairwise.nil
  induction n generalizing i k with
  | zero => exact hsingle i k
  | succ n ih =>
      rw [runsFrom]
      split
      · refine List.pairwise_append.mpr ⟨hsingle i k, ih (Nat.le_refl _), ?_⟩
        rintro ⟨a, b⟩ hhere ⟨a', b'⟩ hlater
        obtain ⟨-, -, hb⟩ := mem_pending.mp hhere
        have hle := le_of_mem_runsFrom (Nat.le_refl _) hlater
        show b < a'
        omega
      · exact ih (by omega)

/-! ## Tokens -/

variable {α : Type} {l obj : List α}

/-- The token that has begun, if one has. -/
def flush (obj : List α) : List (List α) := if obj = [] then [] else [obj]

theorem flush_extract (h : k ≤ l.length) : flush (l.extract i k) = (pending i k).map fun r => l.extract r.1 r.2 := by
  have hlength : (l.extract i k).length = k - i := by
    rw [List.extract_eq_take_drop, List.length_take, List.length_drop]
    omega
  unfold flush pending
  by_cases hlt : i < k
  · have hne : l.extract i k ≠ [] := by
      rw [← List.length_pos_iff]
      omega
    rw [if_neg hne, if_pos hlt]
    rfl
  · have hnil : l.extract i k = [] := List.eq_nil_of_length_eq_zero (by omega)
    rw [if_pos hnil, if_neg hlt]
    rfl

theorem extract_succ (hik : i ≤ k) (hk : k < l.length) : l.extract i k ++ [l[k]] = l.extract i (k + 1) := by
  rw [List.extract_eq_take_drop, List.extract_eq_take_drop]
  have hsub : k + 1 - i = k - i + 1 := by omega
  have hget : (l.drop i)[k - i]? = some l[k] := by
    rw [List.getElem?_drop, Nat.add_sub_cancel' hik, List.getElem?_eq_getElem hk]
  rw [hsub, List.take_add_one, hget]
  rfl

variable [DecidableEq α] (s : α)

/-- The tokens of a list, with `obj` of the first before it. -/
def tokensFrom (obj : List α) : List α → List (List α)
  | [] => flush obj
  | x :: l => if x = s then flush obj ++ tokensFrom [] l else tokensFrom (obj ++ [x]) l

/-- The longest stretches of a list without a separator, in order. -/
def tokens (l : List α) : List (List α) := tokensFrom s [] l

variable {s}

/-- **The tokens from `k` on** are the stretches from there on, the first of which has begun at `i`. -/
theorem tokensFrom_eq (hik : i ≤ k) (hn : k + n = l.length) :
    tokensFrom s (l.extract i k) (l.drop k)
      = (runsFrom (fun m => l[m]? = some s) n i k).map fun r => l.extract r.1 r.2 := by
  induction n generalizing i k with
  | zero =>
      rw [List.drop_eq_nil_of_le (by omega), tokensFrom, runsFrom, flush_extract (by omega)]
  | succ n ih =>
      have hk : k < l.length := by omega
      have hnext : k + 1 + n = l.length := by omega
      have hempty : l.extract (k + 1) (k + 1) = [] := by
        rw [List.extract_eq_take_drop, Nat.sub_self, List.take_zero]
      have hget : l[k]? = some s ↔ l[k] = s := by rw [List.getElem?_eq_getElem hk, Option.some_inj]
      rw [List.drop_eq_getElem_cons hk, tokensFrom, runsFrom]
      by_cases hsep : l[k] = s
      · rw [if_pos hsep, if_pos (hget.mpr hsep), List.map_append, ← ih (Nat.le_refl _) hnext, hempty,
          flush_extract (Nat.le_of_lt hk)]
      · rw [if_neg hsep, if_neg (fun h => hsep (hget.mp h)), extract_succ hik hk, ih (by omega) hnext]

/-- **The tokens of a list are its longest stretches without a separator**, in their order. -/
theorem tokens_eq (s : α) (l : List α) :
    ∃ bounds : List (Nat × Nat), bounds.Pairwise (fun r r' => r.2 < r'.1)
      ∧ (∀ a b, (a, b) ∈ bounds ↔ IsRun (fun m => l[m]? = some s) l.length a b)
      ∧ tokens s l = bounds.map fun r => l.extract r.1 r.2 := by
  refine ⟨runsFrom (fun m => l[m]? = some s) l.length 0 0, pairwise_runsFrom (Nat.le_refl 0), ?_, ?_⟩
  · intro a b
    rw [mem_runsFrom (Nat.zero_add _) (Nat.le_refl 0) (fun m _ hlt => absurd hlt (Nat.not_lt_zero m)) (Or.inl rfl)]
    exact and_iff_left (Nat.zero_le a)
  · exact tokensFrom_eq (Nat.le_refl 0) (Nat.zero_add _)

/-- A token is not empty, and its elements are in the list and no separators. -/
theorem of_mem_tokensFrom {t : List α} (ht : t ∈ tokensFrom s obj l) :
    t ≠ [] ∧ ∀ x ∈ t, x ∈ obj ∨ (x ∈ l ∧ x ≠ s) := by
  have hflush : ∀ {obj : List α}, t ∈ flush obj → t ≠ [] ∧ t = obj := by
    intro obj ht
    unfold flush at ht
    split at ht
    · exact absurd ht List.not_mem_nil
    · rename_i hne
      rw [List.mem_singleton.mp ht]
      exact ⟨hne, rfl⟩
  induction l generalizing obj with
  | nil =>
      obtain ⟨hne, rfl⟩ := hflush ht
      exact ⟨hne, fun x hx => Or.inl hx⟩
  | cons y l ih =>
      rw [tokensFrom] at ht
      by_cases hsep : y = s
      · rw [if_pos hsep] at ht
        rcases List.mem_append.mp ht with hhere | hlater
        · obtain ⟨hne, rfl⟩ := hflush hhere
          exact ⟨hne, fun x hx => Or.inl hx⟩
        · obtain ⟨hne, hmem⟩ := ih hlater
          refine ⟨hne, fun x hx => ?_⟩
          rcases hmem x hx with hnil | ⟨hin, hx⟩
          · exact absurd hnil List.not_mem_nil
          · exact Or.inr ⟨List.mem_cons_of_mem y hin, hx⟩
      · rw [if_neg hsep] at ht
        obtain ⟨hne, hmem⟩ := ih ht
        refine ⟨hne, fun x hx => ?_⟩
        rcases hmem x hx with hobj | ⟨hin, hx⟩
        · rcases List.mem_append.mp hobj with hold | hnew
          · exact Or.inl hold
          · rw [List.mem_singleton.mp hnew]
            exact Or.inr ⟨List.mem_cons_self, hsep⟩
        · exact Or.inr ⟨List.mem_cons_of_mem y hin, hx⟩

/-! ## Lists put together -/

/-- Separators, and then each token with the separators behind it. -/
def spell (s : α) (lead : Nat) (parts : List (List α × Nat)) : List α :=
  List.replicate lead s ++ parts.flatMap fun part => part.1 ++ List.replicate part.2 s

/-- Between two tokens there is a separator, and none in them. -/
structure Spaced (s : α) (parts : List (List α × Nat)) : Prop where
  token : ∀ part ∈ parts, part.1 ≠ [] ∧ s ∉ part.1
  space : ∀ part ∈ parts.dropLast, 0 < part.2

omit [DecidableEq α] in
theorem not_mem_spell {lead : Nat} {parts : List (List α × Nat)} (hx : x ≠ s) (h : ∀ part ∈ parts, x ∉ part.1) :
    x ∉ spell s lead parts := by
  intro hmem
  rw [spell, List.mem_append, List.mem_flatMap] at hmem
  rcases hmem with hlead | ⟨part, hpart, hmem⟩
  · exact hx (List.eq_of_mem_replicate hlead)
  · rcases List.mem_append.mp hmem with htoken | hspace
    · exact h part hpart htoken
    · exact hx (List.eq_of_mem_replicate hspace)

theorem tokensFrom_append {t : List α} (h : s ∉ t) : tokensFrom s obj (t ++ l) = tokensFrom s (obj ++ t) l := by
  induction t generalizing obj with
  | nil => rw [List.nil_append, List.append_nil]
  | cons x t ih =>
      rw [List.mem_cons, not_or] at h
      rw [List.cons_append, tokensFrom, if_neg (Ne.symm h.1), ih h.2, List.append_assoc]
      rfl

theorem tokensFrom_separators : tokensFrom s [] (List.replicate k s ++ l) = tokensFrom s [] l := by
  induction k with
  | zero => rfl
  | succ k ih =>
      rw [List.replicate_succ, List.cons_append, tokensFrom, if_pos rfl, ih]
      rfl

theorem tokensFrom_behind (h : 0 < k) :
    tokensFrom s obj (List.replicate k s ++ l) = flush obj ++ tokensFrom s [] l := by
  obtain ⟨k, rfl⟩ : ∃ m, k = m + 1 := ⟨k - 1, by omega⟩
  rw [List.replicate_succ, List.cons_append, tokensFrom, if_pos rfl, tokensFrom_separators]

/-- **A list that is put together from tokens comes apart into them.** -/
theorem tokens_spell {lead : Nat} {parts : List (List α × Nat)} (h : Spaced s parts) :
    tokens s (spell s lead parts) = parts.map Prod.fst := by
  rw [tokens, spell, tokensFrom_separators]
  induction parts with
  | nil => rfl
  | cons part parts ih =>
      obtain ⟨hne, hclean⟩ := h.token part List.mem_cons_self
      have hflush : flush part.1 = [part.1] := if_neg hne
      rw [List.flatMap_cons, List.append_assoc, tokensFrom_append hclean, List.nil_append, List.map_cons]
      cases parts with
      | nil =>
          -- the last token may end with the list
          rw [List.flatMap_nil, List.append_nil, List.map_nil]
          by_cases hspace : 0 < part.2
          · rw [← List.append_nil (List.replicate _ _), tokensFrom_behind hspace, hflush]
            rfl
          · rw [Nat.eq_zero_of_not_pos hspace]
            exact hflush
      | cons next parts =>
          have hspace : 0 < part.2 := h.space part List.mem_cons_self
          have hrest : Spaced s (next :: parts) :=
            ⟨fun p hp => h.token p (List.mem_cons_of_mem _ hp), fun p hp => h.space p (List.mem_cons_of_mem _ hp)⟩
          rw [tokensFrom_behind hspace, hflush, ih hrest]
          rfl

end Tokens
