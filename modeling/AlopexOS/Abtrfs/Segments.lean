import AlopexOS.Abtrfs.Path
import AlopexOS.Lib.Tokens
import Mathlib.Data.List.GetD

/-!
# `Abtrfs.Segments` — the segments of a path

`chopPath` gathers the bytes between slashes. Its segments are the tokens of the string that the path spells, so
slashes at the ends and repeated ones make no difference; a path without a NUL is chopped up to its last byte.

## Contents
- **`chopPath`** gives the tokens of the string.
- **Exactness**: the longest runs without a slash, and back: `chopPath_exact`.
-/

namespace AlopexOS

open Packed CString Tokens

variable {path : Path} {n i : Nat} {obj : List UInt8} {result : List (List UInt8)}

/-! ## Tokens -/

theorem chopEnd_eq (obj : List UInt8) (result : List (List UInt8)) : chopEnd obj result = result ++ flush obj := by
  unfold chopEnd flush
  split
  · rw [List.append_nil]
  · rfl

/-- **The loop** adds the tokens of the rest, the first of which begins with what was gathered. -/
theorem chopPathFrom_eq :
    chopPathFrom path n i obj result = result ++ tokensFrom slash obj (cstr path.get i n) := by
  induction n generalizing i obj result with
  | zero => rw [chopPathFrom, chopEnd_eq, cstr, tokensFrom]
  | succ n ih =>
      rw [chopPathFrom, cstr_succ]
      by_cases hnul : path.get i = 0
      · rw [if_pos hnul, if_pos hnul, chopEnd_eq, tokensFrom]
      · rw [if_neg hnul, if_neg hnul, tokensFrom]
        by_cases hslash : path.get i = slash
        · rw [if_pos hslash, if_pos hslash, ih, chopEnd_eq, List.append_assoc]
        · rw [if_neg hslash, if_neg hslash, ih]

theorem chopPath_eq_tokens (path : Path) : chopPath path = tokens slash path.str := by
  rw [chopPath, chopPathFrom_eq, List.nil_append]
  rfl

/-! ## Exactness -/

/-- The bytes of the path begin with these, and end with them or with a NUL behind them. -/
structure Path.Spells (path : Path) (bs : List UInt8) : Prop where
  fits : bs.length ≤ 2048
  byte : ∀ (k : Nat) (hk : k < bs.length), path.get k = bs[k]
  nul : bs.length < 2048 → path.get bs.length = 0

/-- `chopPath` is a tokenisation. -/
structure ChopsExactly (path : Path) : Prop where
  /-- The segments are the longest runs without a slash, in their order. -/
  runs : ∃ bounds : List (Nat × Nat), bounds.Pairwise (fun r r' => r.2 < r'.1)
    ∧ (∀ a b, (a, b) ∈ bounds ↔ IsRun (fun k => path.str[k]? = some slash) path.str.length a b)
    ∧ chopPath path = bounds.map fun r => path.str.extract r.1 r.2
  clean : ∀ segment ∈ chopPath path, segment ≠ [] ∧ slash ∉ segment ∧ 0 ∉ segment
  /-- What is put together from segments comes back. -/
  roundTrip : ∀ (lead : Nat) (parts : List (List UInt8 × Nat)), Spaced slash parts → (∀ part ∈ parts, 0 ∉ part.1) →
    path.Spells (spell slash lead parts) → chopPath path = parts.map Prod.fst

theorem Path.Spells.str_eq {bs : List UInt8} (h : path.Spells bs) (hnul : 0 ∉ bs) : path.str = bs := by
  have hbyte : ∀ (k : Nat) (hk : k < bs.length), path.get (0 + k) = bs[k] := by
    intro k hk
    rw [Nat.zero_add]
    exact h.byte k hk
  rcases Nat.lt_or_eq_of_le h.fits with hlt | hfull
  · apply cstr_of_spelled hnul hlt hbyte
    rw [Nat.zero_add]
    exact h.nul hlt
  · -- there is no NUL, and the scan ends with the array
    have hscan : path.str = (bs.take 2048).takeWhile (· ≠ 0) := by
      apply cstr_eq_takeWhile
      intro k hk
      rw [hbyte k (by omega), List.getD_eq_getElem bs 0 (by omega)]
    rw [hscan, List.take_of_length_le h.fits, takeWhile_eq_self hnul]

/-- **`chopPath` is exact**: it gives the longest runs without a slash of what the path spells, and gives back
    the segments that a path was put together from. -/
theorem chopPath_exact (path : Path) : ChopsExactly path where
  runs := by
    rw [chopPath_eq_tokens]
    exact tokens_eq slash path.str
  clean segment hsegment := by
    rw [chopPath_eq_tokens] at hsegment
    obtain ⟨hne, hmem⟩ := of_mem_tokensFrom hsegment
    have hbyte : ∀ x ∈ segment, x ∈ path.str ∧ x ≠ slash := by
      intro x hx
      rcases hmem x hx with hnil | hin
      · exact absurd hnil List.not_mem_nil
      · exact hin
    refine ⟨hne, fun hslash => (hbyte slash hslash).2 rfl, fun hnul => ?_⟩
    exact zero_not_mem_cstr _ _ _ (hbyte 0 hnul).1
  roundTrip lead parts hspaced hclean hspells := by
    have hnul : 0 ∉ spell slash lead parts := not_mem_spell (by decide) hclean
    rw [chopPath_eq_tokens, hspells.str_eq hnul]
    exact tokens_spell hspaced

end AlopexOS
