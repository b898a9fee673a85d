import AlopexOS.Abtrfs.Format

/-!
# `Abtrfs.Path` — the loops over a path

`chopPath`, `is_path_equal` and the copy of a path into a header are loops over the 2048 bytes of a path.
Each is written here as the loop it is, and then described by the string the path spells.

## Contents
- **`chopPath`** and when it finds no segment.
- **`isPathEqual`** compares at most 255 bytes: a longer name is equal to nothing, itself included.
- **`copyPath`** stores at most 255 bytes and a NUL.
-/

namespace AlopexOS

open Packed CString

/-! ## `chopPath` -/

/-- The character `/`. -/
def slash : UInt8 := 0x2F

/-- The end of `chopPath`: a last segment that no slash closed. -/
def chopEnd (obj : List UInt8) (result : List (List UInt8)) : List (List UInt8) :=
  if obj = [] then result else result ++ [obj]

/-- The loop of `chopPath` from byte `i` on. -/
def chopPathFrom (path : Path) :
    Nat → Nat → List UInt8 → List (List UInt8) → List (List UInt8)
  | 0, _, obj, result => chopEnd obj result
  | n + 1, i, obj, result =>
      if path.get i = 0 then chopEnd obj result
      else if path.get i = slash then
        chopPathFrom path n (i + 1) [] (chopEnd obj result)
      else chopPathFrom path n (i + 1) (obj ++ [path.get i]) result

/-- `chopPath`: the segments of a path. -/
@[irreducible] def chopPath (path : Path) : List (List UInt8) := chopPathFrom path 2048 0 [] []

theorem chopPathFrom_eq_nil (path : Path) (n i : Nat) (obj : List UInt8)
    (result : List (List UInt8)) :
    chopPathFrom path n i obj result = []
      ↔ result = [] ∧ obj = [] ∧ ∀ b ∈ cstr path.get i n, b = slash := by
  have hend : ∀ obj result, chopEnd obj result = [] ↔ result = [] ∧ obj = [] := by
    intro obj result
    unfold chopEnd
    split <;> simp_all
  induction n generalizing i obj result with
  | zero => simp [chopPathFrom, hend, cstr]
  | succ n ih =>
      by_cases h0 : path.get i = 0
      · simp [chopPathFrom, hend, cstr, h0]
      · by_cases hs : path.get i = slash
        · have hs0 : slash ≠ 0 := by decide
          simp only [chopPathFrom, cstr, hs, hs0, if_false, if_true, ih, hend, List.mem_cons,
            forall_eq_or_imp, true_and, and_assoc]
        · simp [chopPathFrom, cstr, h0, hs, ih]

/-- A path has no segment exactly when it is nothing but slashes. -/
theorem chopPath_eq_nil (path : Path) : chopPath path = [] ↔ ∀ b ∈ path.str, b = slash := by
  unfold chopPath Path.str
  rw [chopPathFrom_eq_nil]
  simp

/-! ## `isPathEqual` -/

/-- The loop of `is_path_equal` from byte `i` on. -/
def isPathEqualFrom (path : Path) (headerPath : Nat → UInt8) : Nat → Nat → Bool
  | 0, _ => false
  | n + 1, i =>
      if path.get i ≠ headerPath i then false
      else if path.get i = 0 then true
      else isPathEqualFrom path headerPath n (i + 1)

/-- `is_path_equal`: the first 255 bytes agree up to a NUL among them. -/
def isPathEqual (path : Path) (headerPath : Nat → UInt8) : Bool :=
  isPathEqualFrom path headerPath 255 0

theorem isPathEqualFrom_iff (path : Path) (headerPath : Nat → UInt8) (n i : Nat) :
    isPathEqualFrom path headerPath n i = true
      ↔ cstr path.get i n = cstr headerPath i n ∧ (cstr path.get i n).length < n := by
  induction n generalizing i with
  | zero => simp [isPathEqualFrom]
  | succ n ih =>
      by_cases he : path.get i = headerPath i
      · by_cases h0 : path.get i = 0
        · simp [isPathEqualFrom, cstr, he, he ▸ h0]
        · simp [isPathEqualFrom, cstr, ih, he, he ▸ h0]
      · simp only [isPathEqualFrom, ne_eq, he, not_false_eq_true, if_true, Bool.false_eq_true,
          false_iff, not_and, cstr]
        intro hc
        -- the two strings differ in their first byte, or only one of them has one
        by_cases h0 : path.get i = 0 <;> by_cases h1 : headerPath i = 0 <;> simp_all

/-- **Two names are equal when they spell the same string of at most 254 bytes.** -/
theorem isPathEqual_iff (path : Path) (h : AbtrFSDiskHeader) :
    isPathEqual path h.pathByte = true ↔ path.str = h.str ∧ path.str.length ≤ 254 := by
  unfold isPathEqual Path.str AbtrFSDiskHeader.str
  rw [isPathEqualFrom_iff]
  constructor
  · rintro ⟨he, hlt⟩
    have hp : cstr path.get 0 2048 = cstr path.get 0 255 := cstr_eq_of_lt hlt (by omega)
    have hh : cstr h.pathByte 0 256 = cstr h.pathByte 0 255 :=
      cstr_eq_of_lt (he ▸ hlt) (by rw [← he]; omega)
    rw [hp, hh]
    exact ⟨he, by omega⟩
  · rintro ⟨he, hle⟩
    have hp : cstr path.get 0 255 = cstr path.get 0 2048 := cstr_eq_of_lt (by omega) (by omega)
    have hh : cstr h.pathByte 0 255 = cstr h.pathByte 0 256 :=
      cstr_eq_of_lt (by rw [← he]; omega) (by rw [← he]; omega)
    rw [hp, hh]
    exact ⟨he, by omega⟩

/-! ## The copy of the path into a header -/

/-- The loop that copies `path` from byte `i` on, and the NUL after it. The two indices of the source
    advance together, and `p_idx < 255` bounds both. -/
def copyPathFrom (path : Path) : Nat → Nat → AbtrFSDiskHeader → AbtrFSDiskHeader
  | 0, i, h => h.setPathByte i 0
  | n + 1, i, h =>
      if path.get i ≠ 0 then copyPathFrom path n (i + 1) (h.setPathByte i (path.get i))
      else h.setPathByte i 0

/-- The loop of `write_file` that stores the path: at most 255 bytes, then a NUL. -/
@[irreducible] def copyPath (path : Path) (h : AbtrFSDiskHeader) : AbtrFSDiskHeader := copyPathFrom path 255 0 h

theorem get_copyPathFrom (path : Path) (m : HeaderMember) (n i : Nat) (h : AbtrFSDiskHeader)
    (hi : i + n < 256) : (copyPathFrom path n i h).get m = h.get m := by
  induction n generalizing i h with
  | zero => exact h.get_setPathByte hi 0 m
  | succ n ih =>
      rw [copyPathFrom]
      split
      · rw [ih (i + 1) _ (by omega), h.get_setPathByte (by omega)]
      · exact h.get_setPathByte (by omega) 0 m

/-- The copy only touches `path`. -/
theorem get_copyPath (path : Path) (m : HeaderMember) (h : AbtrFSDiskHeader) :
    (copyPath path h).get m = h.get m := by
  rw [copyPath]
  exact get_copyPathFrom path m 255 0 h (by omega)

theorem pathByte_copyPathFrom (path : Path) (n i k : Nat) (h : AbtrFSDiskHeader)
    (hi : i + n < 256) (hk : k < 256) :
    (copyPathFrom path n i h).pathByte k =
      if i ≤ k ∧ k < i + (cstr path.get i n).length then path.get k
      else if k = i + (cstr path.get i n).length then 0 else h.pathByte k := by
  induction n generalizing i h with
  | zero =>
      have hnone : ¬ (i ≤ k ∧ k < i + 0) := by omega
      rw [copyPathFrom, h.pathByte_setPathByte 0 hk]
      simp only [cstr, List.length_nil, hnone, if_false]
      rfl
  | succ n ih =>
      rw [copyPathFrom]
      by_cases h0 : path.get i = 0
      · have hnone : ¬ (i ≤ k ∧ k < i + 0) := by omega
        simp only [cstr, h0, ne_eq, not_true_eq_false, if_false, if_true, List.length_nil, hnone]
        rw [h.pathByte_setPathByte 0 hk, Nat.add_zero]
      · simp only [cstr, h0, ne_eq, not_false_eq_true, if_true, if_false, List.length_cons]
        rw [ih (i + 1) _ (by omega), h.pathByte_setPathByte _ hk]
        by_cases hki : k = i
        · subst hki
          rw [if_neg (by omega), if_neg (by omega), if_pos rfl, if_pos (by omega)]
        · rw [if_neg hki]
          congr 1
          · exact propext (by omega)
          · congr 1
            exact propext (by omega)

/-- **What a copied name reads back as**: the first 255 bytes of the string the path spells. -/
theorem str_copyPath (path : Path) (h : AbtrFSDiskHeader) :
    (copyPath path h).str = cstr path.get 0 255 := by
  have hlen := length_cstr_le path.get 0 255
  have hbyte : ∀ k < 256, (copyPath path h).pathByte k =
      if 0 ≤ k ∧ k < 0 + (cstr path.get 0 255).length then path.get k
      else if k = 0 + (cstr path.get 0 255).length then 0 else h.pathByte k := by
    intro k hk
    rw [copyPath]
    exact pathByte_copyPathFrom path 255 0 k h (by omega) hk
  apply cstr_of_spelled (zero_not_mem_cstr _ _ _) (by omega)
  · intro k hk
    rw [getElem_cstr hk]
    simp only [Nat.zero_add]
    rw [hbyte k (by omega), if_pos (by omega)]
  · rw [hbyte _ (by omega), if_neg (by omega), if_pos rfl]

end AlopexOS
