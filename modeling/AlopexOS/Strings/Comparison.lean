import AlopexOS.Strings.Contents
import AlopexOS.Abtrfs.Abtrfs
import Mathlib.Data.List.Lex
import Mathlib.Data.Int.Order.Basic

/-!
# `Strings.Comparison` — the comparison of strings (`src/include/string.hpp`)

`==` compares the lengths and then the bytes; `<` compares bytes as far as both strings go, as signed characters,
and then the lengths. Both look at the bytes at `c_str()` only, so strings of different capacity compare like
their contents, and these are in the order of lists of numbers.

## Contents
- **The operators** in memory, and the branch that `find_or_create_node` takes.
- **Contents**: the loops compare lists of bytes.
- **The order** of lists.
- **The name tree**: `find_or_create_node` at a node, by the branch.
- **Strings in memory**: `orders_strings`.
-/

namespace AlopexOS.Strings

open Packed

/-! ## The operators -/

/-- The loop of `operator==` from byte `i` on, with `n` bytes left. -/
def eqLoop (bytes : Mem) (p q : Nat) : Nat → Nat → Bool
  | 0, _ => true
  | n + 1, i => if bytes (p + i) ≠ bytes (q + i) then false else eqLoop bytes p q n (i + 1)

/-- The loop of `operator<` from byte `i` on, with `n` bytes left; `shorter` is what it comes to at the end. -/
def ltLoop (bytes : Mem) (p q : Nat) (shorter : Bool) : Nat → Nat → Bool
  | 0, _ => shorter
  | n + 1, i =>
      if charLt (bytes (p + i)) (bytes (q + i)) then true
      else if charLt (bytes (q + i)) (bytes (p + i)) then false
      else ltLoop bytes p q shorter n (i + 1)

namespace BasicString

variable (m : Memory) (lhs rhs : BasicString)

/-- `operator==`. -/
def eq : Bool :=
  if lhs.length ≠ rhs.length then false
  else eqLoop m.bytes (lhs.cStr m) (rhs.cStr m) lhs.length.toNat 0

/-- `operator!=`. -/
def ne : Bool := !eq m lhs rhs

/-- `operator<`. -/
def lt : Bool :=
  let minLen := if lhs.length < rhs.length then lhs.length else rhs.length
  ltLoop m.bytes (lhs.cStr m) (rhs.cStr m) (decide (lhs.length < rhs.length)) minLen.toNat 0

/-- `operator>`. -/
def gt : Bool := lt m rhs lhs

/-- `operator<=`. -/
def le : Bool := !lt m rhs lhs

/-- `operator>=`. -/
def ge : Bool := !lt m lhs rhs

/-- The bytes of the string. -/
def contents (s : BasicString) : List UInt8 := read m.bytes (s.cStr m) s.length.toNat

end BasicString

/-- Where `find_or_create_node` goes at a node. -/
inductive Branch where
  | here
  | left
  | right
  deriving DecidableEq

/-- The branch for `target_name` at the node `root->name`. -/
def branch (m : Memory) (targetName name : BasicString) : Branch :=
  if targetName.eq m name then .here
  else if targetName.lt m name then .left
  else .right

/-! ## Contents -/

variable {bytes : Mem} {p q n k l i : Nat}

theorem eqLoop_iff : eqLoop bytes p q n i = true ↔ read bytes (p + i) n = read bytes (q + i) n := by
  induction n generalizing i with
  | zero => exact iff_of_true rfl rfl
  | succ n ih =>
      rw [eqLoop, read_succ, read_succ, List.cons.injEq]
      by_cases he : bytes (p + i) = bytes (q + i)
      · rw [if_neg (not_not_intro he), ih, and_iff_right he]
        exact Iff.rfl
      · rw [if_pos he]
        exact iff_of_false Bool.false_ne_true fun h => he h.1

/-- **The loop of `<`** with `k` bytes of the one string left and `l` of the other. -/
theorem ltLoop_eq :
    ltLoop bytes p q (decide (k < l)) (min k l) i = stringLt (read bytes (p + i) k) (read bytes (q + i) l) := by
  induction k generalizing l i with
  | zero =>
      rw [Nat.zero_min, ltLoop, read_zero]
      cases l with
      | zero => rfl
      | succ l =>
          rw [read_succ]
          rfl
  | succ k ih =>
      cases l with
      | zero =>
          rw [Nat.min_zero, ltLoop, read_zero, read_succ]
          rfl
      | succ l =>
          have hshorter : decide (k + 1 < l + 1) = decide (k < l) := by simp
          have hrest : ltLoop bytes p q (decide (k < l)) (min k l) (i + 1)
              = stringLt (read bytes (p + i + 1) k) (read bytes (q + i + 1) l) := ih
          rw [Nat.succ_min_succ, ltLoop, read_succ, read_succ, stringLt, hshorter, hrest]

variable {m m' : Memory} {a b c a' b' : BasicString}

namespace BasicString

theorem length_contents (m : Memory) (s : BasicString) : (s.contents m).length = s.length.toNat := length_read _ _ _

/-- **`==` compares contents.** -/
theorem eq_iff : a.eq m b = true ↔ a.contents m = b.contents m := by
  unfold eq
  by_cases hlength : a.length = b.length
  · rw [if_neg (not_not_intro hlength), eqLoop_iff, contents, contents, hlength]
    exact Iff.rfl
  · rw [if_pos hlength]
    refine iff_of_false Bool.false_ne_true fun h => hlength ?_
    have hcongr := congrArg List.length h
    rw [length_contents, length_contents] at hcongr
    exact UInt64.toNat_inj.mp hcongr

/-- **`<` compares contents.** -/
theorem lt_eq : a.lt m b = stringLt (a.contents m) (b.contents m) := by
  have hmin : (if a.length < b.length then a.length else b.length).toNat = min a.length.toNat b.length.toNat := by
    by_cases hlt : a.length < b.length
    · have hlt' : a.length.toNat < b.length.toNat := hlt
      rw [if_pos hlt]
      omega
    · have hle : b.length.toNat ≤ a.length.toNat := UInt64.not_lt.mp hlt
      rw [if_neg hlt]
      omega
  have hloop : ltLoop m.bytes (a.cStr m) (b.cStr m) (decide (a.length.toNat < b.length.toNat))
      (min a.length.toNat b.length.toNat) 0 = stringLt (a.contents m) (b.contents m) := ltLoop_eq
  rw [← hloop, ← hmin]
  rfl

end BasicString

/-! ## The order -/

/-- The characters of a string, as numbers. -/
def key (bs : List UInt8) : List Int := bs.map fun b => b.toInt8.toInt

variable {xs ys : List UInt8} {x y : UInt8}

theorem charLt_iff : charLt x y = true ↔ x.toInt8.toInt < y.toInt8.toInt := by
  rw [charLt, decide_eq_true_iff, Int8.lt_iff_toInt_lt]

theorem char_inj : x.toInt8.toInt = y.toInt8.toInt ↔ x = y := by
  constructor
  · intro h
    have hsame := congrArg Int8.toUInt8 (Int8.toInt_inj.mp h)
    rwa [UInt8.toUInt8_toInt8, UInt8.toUInt8_toInt8] at hsame
  · rintro rfl
    rfl

theorem key_inj : key xs = key ys ↔ xs = ys :=
  (List.map_injective_iff.mpr fun _ _ h => char_inj.mp h).eq_iff

/-- **`<` is the order of lists of numbers.** -/
theorem stringLt_iff : stringLt xs ys = true ↔ key xs < key ys := by
  induction xs generalizing ys with
  | nil =>
      cases ys with
      | nil => exact iff_of_false Bool.false_ne_true (lt_irrefl (key []))
      | cons y ys => exact iff_of_true rfl (List.nil_lt_cons _ _)
  | cons x xs ih =>
      cases ys with
      | nil => exact iff_of_false Bool.false_ne_true (List.not_lt_nil _)
      | cons y ys =>
          have hcons : key (x :: xs) < key (y :: ys)
              ↔ x.toInt8.toInt < y.toInt8.toInt ∨ (x.toInt8.toInt = y.toInt8.toInt ∧ key xs < key ys) :=
            List.cons_lt_cons_iff
          rw [hcons, stringLt]
          by_cases hlt : charLt x y = true
          · rw [if_pos hlt]
            exact iff_of_true rfl (Or.inl (charLt_iff.mp hlt))
          · rw [if_neg hlt]
            by_cases hgt : charLt y x = true
            · rw [if_pos hgt]
              have hgt' := charLt_iff.mp hgt
              refine iff_of_false Bool.false_ne_true ?_
              rintro (hlt' | ⟨he, -⟩)
              · exact lt_asymm hgt' hlt'
              · exact hgt'.ne' he
            · have he : x.toInt8.toInt = y.toInt8.toInt :=
                le_antisymm (not_lt.mp fun h => hgt (charLt_iff.mpr h)) (not_lt.mp fun h => hlt (charLt_iff.mpr h))
              rw [if_neg hgt, ih, or_iff_right (fun h => hlt (charLt_iff.mpr h)), and_iff_right he]

/-- The branch for the contents. -/
def branchOf (segment name : List UInt8) : Branch :=
  if segment = name then .here else if stringLt segment name then .left else .right

theorem branch_eq : branch m a b = branchOf (a.contents m) (b.contents m) := by
  rw [branch, branchOf, BasicString.lt_eq]
  by_cases he : a.contents m = b.contents m
  · rw [if_pos (BasicString.eq_iff.mpr he), if_pos he]
  · rw [if_neg (fun h => he (BasicString.eq_iff.mp h)), if_neg he]

/-! ## The name tree -/

/-- What `find_or_create_node` does with a segment at a node, by its branch; `next` is for the rest of the path. -/
def descendBranch {σ : Type} (P : Platform σ) (segment : List UInt8) (isLast : Bool)
    (next : TreeNode → Prog σ TreeNode) (name : List UInt8) (isDirectory : Bool) (left right : TreeNode) :
    Branch → Prog σ TreeNode
  | .here =>
      if isLast then pure (.node name isDirectory left right)
      else do
        let left ← next left
        pure (.node name isDirectory left right)
  | .left => do
      let left ← descend P segment isLast next left
      pure (.node name isDirectory left right)
  | .right => do
      let right ← descend P segment isLast next right
      pure (.node name isDirectory left right)

section Tree

variable {σ : Type} {segment name : List UInt8} {isLast isDirectory : Bool} {left right : TreeNode}

theorem descend_node (P : Platform σ) (next : TreeNode → Prog σ TreeNode) :
    descend P segment isLast next (.node name isDirectory left right)
      = descendBranch P segment isLast next name isDirectory left right (branchOf segment name) := by
  rw [descend, branchOf]
  by_cases he : segment = name
  · rw [if_pos he, if_pos he]
    rfl
  · rw [if_neg he, if_neg he]
    by_cases hlt : stringLt segment name = true
    · rw [if_pos hlt, if_pos hlt]
      rfl
    · rw [if_neg hlt, if_neg hlt]
      rfl

/-- Strings that hold the contents, each with a capacity of its own, take the branch of the tree. -/
theorem branch_of_holds {C C' : UInt64} {own own' : Option Nat} (ha : Holds C m a own segment)
    (hb : Holds C' m b own' name) : branch m a b = branchOf segment name := by
  have hsegment : a.contents m = segment := by rw [BasicString.contents, ha.length, ha.read_eq]
  have hname : b.contents m = name := by rw [BasicString.contents, hb.length, hb.read_eq]
  rw [branch_eq, hsegment, hname]

end Tree

/-! ## Strings in memory -/

/-- The comparisons are those of a strict total order, and the tree's branch follows it. -/
structure OrdersStrings (m : Memory) : Prop where
  trichotomy : ∀ a b : BasicString,
    (a.lt m b = true ∧ a.eq m b = false ∧ b.lt m a = false)
      ∨ (a.lt m b = false ∧ a.eq m b = true ∧ b.lt m a = false)
      ∨ (a.lt m b = false ∧ a.eq m b = false ∧ b.lt m a = true)
  trans : ∀ a b c : BasicString, a.lt m b = true → b.lt m c = true → a.lt m c = true
  ne_iff : ∀ a b : BasicString, a.ne m b = true ↔ ¬ a.eq m b = true
  gt_iff : ∀ a b : BasicString, a.gt m b = true ↔ b.lt m a = true
  le_iff : ∀ a b : BasicString, a.le m b = true ↔ a.lt m b = true ∨ a.eq m b = true
  ge_iff : ∀ a b : BasicString, a.ge m b = true ↔ a.gt m b = true ∨ a.eq m b = true
  here_iff : ∀ a b : BasicString, branch m a b = .here ↔ a.eq m b = true
  left_iff : ∀ a b : BasicString, branch m a b = .left ↔ a.lt m b = true
  right_iff : ∀ a b : BasicString, branch m a b = .right ↔ a.gt m b = true
  /-- Another representation of the same contents takes the same branch. -/
  branch_congr : ∀ (m' : Memory) (a a' b b' : BasicString), a.contents m = a'.contents m' →
    b.contents m = b'.contents m' → branch m a b = branch m' a' b'
  /-- It is the way that `find_or_create_node` takes, for strings of any two capacities. -/
  descends : ∀ {σ : Type} (P : Platform σ) (next : TreeNode → Prog σ TreeNode) (isLast isDirectory : Bool)
    (left right : TreeNode) (C C' : UInt64) (own own' : Option Nat) (a b : BasicString)
    (segment name : List UInt8), Holds C m a own segment → Holds C' m b own' name →
    descend P segment isLast next (.node name isDirectory left right)
      = descendBranch P segment isLast next name isDirectory left right (branch m a b)

theorem eq_false_iff : a.eq m b = false ↔ key (a.contents m) ≠ key (b.contents m) := by
  rw [← Bool.not_eq_true, BasicString.eq_iff, ← key_inj]

theorem eq_true_iff : a.eq m b = true ↔ key (a.contents m) = key (b.contents m) :=
  BasicString.eq_iff.trans key_inj.symm

theorem lt_true_iff : a.lt m b = true ↔ key (a.contents m) < key (b.contents m) := by
  rw [BasicString.lt_eq, stringLt_iff]

theorem lt_false_iff : a.lt m b = false ↔ ¬ key (a.contents m) < key (b.contents m) := by
  rw [← Bool.not_eq_true, lt_true_iff]

/-- **Exactly one** of `a < b`, `a == b` and `b < a` holds. -/
theorem trichotomy (m : Memory) (a b : BasicString) :
    (a.lt m b = true ∧ a.eq m b = false ∧ b.lt m a = false)
      ∨ (a.lt m b = false ∧ a.eq m b = true ∧ b.lt m a = false)
      ∨ (a.lt m b = false ∧ a.eq m b = false ∧ b.lt m a = true) := by
  simp only [eq_false_iff, eq_true_iff, lt_true_iff, lt_false_iff]
  rcases lt_trichotomy (key (a.contents m)) (key (b.contents m)) with hlt | heq | hgt
  · exact Or.inl ⟨hlt, hlt.ne, lt_asymm hlt⟩
  · exact Or.inr (Or.inl ⟨heq.not_lt, heq, heq.not_gt⟩)
  · exact Or.inr (Or.inr ⟨lt_asymm hgt, hgt.ne', hgt⟩)

/-- The branch is the one of the three comparisons that holds. -/
theorem branch_iff (m : Memory) (a b : BasicString) :
    (branch m a b = .here ↔ a.eq m b = true) ∧ (branch m a b = .left ↔ a.lt m b = true)
      ∧ (branch m a b = .right ↔ b.lt m a = true) := by
  unfold branch
  rcases trichotomy m a b with ⟨hlt, heq, hgt⟩ | ⟨hlt, heq, hgt⟩ | ⟨hlt, heq, hgt⟩
  · simp [hlt, heq, hgt]
  · simp [hlt, heq, hgt]
  · simp [hlt, heq, hgt]

/-- **The comparison of strings is a strict total order** on their contents, of whatever length, bytes and
    capacity. -/
theorem orders_strings (m : Memory) : OrdersStrings m where
  trichotomy := trichotomy m
  trans a b c hab hbc := by
    rw [lt_true_iff] at hab hbc ⊢
    exact lt_trans hab hbc
  ne_iff a b := by
    rw [BasicString.ne, Bool.not_eq_true', Bool.not_eq_true]
  gt_iff a b := Iff.rfl
  le_iff a b := by
    rw [BasicString.le, Bool.not_eq_true', lt_false_iff, lt_true_iff, eq_true_iff, not_lt]
    exact le_iff_lt_or_eq
  ge_iff a b := by
    rw [BasicString.ge, Bool.not_eq_true', lt_false_iff, BasicString.gt, lt_true_iff, eq_true_iff, not_lt,
      eq_comm]
    exact le_iff_lt_or_eq
  here_iff a b := (branch_iff m a b).1
  left_iff a b := (branch_iff m a b).2.1
  right_iff a b := (branch_iff m a b).2.2
  branch_congr m' a a' b b' ha hb := by
    rw [branch_eq, branch_eq, ha, hb]
  descends P next isLast isDirectory left right C C' own own' a b segment name ha hb := by
    rw [descend_node, branch_of_holds ha hb]

end AlopexOS.Strings
