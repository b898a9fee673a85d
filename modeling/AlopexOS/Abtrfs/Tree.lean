import AlopexOS.Abtrfs.Device

/-!
# `Abtrfs.Tree` — the tree of names in memory

`findOrCreateNode` as a function on trees: `TreeNode.insert` is the tree afterwards, and
`TreeNode.has` says when it is the tree from before.
-/

namespace AlopexOS

open Prog

namespace TreeNode

/-- One segment of `insert`; `next` goes on below the node that carries it. -/
def insertSegment (segment : List UInt8) (isLast : Bool) (next : TreeNode → TreeNode) :
    TreeNode → TreeNode
  | .null =>
      if isLast then .node segment false .null .null else .node segment true (next .null) .null
  | .node name isDirectory left right =>
      if segment = name then
        if isLast then .node name isDirectory left right else .node name isDirectory (next left) right
      else if stringLt segment name then
        .node name isDirectory (insertSegment segment isLast next left) right
      else .node name isDirectory left (insertSegment segment isLast next right)

/-- The tree with a node for the path, and for every directory on it. -/
def insert : List (List UInt8) → TreeNode → TreeNode
  | [], root => root
  | segment :: segments, root =>
      insertSegment segment segments.isEmpty (fun left => insert segments left) root

/-- One segment of `has`. -/
def hasSegment (segment : List UInt8) (isLast : Bool) (next : TreeNode → Bool) : TreeNode → Bool
  | .null => false
  | .node name _ left right =>
      if segment = name then isLast || next left
      else if stringLt segment name then hasSegment segment isLast next left
      else hasSegment segment isLast next right

/-- The tree has a node for the path, where the search looks for it. -/
def has : List (List UInt8) → TreeNode → Bool
  | [], _ => true
  | segment :: segments, root =>
      hasSegment segment segments.isEmpty (fun left => has segments left) root

theorem insertSegment_eq_iff {segment : List UInt8} {isLast : Bool} {next : TreeNode → TreeNode}
    {nextHas : TreeNode → Bool} (hnext : ∀ t, next t = t ↔ nextHas t = true) (t : TreeNode) :
    insertSegment segment isLast next t = t ↔ hasSegment segment isLast nextHas t = true := by
  induction t with
  | null => cases isLast <;> simp [insertSegment, hasSegment]
  | node name isDirectory left right ihl ihr =>
      simp only [insertSegment, hasSegment]
      by_cases he : segment = name
      · simp only [he, if_true]
        cases isLast <;> simp [hnext]
      · by_cases hlt : stringLt segment name = true
        · simp [he, hlt, ihl]
        · simp [he, hlt, ihr]

/-- **A tree that has the path already stays as it is**, and no other does. -/
theorem insert_eq_iff (segments : List (List UInt8)) (t : TreeNode) :
    insert segments t = t ↔ has segments t = true := by
  induction segments generalizing t with
  | nil => simp [insert, has]
  | cons segment segments ih => exact insertSegment_eq_iff ih t

end TreeNode

variable {c : Conditions}

theorem runs_descend {segment : List UInt8} {isLast : Bool} {next : TreeNode → Prog Machine TreeNode}
    {next' : TreeNode → TreeNode}
    (hnext : ∀ t m, Runs c.Generous (next t) m
      (fun t' m' => Still m m' ∧ t' = next' t)) (t : TreeNode) (m : Machine) :
    Runs c.Generous (descend (honest c) segment isLast next t) m
      (fun t' m' => Still m m' ∧ t' = t.insertSegment segment isLast next') := by
  induction t generalizing m with
  | null =>
      refine (runs_operatorNew treeNodeSize m).bind ?_
      rintro _ m₁ hs
      cases isLast with
      | true => exact Runs.pure ⟨hs, rfl⟩
      | false =>
          -- what is below a new directory hangs off its `left`
          refine (hnext .null m₁).bind ?_
          rintro left m₂ ⟨hs', rfl⟩
          exact Runs.pure ⟨hs.trans hs', rfl⟩
  | node name isDirectory left right ihl ihr =>
      simp only [descend, TreeNode.insertSegment]
      by_cases he : segment = name
      · simp only [he, if_true]
        cases isLast with
        | true => exact Runs.pure ⟨Still.refl m, rfl⟩
        | false =>
            refine (hnext left m).bind ?_
            rintro left' m₁ ⟨hs, rfl⟩
            exact Runs.pure ⟨hs, rfl⟩
      · by_cases hlt : stringLt segment name = true
        · simp only [he, hlt, if_false, if_true]
          refine (ihl m).bind ?_
          rintro left' m₁ ⟨hs, rfl⟩
          exact Runs.pure ⟨hs, rfl⟩
        · simp only [he, hlt, if_false, Bool.false_eq_true]
          refine (ihr m).bind ?_
          rintro right' m₁ ⟨hs, rfl⟩
          exact Runs.pure ⟨hs, rfl⟩

/-- **`findOrCreateNode` computes `insert`.** -/
theorem runs_findOrCreateNode (segments : List (List UInt8)) (t : TreeNode) (m : Machine) :
    Runs c.Generous (findOrCreateNode (honest c) segments t) m
      (fun t' m' => Still m m' ∧ t' = t.insert segments) := by
  induction segments generalizing t m with
  | nil => exact Runs.pure ⟨Still.refl m, rfl⟩
  | cons segment segments ih => exact runs_descend ih t m

end AlopexOS
