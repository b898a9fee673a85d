import AlopexOS.Abtrfs.Tree
import AlopexOS.Lib.Run

/-!
# `Abtrfs.NameTree` — the node of a path

`find_or_create_node` goes to `left` for a name that sorts before the one of the node, and to `left` for what
is below a directory. A node is found by its name alone, so a search can end at a node that was made for
another directory. The tree is modelled with the path each node was made for; a node is told from the
others by the edges that lead to it, as nodes are never moved.

## Contents
- **`locate`**: the node a search ends at, and that it stays where it is.
- **`OwnedTree`**: trees whose nodes carry the path they were made for.
- **`Clear`**: searches that meet no node of another directory.
- **Runs** of such searches keep one node for each path.
-/

namespace AlopexOS

/-- Where a search goes on. -/
inductive Edge where
  | left
  | right
  deriving DecidableEq

namespace TreeNode

variable {t t' t'' : TreeNode} {segment : List UInt8} {segments s r : List (List UInt8)}

/-! ## The node a search ends at -/

/-- One segment of `locate`. -/
def locateSegment (segment : List UInt8) (isLast : Bool) (next : TreeNode → List Edge) :
    TreeNode → List Edge
  | .null => if isLast then [] else .left :: next .null
  | .node name _ left right =>
      if segment = name then if isLast then [] else .left :: next left
      else if stringLt segment name then .left :: locateSegment segment isLast next left
      else .right :: locateSegment segment isLast next right

/-- The edges to the node that `find_or_create_node` returns. -/
def locate : List (List UInt8) → TreeNode → List Edge
  | [], _ => []
  | segment :: segments, root =>
      locateSegment segment segments.isEmpty (fun left => locate segments left) root

section equations

variable {name : List UInt8} {isDirectory : Bool} {left right : TreeNode}

theorem locate_cons_null :
    locate (segment :: segments) .null = if segments = [] then [] else .left :: locate segments .null := by
  cases segments <;> rfl

theorem locate_cons_node :
    locate (segment :: segments) (.node name isDirectory left right) =
      if segment = name then if segments = [] then [] else .left :: locate segments left
      else if stringLt segment name then .left :: locate (segment :: segments) left
      else .right :: locate (segment :: segments) right := by
  cases segments <;> rfl

theorem has_cons_node :
    has (segment :: segments) (.node name isDirectory left right) =
      if segment = name then decide (segments = []) || has segments left
      else if stringLt segment name then has (segment :: segments) left
      else has (segment :: segments) right := by
  cases segments <;> rfl

theorem insert_cons_null :
    insert (segment :: segments) .null =
      .node segment (decide (segments ≠ [])) (insert segments .null) .null := by
  cases segments <;> rfl

theorem insert_cons_node :
    insert (segment :: segments) (.node name isDirectory left right) =
      if segment = name then .node name isDirectory (insert segments left) right
      else if stringLt segment name then .node name isDirectory (insert (segment :: segments) left) right
      else .node name isDirectory left (insert (segment :: segments) right) := by
  cases segments with
  | nil =>
      show insertSegment segment true _ _ = _
      unfold insertSegment
      split
      · rfl
      · rfl
  | cons => rfl

end equations

/-- **Induction along a search**: below a node it goes on with the same segment, or, at the node that
    carries it, with the next one. -/
theorem search_induction {motive : List (List UInt8) → TreeNode → Prop}
    (nil : ∀ t, motive [] t)
    (null : ∀ segment segments, motive segments .null → motive (segment :: segments) .null)
    (node : ∀ segment segments name isDirectory left right, motive segments left →
      motive (segment :: segments) left → motive (segment :: segments) right →
      motive (segment :: segments) (.node name isDirectory left right))
    (s : List (List UInt8)) (t : TreeNode) : motive s t := by
  induction s generalizing t with
  | nil => exact nil t
  | cons segment segments ih =>
      induction t with
      | null => exact null segment segments (ih .null)
      | node name isDirectory left right ihl ihr =>
          exact node segment segments name isDirectory left right (ih left) ihl ihr

/-- The tree has the nodes of another one, and maybe more below them. -/
inductive Grown : TreeNode → TreeNode → Prop
  | null (t : TreeNode) : Grown .null t
  | node {name : List UInt8} {isDirectory : Bool} {left left' right right' : TreeNode}
      (hl : Grown left left') (hr : Grown right right') :
      Grown (.node name isDirectory left right) (.node name isDirectory left' right')

theorem Grown.refl (t : TreeNode) : Grown t t := by
  induction t with
  | null => exact .null _
  | node _ _ _ _ ihl ihr => exact .node ihl ihr

theorem Grown.trans (h : Grown t t') (h' : Grown t' t'') : Grown t t'' := by
  induction h generalizing t'' with
  | null => exact .null _
  | node _ _ ihl ihr =>
      cases h' with
      | node hl' hr' => exact .node (ihl hl') (ihr hr')

/-- **Nodes stay**: a search adds below the tree. -/
theorem grown_insert (s : List (List UInt8)) (t : TreeNode) : Grown t (t.insert s) := by
  induction s, t using search_induction with
  | nil t => exact .refl t
  | null segment segments _ => exact .null _
  | node segment segments name isDirectory left right ihn ihl ihr =>
      rw [insert_cons_node]
      split
      · exact .node ihn (.refl right)
      · split
        · exact .node ihl (.refl right)
        · exact .node (.refl left) ihr

/-- **A path that is there stays where it is.** -/
theorem Grown.locate_eq (hg : Grown t t') (hh : has s t = true) :
    has s t' = true ∧ locate s t' = locate s t := by
  induction s, t using search_induction generalizing t' with
  | nil t => exact ⟨rfl, rfl⟩
  | null segment segments _ => cases hh
  | node segment segments name isDirectory left right ihn ihl ihr =>
      cases hg with
      | node hl hr =>
          simp only [has_cons_node, locate_cons_node] at hh ⊢
          by_cases he : segment = name
          · simp only [he, if_true] at hh ⊢
            by_cases hnil : segments = []
            · simp only [hnil, if_true, decide_true, Bool.true_or, and_self]
            · simp only [hnil, decide_false, Bool.false_or, if_false] at hh ⊢
              obtain ⟨hh', he'⟩ := ihn hl hh
              exact ⟨hh', congrArg _ he'⟩
          · simp only [he, if_false] at hh ⊢
            by_cases hlt : stringLt segment name = true
            · simp only [hlt, if_true] at hh ⊢
              obtain ⟨hh', he'⟩ := ihl hl hh
              exact ⟨hh', congrArg _ he'⟩
            · simp only [hlt, Bool.false_eq_true, if_false] at hh ⊢
              obtain ⟨hh', he'⟩ := ihr hr hh
              exact ⟨hh', congrArg _ he'⟩

/-- A path that was searched for is there, with all that lead to it, where the search ended. -/
theorem has_insert_leading (h : r <+: s) :
    has r (t.insert s) = true ∧ locate r (t.insert s) = locate r t := by
  induction s, t using search_induction generalizing r with
  | nil t =>
      rw [List.prefix_nil.mp h]
      exact ⟨rfl, rfl⟩
  | null segment segments ih =>
      cases r with
      | nil => exact ⟨rfl, rfl⟩
      | cons x r =>
          obtain ⟨rfl, hr⟩ := List.cons_prefix_cons.mp h
          obtain ⟨hh, he⟩ := ih hr
          simp only [insert_cons_null, has_cons_node, locate_cons_node, locate_cons_null, if_true, hh, he,
            Bool.or_true, and_self]
  | node segment segments name isDirectory left right ihn ihl ihr =>
      cases r with
      | nil => exact ⟨rfl, rfl⟩
      | cons x r =>
          obtain ⟨rfl, hr⟩ := List.cons_prefix_cons.mp h
          by_cases he : x = name
          · obtain ⟨hh, hloc⟩ := ihn hr
            simp only [insert_cons_node, has_cons_node, locate_cons_node, he, if_true, hh, hloc,
              Bool.or_true, and_self]
          · by_cases hlt : stringLt x name = true
            · obtain ⟨hh, hloc⟩ := ihl h
              simp only [insert_cons_node, has_cons_node, locate_cons_node, he, hlt, if_true, if_false, hh,
                hloc, and_self]
            · obtain ⟨hh, hloc⟩ := ihr h
              simp only [insert_cons_node, has_cons_node, locate_cons_node, he, hlt, Bool.false_eq_true, if_false,
                hh, hloc, and_self]

/-- Where a path is, its directories are. -/
theorem has_leading (h : r <+: s) (hs : has s t = true) : has r t = true := by
  rw [← (insert_eq_iff s t).mpr hs]
  exact (has_insert_leading h).1

end TreeNode

/-! ## Trees that know their paths -/

/-- A `TreeNode*` whose nodes carry the path they were made for. -/
inductive OwnedTree where
  | null
  | node (path : List (List UInt8)) (isDirectory : Bool) (left right : OwnedTree)

namespace OwnedTree

variable {t t' : OwnedTree} {segment : List UInt8} {segments s r dir path : List (List UInt8)}
  {p : List Edge} {d : Bool}

/-- The tree as it is in memory: a node has the last segment of its path as its name. -/
def erase : OwnedTree → TreeNode
  | .null => .null
  | .node path isDirectory left right =>
      .node (path.getLastD []) isDirectory left.erase right.erase

/-- One segment of `insert`, in the directory `dir`. -/
def insertSegment (dir : List (List UInt8)) (segment : List UInt8) (isLast : Bool)
    (next : OwnedTree → OwnedTree) : OwnedTree → OwnedTree
  | .null =>
      if isLast then .node (dir ++ [segment]) false .null .null
      else .node (dir ++ [segment]) true (next .null) .null
  | .node path isDirectory left right =>
      if segment = path.getLastD [] then
        if isLast then .node path isDirectory left right else .node path isDirectory (next left) right
      else if stringLt segment (path.getLastD []) then
        .node path isDirectory (insertSegment dir segment isLast next left) right
      else .node path isDirectory left (insertSegment dir segment isLast next right)

/-- `TreeNode.insert`, from the directory `dir` on. -/
def insert (dir : List (List UInt8)) : List (List UInt8) → OwnedTree → OwnedTree
  | [], root => root
  | segment :: segments, root =>
      insertSegment dir segment segments.isEmpty (fun left => insert (dir ++ [segment]) segments left) root

/-- The path and the flag of the node that the edges lead to. -/
def nodeAt : OwnedTree → List Edge → Option (List (List UInt8) × Bool)
  | .null, _ => none
  | .node path isDirectory _ _, [] => some (path, isDirectory)
  | .node _ _ left _, .left :: p => left.nodeAt p
  | .node _ _ _ right, .right :: p => right.nodeAt p

/-- One segment of `Clear`. -/
def clearSegment (dir : List (List UInt8)) (segment : List UInt8) (isLast : Bool)
    (next : OwnedTree → Prop) : OwnedTree → Prop
  | .null => True
  | .node path isDirectory left right =>
      if segment = path.getLastD [] then
        path = dir ++ [segment] ∧ (isLast = true ∨ isDirectory = true ∧ next left)
      else if stringLt segment (path.getLastD []) then clearSegment dir segment isLast next left
      else clearSegment dir segment isLast next right

/-- A node on the way that has the name searched for was made for that name in the same directory, and, if
    the search goes on below it, as a directory. -/
def Clear (dir : List (List UInt8)) : List (List UInt8) → OwnedTree → Prop
  | [], _ => True
  | segment :: segments, root =>
      clearSegment dir segment segments.isEmpty (fun left => Clear (dir ++ [segment]) segments left) root

section equations

variable {isDirectory : Bool} {left right : OwnedTree}

theorem insert_cons_null :
    insert dir (segment :: segments) .null =
      .node (dir ++ [segment]) (decide (segments ≠ [])) (insert (dir ++ [segment]) segments .null) .null := by
  cases segments <;> rfl

theorem insert_cons_node :
    insert dir (segment :: segments) (.node path isDirectory left right) =
      if segment = path.getLastD [] then
        .node path isDirectory (insert (dir ++ [segment]) segments left) right
      else if stringLt segment (path.getLastD []) then
        .node path isDirectory (insert dir (segment :: segments) left) right
      else .node path isDirectory left (insert dir (segment :: segments) right) := by
  cases segments with
  | nil =>
      show insertSegment dir segment true _ _ = _
      unfold insertSegment
      split
      · rfl
      · rfl
  | cons => rfl

theorem clear_cons_node :
    Clear dir (segment :: segments) (.node path isDirectory left right) =
      if segment = path.getLastD [] then
        path = dir ++ [segment] ∧ (segments = [] ∨ isDirectory = true ∧ Clear (dir ++ [segment]) segments left)
      else if stringLt segment (path.getLastD []) then Clear dir (segment :: segments) left
      else Clear dir (segment :: segments) right := by
  cases segments with
  | nil =>
      show clearSegment dir segment true _ _ = _
      unfold clearSegment
      simp only [true_or]
      rfl
  | cons =>
      show clearSegment dir segment false _ _ = _
      unfold clearSegment
      simp only [Bool.false_eq_true, reduceCtorEq]
      rfl

end equations

theorem search_induction {motive : List (List UInt8) → List (List UInt8) → OwnedTree → Prop}
    (nil : ∀ dir t, motive dir [] t)
    (null : ∀ dir segment segments, motive (dir ++ [segment]) segments .null →
      motive dir (segment :: segments) .null)
    (node : ∀ dir segment segments path isDirectory left right, motive (dir ++ [segment]) segments left →
      motive dir (segment :: segments) left → motive dir (segment :: segments) right →
      motive dir (segment :: segments) (.node path isDirectory left right))
    (dir s : List (List UInt8)) (t : OwnedTree) : motive dir s t := by
  induction s generalizing dir t with
  | nil => exact nil dir t
  | cons segment segments ih =>
      induction t with
      | null => exact null dir segment segments (ih _ .null)
      | node path isDirectory left right ihl ihr =>
          exact node dir segment segments path isDirectory left right (ih _ left) ihl ihr

/-- **In memory it is `TreeNode.insert`.** -/
theorem erase_insert (dir s : List (List UInt8)) (t : OwnedTree) :
    (t.insert dir s).erase = t.erase.insert s := by
  induction dir, s, t using search_induction with
  | nil dir t => rfl
  | null dir segment segments ih =>
      simp only [insert_cons_null, erase, TreeNode.insert_cons_null, ih, List.getLastD_concat]
  | node dir segment segments path isDirectory left right ihn ihl ihr =>
      simp only [insert_cons_node, erase, TreeNode.insert_cons_node]
      split
      · simp only [erase, ihn]
      · split
        · simp only [erase, ihl]
        · simp only [erase, ihr]

/-- **Nodes keep** their path and their flag. -/
theorem nodeAt_insert (dir s : List (List UInt8)) {x : List (List UInt8) × Bool}
    (h : t.nodeAt p = some x) : (t.insert dir s).nodeAt p = some x := by
  induction dir, s, t using search_induction generalizing p with
  | nil dir t => exact h
  | null dir segment segments _ => cases h
  | node dir segment segments path isDirectory left right ihn ihl ihr =>
      rw [insert_cons_node]
      match p with
      | [] =>
          split
          · exact h
          · split <;> exact h
      | .left :: p =>
          split
          · exact ihn h
          · split
            · exact ihl h
            · exact h
      | .right :: p =>
          split
          · exact h
          · split
            · exact h
            · exact ihr h

/-- **A new node** is for the path searched for or a directory on it, at the place where that is found. -/
theorem nodeAt_insert_cases (h : (t.insert dir s).nodeAt p = some (path, d)) :
    t.nodeAt p = some (path, d)
    ∨ ∃ r, r ≠ [] ∧ r <+: s ∧ path = dir ++ r ∧ d = decide (r ≠ s) ∧ p = t.erase.locate r
      ∧ t.erase.has r = false := by
  induction dir, s, t using search_induction generalizing p with
  | nil dir t => exact Or.inl h
  | null dir segment segments ih =>
      rw [insert_cons_null] at h
      right
      match p with
      | [] =>
          obtain ⟨rfl, rfl⟩ := Prod.mk.inj (Option.some.inj h)
          refine ⟨[segment], by simp, ⟨segments, rfl⟩, rfl, ?_, rfl, rfl⟩
          simp [eq_comm]
      | .left :: p =>
          rcases ih h with h | ⟨r, hr, hpre, rfl, rfl, rfl, hhas⟩
          · cases h
          · refine ⟨segment :: r, by simp, List.cons_prefix_cons.mpr ⟨rfl, hpre⟩, by simp, by simp, ?_, rfl⟩
            rw [show (OwnedTree.null).erase = TreeNode.null from rfl, TreeNode.locate_cons_null, if_neg hr]
      | .right :: p => cases h
  | node dir segment segments name isDirectory left right ihn ihl ihr =>
      rw [insert_cons_node] at h
      by_cases he : segment = name.getLastD []
      · rw [if_pos he] at h
        match p with
        | [] => exact Or.inl h
        | .left :: p =>
            rcases ihn h with h | ⟨r, hr, hpre, rfl, rfl, rfl, hhas⟩
            · exact Or.inl h
            · refine Or.inr ⟨segment :: r, by simp, List.cons_prefix_cons.mpr ⟨rfl, hpre⟩, by simp, by simp,
                ?_, ?_⟩
              · rw [erase, TreeNode.locate_cons_node, if_pos he, if_neg hr]
              · rw [erase, TreeNode.has_cons_node, if_pos he, hhas]
                simp [hr]
        | .right :: p => exact Or.inl h
      · rw [if_neg he] at h
        by_cases hlt : stringLt segment (name.getLastD []) = true
        · rw [if_pos hlt] at h
          match p with
          | [] => exact Or.inl h
          | .left :: p =>
              rcases ihl h with h | ⟨r, hr, hpre, rfl, rfl, rfl, hhas⟩
              · exact Or.inl h
              · obtain ⟨x, r, rfl⟩ := List.exists_cons_of_ne_nil hr
                obtain ⟨rfl, -⟩ := List.cons_prefix_cons.mp hpre
                refine Or.inr ⟨x :: r, hr, hpre, rfl, rfl, ?_, ?_⟩
                · rw [erase, TreeNode.locate_cons_node, if_neg he, if_pos hlt]
                · rw [erase, TreeNode.has_cons_node, if_neg he, if_pos hlt, hhas]
          | .right :: p => exact Or.inl h
        · rw [if_neg hlt] at h
          match p with
          | [] => exact Or.inl h
          | .left :: p => exact Or.inl h
          | .right :: p =>
              rcases ihr h with h | ⟨r, hr, hpre, rfl, rfl, rfl, hhas⟩
              · exact Or.inl h
              · obtain ⟨x, r, rfl⟩ := List.exists_cons_of_ne_nil hr
                obtain ⟨rfl, -⟩ := List.cons_prefix_cons.mp hpre
                refine Or.inr ⟨x :: r, hr, hpre, rfl, rfl, ?_, ?_⟩
                · rw [erase, TreeNode.locate_cons_node, if_neg he, if_neg hlt]
                · rw [erase, TreeNode.has_cons_node, if_neg he, if_neg hlt, hhas]

theorem clear_null : Clear dir s .null := by
  cases s with
  | nil => trivial
  | cons => trivial

/-- **A clear search** ends at a node made for the path searched for. -/
theorem Clear.nodeAt (hc : Clear dir s t) (hs : s ≠ []) :
    ∃ d, (t.insert dir s).nodeAt (t.erase.locate s) = some (dir ++ s, d) := by
  induction dir, s, t using search_induction with
  | nil dir t => exact absurd rfl hs
  | null dir segment segments ih =>
      rw [insert_cons_null, erase, TreeNode.locate_cons_null]
      by_cases hnil : segments = []
      · subst hnil
        exact ⟨_, rfl⟩
      · rw [if_neg hnil]
        obtain ⟨d, hd⟩ := ih clear_null hnil
        rw [List.append_assoc] at hd
        exact ⟨d, hd⟩
  | node dir segment segments name isDirectory left right ihn ihl ihr =>
      rw [clear_cons_node] at hc
      rw [insert_cons_node, erase, TreeNode.locate_cons_node]
      by_cases he : segment = name.getLastD []
      · rw [if_pos he] at hc
        rw [if_pos he, if_pos he]
        obtain ⟨rfl, hc⟩ := hc
        by_cases hnil : segments = []
        · subst hnil
          exact ⟨_, rfl⟩
        · rw [if_neg hnil]
          obtain ⟨d, hd⟩ := ihn (hc.resolve_left hnil).2 hnil
          rw [List.append_assoc] at hd
          exact ⟨d, hd⟩
      · rw [if_neg he] at hc
        rw [if_neg he, if_neg he]
        by_cases hlt : stringLt segment (name.getLastD []) = true
        · rw [if_pos hlt] at hc
          rw [if_pos hlt, if_pos hlt]
          exact ihl hc hs
        · rw [if_neg hlt] at hc
          rw [if_neg hlt, if_neg hlt]
          exact ihr hc hs

/-- **A clear search** goes on below directories. -/
theorem Clear.isDirectory (hc : Clear dir s t) (hr : r ≠ []) (hpre : r <+: s) (hne : r ≠ s)
    (hhas : t.erase.has r = true) (hnode : t.nodeAt (t.erase.locate r) = some (path, d)) : d = true := by
  induction dir, s, t using search_induction generalizing r with
  | nil dir t => exact absurd (List.prefix_nil.mp hpre) hr
  | null dir segment segments ih => cases hnode
  | node dir segment segments name isDirectory left right ihn ihl ihr =>
      obtain ⟨x, r, rfl⟩ := List.exists_cons_of_ne_nil hr
      obtain ⟨rfl, hpre'⟩ := List.cons_prefix_cons.mp hpre
      rw [clear_cons_node] at hc
      rw [erase, TreeNode.has_cons_node] at hhas
      rw [erase, TreeNode.locate_cons_node] at hnode
      by_cases he : x = name.getLastD []
      · rw [if_pos he] at hc hhas hnode
        have hne' : r ≠ segments := fun h => hne (by rw [h])
        have hnil : segments ≠ [] := by
          rintro rfl
          exact hne' (List.prefix_nil.mp hpre')
        obtain ⟨hdir, hc⟩ := hc.2.resolve_left hnil
        by_cases hrnil : r = []
        · rw [if_pos hrnil] at hnode
          rw [← (Prod.mk.inj (Option.some.inj hnode)).2]
          exact hdir
        · rw [if_neg hrnil] at hnode
          exact ihn hc hrnil hpre' hne' (by simpa [hrnil] using hhas) hnode
      · rw [if_neg he] at hc hhas hnode
        by_cases hlt : stringLt x (name.getLastD []) = true
        · rw [if_pos hlt] at hc hhas hnode
          exact ihl hc hr hpre hne hhas hnode
        · rw [if_neg hlt] at hc hhas hnode
          exact ihr hc hr hpre hne hhas hnode

/-- **A search that is not clear** meets a node that was made for another path, or goes on below one that is
    no directory. -/
theorem exists_of_not_clear (hc : ¬ Clear dir s t) :
    ∃ r, r ≠ [] ∧ r <+: s ∧ t.erase.has r = true ∧ ∃ path d,
      t.nodeAt (t.erase.locate r) = some (path, d) ∧ (path ≠ dir ++ r ∨ r ≠ s ∧ d = false) := by
  induction dir, s, t using search_induction with
  | nil dir t => exact absurd trivial hc
  | null dir segment segments _ => exact absurd clear_null hc
  | node dir segment segments name isDirectory left right ihn ihl ihr =>
      rw [clear_cons_node] at hc
      by_cases he : segment = name.getLastD []
      · rw [if_pos he] at hc
        have hpre : [segment] <+: segment :: segments := ⟨segments, rfl⟩
        have hhas : (node name isDirectory left right).erase.has [segment] = true := by
          rw [erase, TreeNode.has_cons_node, if_pos he]
          rfl
        have hnode : (node name isDirectory left right).nodeAt
            ((node name isDirectory left right).erase.locate [segment]) = some (name, isDirectory) := by
          rw [erase, TreeNode.locate_cons_node, if_pos he, if_pos rfl]
          rfl
        -- the node was made for another path, or it is no directory, or the search fails below it
        by_cases hname : name = dir ++ [segment]
        · obtain ⟨hnil, hbelow⟩ := not_or.mp fun h => hc ⟨hname, h⟩
          by_cases hdir : isDirectory = true
          · obtain ⟨r, hr, hpre', hhas', path, d, hnode', hbad⟩ := ihn fun h => hbelow ⟨hdir, h⟩
            refine ⟨segment :: r, by simp, List.cons_prefix_cons.mpr ⟨rfl, hpre'⟩, ?_, path, d, ?_, ?_⟩
            · rw [erase, TreeNode.has_cons_node, if_pos he, hhas', Bool.or_true]
            · rw [erase, TreeNode.locate_cons_node, if_pos he, if_neg hr]
              exact hnode'
            · rw [List.append_assoc] at hbad
              exact hbad.imp id fun h => ⟨fun hs => h.1 (List.cons.inj hs).2, h.2⟩
          · refine ⟨[segment], by simp, hpre, hhas, name, isDirectory, hnode, Or.inr ⟨?_, by simpa using hdir⟩⟩
            intro hs
            exact hnil (List.cons.inj hs).2.symm
        · exact ⟨[segment], by simp, hpre, hhas, name, isDirectory, hnode, Or.inl hname⟩
      · rw [if_neg he] at hc
        by_cases hlt : stringLt segment (name.getLastD []) = true
        · rw [if_pos hlt] at hc
          obtain ⟨r, hr, hpre, hhas, hnode⟩ := ihl hc
          obtain ⟨x, r, rfl⟩ := List.exists_cons_of_ne_nil hr
          obtain ⟨rfl, -⟩ := List.cons_prefix_cons.mp hpre
          refine ⟨x :: r, hr, hpre, ?_, ?_⟩
          · rw [erase, TreeNode.has_cons_node, if_neg he, if_pos hlt, hhas]
          · rw [erase, TreeNode.locate_cons_node, if_neg he, if_pos hlt]
            exact hnode
        · rw [if_neg hlt] at hc
          obtain ⟨r, hr, hpre, hhas, hnode⟩ := ihr hc
          obtain ⟨x, r, rfl⟩ := List.exists_cons_of_ne_nil hr
          obtain ⟨rfl, -⟩ := List.cons_prefix_cons.mp hpre
          refine ⟨x :: r, hr, hpre, ?_, ?_⟩
          · rw [erase, TreeNode.has_cons_node, if_neg he, if_neg hlt, hhas]
          · rw [erase, TreeNode.locate_cons_node, if_neg he, if_neg hlt]
            exact hnode

/-! ## Runs -/

/-- A call of `find_or_create_node` on the root, for a path that is not empty: the segments and the edges to
    the node it returns. -/
def Finds (t : OwnedTree) (call : List (List UInt8) × List Edge) (t' : OwnedTree) : Prop :=
  call.1 ≠ [] ∧ call.2 = t.erase.locate call.1 ∧ t' = t.insert [] call.1

/-- A call whose search is clear. -/
def FindsClear (t : OwnedTree) (call : List (List UInt8) × List Edge) (t' : OwnedTree) : Prop :=
  t.Finds call t' ∧ t.Clear [] call.1

/-- One node for each path. -/
structure OneNodePerPath (calls : List (List (List UInt8) × List Edge)) (t : OwnedTree) : Prop where
  same_iff : ∀ c ∈ calls, ∀ c' ∈ calls, c.2 = c'.2 ↔ c.1 = c'.1
  /-- A repeated call adds no node. -/
  adds_none : ∀ c ∈ calls, t.erase.insert c.1 = t.erase
  /-- The nodes returned are in the tree. -/
  returned : ∀ c ∈ calls, ∃ d, t.nodeAt c.2 = some (c.1, d)
  /-- A node is flagged as a directory if its path leads on to a path that was searched for. -/
  directory_iff : ∀ p path d, t.nodeAt p = some (path, d) →
    (d = true ↔ ∃ c ∈ calls, path <+: c.1 ∧ path ≠ c.1)

/-- What clear searches leave behind. -/
structure Settled (calls : List (List (List UInt8) × List Edge)) (t : OwnedTree) : Prop where
  has : ∀ c ∈ calls, t.erase.has c.1 = true
  locate : ∀ c ∈ calls, t.erase.locate c.1 = c.2
  returned : ∀ c ∈ calls, ∃ d, t.nodeAt c.2 = some (c.1, d)
  /-- A search for the path of a node ends at the node. -/
  found : ∀ p path d, t.nodeAt p = some (path, d) →
    path ≠ [] ∧ t.erase.has path = true ∧ t.erase.locate path = p
  directory_iff : ∀ p path d, t.nodeAt p = some (path, d) →
    (d = true ↔ ∃ c ∈ calls, path <+: c.1 ∧ path ≠ c.1)

variable {calls : List (List (List UInt8) × List Edge)} {c : List (List UInt8) × List Edge}

/-- **A clear search keeps what was settled.** -/
theorem Settled.step (hs : t.Settled calls) (hc : t.FindsClear c t') : t'.Settled (calls ++ [c]) := by
  obtain ⟨s, q⟩ := c
  obtain ⟨⟨hne, hq, rfl⟩, hclear⟩ := hc
  dsimp only at hne hq hclear ⊢
  have herase : (t.insert [] s).erase = t.erase.insert s := erase_insert [] s t
  have hgrown : t.erase.Grown (t.insert [] s).erase := by
    rw [herase]
    exact TreeNode.grown_insert s t.erase
  have hnew : ∀ r, r <+: s →
      (t.insert [] s).erase.has r = true ∧ (t.insert [] s).erase.locate r = t.erase.locate r := by
    intro r hr
    rw [herase]
    exact TreeNode.has_insert_leading hr
  constructor
  · refine List.forall_mem_append.mpr ⟨?_, List.forall_mem_singleton.mpr (hnew s List.prefix_rfl).1⟩
    exact fun c hc => (hgrown.locate_eq (hs.has c hc)).1
  · refine List.forall_mem_append.mpr ⟨?_, List.forall_mem_singleton.mpr ?_⟩
    · exact fun c hc => ((hgrown.locate_eq (hs.has c hc)).2).trans (hs.locate c hc)
    · exact (hnew s List.prefix_rfl).2.trans hq.symm
  · refine List.forall_mem_append.mpr ⟨?_, List.forall_mem_singleton.mpr ?_⟩
    · intro c hc
      obtain ⟨d, hd⟩ := hs.returned c hc
      exact ⟨d, nodeAt_insert [] s hd⟩
    · rw [hq]
      exact hclear.nodeAt hne
  · intro p path d hnode
    rcases nodeAt_insert_cases hnode with hold | ⟨r, hr, hpre, rfl, _, rfl, _⟩
    · obtain ⟨hpath, hhas, hloc⟩ := hs.found p path d hold
      obtain ⟨hhas', hloc'⟩ := hgrown.locate_eq hhas
      exact ⟨hpath, hhas', hloc'.trans hloc⟩
    · exact ⟨hr, hnew path hpre⟩
  · intro p path d hnode
    rcases nodeAt_insert_cases hnode with hold | ⟨r, hr, hpre, rfl, rfl, rfl, hnot⟩
    · -- an old node: its flag was right, and no later search may go on below a file
      obtain ⟨hpath, hhas, hloc⟩ := hs.found p path d hold
      constructor
      · intro hd
        obtain ⟨c, hc, hlead⟩ := (hs.directory_iff p path d hold).mp hd
        exact ⟨c, List.mem_append_left _ hc, hlead⟩
      · rintro ⟨c, hc, hlead, hlonger⟩
        rcases List.mem_append.mp hc with hc | hc
        · exact (hs.directory_iff p path d hold).mpr ⟨c, hc, hlead, hlonger⟩
        · obtain rfl := List.mem_singleton.mp hc
          rw [← hloc] at hold
          exact hclear.isDirectory hpath hlead hlonger hhas hold
    · rw [decide_eq_true_iff]
      constructor
      · exact fun hlonger => ⟨(s, q), by simp, hpre, hlonger⟩
      · rintro ⟨c, hc, hlead, hlonger⟩
        rcases List.mem_append.mp hc with hc | hc
        · -- a path that was searched for is there with its directories, so this node is not new
          rw [TreeNode.has_leading hlead (hs.has c hc)] at hnot
          cases hnot
        · obtain rfl := List.mem_singleton.mp hc
          exact hlonger

theorem settled_null : Settled [] .null := by
  have hnone : ∀ (p : List Edge) (path : List (List UInt8)) (d : Bool), nodeAt .null p ≠ some (path, d) :=
    fun _ _ _ hnode => by cases hnode
  exact ⟨by simp, by simp, by simp, fun p path d hnode => absurd hnode (hnone p path d),
    fun p path d hnode => absurd hnode (hnone p path d)⟩

theorem Settled.oneNodePerPath (hs : t.Settled calls) : t.OneNodePerPath calls := by
  constructor
  · intro c hc c' hc'
    constructor
    · intro he
      obtain ⟨d, hd⟩ := hs.returned c hc
      obtain ⟨d', hd'⟩ := hs.returned c' hc'
      rw [he, hd'] at hd
      exact (Prod.mk.inj (Option.some.inj hd)).1.symm
    · intro he
      rw [← hs.locate c hc, ← hs.locate c' hc', he]
  · exact fun c hc => (TreeNode.insert_eq_iff c.1 t.erase).mpr (hs.has c hc)
  · exact hs.returned
  · exact hs.directory_iff

/-- **A search that is not clear** gives one node two paths, or leaves a directory without its flag. -/
theorem Settled.broken (hs : t.Settled calls) (hc : t.Finds c t') (hnot : ¬ t.Clear [] c.1) :
    ∃ more t'', Run Finds t' more t'' ∧ ¬ t''.OneNodePerPath (calls ++ [c] ++ more) := by
  obtain ⟨s, q⟩ := c
  obtain ⟨hne, hq, rfl⟩ := hc
  dsimp only at hne hq hnot ⊢
  obtain ⟨r, hr, hpre, hhas, path, d, hnode, hbad⟩ := exists_of_not_clear hnot
  rw [List.nil_append] at hbad
  by_cases hpath : path = r
  · -- the node is the one of `r`, and not flagged
    subst hpath
    obtain ⟨hlonger, rfl⟩ := hbad.resolve_left fun h => h rfl
    refine ⟨[], _, .start, fun hone => ?_⟩
    have hflag := (hone.directory_iff _ _ _ (nodeAt_insert [] s hnode)).mpr ⟨(s, q), by simp, hpre, hlonger⟩
    cases hflag
  · -- searches for `r` and for the path the node was made for both end there
    obtain ⟨hpathne, hhas', hloc⟩ := hs.found _ _ _ hnode
    have hgrown : t.erase.Grown (t.insert [] s).erase := by
      rw [erase_insert]
      exact TreeNode.grown_insert s t.erase
    have hrun : Run Finds (t.insert [] s)
        [(r, t.erase.locate r), (path, t.erase.locate r)] (((t.insert [] s).insert [] r).insert [] path) := by
      have hfirst : (t.insert [] s).Finds (r, t.erase.locate r) ((t.insert [] s).insert [] r) :=
        ⟨hr, (hgrown.locate_eq hhas).2.symm, rfl⟩
      have hgrown' : (t.insert [] s).erase.Grown ((t.insert [] s).insert [] r).erase := by
        rw [erase_insert [] r]
        exact TreeNode.grown_insert r _
      refine (Run.single hfirst).step ⟨hpathne, ?_, rfl⟩
      exact (((hgrown.trans hgrown').locate_eq hhas').2.trans hloc).symm
    refine ⟨_, _, hrun, fun hone => hpath ?_⟩
    exact ((hone.same_iff (path, t.erase.locate r) (by simp) (r, t.erase.locate r) (by simp)).mp rfl)

/-- **One node for each path**, as long as every search is clear; the first one that is not breaks it, at
    once or two calls later. -/
theorem oneNodePerPath_of_run (hrun : Run FindsClear .null calls t) :
    t.OneNodePerPath calls
    ∧ ∀ c t', t.Finds c t' → ¬ t.Clear [] c.1 →
        ∃ more t'', Run Finds t' more t'' ∧ ¬ t''.OneNodePerPath (calls ++ [c] ++ more) := by
  have hs : t.Settled calls :=
    hrun.history (H := fun calls t => t.Settled calls) (fun _ _ _ _ hc hs => hs.step hc) settled_null
  exact ⟨hs.oneNodePerPath, fun c t' hc hnot => hs.broken hc hnot⟩

theorem oneNodePerPath_side_by_side : ∃ t : OwnedTree,
    t.OneNodePerPath [([[0x62], [0x78]], [.left]), ([[0x63]], [.right])] := by
  have hfirst : FindsClear .null ([[0x62], [0x78]], [.left]) (insert [] [[0x62], [0x78]] .null) :=
    ⟨⟨by simp, rfl, rfl⟩, clear_null⟩
  have hclear : Clear [] [[0x63]] (insert [] [[0x62], [0x78]] .null) := by
    rw [insert_cons_null, clear_cons_node, if_neg (by decide), if_neg (by decide)]
    exact clear_null
  have hsecond : FindsClear (insert [] [[0x62], [0x78]] .null) ([[0x63]], [.right]) _ :=
    ⟨⟨by simp, by decide, rfl⟩, hclear⟩
  exact ⟨_, (oneNodePerPath_of_run ((Run.single hfirst).step hsecond)).1⟩

/-- **`A` and `a/A` have the same node.** -/
theorem not_oneNodePerPath :
    ¬ ∀ (calls : List (List (List UInt8) × List Edge)) (t : OwnedTree), Run Finds .null calls t →
      (∀ c ∈ calls, ∀ segment ∈ c.1, segment ≠ []) → t.OneNodePerPath calls := by
  intro hall
  have hfirst : Finds .null ([[0x61], [0x41]], [.left]) (insert [] [[0x61], [0x41]] .null) :=
    ⟨by simp, rfl, rfl⟩
  have hsecond : Finds (insert [] [[0x61], [0x41]] .null) ([[0x41]], [.left]) _ :=
    ⟨by simp, by decide, rfl⟩
  have hone := hall _ _ ((Run.single hfirst).step hsecond) (by simp)
  have hsame := (hone.same_iff ([[0x61], [0x41]], [.left]) (by simp) ([[0x41]], [.left]) (by simp)).mp rfl
  exact absurd hsame (by decide)

end OwnedTree

end AlopexOS
