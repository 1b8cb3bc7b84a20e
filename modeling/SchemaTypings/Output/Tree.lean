/-
  SchemaTypings.Output.Tree

  Trees with ordered children.
-/

namespace SchemaTypings

/-- A tree with a value at every node. -/
inductive Tree (α : Type) where
  | node (value : α) (children : List (Tree α))

namespace Tree

variable {α β : Type}

/-- The value at the root. -/
def value : Tree α → α
  | .node value _ => value

/-- The trees below the root. -/
def children : Tree α → List (Tree α)
  | .node _ children => children

/-- The tree with another value at the root. -/
def withValue (t : Tree α) (value : α) : Tree α := .node value t.children

/-- The tree with one more child at the end. -/
def push (t child : Tree α) : Tree α := .node t.value (t.children ++ [child])

mutual
/-- The tree with a function applied to every value. -/
def map (f : α → β) : Tree α → Tree β
  | .node value children => .node (f value) (mapAll f children)

/-- The trees with a function applied to every value. -/
def mapAll (f : α → β) : List (Tree α) → List (Tree β)
  | [] => []
  | t :: rest => t.map f :: mapAll f rest
end

mutual
/-- The tree and all trees below it, parents first. -/
def subtrees : Tree α → List (Tree α)
  | .node value children => .node value children :: subtreesAll children

/-- The trees and all trees below them, parents first. -/
def subtreesAll : List (Tree α) → List (Tree α)
  | [] => []
  | t :: rest => t.subtrees ++ subtreesAll rest
end

mutual
/-- The values, parents first. -/
def toList : Tree α → List α
  | .node value children => value :: toListAll children

/-- The values of the trees, parents first. -/
def toListAll : List (Tree α) → List α
  | [] => []
  | t :: rest => t.toList ++ toListAll rest
end

mutual
/-- The tree with `f` applied to the outermost subtrees whose root satisfies `p`. -/
def update (p : α → Bool) (f : Tree α → Tree α) : Tree α → Tree α
  | .node value children =>
    if p value then f (.node value children) else .node value (updateAll p f children)

/-- The trees with `f` applied to the outermost subtrees whose root satisfies `p`. -/
def updateAll (p : α → Bool) (f : Tree α → Tree α) : List (Tree α) → List (Tree α)
  | [] => []
  | t :: rest => t.update p f :: updateAll p f rest
end

theorem mapAll_eq_map (f : α → β) (ts : List (Tree α)) : mapAll f ts = ts.map (map f) := by
  induction ts with
  | nil => rfl
  | cons t rest ih => rw [mapAll, ih, List.map_cons]

theorem subtreesAll_eq_flatMap (ts : List (Tree α)) : subtreesAll ts = ts.flatMap subtrees := by
  induction ts with
  | nil => rfl
  | cons t rest ih => rw [subtreesAll, ih, List.flatMap_cons]

theorem toListAll_eq_flatMap (ts : List (Tree α)) : toListAll ts = ts.flatMap toList := by
  induction ts with
  | nil => rfl
  | cons t rest ih => rw [toListAll, ih, List.flatMap_cons]

theorem self_mem_subtrees (t : Tree α) : t ∈ t.subtrees := by
  obtain ⟨v, children⟩ := t
  rw [subtrees]
  exact List.mem_cons_self

mutual
/-- The values of the subtrees, parents first, are those of the tree. -/
theorem map_value_subtrees : (t : Tree α) → t.subtrees.map value = t.toList
  | .node v children => by
    rw [subtrees, toList, List.map_cons, map_value_subtreesAll children]
    rfl

/-- The values of the subtrees of several trees. -/
theorem map_value_subtreesAll :
    (ts : List (Tree α)) → (subtreesAll ts).map value = toListAll ts
  | [] => rfl
  | t :: rest => by
    rw [subtreesAll, toListAll, List.map_append, map_value_subtrees t, map_value_subtreesAll rest]
end

mutual
/-- Applying a function applies it to the values in order. -/
theorem toList_map (f : α → β) : (t : Tree α) → (t.map f).toList = t.toList.map f
  | .node v children => by
    rw [map, toList, toList, List.map_cons, toListAll_mapAll f children]

/-- Applying a function to trees applies it to their values in order. -/
theorem toListAll_mapAll (f : α → β) :
    (ts : List (Tree α)) → toListAll (mapAll f ts) = (toListAll ts).map f
  | [] => rfl
  | t :: rest => by
    rw [mapAll, toListAll, toListAll, List.map_append, toList_map f t, toListAll_mapAll f rest]
end

end Tree
end SchemaTypings
