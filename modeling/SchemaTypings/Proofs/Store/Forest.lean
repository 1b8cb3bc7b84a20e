/-
  SchemaTypings.Proofs.Store.Forest

  Subtrees of trees and of rows of trees, and what an update at a node does to them: a subtree of
  the updated tree is an old one with the update inside it, or lies in what the update put in.
-/
import SchemaTypings.Output.Tree
import Mathlib.Data.List.Perm.Basic

namespace SchemaTypings.Tree

variable {α β : Type}

/-! ## Subtrees -/

theorem mem_subtrees_node {value : α} {children : List (Tree α)} {u : Tree α} :
    u ∈ (node value children).subtrees ↔ u = node value children ∨ u ∈ subtreesAll children := by
  rw [subtrees, List.mem_cons]

theorem mem_subtrees_iff {t u : Tree α} : u ∈ t.subtrees ↔ u = t ∨ u ∈ subtreesAll t.children := by
  cases t
  exact mem_subtrees_node

theorem mem_subtreesAll {ts : List (Tree α)} {u : Tree α} :
    u ∈ subtreesAll ts ↔ ∃ t ∈ ts, u ∈ t.subtrees := by
  rw [subtreesAll_eq_flatMap, List.mem_flatMap]

@[simp] theorem subtreesAll_append (ts us : List (Tree α)) :
    subtreesAll (ts ++ us) = subtreesAll ts ++ subtreesAll us := by
  simp only [subtreesAll_eq_flatMap, List.flatMap_append]

@[simp] theorem toListAll_append (ts us : List (Tree α)) :
    toListAll (ts ++ us) = toListAll ts ++ toListAll us := by
  simp only [toListAll_eq_flatMap, List.flatMap_append]

theorem forall_mem_toListAll {ts : List (Tree α)} {p : α → Prop} :
    (∀ a ∈ toListAll ts, p a) ↔ ∀ t ∈ ts, ∀ a ∈ t.toList, p a := by
  rw [toListAll_eq_flatMap, List.forall_mem_flatMap]

theorem subtreesAll_singleton (t : Tree α) : subtreesAll [t] = t.subtrees := by
  rw [subtreesAll, subtreesAll, List.append_nil]

theorem toListAll_singleton (t : Tree α) : toListAll [t] = t.toList := by
  rw [toListAll, toListAll, List.append_nil]

theorem mem_subtreesAll_of_mem {ts : List (Tree α)} {t : Tree α} (h : t ∈ ts) :
    t ∈ subtreesAll ts :=
  mem_subtreesAll.mpr ⟨t, h, self_mem_subtrees t⟩

mutual
/-- A subtree of a subtree is a subtree. -/
theorem subtrees_trans : (t : Tree α) → ∀ u ∈ t.subtrees, ∀ w ∈ u.subtrees, w ∈ t.subtrees
  | .node v children => by
    intro u hu w hw
    rcases mem_subtrees_node.mp hu with rfl | hu
    · exact hw
    · exact mem_subtrees_node.mpr (.inr (subtreesAll_trans children u hu w hw))

/-- A subtree of a subtree of some trees is a subtree of theirs. -/
theorem subtreesAll_trans : (ts : List (Tree α)) →
    ∀ u ∈ subtreesAll ts, ∀ w ∈ u.subtrees, w ∈ subtreesAll ts
  | [] => by simp [subtreesAll]
  | t :: rest => by
    intro u hu w hw
    rw [subtreesAll, List.mem_append] at hu ⊢
    rcases hu with hu | hu
    · exact .inl (subtrees_trans t u hu w hw)
    · exact .inr (subtreesAll_trans rest u hu w hw)
end

/-- A child of a subtree is a subtree. -/
theorem child_mem_subtreesAll {ts : List (Tree α)} {t c : Tree α} (ht : t ∈ subtreesAll ts)
    (hc : c ∈ t.children) : c ∈ subtreesAll ts :=
  subtreesAll_trans ts t ht c (mem_subtrees_iff.mpr (.inr (mem_subtreesAll_of_mem hc)))

mutual
/-- The subtrees are the tree and the children of the subtrees. -/
theorem subtrees_perm_children :
    (t : Tree α) → t.subtrees.Perm (t :: t.subtrees.flatMap children)
  | .node v below => by
    rw [subtrees, List.flatMap_cons]
    exact (subtreesAll_perm_children below).cons _

/-- The subtrees of some trees are the trees and the children of the subtrees. -/
theorem subtreesAll_perm_children :
    (ts : List (Tree α)) → (subtreesAll ts).Perm (ts ++ (subtreesAll ts).flatMap children)
  | [] => List.Perm.refl _
  | t :: rest => by
    rw [subtreesAll, List.flatMap_append, List.cons_append]
    refine ((subtrees_perm_children t).append (subtreesAll_perm_children rest)).trans ?_
    rw [List.cons_append]
    refine List.Perm.cons t ?_
    rw [← List.append_assoc, ← List.append_assoc]
    exact List.perm_append_comm.append_right _
end

/-- A subtree is one of the trees or a child of another subtree. -/
theorem mem_or_child_of_mem_subtreesAll {ts : List (Tree α)} {u : Tree α} (hu : u ∈ subtreesAll ts) :
    u ∈ ts ∨ ∃ t ∈ subtreesAll ts, u ∈ t.children := by
  rw [(subtreesAll_perm_children ts).mem_iff, List.mem_append, List.mem_flatMap] at hu
  exact hu

/-- The trees are among their subtrees, in order. -/
theorem sublist_subtreesAll (ts : List (Tree α)) : ts.Sublist (subtreesAll ts) := by
  induction ts with
  | nil => exact List.Sublist.refl _
  | cons t rest ih =>
    obtain ⟨v, children⟩ := t
    rw [subtreesAll, subtrees]
    exact (ih.trans (List.sublist_append_right _ _)).cons_cons _

/-! ## Values -/

theorem mem_toList_iff {t : Tree α} {a : α} : a ∈ t.toList ↔ ∃ u ∈ t.subtrees, u.value = a := by
  rw [← map_value_subtrees, List.mem_map]

theorem mem_toListAll_iff {ts : List (Tree α)} {a : α} :
    a ∈ toListAll ts ↔ ∃ u ∈ subtreesAll ts, u.value = a := by
  rw [← map_value_subtreesAll, List.mem_map]

theorem value_mem_toList {t u : Tree α} (h : u ∈ t.subtrees) : u.value ∈ t.toList :=
  mem_toList_iff.mpr ⟨u, h, rfl⟩

theorem toList_eq (t : Tree α) : t.toList = t.value :: toListAll t.children := by
  cases t
  rw [toList]
  rfl

mutual
/-- A subtree has no more values than the tree. -/
theorem length_subtree_le : (t : Tree α) → ∀ u ∈ t.subtrees, u.toList.length ≤ t.toList.length
  | .node v below => by
    intro u hu
    rcases mem_subtrees_node.mp hu with rfl | hu
    · exact Nat.le_refl _
    · rw [toList, List.length_cons]
      exact Nat.le_succ_of_le (length_subtreeAll_le below u hu)

/-- A subtree of some trees has no more values than they have. -/
theorem length_subtreeAll_le : (ts : List (Tree α)) →
    ∀ u ∈ subtreesAll ts, u.toList.length ≤ (toListAll ts).length
  | [] => by simp [subtreesAll]
  | t :: rest => by
    intro u hu
    rw [subtreesAll, List.mem_append] at hu
    rw [toListAll, List.length_append]
    rcases hu with hu | hu
    · have := length_subtree_le t u hu
      omega
    · have := length_subtreeAll_le rest u hu
      omega
end

/-- No tree lies below itself. -/
theorem not_mem_below (t : Tree α) : t ∉ subtreesAll t.children := by
  intro h
  have hle := length_subtreeAll_le t.children t h
  rw [toList_eq, List.length_cons] at hle
  omega

/-- The values of a subtree are values of the tree. -/
theorem toList_subset {t u : Tree α} (h : u ∈ t.subtrees) : u.toList ⊆ t.toList := by
  intro a ha
  obtain ⟨w, hw, rfl⟩ := mem_toList_iff.mp ha
  exact value_mem_toList (subtrees_trans t u h w hw)

mutual
/-- Two functions applied one after the other are their composition applied. -/
theorem map_map {γ : Type} (f : α → β) (g : β → γ) : (t : Tree α) → (t.map f).map g = t.map (g ∘ f)
  | .node v children => by
    rw [map, map, map, mapAll_mapAll f g children]
    rfl

/-- Two functions applied one after the other are their composition applied. -/
theorem mapAll_mapAll {γ : Type} (f : α → β) (g : β → γ) :
    (ts : List (Tree α)) → mapAll g (mapAll f ts) = mapAll (g ∘ f) ts
  | [] => rfl
  | t :: rest => by rw [mapAll, mapAll, mapAll, map_map f g t, mapAll_mapAll f g rest]
end

mutual
/-- The subtrees of a tree with a function applied are those of the tree with it applied. -/
theorem subtrees_map (f : α → β) : (t : Tree α) → (t.map f).subtrees = t.subtrees.map (map f)
  | .node v children => by
    rw [map, subtrees, subtrees, List.map_cons, subtreesAll_mapAll f children, map]

/-- The subtrees of trees with a function applied are those of the trees with it applied. -/
theorem subtreesAll_mapAll (f : α → β) :
    (ts : List (Tree α)) → subtreesAll (mapAll f ts) = (subtreesAll ts).map (map f)
  | [] => rfl
  | t :: rest => by
    rw [mapAll, subtreesAll, subtreesAll, List.map_append, subtrees_map f t,
      subtreesAll_mapAll f rest]
end

/-! ## Updates -/

section
variable (p : α → Bool) (f : Tree α → Tree α)

theorem update_of_value {t : Tree α} (h : p t.value) : t.update p f = f t := by
  obtain ⟨v, children⟩ := t
  exact if_pos h

theorem children_update_of_not {t : Tree α} (h : ¬p t.value) :
    (t.update p f).children = updateAll p f t.children := by
  obtain ⟨v, children⟩ := t
  have hv : ¬p v := h
  rw [update, if_neg hv]
  rfl

theorem value_update_of_not {t : Tree α} (h : ¬p t.value) : (t.update p f).value = t.value := by
  obtain ⟨v, children⟩ := t
  have hv : ¬p v := h
  rw [update, if_neg hv]
  rfl

mutual
/-- A subtree of an updated tree is an old one that is updated inside, or lies in what has taken the
place of an old one. -/
theorem subtrees_update : (t : Tree α) → ∀ u ∈ (t.update p f).subtrees,
    (∃ w ∈ t.subtrees, ¬p w.value ∧ u = w.update p f) ∨
      ∃ w ∈ t.subtrees, p w.value ∧ u ∈ (f w).subtrees
  | .node v children => by
    intro u hu
    rw [update] at hu
    by_cases hv : p v
    · rw [if_pos hv] at hu
      exact .inr ⟨_, self_mem_subtrees _, hv, hu⟩
    · rw [if_neg hv] at hu
      rcases mem_subtrees_node.mp hu with rfl | hu
      · exact .inl ⟨_, self_mem_subtrees _, hv, by rw [update, if_neg hv]⟩
      · rcases subtreesAll_updateAll children u hu with ⟨w, hw, h⟩ | ⟨w, hw, h⟩
        · exact .inl ⟨w, mem_subtrees_node.mpr (.inr hw), h⟩
        · exact .inr ⟨w, mem_subtrees_node.mpr (.inr hw), h⟩

/-- The same for the subtrees of several trees. -/
theorem subtreesAll_updateAll : (ts : List (Tree α)) → ∀ u ∈ subtreesAll (updateAll p f ts),
    (∃ w ∈ subtreesAll ts, ¬p w.value ∧ u = w.update p f) ∨
      ∃ w ∈ subtreesAll ts, p w.value ∧ u ∈ (f w).subtrees
  | [] => by simp [updateAll, subtreesAll]
  | t :: rest => by
    intro u hu
    rw [updateAll, subtreesAll, List.mem_append] at hu
    simp only [subtreesAll, List.mem_append]
    rcases hu with hu | hu
    · rcases subtrees_update t u hu with ⟨w, hw, h⟩ | ⟨w, hw, h⟩
      · exact .inl ⟨w, .inl hw, h⟩
      · exact .inr ⟨w, .inl hw, h⟩
    · rcases subtreesAll_updateAll rest u hu with ⟨w, hw, h⟩ | ⟨w, hw, h⟩
      · exact .inl ⟨w, .inr hw, h⟩
      · exact .inr ⟨w, .inr hw, h⟩
end

mutual
/-- A subtree stays in its place and is updated inside, or lies in an outermost one that something
else has taken the place of. -/
theorem mem_subtrees_update : (t : Tree α) → ∀ w ∈ t.subtrees,
    (∃ u ∈ t.subtrees, p u.value ∧ w ∈ u.subtrees ∧ f u ∈ (t.update p f).subtrees) ∨
      w.update p f ∈ (t.update p f).subtrees
  | .node v children => by
    intro w hw
    rw [update]
    by_cases hv : p v
    · rw [if_pos hv]
      exact .inl ⟨_, self_mem_subtrees _, hv, hw, self_mem_subtrees _⟩
    · rw [if_neg hv]
      rcases mem_subtrees_node.mp hw with rfl | hw
      · refine .inr ?_
        rw [update, if_neg hv]
        exact self_mem_subtrees _
      · rcases mem_subtreesAll_updateAll children w hw with ⟨u, hu, hp, hwu, hfu⟩ | hsame
        · exact .inl ⟨u, mem_subtrees_node.mpr (.inr hu), hp, hwu, mem_subtrees_node.mpr (.inr hfu)⟩
        · exact .inr (mem_subtrees_node.mpr (.inr hsame))

/-- The same for the subtrees of several trees. -/
theorem mem_subtreesAll_updateAll : (ts : List (Tree α)) → ∀ w ∈ subtreesAll ts,
    (∃ u ∈ subtreesAll ts, p u.value ∧ w ∈ u.subtrees ∧ f u ∈ subtreesAll (updateAll p f ts)) ∨
      w.update p f ∈ subtreesAll (updateAll p f ts)
  | [] => by simp [subtreesAll]
  | t :: rest => by
    intro w hw
    simp only [updateAll, subtreesAll, List.mem_append] at hw ⊢
    rcases hw with hw | hw
    · rcases mem_subtrees_update t w hw with ⟨u, hu, hp, hwu, hfu⟩ | hsame
      · exact .inl ⟨u, .inl hu, hp, hwu, .inl hfu⟩
      · exact .inr (.inl hsame)
    · rcases mem_subtreesAll_updateAll rest w hw with ⟨u, hu, hp, hwu, hfu⟩ | hsame
      · exact .inl ⟨u, .inr hu, hp, hwu, .inr hfu⟩
      · exact .inr (.inr hsame)
end

mutual
/-- Where no value satisfies the predicate there is nothing to update. -/
theorem update_eq_self : (t : Tree α) → (∀ a ∈ t.toList, ¬p a) → t.update p f = t
  | .node v children => by
    intro h
    rw [toList] at h
    rw [update, if_neg (h v List.mem_cons_self),
      updateAll_eq_self children fun a ha => h a (List.mem_cons_of_mem _ ha)]

/-- Where no value satisfies the predicate there is nothing to update. -/
theorem updateAll_eq_self : (ts : List (Tree α)) → (∀ a ∈ toListAll ts, ¬p a) →
    updateAll p f ts = ts
  | [] => by simp [updateAll]
  | t :: rest => by
    intro h
    rw [toListAll] at h
    rw [updateAll, update_eq_self t fun a ha => h a (List.mem_append_left _ ha),
      updateAll_eq_self rest fun a ha => h a (List.mem_append_right _ ha)]
end

/-- What holds of all values, and of those that an update puts in, holds of all values after it. -/
theorem forall_toList_update {q : α → Prop} {t : Tree α} (ht : ∀ a ∈ t.toList, q a)
    (hf : ∀ w ∈ t.subtrees, p w.value → ∀ a ∈ (f w).toList, q a) :
    ∀ a ∈ (t.update p f).toList, q a := by
  intro a ha
  obtain ⟨u, hu, rfl⟩ := mem_toList_iff.mp ha
  rcases subtrees_update p f t u hu with ⟨w, hw, hnot, rfl⟩ | ⟨w, hw, hp, hu⟩
  · rw [value_update_of_not p f hnot]
    exact ht _ (value_mem_toList hw)
  · exact hf w hw hp _ (value_mem_toList hu)

/-- The same for the values of several trees. -/
theorem forall_toListAll_updateAll {q : α → Prop} {ts : List (Tree α)}
    (hts : ∀ a ∈ toListAll ts, q a)
    (hf : ∀ w ∈ subtreesAll ts, p w.value → ∀ a ∈ (f w).toList, q a) :
    ∀ a ∈ toListAll (updateAll p f ts), q a := by
  intro a ha
  obtain ⟨u, hu, rfl⟩ := mem_toListAll_iff.mp ha
  rcases subtreesAll_updateAll p f ts u hu with ⟨w, hw, hnot, rfl⟩ | ⟨w, hw, hp, hu⟩
  · rw [value_update_of_not p f hnot]
    exact hts _ (mem_toListAll_iff.mpr ⟨w, hw, rfl⟩)
  · exact hf w hw hp _ (value_mem_toList hu)

mutual
/-- What an update leaves as it is at the updated nodes, it leaves as it is everywhere. -/
theorem map_update {g : α → β} (h : ∀ t, p t.value → (f t).map g = t.map g) :
    (t : Tree α) → (t.update p f).map g = t.map g
  | .node v children => by
    rw [update]
    split
    · next hv => exact h _ hv
    · rw [map, map, mapAll_updateAll h children]

/-- What an update leaves as it is at the updated nodes, it leaves as it is everywhere. -/
theorem mapAll_updateAll {g : α → β} (h : ∀ t, p t.value → (f t).map g = t.map g) :
    (ts : List (Tree α)) → mapAll g (updateAll p f ts) = mapAll g ts
  | [] => by rw [updateAll]
  | t :: rest => by
    rw [updateAll, mapAll, mapAll, map_update h t, mapAll_updateAll h rest]
end

mutual
/-- Two updates at the same nodes are one. -/
theorem update_update {g : Tree α → Tree α} (h : ∀ t, p t.value → p (g t).value) :
    (t : Tree α) → (t.update p g).update p f = t.update p (f ∘ g)
  | .node v children => by
    rw [update, update]
    split
    · next hv =>
      have hg : p (g (node v children)).value := h _ hv
      rw [Function.comp_apply]
      generalize g (node v children) = u at hg ⊢
      obtain ⟨v', children'⟩ := u
      exact if_pos hg
    · next hv => rw [update, if_neg hv, updateAll_updateAll h children]

/-- Two updates at the same nodes are one. -/
theorem updateAll_updateAll {g : Tree α → Tree α} (h : ∀ t, p t.value → p (g t).value) :
    (ts : List (Tree α)) → updateAll p f (updateAll p g ts) = updateAll p (f ∘ g) ts
  | [] => rfl
  | t :: rest => by rw [updateAll, updateAll, updateAll, update_update h t, updateAll_updateAll h rest]
end

/-- The same for the values in order. -/
theorem map_toListAll_updateAll {g : α → β} (h : ∀ t, p t.value → (f t).map g = t.map g)
    (ts : List (Tree α)) : (toListAll (updateAll p f ts)).map g = (toListAll ts).map g := by
  rw [← toListAll_mapAll, mapAll_updateAll p f h ts, toListAll_mapAll]

end

mutual
/-- A child that is put under the one node of a predicate adds its values. -/
theorem toList_update_push (p : α → Bool) (child : Tree α) :
    (t : Tree α) → t.toList.countP p = 1 →
      (t.update p (·.push child)).toList.Perm (t.toList ++ child.toList)
  | .node v children => by
    intro h
    rw [update]
    by_cases hv : p v
    · rw [if_pos hv, push, toList, toList, Tree.children, toListAll_append, toListAll_singleton]
      exact List.Perm.refl _
    · rw [toList, List.countP_cons_of_neg hv] at h
      rw [if_neg hv, toList, toList]
      exact (toListAll_updateAll_push p child children h).cons v

/-- A child that is put under the one node of a predicate adds its values. -/
theorem toListAll_updateAll_push (p : α → Bool) (child : Tree α) :
    (ts : List (Tree α)) → (toListAll ts).countP p = 1 →
      (toListAll (updateAll p (·.push child) ts)).Perm (toListAll ts ++ child.toList)
  | [] => by simp [toListAll]
  | t :: rest => by
    intro h
    rw [toListAll, List.countP_append] at h
    rw [updateAll, toListAll, toListAll]
    -- The one node lies in the first tree or behind it; the other part stays as it is.
    rcases Nat.eq_zero_or_pos (t.toList.countP p) with hzero | hpos
    · have hrest : (toListAll rest).countP p = 1 := by omega
      rw [update_eq_self p _ t (List.countP_eq_zero.mp hzero), List.append_assoc]
      exact (toListAll_updateAll_push p child rest hrest).append_left _
    · have hone : t.toList.countP p = 1 := by omega
      have hzero : (toListAll rest).countP p = 0 := by omega
      rw [updateAll_eq_self p _ rest (List.countP_eq_zero.mp hzero)]
      refine ((toList_update_push p child t hone).append_right _).trans ?_
      rw [List.append_assoc, List.append_assoc]
      exact List.perm_append_comm.append_left _
end

end SchemaTypings.Tree
