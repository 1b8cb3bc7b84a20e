/-
  SchemaTypings.Proofs.Store.Written

  The cells of a store after each change.  A change of the trees is seen in the cells as writes to
  single parts of them: a push writes a parent and a list of children, a move the directories of one
  module, flattening the frozen flags of a module and all below it and what is kept of its files.

  Parents are not looked up after a change.  As each module is among the children of its parent
  alone, they follow from the lists of children.
-/
import SchemaTypings.Proofs.Store.Heap
import SchemaTypings.Proofs.Store.Relocation

namespace SchemaTypings.OutputStore

variable {s s' : OutputStore}

/-- The numbers of the children at the root of a tree. -/
def rootChildIds (t : Tree StoredModule) : List Nat := t.children.map fun c => c.value.id

/-- The children of updated trees have the numbers of the old ones, if the update keeps them. -/
theorem map_id_updateAll {id : Nat} {f : Tree StoredModule → Tree StoredModule}
    (hf : ∀ t, (f t).value.id = t.value.id) (ts : List (Tree StoredModule)) :
    (Tree.updateAll (fun m => m.id = id) f ts).map (fun t => t.value.id) =
      ts.map fun t => t.value.id := by
  induction ts with
  | nil => rfl
  | cons t rest ih =>
    obtain ⟨m, children⟩ := t
    rw [Tree.updateAll, List.map_cons, List.map_cons, ih, Tree.update]
    split
    · rw [hf]
    · rfl

/-- A function that keeps numbers keeps those of the children. -/
theorem rootChildIds_map (g : StoredModule → StoredModule) (hg : ∀ m, (g m).id = m.id)
    (t : Tree StoredModule) : rootChildIds (t.map g) = rootChildIds t := by
  obtain ⟨m, children⟩ := t
  rw [rootChildIds, Tree.map, Tree.children, Tree.mapAll_eq_map, List.map_map]
  refine List.map_congr_left fun c _ => ?_
  cases c
  exact hg _

namespace WellFormed

theorem find?_eq_none_iff (h : s.WellFormed) (id : Nat) : s.find? id = none ↔ s.next ≤ id := by
  rw [← Option.not_isSome_iff_eq_none, h.isSome_find?_iff, Nat.not_lt]

/-- Where the lists of children stay, the parents do. -/
theorem parentId?_of_childIds (h : s.WellFormed) (h' : s'.WellFormed)
    (hchildren : ∀ id, s'.childIds id = s.childIds id) (id : Nat) :
    s'.parentId? id = s.parentId? id := by
  apply Option.ext
  intro upper
  show s'.parentId? id = some upper ↔ s.parentId? id = some upper
  rw [← h'.mem_childIds_iff, ← h.mem_childIds_iff, hchildren]

section
variable (h : s.WellFormed) {trees : List (Tree StoredModule)}
  (hsub : ∀ w ∈ Tree.subtreesAll trees, w ∈ Tree.subtreesAll s.trees) {p : Tree StoredModule}
  (hp : p ∈ Tree.subtreesAll trees) (f : Tree StoredModule → Tree StoredModule)
include h hsub hp

/-- What takes the place of the one module of a number is there. -/
theorem mem_updateAll :
    f p ∈ Tree.subtreesAll (Tree.updateAll (fun m => m.id = p.value.id) f trees) := by
  rcases Tree.mem_subtreesAll_updateAll (fun m : StoredModule => decide (m.id = p.value.id)) f
    trees p hp with ⟨u, hu, hid, -, hfu⟩ | hsame
  · have hup : u = p := h.eq_of_id_eq (hsub u hu) (hsub p hp) (of_decide_eq_true hid)
    rw [hup] at hfu
    exact hfu
  · have hself : decide (p.value.id = p.value.id) = true := decide_eq_true rfl
    rw [Tree.update_of_value (fun m : StoredModule => decide (m.id = p.value.id)) f hself] at hsame
    exact hsame

/-- A tree outside that of the module still has its value and its children. -/
theorem exists_of_updateAll (hf : ∀ t, (f t).value.id = t.value.id) {w : Tree StoredModule}
    (hw : w ∈ Tree.subtreesAll trees) (hout : w ∉ p.subtrees) :
    ∃ w' ∈ Tree.subtreesAll (Tree.updateAll (fun m => m.id = p.value.id) f trees),
      w'.value = w.value ∧ rootChildIds w' = rootChildIds w := by
  have hid : ¬decide (w.value.id = p.value.id) = true := by
    intro hid
    have hwp : w = p := h.eq_of_id_eq (hsub w hw) (hsub p hp) (of_decide_eq_true hid)
    exact hout (hwp ▸ Tree.self_mem_subtrees w)
  rcases Tree.mem_subtreesAll_updateAll (fun m : StoredModule => decide (m.id = p.value.id)) f
    trees w hw with ⟨u, hu, huid, hwu, -⟩ | hsame
  · have hup : u = p := h.eq_of_id_eq (hsub u hu) (hsub p hp) (of_decide_eq_true huid)
    exact absurd (hup ▸ hwu) hout
  · refine ⟨_, hsame, Tree.value_update_of_not _ _ hid, ?_⟩
    rw [rootChildIds, Tree.children_update_of_not _ _ hid]
    exact map_id_updateAll hf w.children

end

/-! ## What is seen after a change -/

/-- Whether each tree of one store is to be found in another, with its value changed by one function
and its children's numbers by another. -/
def Sees (s s' : OutputStore) (g : StoredModule → StoredModule)
    (children : Nat → List Nat → List Nat) : Prop :=
  ∀ w ∈ Tree.subtreesAll s.trees, ∃ w' ∈ Tree.subtreesAll s'.trees,
    w'.value = g w.value ∧ rootChildIds w' = children w.value.id (rootChildIds w)

section
variable (h : s.WellFormed) (h' : s'.WellFormed) (hnext : s'.next = s.next)
  {g : StoredModule → StoredModule} {children : Nat → List Nat → List Nat}
  (hg : ∀ m, (g m).id = m.id) (hsees : Sees s s' g children)
include h h' hnext hg hsees

theorem cell?_of_sees (id : Nat) :
    s'.heap.cell? id = (s.find? id).map fun t => s'.cellOf (g t.value) := by
  cases ht : s.find? id with
  | some t =>
    obtain ⟨hmem, rfl⟩ := h.find?_eq_some_iff.mp ht
    obtain ⟨w', hw', hvalue, -⟩ := hsees t hmem
    have hcell := h'.cell?_heap_of_mem hw'
    rw [hvalue, hg] at hcell
    exact hcell
  | none =>
    have hle := (h.find?_eq_none_iff id).mp ht
    rw [cell?_heap, (h'.find?_eq_none_iff id).mpr (by omega)]
    rfl

theorem childIds_of_sees (hempty : ∀ id, s.next ≤ id → children id [] = []) (id : Nat) :
    s'.childIds id = children id (s.childIds id) := by
  cases ht : s.find? id with
  | some t =>
    obtain ⟨hmem, rfl⟩ := h.find?_eq_some_iff.mp ht
    obtain ⟨w', hw', hvalue, hchildren⟩ := hsees t hmem
    have hids := h'.childIds_of_mem hw'
    rw [hvalue, hg] at hids
    rw [h.childIds_of_mem hmem, hids]
    exact hchildren
  | none =>
    have hle := (h.find?_eq_none_iff id).mp ht
    rw [childIds, childIds, ht, (h'.find?_eq_none_iff id).mpr (by omega)]
    exact (hempty id hle).symm

end

/-! ## A new module -/

theorem heap_add (h : s.WellFormed) (m : OutputModule) :
    (s.add m).1.heap = s.heap.allocated m := by
  have h' := h.add m
  have hmem : ∀ t ∈ Tree.subtreesAll s.trees, t ∈ Tree.subtreesAll (s.add m).1.trees := by
    intro t ht
    simp only [OutputStore.add, Tree.subtreesAll_append, List.mem_append]
    exact .inl ht
  have hnew : Tree.node { id := s.next, module := m } [] ∈
      Tree.subtreesAll (s.add m).1.trees := by
    simp only [OutputStore.add, Tree.subtreesAll_append, List.mem_append]
    exact .inr (Tree.mem_subtreesAll_of_mem List.mem_cons_self)
  have hfind : ∀ id, (s.add m).1.find? id = if id = s.next then
      some (.node { id := s.next, module := m } []) else s.find? id := by
    intro id
    split
    · next hid =>
      subst hid
      exact h'.find?_of_mem hnew
    · next hid =>
      cases ht : s.find? id with
      | some t =>
        obtain ⟨hold, rfl⟩ := h.find?_eq_some_iff.mp ht
        exact h'.find?_of_mem (hmem t hold)
      | none =>
        have hle := (h.find?_eq_none_iff id).mp ht
        refine (h'.find?_eq_none_iff id).mpr ?_
        show s.next + 1 ≤ id
        omega
  -- The new module has no children, and nobody's list of children changes.
  have hchildren : ∀ id, (s.add m).1.childIds id = s.childIds id := by
    intro id
    rw [childIds, childIds, hfind]
    split
    · next hid =>
      rw [(h.find?_eq_none_iff id).mpr (by omega)]
      rfl
    · rfl
  have hparents := h.parentId?_of_childIds h' hchildren
  have horphan : s.parentId? s.next = none := by
    rw [Option.eq_none_iff_forall_not_mem]
    intro upper hupper
    obtain ⟨-, c, -, hc, -⟩ := h.parentId?_eq_some_iff.mp hupper
    rw [(h.find?_eq_none_iff _).mpr (Nat.le_refl _)] at hc
    cases hc
  have hcell : (s.add m).1.cellOf { id := s.next, module := m } = { module := m } := by
    have hnone : s.childIds s.next = [] := by
      rw [childIds, (h.find?_eq_none_iff _).mpr (Nat.le_refl _)]
      rfl
    rw [cellOf, hparents, hchildren, horphan, hnone]
    rfl
  ext1
  · funext id
    show _ = Function.update s.heap.cell? s.next (some { module := m }) id
    rw [cell?_heap, hfind]
    by_cases hid : id = s.next
    · subst hid
      rw [if_pos rfl, Function.update_self, Option.map_some, Tree.value, hcell]
    · rw [if_neg hid, Function.update_of_ne hid, cell?_heap]
      simp only [cellOf, hparents, hchildren]
  · rfl

/-! ## A push -/

section
variable {parent child : Nat} {p c : Tree StoredModule} (h : s.WellFormed)
  (hp : s.find? parent = some p) (hc : s.find? child = some c)
  (hpush : s.push parent child = .ok s')
include h hp hc hpush

/-- The lists of children after a push. -/
def pushedChildren (parent child : Nat) (id : Nat) (children : List Nat) : List Nat :=
  if id = parent then children ++ [child] else children

/-- Every value stays, and the children change at the new parent alone. -/
theorem sees_push : Sees s s' (fun m => m) (pushedChildren parent child) := by
  obtain ⟨hcycle, hs'⟩ := eq_updateAll_of_push hp hc hpush
  obtain ⟨hpMem, rfl⟩ := h.find?_eq_some_iff.mp hp
  obtain ⟨hcMem, rfl⟩ := h.find?_eq_some_iff.mp hc
  let rest := s.trees.filter fun t => t.value.id ≠ c.value.id
  have hsub : ∀ w ∈ Tree.subtreesAll rest, w ∈ Tree.subtreesAll s.trees := by
    intro w hw
    obtain ⟨t, ht, hwt⟩ := Tree.mem_subtreesAll.mp hw
    exact Tree.mem_subtreesAll.mpr ⟨t, (List.mem_filter.mp ht).1, hwt⟩
  have hsplit : ∀ w ∈ Tree.subtreesAll s.trees, w ∈ c.subtrees ∨ w ∈ Tree.subtreesAll rest := by
    intro w hw
    obtain ⟨t, ht, hwt⟩ := Tree.mem_subtreesAll.mp hw
    by_cases hid : t.value.id = c.value.id
    · rw [h.eq_of_id_eq (Tree.mem_subtreesAll_of_mem ht) hcMem hid] at hwt
      exact .inl hwt
    · exact .inr (Tree.mem_subtreesAll.mpr ⟨t, List.mem_filter.mpr ⟨ht, by simpa using hid⟩, hwt⟩)
  have hpRest : p ∈ Tree.subtreesAll rest := by
    refine (hsplit p hpMem).resolve_left fun hpc => ?_
    exact hcycle p.value (Tree.value_mem_toList hpc) rfl
  have hpushed : p.push c ∈ Tree.subtreesAll s'.trees := by
    rw [hs']
    exact h.mem_updateAll hsub hpRest (·.push c)
  have hbelow : ∀ w ∈ Tree.subtreesAll (p.children ++ [c]), w ∈ Tree.subtreesAll s'.trees :=
    fun w hw => Tree.subtreesAll_trans _ _ hpushed w (Tree.mem_subtrees_iff.mpr (.inr hw))
  intro w hw
  by_cases hid : w.value.id = p.value.id
  · have hwp : w = p := h.eq_of_id_eq hw hpMem hid
    refine ⟨_, hpushed, by rw [hwp]; rfl, ?_⟩
    rw [pushedChildren, if_pos hid, hwp, rootChildIds, Tree.push, Tree.children, List.map_append]
    rfl
  · rw [pushedChildren, if_neg hid]
    -- The tree lies in that of the child, below the parent, or elsewhere.
    rcases hsplit w hw with hwc | hwRest
    · refine ⟨w, hbelow w ?_, rfl, rfl⟩
      rw [Tree.subtreesAll_append, Tree.subtreesAll_singleton]
      exact List.mem_append_right _ hwc
    · by_cases hwp : w ∈ p.subtrees
      · refine ⟨w, hbelow w ?_, rfl, rfl⟩
        rw [Tree.subtreesAll_append]
        refine List.mem_append_left _ ((Tree.mem_subtrees_iff.mp hwp).resolve_left ?_)
        exact fun heq => hid (by rw [heq])
      · rw [hs']
        exact h.exists_of_updateAll hsub hpRest (·.push c) (fun _ => rfl) hwRest hwp

omit h in
/-- A module that has a parent cannot be pushed. -/
theorem parent?_of_push : s.parent? child = none := by
  rw [OutputStore.push, hp, hc] at hpush
  dsimp only at hpush
  split at hpush
  · cases hpush
  · split at hpush
    · cases hpush
    · split at hpush
      · cases hpush
      · next howner => exact howner

omit h in
theorem next_push : s'.next = s.next := by
  obtain ⟨-, rfl⟩ := eq_updateAll_of_push hp hc hpush
  rfl

theorem childIds_push_eq (id : Nat) : s'.childIds id = pushedChildren parent child id (s.childIds id) := by
  have hlt : parent < s.next := by
    rw [← h.isSome_find?_iff, hp]
    rfl
  refine h.childIds_of_sees (h.push hpush) (next_push hp hc hpush) (fun _ => rfl)
    (h.sees_push hp hc hpush) (fun other hother => if_neg ?_) id
  omega

/-- The child, which was nobody's, gets the parent. -/
theorem parentId?_push (id : Nat) :
    s'.parentId? id = if id = child then some parent else s.parentId? id := by
  have horphan : s.parentId? child = none := by
    rw [parentId?, parent?_of_push hp hc hpush]
    rfl
  have hnot : ∀ upper, child ∉ s.childIds upper := by
    intro upper hmem
    rw [h.mem_childIds_iff, horphan] at hmem
    cases hmem
  apply Option.ext
  intro upper
  show s'.parentId? id = some upper ↔ (if id = child then some parent else s.parentId? id) = some upper
  rw [← (h.push hpush).mem_childIds_iff, h.childIds_push_eq hp hc hpush, pushedChildren]
  by_cases hid : id = child
  · subst hid
    rw [if_pos rfl]
    by_cases hupper : upper = parent
    · simp [hupper]
    · simp [hupper, hnot upper, Ne.symm hupper]
  · rw [if_neg hid, ← h.mem_childIds_iff]
    split
    · simp [hid]
    · rfl

/-- A push writes the parent of the child and the children of the parent. -/
theorem heap_push :
    s'.heap = (s.heap.written child fun cell => { cell with parent? := some parent }).written parent
      fun cell => { cell with children := cell.children ++ [child] } := by
  have hcell := h.cell?_of_sees (h.push hpush) (next_push hp hc hpush) (fun _ => rfl)
    (h.sees_push hp hc hpush)
  have hcycle := (eq_updateAll_of_push hp hc hpush).1
  obtain ⟨-, hpId⟩ := h.find?_eq_some_iff.mp hp
  obtain ⟨-, hcId⟩ := h.find?_eq_some_iff.mp hc
  have hne : child ≠ parent := by
    have hroot := hcycle c.value (Tree.value_mem_toList (Tree.self_mem_subtrees c))
    rwa [hcId] at hroot
  have hof : ∀ m, s'.cellOf m = { s.cellOf m with
      parent? := if m.id = child then some parent else s.parentId? m.id
      children := pushedChildren parent child m.id (s.childIds m.id) } := by
    intro m
    rw [cellOf, h.parentId?_push hp hc hpush, h.childIds_push_eq hp hc hpush]
    rfl
  ext1
  · funext id
    rw [hcell]
    by_cases hidp : id = parent
    · subst hidp
      rw [Heap.cell?_written_self, Heap.cell?_written_of_ne hne.symm, cell?_heap, hp,
        Option.map_some, hof]
      simp only [Option.map_some, cellOf, hpId, pushedChildren, if_pos, if_neg hne.symm]
    · rw [Heap.cell?_written_of_ne hidp]
      by_cases hidc : id = child
      · subst hidc
        rw [Heap.cell?_written_self, cell?_heap, hc, Option.map_some, hof]
        simp only [Option.map_some, cellOf, hcId, pushedChildren, if_pos, if_neg hne]
      · rw [Heap.cell?_written_of_ne hidc, cell?_heap]
        refine Option.map_congr fun t ht => ?_
        obtain ⟨-, rfl⟩ := h.find?_eq_some_iff.mp ht
        rw [hof, pushedChildren, if_neg hidp, if_neg hidc]
        rfl
  · exact next_push hp hc hpush

end

/-! ## Changes that leave all children -/

/-- Where all lists of children stay, the parents do, and the cells are those of the new values. -/
theorem heap_of_sees (h : s.WellFormed) (h' : s'.WellFormed) (hnext : s'.next = s.next)
    {g : StoredModule → StoredModule} (hg : ∀ m, (g m).id = m.id)
    (hsees : Sees s s' g fun _ ids => ids) :
    s'.heap = ⟨fun id => (s.find? id).map fun t => s.cellOf (g t.value), s.next⟩ := by
  have hchildren := h.childIds_of_sees h' hnext hg hsees fun _ _ => rfl
  have hparents := h.parentId?_of_childIds h' hchildren
  ext1
  · funext id
    rw [h.cell?_of_sees h' hnext hg hsees]
    simp only [cellOf, hparents, hchildren]
  · exact hnext

end WellFormed

/-- A stored module after a move of the module with a number. -/
def movedValue (id : Nat) (segments : List String) (m : StoredModule) : StoredModule :=
  if m.id = id then { m with module := m.module.moveUnder segments } else m

/-- A stored module after modules with some numbers were frozen and one of them keeps files. -/
def frozenValue (below : List Nat) (id : Nat) (flattened : Flattened) (m : StoredModule) :
    StoredModule :=
  { m with
    isFrozen := if m.id ∈ below then true else m.isFrozen
    flattened? := if m.id = id then some flattened else m.flattened? }

theorem id_frozenValue (below : List Nat) (id : Nat) (flattened : Flattened) (m : StoredModule) :
    (frozenValue below id flattened m).id = m.id := rfl

theorem id_movedValue (id : Nat) (segments : List String) (m : StoredModule) :
    (movedValue id segments m).id = m.id := by
  rw [movedValue]
  split <;> rfl

namespace WellFormed

section
variable (h : s.WellFormed) {id : Nat} {t : Tree StoredModule} (ht : s.find? id = some t)
include h ht

/-- The tree of a module has those trees in it that have numbers of its modules. -/
theorem id_mem_iff {w : Tree StoredModule} (hw : w ∈ Tree.subtreesAll s.trees) :
    w.value.id ∈ t.toList.map StoredModule.id ↔ w ∈ t.subtrees := by
  obtain ⟨htMem, -⟩ := h.find?_eq_some_iff.mp ht
  constructor
  · intro hmem
    obtain ⟨m, hm, hid⟩ := List.mem_map.mp hmem
    obtain ⟨u, hu, rfl⟩ := Tree.mem_toList_iff.mp hm
    rw [← h.eq_of_id_eq (Tree.subtreesAll_trans _ t htMem u hu) hw hid]
    exact hu
  · exact fun hmem => List.mem_map.mpr ⟨w.value, Tree.value_mem_toList hmem, rfl⟩

/-- A tree is that of the module, or lies below it, or elsewhere. -/
theorem cases_of_mem {w : Tree StoredModule} (hw : w ∈ Tree.subtreesAll s.trees) :
    w = t ∨ w ∈ Tree.subtreesAll t.children ∧ w.value.id ≠ id ∨
      w ∉ t.subtrees ∧ w.value.id ≠ id := by
  by_cases hid : w.value.id = id
  · obtain ⟨htMem, htId⟩ := h.find?_eq_some_iff.mp ht
    exact .inl (h.eq_of_id_eq hw htMem (hid.trans htId.symm))
  · by_cases hwt : w ∈ t.subtrees
    · rcases Tree.mem_subtrees_iff.mp hwt with rfl | hbelow
      · exact .inl rfl
      · exact .inr (.inl ⟨hbelow, hid⟩)
    · exact .inr (.inr ⟨hwt, hid⟩)

theorem sees_moveUnder (segments : List String) :
    Sees s (s.update id (moveTree segments)) (movedValue id segments) fun _ ids => ids := by
  intro w hw
  have hcases := h.cases_of_mem ht hw
  obtain ⟨htMem, rfl⟩ := h.find?_eq_some_iff.mp ht
  have hmoved : moveTree segments t ∈
      Tree.subtreesAll (s.update t.value.id (moveTree segments)).trees :=
    h.mem_updateAll (fun _ hw => hw) htMem (moveTree segments)
  rcases hcases with rfl | ⟨hbelow, hid⟩ | ⟨hout, hid⟩
  · exact ⟨_, hmoved, (if_pos rfl).symm, rfl⟩
  · rw [movedValue, if_neg hid]
    exact ⟨w, Tree.subtreesAll_trans _ _ hmoved w (Tree.mem_subtrees_iff.mpr (.inr hbelow)), rfl, rfl⟩
  · rw [movedValue, if_neg hid]
    exact h.exists_of_updateAll (fun _ hw => hw) htMem (moveTree segments) (fun _ => rfl) hw hout

/-- A move writes the directories of one module. -/
theorem heap_moveUnder {segments : List String}
    (hmove : s.moveUnder id segments = .ok (s.update id (moveTree segments))) :
    (s.update id (moveTree segments)).heap =
      s.heap.written id fun cell => { cell with module := cell.module.moveUnder segments } := by
  rw [h.heap_of_sees (h.moveUnder hmove) rfl (id_movedValue id segments)
    (h.sees_moveUnder ht segments)]
  ext1
  · funext other
    show (s.find? other).map _ = _
    by_cases hid : other = id
    · subst hid
      have htId := (h.find?_eq_some_iff.mp ht).2
      rw [Heap.cell?_written_self, cell?_heap, ht, Option.map_some, movedValue, if_pos htId]
      rfl
    · rw [Heap.cell?_written_of_ne hid, cell?_heap]
      refine Option.map_congr fun w hw => ?_
      have hwId := (h.find?_eq_some_iff.mp hw).2
      rw [movedValue, if_neg (by omega)]
  · rfl

theorem sees_freeze (flattened : Flattened) :
    Sees s (s.update id (freeze flattened))
      (frozenValue (t.toList.map StoredModule.id) id flattened) fun _ ids => ids := by
  intro w hw
  have hcases := h.cases_of_mem ht hw
  have hbelowIff := h.id_mem_iff ht hw
  obtain ⟨htMem, rfl⟩ := h.find?_eq_some_iff.mp ht
  have hfrozen : freeze flattened t ∈
      Tree.subtreesAll (s.update t.value.id (freeze flattened)).trees :=
    h.mem_updateAll (fun _ hw => hw) htMem (freeze flattened)
  rcases hcases with rfl | ⟨hbelow, hid⟩ | ⟨hout, hid⟩
  · refine ⟨_, hfrozen, ?_, rootChildIds_map (fun m => { m with isFrozen := true }) (fun _ => rfl) w⟩
    rw [frozenValue, if_pos rfl, if_pos (hbelowIff.mpr (Tree.self_mem_subtrees w))]
    cases w
    rfl
  · have hmem : w.map (fun m => { m with isFrozen := true }) ∈
        (freeze flattened t).subtrees := by
      apply Tree.mem_subtrees_iff.mpr
      right
      obtain ⟨m, children⟩ := t
      show _ ∈ Tree.subtreesAll (Tree.mapAll _ children)
      rw [Tree.subtreesAll_mapAll]
      exact List.mem_map.mpr ⟨w, hbelow, rfl⟩
    refine ⟨_, Tree.subtreesAll_trans _ _ hfrozen _ hmem, ?_,
      rootChildIds_map (fun m => { m with isFrozen := true }) (fun _ => rfl) w⟩
    rw [frozenValue, if_neg hid, if_pos (hbelowIff.mpr (Tree.mem_subtrees_iff.mpr (.inr hbelow)))]
    cases w
    rfl
  · rw [frozenValue, if_neg hid, if_neg (mt hbelowIff.mp hout)]
    refine h.exists_of_updateAll (fun _ hw => hw) htMem (freeze flattened) ?_ hw hout
    intro u
    cases u
    rfl

/-- Flattening writes the frozen flag of the module and of all below it, then what is kept. -/
theorem heap_freeze {files : List File} {renderer? : Option IndexRenderer}
    (hflat : s.flatten id renderer? = .ok (files, s.update id (freeze ⟨files, renderer?⟩))) :
    (s.update id (freeze ⟨files, renderer?⟩)).heap =
      ((s.heap.writtenAll (t.toList.map StoredModule.id)
          fun cell => { cell with isFrozen := true }).written id
          fun cell => { cell with files? := some files }).written id
          fun cell => { cell with renderer? := renderer? } := by
  rw [h.heap_of_sees (h.flatten hflat) rfl (id_frozenValue _ id _) (h.sees_freeze ht _)]
  have hcell := Heap.cell?_writtenAll (f := fun cell : Cell => { cell with isFrozen := true })
    (fun _ => rfl) (t.toList.map StoredModule.id) s.heap
  ext1
  · funext other
    show (s.find? other).map _ = _
    by_cases hid : other = id
    · subst hid
      obtain ⟨htMem, htId⟩ := h.find?_eq_some_iff.mp ht
      have hmem : t.value.id ∈ t.toList.map StoredModule.id :=
        (h.id_mem_iff ht htMem).mpr (Tree.self_mem_subtrees t)
      rw [Heap.cell?_written_self, Heap.cell?_written_self, hcell, cell?_heap, ht, Option.map_some,
        frozenValue, if_pos htId, if_pos hmem, if_pos (htId ▸ hmem)]
      rfl
    · rw [Heap.cell?_written_of_ne hid, Heap.cell?_written_of_ne hid, hcell, cell?_heap]
      -- Elsewhere only the flag is written, and only below the module.
      split
      · next hbelow =>
        rw [Option.map_map]
        refine Option.map_congr fun w hw => ?_
        obtain ⟨-, rfl⟩ := h.find?_eq_some_iff.mp hw
        rw [frozenValue, if_neg hid, if_pos hbelow]
        rfl
      · next hout =>
        refine Option.map_congr fun w hw => ?_
        obtain ⟨-, rfl⟩ := h.find?_eq_some_iff.mp hw
        rw [frozenValue, if_neg hid, if_neg hout]
  · exact (Heap.next_writtenAll s.heap _ _).symm

end
end WellFormed
end SchemaTypings.OutputStore
