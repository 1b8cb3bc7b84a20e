/-
  SchemaTypings.Proofs.Store.Invariant

  What holds of a store after every run of calls: each module stands in one place, freezing reaches
  down to all below a module, and kept files are those that the module would be flattened to afresh.

  The three depend on each other: files that are kept stay right because everything below is frozen,
  and nothing frozen is ever pushed into or moved.  `WellFormed` is the joint invariant; each call
  keeps it (`WellFormed.after`), so that every run has it (`wellFormed_run`).
-/
import SchemaTypings.Proofs.Store.Run
import Mathlib.Data.List.Nodup
import Mathlib.Data.List.Range

namespace SchemaTypings.OutputStore

/-- The numbers of all modules, parents first. -/
def ids (s : OutputStore) : List Nat := (Tree.toListAll s.trees).map StoredModule.id

/-- The joint invariant of the places, the frozen flags and the kept files. -/
structure WellFormed (s : OutputStore) : Prop where
  /-- Each module that has been constructed stands in exactly one place. -/
  ids_perm : s.ids.Perm (List.range s.next)
  frozen_below : ∀ t ∈ Tree.subtreesAll s.trees, t.value.isFrozen = true →
    ∀ m ∈ t.toList, m.isFrozen = true
  kept_fresh : ∀ t ∈ Tree.subtreesAll s.trees, ∀ kept, t.value.flattened? = some kept →
    t.value.isFrozen = true ∧
      OutputTree.flatten (t.map StoredModule.module) kept.renderer? = .ok kept.files

variable {s s' : OutputStore}

/-! ## One place for each module -/

namespace WellFormed

theorem nodup_ids (h : s.WellFormed) : s.ids.Nodup :=
  h.ids_perm.nodup_iff.mpr List.nodup_range

theorem nodup_subtree_ids (h : s.WellFormed) :
    ((Tree.subtreesAll s.trees).map fun t => t.value.id).Nodup := by
  have hids := h.nodup_ids
  rw [ids, ← Tree.map_value_subtreesAll, List.map_map] at hids
  exact hids

/-- A module's number tells its tree. -/
theorem eq_of_id_eq (h : s.WellFormed) {t u : Tree StoredModule} (ht : t ∈ Tree.subtreesAll s.trees)
    (hu : u ∈ Tree.subtreesAll s.trees) (hid : t.value.id = u.value.id) : t = u :=
  List.inj_on_of_nodup_map h.nodup_subtree_ids ht hu hid

theorem find?_eq_some_iff (h : s.WellFormed) {id : Nat} {t : Tree StoredModule} :
    s.find? id = some t ↔ t ∈ Tree.subtreesAll s.trees ∧ t.value.id = id := by
  constructor
  · intro hf
    exact ⟨List.mem_of_find?_eq_some hf, by simpa using List.find?_some hf⟩
  · rintro ⟨ht, hid⟩
    cases hf : s.find? id with
    | none =>
      have hnot := List.find?_eq_none.mp hf t ht
      simp [hid] at hnot
    | some u =>
      have hu : u ∈ Tree.subtreesAll s.trees := List.mem_of_find?_eq_some hf
      have huid : u.value.id = id := by simpa using List.find?_some hf
      rw [h.eq_of_id_eq hu ht (huid.trans hid.symm)]

/-- In a subtree without a node of that number an update changes nothing. -/
theorem not_mem_of_frozen (h : s.WellFormed) {id : Nat} {t u : Tree StoredModule}
    (ht : s.find? id = some t) (hfree : t.value.isFrozen = false)
    (hu : u ∈ Tree.subtreesAll s.trees) (hfrozen : u.value.isFrozen = true) :
    ∀ m ∈ u.toList, ¬(decide (m.id = id)) = true := by
  intro m hm hid
  obtain ⟨w, hw, rfl⟩ := Tree.mem_toList_iff.mp hm
  have hwAll := Tree.subtreesAll_trans s.trees u hu w hw
  have hwt : s.find? id = some w := h.find?_eq_some_iff.mpr ⟨hwAll, by simpa using hid⟩
  have hm' := h.frozen_below u hu hfrozen w.value hm
  rw [ht] at hwt
  cases hwt
  rw [hfree] at hm'
  cases hm'

/-! ## The calls keep the invariant -/

theorem empty : ({} : OutputStore).WellFormed where
  ids_perm := List.Perm.refl _
  frozen_below := by simp [Tree.subtreesAll]
  kept_fresh := by simp [Tree.subtreesAll]

theorem add (h : s.WellFormed) (m : OutputModule) : (s.add m).1.WellFormed where
  ids_perm := by
    simp only [OutputStore.add, ids, Tree.toListAll_append, List.map_append]
    rw [Tree.toListAll_singleton, Tree.toList_eq, List.range_succ]
    exact h.ids_perm.append_right _
  frozen_below := by
    intro t ht hfrozen
    simp only [OutputStore.add, Tree.subtreesAll_append, List.mem_append] at ht
    rcases ht with ht | ht
    · exact h.frozen_below t ht hfrozen
    · simp only [Tree.subtreesAll, Tree.subtrees, List.append_nil, List.mem_singleton] at ht
      subst ht
      cases hfrozen
  kept_fresh := by
    intro t ht kept hkept
    simp only [OutputStore.add, Tree.subtreesAll_append, List.mem_append] at ht
    rcases ht with ht | ht
    · exact h.kept_fresh t ht kept hkept
    · simp only [Tree.subtreesAll, Tree.subtrees, List.append_nil, List.mem_singleton] at ht
      subst ht
      cases hkept

/-- A module without an owner is the root of a tree. -/
theorem mem_trees_of_parent?_eq_none {id : Nat} {t : Tree StoredModule}
    (ht : t ∈ Tree.subtreesAll s.trees) (hid : t.value.id = id) (howner : s.parent? id = none) :
    t ∈ s.trees := by
  rcases Tree.mem_or_child_of_mem_subtreesAll ht with hroot | ⟨p, hp, hchild⟩
  · exact hroot
  · rw [parent?, Option.map_eq_none_iff] at howner
    have hnot := List.find?_eq_none.mp howner p hp
    exact absurd (List.any_eq_true.mpr ⟨t, hchild, by simpa using hid⟩) hnot

/-- Taking a root out of the trees takes out its modules. -/
theorem perm_without_root (h : s.WellFormed) {c : Tree StoredModule} (hc : c ∈ s.trees) :
    s.trees.Perm (c :: s.trees.filter fun t => t.value.id ≠ c.value.id) := by
  have hroots : (s.trees.map fun t => t.value.id).Nodup :=
    ((Tree.sublist_subtreesAll s.trees).map _).nodup h.nodup_subtree_ids
  obtain ⟨before, behind, hsplit⟩ := List.append_of_mem hc
  rw [hsplit] at hroots ⊢
  rw [List.map_append, List.map_cons, List.nodup_middle, List.nodup_cons] at hroots
  have hkeep : ∀ t ∈ before ++ behind, decide (t.value.id ≠ c.value.id) = true := by
    intro t ht
    have hne : t.value.id ≠ c.value.id := by
      intro heq
      rw [← List.map_append] at hroots
      exact hroots.1 (List.mem_map.mpr ⟨t, ht, heq⟩)
    simpa using hne
  rw [List.filter_append, List.filter_cons_of_neg (by simp), ← List.filter_append,
    List.filter_eq_self.mpr hkeep]
  exact List.perm_middle

/-- A change that leaves every frozen tree as it is, and adds neither flags nor files, keeps the
invariant. -/
theorem of_frozen_part (h : s.WellFormed) (hids : s'.ids.Perm (List.range s'.next))
    (hpart : ∀ u ∈ Tree.subtreesAll s'.trees, ∃ w ∈ Tree.subtreesAll s.trees,
      u.value.isFrozen = w.value.isFrozen ∧ u.value.flattened? = w.value.flattened? ∧
        (w.value.isFrozen = true → u = w)) : s'.WellFormed where
  ids_perm := hids
  frozen_below := by
    intro u hu hfrozen
    obtain ⟨w, hw, hflag, -, hsame⟩ := hpart u hu
    rw [hflag] at hfrozen
    rw [hsame hfrozen]
    exact h.frozen_below w hw hfrozen
  kept_fresh := by
    intro u hu kept hkept
    obtain ⟨w, hw, -, hfiles, hsame⟩ := hpart u hu
    rw [hfiles] at hkept
    have hold := h.kept_fresh w hw kept hkept
    rw [hsame hold.1]
    exact hold

/-- Below a root that is taken out and put under another module nothing is lost. -/
theorem perm_toListAll_push {parent child : Nat} {p c : Tree StoredModule} (h : s.WellFormed)
    (hp : s.find? parent = some p) (hc : s.find? child = some c) (howner : s.parent? child = none)
    (hcycle : ∀ m ∈ c.toList, m.id ≠ parent) :
    (Tree.toListAll (Tree.updateAll (fun m => m.id = parent) (·.push c)
      (s.trees.filter fun t => t.value.id ≠ child))).Perm (Tree.toListAll s.trees) := by
  obtain ⟨hpMem, hpId⟩ := h.find?_eq_some_iff.mp hp
  obtain ⟨hcMem, hcId⟩ := h.find?_eq_some_iff.mp hc
  have hvalues : (Tree.toListAll s.trees).Perm
      (c.toList ++ Tree.toListAll (s.trees.filter fun t => t.value.id ≠ child)) := by
    have hsplit := h.perm_without_root (mem_trees_of_parent?_eq_none hcMem hcId howner)
    rw [hcId] at hsplit
    simp only [Tree.toListAll_eq_flatMap]
    exact hsplit.flatMap_right _
  -- The parent stands once in the trees and not in the child's, so once in the rest.
  have hone : (Tree.toListAll s.trees).countP (fun m => m.id = parent) = 1 := by
    have hcount : s.ids.count parent = 1 :=
      List.count_eq_one_of_mem h.nodup_ids
        (List.mem_map.mpr ⟨p.value, Tree.mem_toListAll_iff.mpr ⟨p, hpMem, rfl⟩, hpId⟩)
    rw [ids, List.count_eq_countP, List.countP_map] at hcount
    rw [← hcount]
    exact List.countP_congr fun m _ => by simp
  have hnone : c.toList.countP (fun m => m.id = parent) = 0 :=
    List.countP_eq_zero.mpr fun m hm => by simpa using hcycle m hm
  rw [hvalues.countP_eq, List.countP_append, hnone, Nat.zero_add] at hone
  exact (Tree.toListAll_updateAll_push _ c _ hone).trans
    (List.perm_append_comm.trans hvalues.symm)

theorem push {parent child : Nat} (h : s.WellFormed) (hpush : s.push parent child = .ok s') :
    s'.WellFormed := by
  rcases push_cases hpush with rfl | ⟨p, c, hp, hc, hpFree, -, howner, hcycle, rfl⟩
  · exact h
  obtain ⟨hpMem, hpId⟩ := h.find?_eq_some_iff.mp hp
  obtain ⟨hcMem, -⟩ := h.find?_eq_some_iff.mp hc
  have hrest : ∀ u ∈ Tree.subtreesAll (s.trees.filter fun t => t.value.id ≠ child),
      u ∈ Tree.subtreesAll s.trees := by
    intro u hu
    obtain ⟨t, ht, hut⟩ := Tree.mem_subtreesAll.mp hu
    exact Tree.mem_subtreesAll.mpr ⟨t, (List.mem_filter.mp ht).1, hut⟩
  -- only the subtree of the parent is new, and a frozen one does not have the parent in it
  refine h.of_frozen_part ?_ ?_
  · exact ((h.perm_toListAll_push hp hc howner hcycle).map StoredModule.id).trans h.ids_perm
  · intro u hu
    rcases Tree.subtreesAll_updateAll _ _ _ u hu with ⟨w, hw, hnot, rfl⟩ | ⟨w, hw, hid, hu⟩
    · have hvalue := Tree.value_update_of_not (fun m : StoredModule => decide (m.id = parent))
        (·.push c) hnot
      refine ⟨w, hrest w hw, by rw [hvalue], by rw [hvalue], ?_⟩
      intro hfrozen
      exact Tree.update_eq_self _ _ w (h.not_mem_of_frozen hp hpFree (hrest w hw) hfrozen)
    · have hwp : w = p :=
        h.eq_of_id_eq (hrest w hw) hpMem ((of_decide_eq_true hid).trans hpId.symm)
      subst hwp
      rcases Tree.mem_subtrees_iff.mp hu with rfl | hu
      · exact ⟨w, hpMem, rfl, rfl, fun hfrozen => by rw [hpFree] at hfrozen; cases hfrozen⟩
      · -- Below the parent stand the old children and the new one, all as they were.
        have hold : u ∈ Tree.subtreesAll s.trees := by
          rw [Tree.push, Tree.children, Tree.subtreesAll_append, Tree.subtreesAll_singleton,
            List.mem_append] at hu
          rcases hu with hu | hu
          · exact Tree.subtreesAll_trans _ w hpMem u (Tree.mem_subtrees_iff.mpr (.inr hu))
          · exact Tree.subtreesAll_trans _ c hcMem u hu
        exact ⟨u, hold, rfl, rfl, fun _ => rfl⟩

theorem moveUnder {id : Nat} {segments : List String} (h : s.WellFormed)
    (hmove : s.moveUnder id segments = .ok s') : s'.WellFormed := by
  rcases moveUnder_cases hmove with rfl | ⟨t, ht, hfree, rfl⟩
  · exact h
  obtain ⟨htMem, htId⟩ := h.find?_eq_some_iff.mp ht
  have htFree : t.value.isFrozen = false := hfree _ (Tree.value_mem_toList (Tree.self_mem_subtrees t))
  refine h.of_frozen_part ?_ ?_
  · rw [ids, update, Tree.map_toListAll_updateAll _ _ _ s.trees]
    · exact h.ids_perm
    · rintro ⟨v, children⟩ -
      rfl
  · intro u hu
    rcases Tree.subtreesAll_updateAll _ _ _ u hu with ⟨w, hw, hnot, rfl⟩ | ⟨w, hw, hid, hu⟩
    · have hvalue := Tree.value_update_of_not (fun m : StoredModule => decide (m.id = id))
        (fun t => t.withValue { t.value with module := t.value.module.moveUnder segments }) hnot
      refine ⟨w, hw, by rw [hvalue], by rw [hvalue], ?_⟩
      intro hfrozen
      exact Tree.update_eq_self _ _ w (h.not_mem_of_frozen ht htFree hw hfrozen)
    · have hwt : w = t := h.eq_of_id_eq hw htMem ((of_decide_eq_true hid).trans htId.symm)
      subst hwt
      rcases Tree.mem_subtrees_iff.mp hu with rfl | hu
      · exact ⟨w, hw, rfl, rfl, fun hfrozen => by rw [htFree] at hfrozen; cases hfrozen⟩
      · have hold := Tree.subtreesAll_trans _ w hw u (Tree.mem_subtrees_iff.mpr (.inr hu))
        exact ⟨u, hold, rfl, rfl, fun _ => rfl⟩

/-- Freezing changes no module of a tree. -/
theorem map_module_freeze (flattened : Flattened) (t : Tree StoredModule) :
    (freeze flattened t).map StoredModule.module = t.map StoredModule.module := by
  obtain ⟨v, children⟩ := t
  simp only [freeze, Tree.map, Tree.withValue, Tree.value, Tree.children, Tree.mapAll_mapAll]
  rfl

/-- A frozen tree is frozen all through. -/
theorem isFrozen_of_mem_freeze (flattened : Flattened) (t : Tree StoredModule) :
    ∀ m ∈ (freeze flattened t).toList, m.isFrozen = true := by
  obtain ⟨v, children⟩ := t
  intro m hm
  simp only [freeze, Tree.map, Tree.withValue, Tree.value, Tree.children, Tree.toList,
    Tree.toListAll_mapAll, List.mem_cons, List.mem_map] at hm
  rcases hm with rfl | ⟨m', -, rfl⟩ <;> rfl

theorem flatten {id : Nat} {renderer? : Option IndexRenderer} {files : List File}
    (h : s.WellFormed) (hflat : s.flatten id renderer? = .ok (files, s')) : s'.WellFormed := by
  rcases flatten_cases hflat with ⟨rfl, -⟩ | ⟨t, ht, -, hrun, rfl⟩
  · exact h
  obtain ⟨htMem, htId⟩ := h.find?_eq_some_iff.mp ht
  have hmodules : ∀ w : Tree StoredModule,
      (w.update (fun m => m.id = id) (freeze ⟨files, renderer?⟩)).map StoredModule.module =
        w.map StoredModule.module :=
    Tree.map_update _ _ fun w _ => map_module_freeze _ w
  refine ⟨?_, ?_, ?_⟩
  · rw [ids, update, Tree.map_toListAll_updateAll _ _ _ s.trees]
    · exact h.ids_perm
    · rintro ⟨v, children⟩ -
      simp only [freeze, Tree.map, Tree.withValue, Tree.value, Tree.children, Tree.mapAll_mapAll]
      rfl
  · intro u hu hfrozen
    rcases Tree.subtreesAll_updateAll _ _ _ u hu with ⟨w, hw, hnot, rfl⟩ | ⟨w, -, -, hu⟩
    · rw [Tree.value_update_of_not _ _ hnot] at hfrozen
      exact Tree.forall_toList_update _ _ (h.frozen_below w hw hfrozen)
        fun x _ _ => isFrozen_of_mem_freeze _ x
    · exact fun m hm => isFrozen_of_mem_freeze _ w m (Tree.toList_subset hu hm)
  · intro u hu kept hkept
    rcases Tree.subtreesAll_updateAll _ _ _ u hu with ⟨w, hw, hnot, rfl⟩ | ⟨w, hw, hid, hu⟩
    · rw [Tree.value_update_of_not _ _ hnot] at hkept ⊢
      rw [hmodules]
      exact h.kept_fresh w hw kept hkept
    · have hwt : w = t := h.eq_of_id_eq hw htMem ((of_decide_eq_true hid).trans htId.symm)
      subst hwt
      refine ⟨isFrozen_of_mem_freeze _ w _ (Tree.value_mem_toList hu), ?_⟩
      rcases Tree.mem_subtrees_iff.mp hu with rfl | hu
      · -- The flattened module itself: its files have just been produced from the same modules.
        cases hkept
        rw [map_module_freeze]
        exact hrun
      · -- A module below it: its kept files, if any, are older, and its modules are the same.
        obtain ⟨v, children⟩ := w
        simp only [freeze, Tree.map, Tree.withValue, Tree.children, Tree.subtreesAll_mapAll,
          List.mem_map] at hu
        obtain ⟨x, hx, rfl⟩ := hu
        have hold := Tree.subtreesAll_trans _ _ hw x (Tree.mem_subtrees_iff.mpr (.inr hx))
        have hvalue : (Tree.map (fun m : StoredModule => { m with isFrozen := true }) x).value.flattened? =
            x.value.flattened? := by
          cases x
          rfl
        rw [hvalue] at hkept
        rw [Tree.map_map]
        exact (h.kept_fresh x hold kept hkept).2

theorem step (h : s.WellFormed) (hstep : Step s s') : s'.WellFormed := by
  cases hstep with
  | stay => exact h
  | add m => exact h.add m
  | push hpush => exact h.push hpush
  | moveUnder hmove => exact h.moveUnder hmove
  | flatten hflat => exact h.flatten hflat

theorem after (h : s.WellFormed) (call : Call) : (s.after call).WellFormed :=
  h.step (s.step_after call)

theorem afterAll (h : s.WellFormed) (calls : List Call) : (s.afterAll calls).WellFormed := by
  induction calls generalizing s with
  | nil => exact h
  | cons call rest ih => exact ih (h.after call)

end WellFormed

theorem wellFormed_run (calls : List Call) : (run calls).WellFormed :=
  WellFormed.empty.afterAll calls

end SchemaTypings.OutputStore
