/-
  SchemaTypings.Proofs.Store.History

  Ownership, freezing and kept files over whole runs.  What the joint invariant says of trees is
  said here of module numbers, the way a caller sees it; and files that are once kept stay, whatever
  is called later.
-/
import SchemaTypings.Proofs.Store.Invariant

namespace SchemaTypings.OutputStore

variable {s s' : OutputStore}

namespace WellFormed

/-! ## Ownership -/

/-- Exactly the modules that have been constructed are there. -/
theorem isSome_find?_iff (h : s.WellFormed) (id : Nat) : (s.find? id).isSome ↔ id < s.next := by
  rw [← List.mem_range, ← h.ids_perm.mem_iff, Option.isSome_iff_exists, ids, List.mem_map]
  constructor
  · rintro ⟨t, ht⟩
    obtain ⟨hmem, hid⟩ := h.find?_eq_some_iff.mp ht
    exact ⟨t.value, Tree.mem_toListAll_iff.mpr ⟨t, hmem, rfl⟩, hid⟩
  · rintro ⟨m, hm, hid⟩
    obtain ⟨t, ht, rfl⟩ := Tree.mem_toListAll_iff.mp hm
    exact ⟨t, h.find?_eq_some_iff.mpr ⟨ht, hid⟩⟩

/-- No module is a child twice, of one module or of two. -/
theorem nodup_children_ids (h : s.WellFormed) :
    (((Tree.subtreesAll s.trees).flatMap Tree.children).map fun c => c.value.id).Nodup := by
  have hall := h.nodup_subtree_ids
  rw [((Tree.subtreesAll_perm_children s.trees).map fun t => t.value.id).nodup_iff,
    List.map_append] at hall
  exact (List.nodup_append.mp hall).2.1

/-- The tree of a module's parent is the only one that has the module among its children. -/
theorem parent_unique (h : s.WellFormed) {t u c d : Tree StoredModule}
    (ht : t ∈ Tree.subtreesAll s.trees) (hu : u ∈ Tree.subtreesAll s.trees) (hc : c ∈ t.children)
    (hd : d ∈ u.children) (hid : c.value.id = d.value.id) : t = u := by
  have hnodup := h.nodup_children_ids
  rw [List.map_flatMap, List.nodup_flatMap] at hnodup
  by_contra hne
  have hsymm : Std.Symm (Function.onFun List.Disjoint fun t : Tree StoredModule =>
      t.children.map fun c => c.value.id) := ⟨fun _ _ hdisjoint _ hu ht => hdisjoint ht hu⟩
  have hapart := hnodup.2.forall ht hu hne
  exact hapart (List.mem_map.mpr ⟨c, hc, rfl⟩) (List.mem_map.mpr ⟨d, hd, hid.symm⟩)

theorem parentId?_eq_some_iff (h : s.WellFormed) {lower upper : Nat} :
    s.parentId? lower = some upper ↔
      ∃ t c, s.find? upper = some t ∧ s.find? lower = some c ∧ c ∈ t.children := by
  rw [parentId?, parent?, Option.map_map, Option.map_eq_some_iff]
  constructor
  · rintro ⟨t, ht, hid⟩
    have hmem := List.mem_of_find?_eq_some ht
    have hany := List.find?_some ht
    obtain ⟨c, hc, hcId⟩ := List.any_eq_true.mp hany
    exact ⟨t, c, h.find?_eq_some_iff.mpr ⟨hmem, hid⟩,
      h.find?_eq_some_iff.mpr ⟨Tree.child_mem_subtreesAll hmem hc, of_decide_eq_true hcId⟩, hc⟩
  · rintro ⟨t, c, ht, hc, hchild⟩
    obtain ⟨htMem, htId⟩ := h.find?_eq_some_iff.mp ht
    obtain ⟨-, hcId⟩ := h.find?_eq_some_iff.mp hc
    cases hf : (Tree.subtreesAll s.trees).find? fun t =>
        t.children.any fun c => decide (c.value.id = lower) with
    | none =>
      have hnot := List.find?_eq_none.mp hf t htMem
      exact absurd (List.any_eq_true.mpr ⟨c, hchild, decide_eq_true hcId⟩) hnot
    | some u =>
      have hany := List.find?_some hf
      obtain ⟨d, hd, hdId⟩ := List.any_eq_true.mp hany
      have hut := h.parent_unique (List.mem_of_find?_eq_some hf) htMem hd hchild
        ((of_decide_eq_true hdId).trans hcId.symm)
      exact ⟨u, rfl, by rw [hut]; exact htId⟩

/-- A module is among the children of another exactly when the other is its parent. -/
theorem mem_childIds_iff (h : s.WellFormed) (lower upper : Nat) :
    lower ∈ s.childIds upper ↔ s.parentId? lower = some upper := by
  rw [h.parentId?_eq_some_iff, childIds]
  cases ht : s.find? upper with
  | none => simp
  | some t =>
    have htMem := (h.find?_eq_some_iff.mp ht).1
    simp only [Option.map_some, Option.getD_some, List.mem_map, Option.some.injEq]
    constructor
    · rintro ⟨c, hc, hid⟩
      exact ⟨t, c, rfl, h.find?_eq_some_iff.mpr ⟨Tree.child_mem_subtreesAll htMem hc, hid⟩, hc⟩
    · rintro ⟨_, c, rfl, hc, hchild⟩
      exact ⟨c, hchild, (h.find?_eq_some_iff.mp hc).2⟩

theorem nodup_childIds (h : s.WellFormed) (id : Nat) : (s.childIds id).Nodup := by
  rw [childIds]
  cases ht : s.find? id with
  | none => exact List.nodup_nil
  | some t =>
    have hnodup := h.nodup_children_ids
    rw [List.map_flatMap, List.nodup_flatMap] at hnodup
    exact hnodup.1 t (h.find?_eq_some_iff.mp ht).1

/-- What stands below a module stands in its tree, below the root. -/
theorem exists_of_isBelow (h : s.WellFormed) {lower upper : Nat} (hbelow : s.IsBelow lower upper) :
    ∃ t c, s.find? upper = some t ∧ s.find? lower = some c ∧ c ∈ Tree.subtreesAll t.children := by
  induction hbelow with
  | single hparent =>
    obtain ⟨t, c, ht, hc, hchild⟩ := h.parentId?_eq_some_iff.mp hparent
    exact ⟨t, c, ht, hc, Tree.mem_subtreesAll_of_mem hchild⟩
  | tail _ hparent ih =>
    obtain ⟨t, c, ht, hc, hbelow⟩ := ih
    obtain ⟨u, d, hu, hd, hchild⟩ := h.parentId?_eq_some_iff.mp hparent
    rw [ht] at hd
    cases hd
    have htBelow := Tree.mem_subtreesAll_of_mem hchild
    exact ⟨u, c, hu, hc, Tree.subtreesAll_trans _ t htBelow c (Tree.mem_subtrees_iff.mpr (.inr hbelow))⟩

/-- No module stands below itself. -/
theorem not_isBelow_self (h : s.WellFormed) (id : Nat) : ¬s.IsBelow id id := by
  intro hbelow
  obtain ⟨t, c, ht, hc, hmem⟩ := h.exists_of_isBelow hbelow
  rw [ht] at hc
  cases hc
  exact Tree.not_mem_below t hmem

/-! ## Freezing -/

/-- What stands below a frozen module is frozen. -/
theorem isFrozen_of_isBelow (h : s.WellFormed) {lower upper : Nat} (hfrozen : s.isFrozen upper = true)
    (hbelow : s.IsBelow lower upper) : s.isFrozen lower = true := by
  obtain ⟨t, c, ht, hc, hmem⟩ := h.exists_of_isBelow hbelow
  rw [isFrozen, ht, Option.map_some, Option.getD_some] at hfrozen
  rw [isFrozen, hc, Option.map_some, Option.getD_some]
  refine h.frozen_below t (h.find?_eq_some_iff.mp ht).1 hfrozen c.value ?_
  exact Tree.value_mem_toList (Tree.mem_subtrees_iff.mpr (.inr hmem))

/-! ## Kept files -/

/-- A module that keeps files is frozen, and flattening it afresh gives the same files. -/
theorem flatten_of_kept? (h : s.WellFormed) {id : Nat} {kept : Flattened}
    (hkept : s.kept? id = some kept) : s.isFrozen id = true ∧
      ∃ t, s.outputTree? id = some t ∧ OutputTree.flatten t kept.renderer? = .ok kept.files := by
  obtain ⟨t, ht, hfiles⟩ := Option.bind_eq_some_iff.mp hkept
  obtain ⟨hfrozen, hfresh⟩ := h.kept_fresh t (h.find?_eq_some_iff.mp ht).1 kept hfiles
  refine ⟨by rw [isFrozen, ht]; exact hfrozen, t.map StoredModule.module, ?_, hfresh⟩
  rw [outputTree?, ht, Option.map_some]

theorem kept?_eq_some_iff (h : s.WellFormed) {id : Nat} {kept : Flattened} :
    s.kept? id = some kept ↔
      ∃ m ∈ Tree.toListAll s.trees, m.id = id ∧ m.flattened? = some kept := by
  rw [kept?, Option.bind_eq_some_iff]
  constructor
  · rintro ⟨t, ht, hkept⟩
    obtain ⟨hmem, hid⟩ := h.find?_eq_some_iff.mp ht
    exact ⟨t.value, Tree.mem_toListAll_iff.mpr ⟨t, hmem, rfl⟩, hid, hkept⟩
  · rintro ⟨m, hm, hid, hkept⟩
    obtain ⟨t, ht, rfl⟩ := Tree.mem_toListAll_iff.mp hm
    exact ⟨t, h.find?_eq_some_iff.mpr ⟨ht, hid⟩, hkept⟩

/-- What a change leaves with every module, it leaves to be kept. -/
theorem kept?_of_values (h : s.WellFormed) (h' : s'.WellFormed) {id : Nat} {kept : Flattened}
    (hvalues : ∀ m ∈ Tree.toListAll s.trees, m.id = id → ∃ m' ∈ Tree.toListAll s'.trees,
      m'.id = m.id ∧ m'.flattened? = m.flattened?)
    (hkept : s.kept? id = some kept) : s'.kept? id = some kept := by
  obtain ⟨m, hm, hid, hfiles⟩ := h.kept?_eq_some_iff.mp hkept
  obtain ⟨m', hm', hid', hfiles'⟩ := hvalues m hm hid
  exact h'.kept?_eq_some_iff.mpr ⟨m', hm', hid'.trans hid, hfiles'.trans hfiles⟩

theorem kept?_add (h : s.WellFormed) (m : OutputModule) {id : Nat} {kept : Flattened}
    (hkept : s.kept? id = some kept) : (s.add m).1.kept? id = some kept := by
  refine h.kept?_of_values (h.add m) ?_ hkept
  intro x hx _
  refine ⟨x, ?_, rfl, rfl⟩
  simp only [OutputStore.add, Tree.toListAll_append]
  exact List.mem_append_left _ hx

theorem kept?_push {parent child id : Nat} {kept : Flattened} (h : s.WellFormed)
    (hpush : s.push parent child = .ok s') (hkept : s.kept? id = some kept) :
    s'.kept? id = some kept := by
  refine h.kept?_of_values (h.push hpush) ?_ hkept
  intro x hx _
  rcases push_cases hpush with rfl | ⟨p, c, hp, hc, -, -, howner, hcycle, rfl⟩
  · exact ⟨x, hx, rfl, rfl⟩
  · exact ⟨x, (h.perm_toListAll_push hp hc howner hcycle).mem_iff.mpr hx, rfl, rfl⟩

theorem kept?_moveUnder {id : Nat} {segments : List String} {other : Nat} {kept : Flattened}
    (h : s.WellFormed) (hmove : s.moveUnder id segments = .ok s')
    (hkept : s.kept? other = some kept) : s'.kept? other = some kept := by
  refine h.kept?_of_values (h.moveUnder hmove) ?_ hkept
  intro x hx _
  rcases moveUnder_cases hmove with rfl | ⟨t, -, -, rfl⟩
  · exact ⟨x, hx, rfl, rfl⟩
  · have hsame := Tree.map_toListAll_updateAll (fun m : StoredModule => decide (m.id = id))
      (fun t => t.withValue { t.value with module := t.value.module.moveUnder segments })
      (g := fun m => (m.id, m.flattened?)) (by rintro ⟨v, children⟩ -; rfl) s.trees
    have hx' := List.mem_map_of_mem (f := fun m : StoredModule => (m.id, m.flattened?)) hx
    rw [← hsame] at hx'
    obtain ⟨m', hm', heq⟩ := List.mem_map.mp hx'
    exact ⟨m', hm', congrArg Prod.fst heq, congrArg Prod.snd heq⟩

/-- Flattening one module leaves the files that others keep. -/
theorem kept?_flatten {id : Nat} {renderer? : Option IndexRenderer} {files : List File}
    {other : Nat} {kept : Flattened} (h : s.WellFormed)
    (hflat : s.flatten id renderer? = .ok (files, s')) (hkept : s.kept? other = some kept) :
    s'.kept? other = some kept := by
  have h' := h.flatten hflat
  rcases flatten_cases hflat with ⟨rfl, -⟩ | ⟨t, ht, hnone, -, rfl⟩
  · exact hkept
  have hother : other ≠ id := by
    rintro rfl
    rw [kept?, ht, Option.bind_some, hnone] at hkept
    cases hkept
  refine h.kept?_of_values h' ?_ hkept
  intro x hx hid
  -- Seen without the files of the flattened module, the store is the same as before.
  let seen : StoredModule → Nat × Option Flattened := fun m =>
    (m.id, if m.id = id then none else m.flattened?)
  have hsame := Tree.map_toListAll_updateAll (fun m : StoredModule => decide (m.id = id))
    (freeze ⟨files, renderer?⟩) (g := seen) (by
      rintro ⟨v, children⟩ hv
      have hv : v.id = id := of_decide_eq_true hv
      simp only [freeze, Tree.map, Tree.withValue, Tree.value, Tree.children, Tree.mapAll_mapAll,
        seen, hv, if_true]
      rfl) s.trees
  have hx' := List.mem_map_of_mem (f := seen) hx
  rw [← hsame] at hx'
  obtain ⟨m', hm', heq⟩ := List.mem_map.mp hx'
  have hid' : m'.id = x.id := congrArg Prod.fst heq
  have hfiles : (if m'.id = id then none else m'.flattened?) =
      if x.id = id then none else x.flattened? := congrArg Prod.snd heq
  have hne : x.id ≠ id := by rw [hid]; exact hother
  rw [hid', if_neg hne, if_neg hne] at hfiles
  exact ⟨m', hm', hid', hfiles⟩

theorem kept?_step (h : s.WellFormed) (hstep : Step s s') {id : Nat} {kept : Flattened}
    (hkept : s.kept? id = some kept) : s'.kept? id = some kept := by
  cases hstep with
  | stay => exact hkept
  | add m => exact h.kept?_add m hkept
  | push hpush => exact h.kept?_push hpush hkept
  | moveUnder hmove => exact h.kept?_moveUnder hmove hkept
  | flatten hflat => exact h.kept?_flatten hflat hkept

/-- Files that are once kept stay. -/
theorem kept?_afterAll (h : s.WellFormed) (later : List Call) {id : Nat} {kept : Flattened}
    (hkept : s.kept? id = some kept) : (s.afterAll later).kept? id = some kept := by
  induction later generalizing s with
  | nil => exact hkept
  | cons call rest ih => exact ih (h.after call) (h.kept?_step (s.step_after call) hkept)

end WellFormed

/-- Flattening a module that keeps files gives the kept files. -/
theorem files_eq_of_kept? {id : Nat} {kept : Flattened} (hkept : s.kept? id = some kept)
    {renderer? : Option IndexRenderer} {files : List File}
    (hflat : s.flatten id renderer? = .ok (files, s')) : files = kept.files := by
  rcases flatten_cases hflat with ⟨-, hsame⟩ | ⟨t, ht, hnone, -⟩
  · exact hsame kept hkept
  · rw [kept?, ht, Option.bind_some, hnone] at hkept
    cases hkept

/-! ## Every run -/

/-- Each module stands under at most one other, once, and never below itself. -/
structure IsForest (s : OutputStore) : Prop where
  mem_childIds_iff : ∀ lower upper, lower ∈ s.childIds upper ↔ s.parentId? lower = some upper
  nodup_childIds : ∀ id, (s.childIds id).Nodup
  not_isBelow_self : ∀ id, ¬s.IsBelow id id

/-- A module is frozen with all that stands below it. -/
def IsFrozenThrough (s : OutputStore) (id : Nat) : Prop :=
  s.isFrozen id = true ∧ ∀ lower, s.IsBelow lower id → s.isFrozen lower = true

/-- A module with all that stands below it, flattened afresh with the renderer that was recorded,
gives the files that are kept. -/
def IsFresh (s : OutputStore) (id : Nat) (kept : Flattened) : Prop :=
  ∃ t, s.outputTree? id = some t ∧ OutputTree.flatten t kept.renderer? = .ok kept.files

/-- After any calls, successful or not, the modules form a forest, freezing reaches all the way
down, and kept files are right and are what every later flattening gives. -/
theorem run_sound (calls : List Call) :
    (run calls).IsForest ∧
      (∀ id, (run calls).isFrozen id = true → (run calls).IsFrozenThrough id) ∧
      ∀ id kept, (run calls).kept? id = some kept →
        (run calls).IsFrozenThrough id ∧ (run calls).IsFresh id kept ∧
          ∀ later renderer? files s',
            (run (calls ++ later)).flatten id renderer? = .ok (files, s') → files = kept.files := by
  have h := wellFormed_run calls
  refine ⟨⟨h.mem_childIds_iff, h.nodup_childIds, h.not_isBelow_self⟩, ?_, ?_⟩
  · intro id hfrozen
    exact ⟨hfrozen, fun lower hbelow => h.isFrozen_of_isBelow hfrozen hbelow⟩
  · intro id kept hkept
    obtain ⟨hfrozen, hfresh⟩ := h.flatten_of_kept? hkept
    refine ⟨⟨hfrozen, fun lower hbelow => h.isFrozen_of_isBelow hfrozen hbelow⟩, hfresh, ?_⟩
    intro later renderer? files s' hflat
    have hlater := h.kept?_afterAll later hkept
    rw [← run_append] at hlater
    exact files_eq_of_kept? hlater hflat

/-- A module that is flattened on its own is neither put under another nor moved any more. -/
example : ((run [.construct { exportName := "a", path? := some "a.ts", content? := some "" },
    .construct { exportName := "b", path? := some "b.ts", content? := some "" },
    .flatten 0 none, .push 1 0, .moveUnder 0 ["d"]]).kept? 0).map Flattened.files =
      some [⟨"a.ts", ""⟩] := by
  decide +kernel

end SchemaTypings.OutputStore
