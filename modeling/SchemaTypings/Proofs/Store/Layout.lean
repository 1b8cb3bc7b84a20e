/-
  SchemaTypings.Proofs.Store.Layout

  Where the files of a store's modules go.  Every module of a run has segments for directories and a
  path in normal form; so a module is flattened to the files of the sites in its tree, whether it is
  flattened for the first time or again.
-/
import SchemaTypings.Proofs.Output.Site
import SchemaTypings.Proofs.Store.History

namespace SchemaTypings.OutputStore

variable {s s' : OutputStore}

/-! ## Built modules -/

/-- Whether all modules of a store are as construction and moves leave them. -/
def AllBuilt (s : OutputStore) : Prop := ∀ m ∈ Tree.toListAll s.trees, m.module.IsBuilt

/-- The values of a tree in the store are values of the store. -/
theorem mem_toListAll_of_find? {id : Nat} {t : Tree StoredModule} (h : s.find? id = some t)
    {m : StoredModule} (hm : m ∈ t.toList) : m ∈ Tree.toListAll s.trees := by
  have ht : t ∈ Tree.subtreesAll s.trees := List.mem_of_find?_eq_some h
  obtain ⟨u, hu, rfl⟩ := Tree.mem_toList_iff.mp hm
  exact Tree.mem_toListAll_iff.mpr ⟨u, Tree.subtreesAll_trans s.trees t ht u hu, rfl⟩

namespace AllBuilt

theorem add (h : s.AllBuilt) {m : OutputModule} (hm : m.IsBuilt) : (s.add m).1.AllBuilt := by
  intro stored hstored
  rw [OutputStore.add, Tree.toListAll_append, List.mem_append] at hstored
  rcases hstored with hold | hnew
  · exact h stored hold
  · rw [Tree.toListAll_singleton, Tree.toList, Tree.toListAll, List.mem_singleton] at hnew
    rw [hnew]
    exact hm

theorem push {parent child : Nat} (h : s.AllBuilt) (hpush : s.push parent child = .ok s') :
    s'.AllBuilt := by
  rcases push_cases hpush with rfl | ⟨p, c, hp, hc, -, -, -, -, rfl⟩
  · exact h
  · have hrest : ∀ m ∈ Tree.toListAll (s.trees.filter fun t => t.value.id ≠ child),
        m.module.IsBuilt := by
      intro m hm
      rw [Tree.toListAll_eq_flatMap, List.mem_flatMap] at hm
      obtain ⟨t, ht, hm⟩ := hm
      apply h
      rw [Tree.toListAll_eq_flatMap]
      exact List.mem_flatMap.mpr ⟨t, (List.mem_filter.mp ht).1, hm⟩
    refine Tree.forall_toListAll_updateAll _ _ hrest ?_
    intro w hw _ m hm
    -- Under the parent stand its old modules and those of the child.
    rw [Tree.push, Tree.toList, Tree.toListAll_append, Tree.toListAll_singleton, ← List.cons_append,
      ← Tree.toList_eq, List.mem_append] at hm
    rcases hm with hm | hm
    · obtain ⟨u, hu, rfl⟩ := Tree.mem_toList_iff.mp hm
      exact hrest _ (Tree.mem_toListAll_iff.mpr ⟨u, Tree.subtreesAll_trans _ w hw u hu, rfl⟩)
    · exact h m (mem_toListAll_of_find? hc hm)

theorem moveUnder {id : Nat} {segments : List String} (h : s.AllBuilt)
    (hmove : s.moveUnder id segments = .ok s') : s'.AllBuilt := by
  rcases moveUnder_cases hmove with rfl | ⟨-, -, -, rfl⟩
  · exact h
  · refine Tree.forall_toListAll_updateAll _ _ h ?_
    intro w hw _ m hm
    have hold : ∀ m ∈ w.toList, m.module.IsBuilt := by
      intro m hm
      obtain ⟨u, hu, rfl⟩ := Tree.mem_toList_iff.mp hm
      exact h _ (Tree.mem_toListAll_iff.mpr ⟨u, Tree.subtreesAll_trans _ w hw u hu, rfl⟩)
    rw [Tree.toList_eq, List.forall_mem_cons] at hold
    rw [Tree.withValue, Tree.toList, List.mem_cons] at hm
    rcases hm with rfl | hm
    · exact hold.1.moveUnder segments
    · exact hold.2 m hm

theorem flatten {id : Nat} {renderer? : Option IndexRenderer} {files : List File} (h : s.AllBuilt)
    (hflat : s.flatten id renderer? = .ok (files, s')) : s'.AllBuilt := by
  rcases flatten_cases hflat with ⟨rfl, -⟩ | ⟨-, -, -, -, rfl⟩
  · exact h
  · refine Tree.forall_toListAll_updateAll _ _ h ?_
    intro w hw _ m hm
    -- Freezing keeps the modules, so the module is one of the old tree.
    have hmodules : (freeze ⟨files, renderer?⟩ w).toList.map StoredModule.module =
        w.toList.map StoredModule.module := by
      rw [← Tree.toList_map, ← Tree.toList_map, WellFormed.map_module_freeze]
    have hmem : m.module ∈ w.toList.map StoredModule.module := by
      rw [← hmodules]
      exact List.mem_map.mpr ⟨m, hm, rfl⟩
    obtain ⟨old, hold, heq⟩ := List.mem_map.mp hmem
    obtain ⟨u, hu, rfl⟩ := Tree.mem_toList_iff.mp hold
    rw [← heq]
    exact h _ (Tree.mem_toListAll_iff.mpr ⟨u, Tree.subtreesAll_trans _ w hw u hu, rfl⟩)

theorem after (h : s.AllBuilt) (call : Call) : (s.after call).AllBuilt := by
  rw [OutputStore.after]
  split
  · next next hok =>
    cases call with
    | construct description =>
      rw [perform] at hok
      split at hok
      · cases hok
      · next m hm =>
        cases hok
        exact h.add (OutputModule.isBuilt_of_ofDescription hm)
    | push parent child => exact h.push (eq_ok_of_mapError_eq_ok hok)
    | moveUnder id segments => exact h.moveUnder (eq_ok_of_mapError_eq_ok hok)
    | flatten id renderer? =>
      obtain ⟨⟨files, later⟩, hflat, rfl⟩ := exists_of_map_eq_ok hok
      exact h.flatten hflat
  · exact h

theorem afterAll (h : s.AllBuilt) (calls : List Call) : (s.afterAll calls).AllBuilt := by
  induction calls generalizing s with
  | nil => exact h
  | cons call rest ih => exact ih (h.after call)

end AllBuilt

theorem allBuilt_run (calls : List Call) : (run calls).AllBuilt := by
  have hempty : ({} : OutputStore).AllBuilt := by
    intro m hm
    cases hm
  exact hempty.afterAll calls

/-- The modules of a tree that a run has built. -/
theorem isBuilt_of_outputTree? {calls : List Call} {id : Nat} {t : OutputTree}
    (ht : (run calls).outputTree? id = some t) : ∀ m ∈ t.toList, m.IsBuilt := by
  obtain ⟨stored, hstored, rfl⟩ := Option.map_eq_some_iff.mp ht
  intro m hm
  rw [Tree.toList_map] at hm
  obtain ⟨value, hvalue, rfl⟩ := List.mem_map.mp hm
  exact allBuilt_run calls value (mem_toListAll_of_find? hstored hvalue)

/-! ## What a change leaves to be found -/

/-- Where the node of a number has been changed, what has taken its place is found under the number. -/
theorem WellFormed.find?_of_updateAll (h : s.WellFormed) (h' : s'.WellFormed) {id : Nat}
    {trees : List (Tree StoredModule)} {f : Tree StoredModule → Tree StoredModule}
    {p : Tree StoredModule} (hp : s.find? id = some p) (hnext : s'.next = s.next)
    (htrees : s'.trees = Tree.updateAll (fun m => m.id = id) f trees)
    (hsub : ∀ w ∈ Tree.subtreesAll trees, w ∈ Tree.subtreesAll s.trees)
    (hbelow : ∀ u ∈ Tree.subtreesAll (f p).children, u.value.id ≠ id) :
    s'.find? id = some (f p) := by
  obtain ⟨hpMem, hpId⟩ := h.find?_eq_some_iff.mp hp
  have hlt : id < s'.next := by
    rw [hnext, ← h.isSome_find?_iff, hp]
    rfl
  obtain ⟨u, hu⟩ := Option.isSome_iff_exists.mp ((h'.isSome_find?_iff id).mpr hlt)
  obtain ⟨huMem, huId⟩ := h'.find?_eq_some_iff.mp hu
  rw [htrees] at huMem
  rcases Tree.subtreesAll_updateAll _ _ _ u huMem with ⟨w, -, hnot, rfl⟩ | ⟨w, hw, hid, huw⟩
  · rw [Tree.value_update_of_not _ _ hnot] at huId
    exact absurd (decide_eq_true huId) hnot
  · have hwp : w = p := h.eq_of_id_eq (hsub w hw) hpMem ((of_decide_eq_true hid).trans hpId.symm)
    rw [hwp] at huw
    rcases Tree.mem_subtrees_iff.mp huw with rfl | hchild
    · exact hu
    · exact absurd huId (hbelow u hchild)

/-- Below a module of a well-formed store no other has its number. -/
theorem WellFormed.id_ne_of_mem_below (h : s.WellFormed) {id : Nat} {p : Tree StoredModule}
    (hp : s.find? id = some p) : ∀ u ∈ Tree.subtreesAll p.children, u.value.id ≠ id := by
  obtain ⟨hpMem, hpId⟩ := h.find?_eq_some_iff.mp hp
  intro u hu huId
  have hold := Tree.subtreesAll_trans _ p hpMem u (Tree.mem_subtrees_iff.mpr (.inr hu))
  have hup : u = p := h.eq_of_id_eq hold hpMem (huId.trans hpId.symm)
  exact Tree.not_mem_below p (hup ▸ hu)

/-! ## The order of children -/

/-- A push of one module into another that succeeds changes the trees. -/
theorem eq_updateAll_of_push {parent child : Nat} {p c : Tree StoredModule}
    (hp : s.find? parent = some p) (hc : s.find? child = some c)
    (hpush : s.push parent child = .ok s') :
    (∀ m ∈ c.toList, m.id ≠ parent) ∧
      s' = ⟨Tree.updateAll (fun m => m.id = parent) (·.push c)
        (s.trees.filter fun t => t.value.id ≠ child), s.next⟩ := by
  rw [OutputStore.push, hp, hc] at hpush
  dsimp only at hpush
  split at hpush
  · cases hpush
  · split at hpush
    · cases hpush
    · split at hpush
      · cases hpush
      · split at hpush
        · cases hpush
        · next hcycle =>
          cases hpush
          refine ⟨?_, rfl⟩
          intro m hm heq
          exact hcycle (List.any_eq_true.mpr ⟨m, hm, decide_eq_true heq⟩)

/-- A push puts a module behind those that stand directly under its new parent. -/
theorem WellFormed.childIds_push (h : s.WellFormed) {parent child : Nat} (hparent : parent < s.next)
    (hchild : child < s.next) (hpush : s.push parent child = .ok s') :
    s'.childIds parent = s.childIds parent ++ [child] := by
  obtain ⟨p, hp⟩ := Option.isSome_iff_exists.mp ((h.isSome_find?_iff parent).mpr hparent)
  obtain ⟨c, hc⟩ := Option.isSome_iff_exists.mp ((h.isSome_find?_iff child).mpr hchild)
  obtain ⟨hcycle, rfl⟩ := eq_updateAll_of_push hp hc hpush
  have hrest : ∀ w ∈ Tree.subtreesAll (s.trees.filter fun t => t.value.id ≠ child),
      w ∈ Tree.subtreesAll s.trees := by
    intro w hw
    obtain ⟨t, ht, hwt⟩ := Tree.mem_subtreesAll.mp hw
    exact Tree.mem_subtreesAll.mpr ⟨t, (List.mem_filter.mp ht).1, hwt⟩
  have hbelow : ∀ u ∈ Tree.subtreesAll (p.push c).children, u.value.id ≠ parent := by
    intro u hu
    rw [Tree.push, Tree.children, Tree.subtreesAll_append, Tree.subtreesAll_singleton,
      List.mem_append] at hu
    rcases hu with hu | hu
    · exact h.id_ne_of_mem_below hp u hu
    · exact hcycle u.value (Tree.value_mem_toList hu)
  have hpushed := h.find?_of_updateAll (h.push hpush) hp rfl rfl hrest hbelow
  have hcId := (h.find?_eq_some_iff.mp hc).2
  rw [childIds, childIds, hpushed, hp]
  simp [Tree.push, Tree.children, hcId]

/-! ## Files -/

/-- What a store gives as the files of a module, its tree is flattened to. -/
theorem WellFormed.exists_flatten (h : s.WellFormed) {id : Nat} {t : OutputTree}
    (ht : s.outputTree? id = some t) {renderer? : Option IndexRenderer} {files : List File}
    (hflat : s.flatten id renderer? = .ok (files, s')) :
    ∃ used? : Option IndexRenderer, t.flatten used? = .ok files := by
  obtain ⟨stored, hstored, rfl⟩ := Option.map_eq_some_iff.mp ht
  rw [OutputStore.flatten, hstored] at hflat
  dsimp only at hflat
  split at hflat
  · next kept hkept =>
    split at hflat
    · cases hflat
    · cases hflat
      exact ⟨kept.renderer?, (h.kept_fresh stored (h.find?_eq_some_iff.mp hstored).1 kept hkept).2⟩
  · obtain ⟨produced, hproduced, heq⟩ := exists_of_map_eq_ok hflat
    cases heq
    exact ⟨renderer?, hproduced⟩

/-- When a module is flattened, its files are those of the sites in its tree, parents first, at
pairwise different places inside the root and with the texts of content modules as they are.  When two
sites lead to one place or one leads out of the root, it is not flattened.  The modules directly under
a module are in the order in which they were pushed. -/
theorem flatten_run_sites (calls : List Call) (id : Nat) (renderer? : Option IndexRenderer)
    {t : OutputTree} (ht : (run calls).outputTree? id = some t) :
    (∀ files after, (run calls).flatten id renderer? = .ok (files, after) →
      List.Forall₂ (fun site f => IsFileAt site f ∧ IsInside f.path) t.sites files ∧
        (files.map File.path).Nodup) ∧
      ((∃ site ∈ t.sites, Path.place? site.route = none) ∨
          ¬(t.sites.map fun site => Path.place? site.route).Nodup →
        ∃ failure, (run calls).flatten id renderer? = .error failure) ∧
      ∀ parent child after, parent < (run calls).next → child < (run calls).next →
        (run calls).push parent child = .ok after →
        after.childIds parent = (run calls).childIds parent ++ [child] := by
  have hbuilt := isBuilt_of_outputTree? ht
  have hexact : ∀ files after, (run calls).flatten id renderer? = .ok (files, after) →
      List.Forall₂ (fun site f => IsFileAt site f ∧ IsInside f.path) t.sites files ∧
        (files.map File.path).Nodup := by
    intro files after hflat
    obtain ⟨used?, hfiles⟩ := (wellFormed_run calls).exists_flatten ht hflat
    exact OutputTree.forall₂_isFileAt_of_flatten hbuilt hfiles
  refine ⟨hexact, ?_, fun _ _ _ => (wellFormed_run calls).childIds_push⟩
  intro hbad
  cases hflat : (run calls).flatten id renderer? with
  | error failure => exact ⟨failure, rfl⟩
  | ok result =>
    -- Files would stand at pairwise different places below the root.
    exfalso
    obtain ⟨hfiles, hnodup⟩ := hexact result.1 result.2 hflat
    obtain ⟨hinside, hplaces⟩ := places_of_forall₂_isFileAt (hfiles.imp fun _ _ h => h.1) hnodup
    rcases hbad with ⟨site, hsite, hnone⟩ | htwice
    · exact hinside site hsite hnone
    · exact htwice hplaces

/-- Two content modules under an index whose paths are spelled differently and lead to one place. -/
def respelled : List Call :=
  [.construct { exportName := "Root", path? := some "index.ts", kind? := some .reexport },
    .construct { exportName := "A", path? := some "a/b.ts", content? := some "export type A = 1" },
    .construct { exportName := "B", path? := some "x\\..\\b.ts", content? := some "export type B = 2" },
    .push 0 1, .push 0 2, .moveUnder 2 ["./a\\"]]

/-- The theorem at an index over two spellings of one path, which is not flattened.  When one of them
is moved further down, there is a file for the index and then one for each, in their order. -/
theorem flatten_run_sites_respelled :
    (∃ t, (run respelled).outputTree? 0 = some t ∧
      ¬(t.sites.map fun site => Path.place? site.route).Nodup ∧
      ∃ failure, (run respelled).flatten 0 none = .error failure) ∧
    ∃ t files after, (run (respelled ++ [.moveUnder 2 ["c"]])).outputTree? 0 = some t ∧
      (run (respelled ++ [.moveUnder 2 ["c"]])).flatten 0 none = .ok (files, after) ∧
      List.Forall₂ (fun site f => IsFileAt site f ∧ IsInside f.path) t.sites files ∧
      files.map File.path = ["index.ts", "a/b.ts", "c/a/b.ts"] ∧
      (files.map File.content).tail = ["export type A = 1", "export type B = 2"] := by
  constructor
  · have hplaces : ((run respelled).outputTree? 0).map
        (fun t => decide (t.sites.map fun site => Path.place? site.route).Nodup) = some false := by
      decide +kernel
    obtain ⟨t, ht, hsame⟩ := Option.map_eq_some_iff.mp hplaces
    have hnot : ¬(t.sites.map fun site => Path.place? site.route).Nodup := of_decide_eq_false hsame
    exact ⟨t, ht, hnot, (flatten_run_sites respelled 0 none ht).2.1 (.inr hnot)⟩
  · have hthere : ((run (respelled ++ [.moveUnder 2 ["c"]])).outputTree? 0).isSome = true := by
      decide +kernel
    have hlisted : ((run (respelled ++ [.moveUnder 2 ["c"]])).flatten 0 none).toOption.map
        (fun result => (result.1.map File.path, (result.1.map File.content).tail)) =
          some (["index.ts", "a/b.ts", "c/a/b.ts"], ["export type A = 1", "export type B = 2"]) := by
      decide +kernel
    obtain ⟨t, ht⟩ := Option.isSome_iff_exists.mp hthere
    cases hflat : (run (respelled ++ [.moveUnder 2 ["c"]])).flatten 0 none with
    | error e =>
      rw [hflat] at hlisted
      cases hlisted
    | ok result =>
      rw [hflat] at hlisted
      injection hlisted with hlisted
      injection hlisted with hpaths htexts
      have hsites := ((flatten_run_sites _ 0 none ht).1 result.1 result.2 hflat).1
      exact ⟨t, result.1, result.2, ht, rfl, hsites, hpaths, htexts⟩

end SchemaTypings.OutputStore
