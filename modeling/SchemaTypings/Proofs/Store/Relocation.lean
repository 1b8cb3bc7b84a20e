/-
  SchemaTypings.Proofs.Store.Relocation

  Moving a module of a store.  A module that is moved and then flattened gives the files that it would
  have given, with the directories in front of their paths; and two moves are one with the later
  directories in front.
-/
import SchemaTypings.Proofs.Output.Relocation
import SchemaTypings.Proofs.Store.Layout

namespace SchemaTypings.OutputStore

open OutputModule (cleanSegments)

variable {s s' : OutputStore} {id : Nat} {segments : List String}

/-- A stored tree with directories put in front of its root. -/
def moveTree (segments : List String) (t : Tree StoredModule) : Tree StoredModule :=
  t.withValue { t.value with module := t.value.module.moveUnder segments }

/-- A module without frozen ones below it can be moved. -/
theorem moveUnder_of_free {t : Tree StoredModule} (ht : s.find? id = some t)
    (hfree : ∀ m ∈ t.toList, m.isFrozen = false) :
    s.moveUnder id segments = .ok (s.update id (moveTree segments)) := by
  have hnone : t.toList.find? StoredModule.isFrozen = none := by
    rw [List.find?_eq_none]
    intro m hm
    rw [hfree m hm]
    exact Bool.false_ne_true
  rw [moveUnder, ht]
  dsimp only
  rw [hnone]
  rfl

theorem WellFormed.find?_moveUnder (h : s.WellFormed) {t : Tree StoredModule}
    (ht : s.find? id = some t) (hmove : s.moveUnder id segments = .ok (s.update id (moveTree segments))) :
    (s.update id (moveTree segments)).find? id = some (moveTree segments t) := by
  have hbelow := h.id_ne_of_mem_below ht
  exact h.find?_of_updateAll (h.moveUnder hmove) ht rfl rfl (fun _ hw => hw) hbelow

/-! ## Two moves -/

theorem cleanSegments_append (a b : List String) :
    cleanSegments (a ++ b) = cleanSegments a ++ cleanSegments b := by
  rw [cleanSegments, List.flatMap_append]
  rfl

theorem moveTree_moveTree (a b : List String) (t : Tree StoredModule) :
    moveTree b (moveTree a t) = moveTree (b ++ a) t := by
  obtain ⟨m, children⟩ := t
  simp only [moveTree, Tree.withValue, Tree.value, Tree.children, OutputModule.moveUnder,
    cleanSegments_append, List.append_assoc]

theorem isFrozen_of_mem_moveTree {t : Tree StoredModule} (h : ∀ m ∈ t.toList, m.isFrozen = false) :
    ∀ m ∈ (moveTree segments t).toList, m.isFrozen = false := by
  rw [Tree.toList_eq, List.forall_mem_cons] at h
  rw [moveTree, Tree.withValue, Tree.toList, List.forall_mem_cons]
  exact h

/-- Two moves of a module are one with the later directories in front. -/
theorem WellFormed.after_moveUnder (h : s.WellFormed) (a b : List String) :
    (s.after (.moveUnder id a)).after (.moveUnder id b) = s.after (.moveUnder id (b ++ a)) := by
  have hafter : ∀ (s : OutputStore) (segments : List String), s.after (.moveUnder id segments) =
      match s.moveUnder id segments with
      | .ok next => next
      | .error _ => s := by
    intro s segments
    rw [OutputStore.after, perform]
    cases s.moveUnder id segments <;> rfl
  cases ht : s.find? id with
  | none =>
    -- There is nothing to move.
    have hstay : ∀ segments, s.moveUnder id segments = .ok s := by
      intro segments
      rw [OutputStore.moveUnder, ht]
    rw [hafter s a, hstay a, hafter s b, hstay b, hafter s (b ++ a), hstay (b ++ a)]
  | some t =>
    cases hfrozen : t.toList.find? StoredModule.isFrozen with
    | some frozen =>
      -- No move is allowed.
      have hfails : ∀ segments, s.moveUnder id segments =
          .error (.moduleFrozen frozen.module.exportName .move) := by
        intro segments
        rw [OutputStore.moveUnder, ht]
        dsimp only
        rw [hfrozen]
      rw [hafter s a, hfails a, hafter s b, hfails b, hafter s (b ++ a), hfails (b ++ a)]
    | none =>
      have hfree : ∀ m ∈ t.toList, m.isFrozen = false := by
        intro m hm
        simpa using List.find?_eq_none.mp hfrozen m hm
      have hfirst : s.moveUnder id a = .ok (s.update id (moveTree a)) := moveUnder_of_free ht hfree
      have hsecond : (s.update id (moveTree a)).moveUnder id b =
          .ok ((s.update id (moveTree a)).update id (moveTree b)) :=
        moveUnder_of_free (h.find?_moveUnder ht hfirst) (isFrozen_of_mem_moveTree hfree)
      have hboth : s.moveUnder id (b ++ a) = .ok (s.update id (moveTree (b ++ a))) :=
        moveUnder_of_free ht hfree
      have hkeep : ∀ t : Tree StoredModule, decide (t.value.id = id) = true →
          decide ((moveTree a t).value.id = id) = true := fun _ hid => hid
      have hmoves : moveTree b ∘ moveTree a = moveTree (b ++ a) :=
        funext fun t => moveTree_moveTree a b t
      rw [hafter s a, hfirst, hafter _ b, hsecond, hafter s (b ++ a), hboth]
      simp only [update]
      rw [Tree.updateAll_updateAll _ _ hkeep, hmoves]

/-! ## Moving and flattening -/

/-- What a module without kept files is flattened to. -/
theorem flatten_of_flattened?_eq_none {t : Tree StoredModule} (ht : s.find? id = some t)
    (hnone : t.value.flattened? = none) {renderer? : Option IndexRenderer} {files : List File} :
    (∃ after, s.flatten id renderer? = .ok (files, after)) ↔
      OutputTree.flatten (t.map StoredModule.module) renderer? = .ok files := by
  rw [flatten, ht]
  dsimp only
  rw [hnone]
  dsimp only
  cases OutputTree.flatten (t.map StoredModule.module) renderer? with
  | error e =>
    constructor
    · rintro ⟨after, h⟩
      cases h
    · intro h
      cases h
  | ok produced =>
    constructor
    · rintro ⟨after, h⟩
      cases h
      rfl
    · intro h
      cases h
      exact ⟨_, rfl⟩

theorem map_module_moveTree (t : Tree StoredModule) :
    (moveTree segments t).map StoredModule.module =
      OutputTree.moveUnder (t.map StoredModule.module) segments := by
  obtain ⟨m, children⟩ := t
  rw [moveTree, Tree.withValue, Tree.map, Tree.map]
  rfl

/-- Segments without a step up have none when they are cleaned. -/
theorem ne_above_of_mem_cleanSegments
    (h : ∀ segment ∈ segments, Path.above ∉ Path.components (Path.withSlashes segment.toList)) :
    ∀ d ∈ cleanSegments segments, d.toList ≠ Path.above := by
  intro d hd
  obtain ⟨segment, hsegment, hd⟩ := List.mem_flatMap.mp hd
  obtain ⟨c, hc, rfl⟩ := List.mem_map.mp hd
  rw [String.toList_ofList]
  rintro rfl
  exact h segment hsegment (List.mem_filter.mp hc).1

/-- A module that is moved before it is flattened gives the same files in the same order with the same
texts, with the cleaned segments in front of their paths.  Every path in its tree has to lead to a
place other than its directory, its indexes have to be pages, and no segment may lead up.  Two moves are
one with the later segments in front. -/
theorem flatten_moveUnder_run (calls : List Call) {id : Nat} {t : Tree StoredModule}
    (ht : (run calls).find? id = some t) (hfree : ∀ m ∈ t.toList, m.isFrozen = false)
    (hpaths : ∀ m ∈ t.toList, m.module.HasOwnPlace) {renderer? : Option IndexRenderer}
    (hrenderers : ∀ m ∈ t.toList,
      (m.module.renderer?.getD (renderer?.getD defaultRenderer)).IsTypescript)
    {segments : List String}
    (hsegments : ∀ segment ∈ segments,
      Path.above ∉ Path.components (Path.withSlashes segment.toList)) :
    (∀ files after, (run calls).flatten id renderer? = .ok (files, after) →
      ∃ moved, (run calls).moveUnder id segments = .ok moved ∧
        ∃ after', moved.flatten id renderer? =
          .ok (files.map (File.under (cleanSegments segments)), after')) ∧
      ∀ a b : List String, run (calls ++ [.moveUnder id a, .moveUnder id b]) =
        run (calls ++ [.moveUnder id (b ++ a)]) := by
  have hwell := wellFormed_run calls
  constructor
  · intro files after hflat
    have hmove : (run calls).moveUnder id segments =
        .ok ((run calls).update id (moveTree segments)) := moveUnder_of_free ht hfree
    refine ⟨_, hmove, ?_⟩
    -- Nothing in the tree is frozen, so no files are kept at its root.
    have hkept : t.value.flattened? = none := by
      cases hkept : t.value.flattened? with
      | none => rfl
      | some kept =>
        have hfrozen := (hwell.kept_fresh t (hwell.find?_eq_some_iff.mp ht).1 kept hkept).1
        rw [hfree _ (Tree.value_mem_toList (Tree.self_mem_subtrees t))] at hfrozen
        cases hfrozen
    have hfiles := (flatten_of_flattened?_eq_none ht hkept).mp ⟨after, hflat⟩
    refine (flatten_of_flattened?_eq_none (hwell.find?_moveUnder ht hmove) hkept).mpr ?_
    rw [map_module_moveTree]
    have hmodules : ∀ m ∈ (t.map StoredModule.module).toList, ∃ stored ∈ t.toList,
        stored.module = m := by
      intro m hm
      rw [Tree.toList_map] at hm
      exact List.mem_map.mp hm
    refine OutputTree.flatten_moveUnder ?_ (ne_above_of_mem_cleanSegments hsegments) ?_ hfiles
    · intro m hm
      obtain ⟨stored, hstored, rfl⟩ := hmodules m hm
      exact ⟨allBuilt_run calls stored (mem_toListAll_of_find? ht hstored), hpaths stored hstored⟩
    · intro m hm
      obtain ⟨stored, hstored, rfl⟩ := hmodules m hm
      exact (hrenderers stored hstored).ignoresPath
  · intro a b
    rw [run_append, run_append]
    exact hwell.after_moveUnder a b

/-- An index over a file in a directory and a group of two files, one of them next to the other's
directory. -/
def grouped : List Call :=
  [.construct { exportName := "Root", path? := some "index.ts", kind? := some .reexport },
    .construct { exportName := "A", path? := some "a/b.ts", content? := some "export type A = 1" },
    .construct { exportName := "Group" },
    .construct { exportName := "B", path? := some "b.ts", content? := some "export type B = 2" },
    .push 0 1, .push 0 2, .push 2 3, .moveUnder 2 ["c", "..", "d"]]

/-- The theorem at an index over a group, which gives its files below three directories. -/
theorem flatten_moveUnder_run_grouped :
    ∃ files after moved after', (run grouped).flatten 0 none = .ok (files, after) ∧
      (run grouped).moveUnder 0 ["out\\src/.", "gen"] = .ok moved ∧
      moved.flatten 0 none = .ok (files.map (File.under ["out", "src", "gen"]), after') ∧
      files.map File.path = ["index.ts", "a/b.ts", "d/b.ts"] ∧
      (files.map (File.under ["out", "src", "gen"])).map File.path =
        ["out/src/gen/index.ts", "out/src/gen/a/b.ts", "out/src/gen/d/b.ts"] := by
  have hall : ((run grouped).find? 0).map (fun t => t.toList.all fun m =>
      !m.isFrozen && m.module.renderer?.isNone && m.module.ownPath?.all fun path =>
        decide (Path.place? (Path.components (Path.withSlashes path.toList)) ≠ some [])) =
      some true := by
    decide +kernel
  have hsegments : ∀ segment ∈ ["out\\src/.", "gen"],
      Path.above ∉ Path.components (Path.withSlashes segment.toList) := by
    decide +kernel
  have hclean : cleanSegments ["out\\src/.", "gen"] = ["out", "src", "gen"] := by decide +kernel
  have hok : ((run grouped).flatten 0 none).toOption.map (fun result => result.1.map File.path) =
      some ["index.ts", "a/b.ts", "d/b.ts"] := by
    decide +kernel
  obtain ⟨t, ht, hmodules⟩ := Option.map_eq_some_iff.mp hall
  rw [List.all_eq_true] at hmodules
  have hfree : ∀ m ∈ t.toList, m.isFrozen = false := by
    intro m hm
    have := hmodules m hm
    simp_all
  have hpaths : ∀ m ∈ t.toList, m.module.HasOwnPlace := by
    intro m hm path hpath
    have := hmodules m hm
    simp_all
  have hrenderers : ∀ m ∈ t.toList,
      (m.module.renderer?.getD (Option.getD none defaultRenderer)).IsTypescript := by
    intro m hm
    have hnone : m.module.renderer? = none := by
      have := hmodules m hm
      simp_all
    rw [hnone]
    exact ⟨.default, rfl⟩
  cases hflat : (run grouped).flatten 0 none with
  | error e =>
    rw [hflat] at hok
    cases hok
  | ok result =>
    obtain ⟨moved, hmoved, after', hfiles⟩ :=
      (flatten_moveUnder_run grouped ht hfree hpaths hrenderers hsegments).1 result.1 result.2 hflat
    rw [hclean] at hfiles
    rw [hflat] at hok
    have hpathsOf : result.1.map File.path = ["index.ts", "a/b.ts", "d/b.ts"] := by
      injection hok
    refine ⟨result.1, result.2, moved, after', rfl, hmoved, hfiles, hpathsOf, ?_⟩
    have hunder : (result.1.map (File.under ["out", "src", "gen"])).map File.path =
        (result.1.map File.path).map fun path => (File.under ["out", "src", "gen"] ⟨path, ""⟩).path := by
      rw [List.map_map, List.map_map]
      rfl
    rw [hunder, hpathsOf]
    decide +kernel

end SchemaTypings.OutputStore
