/-
  SchemaTypings.Proofs.Store.Collision

  When flattening a module of a store is refused because of a name.
-/
import SchemaTypings.Proofs.Output.Collision
import SchemaTypings.Proofs.Store.Layout

namespace SchemaTypings

/-- The renderer of index pages writes every index where the indentation is one. -/
theorem Typescript.isTotal_renderer {config : Config} {indent : List Char}
    (h : config.indent = .ok indent) (tag : String) : (Typescript.renderer config tag).IsTotal := by
  intro view
  rw [Typescript.renderer]
  dsimp only
  rw [Typescript.indexPage, h]
  exact ⟨_, rfl⟩

theorem isTotal_defaultRenderer : defaultRenderer.IsTotal := by
  have hindent : Config.default.indent = .ok [' ', ' '] := by decide
  exact Typescript.isTotal_renderer hindent ""

namespace OutputStore

variable {s : OutputStore}

/-- Whether flattening a module is refused because of a name. -/
def CollidesAt (s : OutputStore) (id : Nat) (renderer? : Option IndexRenderer) : Prop :=
  ∃ name paths, s.flatten id renderer? = .error (.generation (.nameCollision name paths))

theorem WellFormed.collidesAt_iff (h : s.WellFormed) {id : Nat} {t : OutputTree}
    (ht : s.outputTree? id = some t) (hbuilt : ∀ m ∈ t.toList, m.IsBuilt) (hsettled : IsSettled t)
    {renderer? : Option IndexRenderer}
    (htotal : ∀ m ∈ t.toList, (m.renderer?.getD (renderer?.getD defaultRenderer)).IsTotal) :
    s.CollidesAt id renderer? ↔ ∃ u ∈ t.subtrees, u.value.IsIndex ∧ Collides u := by
  obtain ⟨stored, hstored, rfl⟩ := Option.map_eq_some_iff.mp ht
  constructor
  · rintro ⟨name, paths, hfails⟩
    rw [OutputStore.flatten, hstored] at hfails
    dsimp only at hfails
    split at hfails
    · -- Kept files are given again, or another renderer is refused.
      split at hfails
      · cases hfails
      · cases hfails
    · exact (OutputTree.exists_collides_of_flatten_error hbuilt hsettled htotal
        (eq_error_of_map_eq_error hfails)).1
  · rintro ⟨u, hu, hindex, hcollides⟩
    have hnot : ∀ used? files,
        OutputTree.flatten (stored.map StoredModule.module) used? ≠ .ok files := by
      intro used? files hok
      exact OutputTree.not_collides_of_flatten hok u hu hindex hcollides
    rw [CollidesAt, OutputStore.flatten, hstored]
    dsimp only
    cases hkept : stored.value.flattened? with
    | some kept =>
      have hfresh := (h.kept_fresh stored (h.find?_eq_some_iff.mp hstored).1 kept hkept).2
      exact absurd hfresh (hnot _ _)
    | none =>
      cases hflat : OutputTree.flatten (stored.map StoredModule.module) renderer? with
      | ok files => exact absurd hflat (hnot _ _)
      | error failure =>
        obtain ⟨-, name, paths, rfl⟩ :=
          OutputTree.exists_collides_of_flatten_error hbuilt hsettled htotal hflat
        exact ⟨name, paths, rfl⟩

/-- A module whose files have places of their own, whose aggregates list modules with a path and a key
each, and whose indexes can be rendered is refused because of a name exactly if a name comes to an
index through its re-export chain and is there a second time.  So a name that is twice at an index is
refused, or the index declares a name twice itself. -/
theorem collidesAt_run_iff (calls : List Call) (id : Nat) (renderer? : Option IndexRenderer)
    {t : OutputTree} (ht : (run calls).outputTree? id = some t) (hsettled : IsSettled t)
    (htotal : ∀ m ∈ t.toList, (m.renderer?.getD (renderer?.getD defaultRenderer)).IsTotal) :
    ((run calls).CollidesAt id renderer? ↔
        ∃ u ∈ t.subtrees, u.value.IsIndex ∧
          ∃ name ∈ reexportedNames u, 2 ≤ (namesAt u).count name) ∧
      ((∃ u ∈ t.subtrees, u.value.IsIndex ∧ ∃ name, 2 ≤ (namesAt u).count name) ↔
        (run calls).CollidesAt id renderer? ∨
          ∃ u ∈ t.subtrees, u.value.IsIndex ∧ ¬u.value.declaredNames.Nodup) := by
  have hiff := (wellFormed_run calls).collidesAt_iff ht (isBuilt_of_outputTree? ht) hsettled htotal
  refine ⟨hiff, ?_⟩
  rw [hiff]
  constructor
  · rintro ⟨u, hu, hindex, hmany⟩
    rcases exists_count_namesAt_iff.mp hmany with hcollides | htwice
    · exact .inl ⟨u, hu, hindex, hcollides⟩
    · exact .inr ⟨u, hu, hindex, htwice⟩
  · rintro (⟨u, hu, hindex, hcollides⟩ | ⟨u, hu, hindex, htwice⟩)
    · exact ⟨u, hu, hindex, exists_count_namesAt_iff.mpr (.inl hcollides)⟩
    · exact ⟨u, hu, hindex, exists_count_namesAt_iff.mpr (.inr htwice)⟩

/-- An index over two modules that declare one name, and a module whose text declares the name of its
own aggregate. -/
def clashing : List Call :=
  [.construct { exportName := "Root", path? := some "index.ts", kind? := some .reexport },
    .construct { exportName := "A", path? := some "a.ts", content? := some "export type A = 1" },
    .construct { exportName := "B", path? := some "b.ts", content? := some "", names? := some ["A"] },
    .push 0 1, .push 0 2,
    .construct { exportName := "M", path? := some "m.ts", content? := some "export type A = 1",
                 kind? := some .mixed, aggregate? := some "A", names? := some ["A"] }]

/-- The index with the modules under it. -/
def clashingIndex : OutputTree :=
  .node { exportName := "Root", source := .reexport (some "index.ts") none }
    [OutputTree.leaf { exportName := "A", source := .content "a.ts" "export type A = 1", names := ["A"] },
      OutputTree.leaf { exportName := "B", source := .content "b.ts" "", names := ["A"] }]

/-- The module with the name of its own aggregate. -/
def doubledModule : OutputTree :=
  .leaf { exportName := "M", source := .mixed "m.ts" "export type A = 1" (some "A"),
          names := ["A"] }

/-- The index is refused.  The other module is not, though it has a name twice. -/
theorem collidesAt_run_iff_clashing :
    (run clashing).outputTree? 0 = some clashingIndex ∧ (run clashing).CollidesAt 0 none ∧
      (run clashing).outputTree? 3 = some doubledModule ∧ doubledModule.value.IsIndex ∧
      2 ≤ (namesAt doubledModule).count "A" ∧ ¬(run clashing).CollidesAt 3 none := by
  have hindex : (run clashing).outputTree? 0 = some clashingIndex := by cbv
  have hdoubled : (run clashing).outputTree? 3 = some doubledModule := by cbv
  have hindexSettled : IsSettled clashingIndex :=
    ⟨by decide +kernel, by decide +kernel, by simp [clashingIndex, Tree.subtrees, Tree.subtreesAll,
      OutputTree.leaf, Tree.value, OutputModule.aggregate?]⟩
  have hdoubledSettled : IsSettled doubledModule :=
    ⟨by decide +kernel, by decide +kernel, by simp [doubledModule, Tree.subtrees, Tree.subtreesAll,
      OutputTree.leaf, Tree.children, AreListable]⟩
  have hcollides := (collidesAt_run_iff clashing 0 none hindex hindexSettled (by
    simp [clashingIndex, OutputTree.leaf, Tree.toList, Tree.toListAll, isTotal_defaultRenderer])).1
  have hnot := (collidesAt_run_iff clashing 3 none hdoubled hdoubledSettled (by
    simp [doubledModule, OutputTree.leaf, Tree.toList, Tree.toListAll, isTotal_defaultRenderer])).1
  refine ⟨hindex, ?_, hdoubled, ⟨rfl, by decide⟩, by decide, ?_⟩
  · rw [hcollides]
    exact ⟨_, Tree.self_mem_subtrees _, ⟨rfl, by decide⟩, "A", by decide, by decide⟩
  · rw [hnot]
    rintro ⟨u, hu, -, name, hname, -⟩
    -- Nothing comes to the module.
    rcases Tree.mem_subtrees_node.mp hu with rfl | hbelow
    · cases hname
    · cases hbelow

end OutputStore
end SchemaTypings
