/-
  SchemaTypings.Proofs.Store.Reexport

  What the indexes of a store's modules pass on.  All specifiers in the pages of a flattened module lead
  to its files, and an index compares the names of the files that its export lines lead to.
-/
import SchemaTypings.Proofs.Output.Reexport
import SchemaTypings.Proofs.Store.Layout

namespace SchemaTypings.OutputStore

/-- When a module is flattened and none of its files would be a directory on the way to another, every
specifier of an export or import in a page leads to one of the files.  The names that an index compares
are declared by files that its export lines lead to; and they are all such names if no two files are
told apart by their extensions only. -/
theorem exports_run (calls : List Call) {id : Nat} {t : OutputTree}
    (ht : (run calls).outputTree? id = some t) {renderer? : Option IndexRenderer}
    {files : List File} {after : OutputStore}
    (hflat : (run calls).flatten id renderer? = .ok (files, after))
    (hapart : ∀ f ∈ files, ∀ g ∈ files, ¬Path.IsDirectoryOf f.path g.path) :
    ∃ placed, placeTree [""] t = .ok placed ∧
      (∀ view, IsRendered placed view →
        ∀ specifier ∈ view.exports ++ view.imports.map Typescript.Import.specifier,
          ∃ f ∈ files, ResolvesTo view.path specifier f) ∧
      ∀ u ∈ placed.subtrees, ∀ path, u.value.path? = some path → u.value.module.kind ≠ .content →
        (∀ name source, (name, source) ∈ checkedNames u.value.module path u.children →
          Reaches placed files path source ∧ Declares placed source name) ∧
        ((∀ f ∈ files, ∀ g ∈ files, Path.withoutExtensionString f.path =
            Path.withoutExtensionString g.path → f.path = g.path) →
          ∀ name source, (name, source) ∈ checkedNames u.value.module path u.children ↔
            Reaches placed files path source ∧ Declares placed source name) := by
  obtain ⟨used?, hfiles⟩ := (wellFormed_run calls).exists_flatten ht hflat
  obtain ⟨placed, hplaced, -⟩ := flatten_eq_ok_iff.mp hfiles
  have hflattened := isFlattened_of_flatten (isBuilt_of_outputTree? ht) hfiles hplaced
  refine ⟨placed, hplaced, fun view => hflattened.exists_file_of_specifier hapart, ?_⟩
  intro u hu path hpath hkind
  constructor
  · intro name source
    exact hflattened.reaches_of_mem_checkedNames hapart hu hkind hpath
  · intro hstems
    exact hflattened.mem_checkedNames_iff hapart hstems hu hkind hpath

/-- An index over a content module and another index.  The file below the content module and that below
the inner index are told apart by their extensions only. -/
def twins : List Call :=
  [.construct { exportName := "Root", path? := some "index.ts", kind? := some .reexport },
    .construct { exportName := "C", path? := some "c.ts", content? := some "export type C = 1" },
    .construct { exportName := "A", path? := some "a.ts", content? := some "export type A = 1" },
    .construct { exportName := "Sub", path? := some "sub.ts", kind? := some .reexport },
    .construct { exportName := "A", path? := some "a.js", content? := some "export type A = 2" },
    .push 0 1, .push 1 2, .push 0 3, .push 3 4]

/-- What the pages and the check of names read of a placed tree. -/
structure Passage where
  path? : Option String
  kind : ModuleKind
  names : List String
  exports : List String
  below : List (String × String)
deriving DecidableEq

/-- What the pages and the check of names read of a placed tree. -/
def passage (u : PlacedTree) : Passage where
  path? := u.value.path?
  kind := u.value.module.kind
  names := u.value.module.declaredNames
  exports := exportedPathsAll u.children
  below := exportedNamesAll u.children

/-- The passages of the index and all below it. -/
def twinPassages : List Passage :=
  [⟨some "index.ts", .reexport, [], ["c.ts", "sub.ts"], [("C", "c.ts"), ("A", "a.js")]⟩,
    ⟨some "c.ts", .content, ["C"], ["a.ts"], [("A", "a.ts")]⟩,
    ⟨some "a.ts", .content, ["A"], [], []⟩,
    ⟨some "sub.ts", .reexport, [], ["a.js"], [("A", "a.js")]⟩,
    ⟨some "a.js", .content, ["A"], [], []⟩]

/-- The files of the index, all of them in one directory. -/
theorem exists_flatten_twins : ∃ t files after placed, (run twins).outputTree? 0 = some t ∧
    (run twins).flatten 0 none = .ok (files, after) ∧ placeTree [""] t = .ok placed ∧
    files.map File.path = ["index.ts", "c.ts", "a.ts", "sub.ts", "a.js"] ∧
    placed.subtrees.map passage = twinPassages := by
  have hfiles : (match (run twins).flatten 0 none with
      | .ok (files, _) => files.map File.path
      | .error _ => []) = ["index.ts", "c.ts", "a.ts", "sub.ts", "a.js"] := by
    decide +kernel
  have hplaced : ((run twins).outputTree? 0).map (fun t => match placeTree [""] t with
      | .ok placed => placed.subtrees.map passage
      | .error _ => []) = some twinPassages := by
    decide +kernel
  obtain ⟨t, ht, hplaced⟩ := Option.map_eq_some_iff.mp hplaced
  split at hfiles
  · next files after hflat =>
    split at hplaced
    · next placed hok => exact ⟨t, files, after, placed, ht, hflat, hok, hfiles, hplaced⟩
    · cases hplaced
  · cases hfiles

/-- No file in the root directory is a directory on the way to another there. -/
theorem not_isDirectoryOf_of_length {files : List File}
    (h : ∀ path ∈ files.map File.path, (Path.place? (Path.components path.toList)).map List.length = some 1) :
    ∀ f ∈ files, ∀ g ∈ files, ¬Path.IsDirectoryOf f.path g.path := by
  rintro f hf g hg ⟨p, below, hne, hp, hpBelow⟩
  have hfLength := h f.path (List.mem_map.mpr ⟨f, hf, rfl⟩)
  have hgLength := h g.path (List.mem_map.mpr ⟨g, hg, rfl⟩)
  rw [hp, Option.map_some, Option.some.injEq] at hfLength
  rw [hpBelow, Option.map_some, Option.some.injEq, List.length_append] at hgLength
  have hlength : below.length = 0 := by omega
  exact hne (List.length_eq_zero_iff.mp hlength)

theorem forall_length_twins : ∀ path ∈ ["index.ts", "c.ts", "a.ts", "sub.ts", "a.js"],
    (Path.place? (Path.components path.toList)).map List.length = some 1 := by
  decide +kernel

/-- The theorem at the index: all names that it compares are reached. -/
theorem exports_run_at_twins : ∃ files after placed, (run twins).flatten 0 none = .ok (files, after) ∧
    ∀ u ∈ placed.subtrees, ∀ path, u.value.path? = some path → u.value.module.kind ≠ .content →
      ∀ name source, (name, source) ∈ checkedNames u.value.module path u.children →
        Reaches placed files path source ∧ Declares placed source name := by
  obtain ⟨t, files, after, -, ht, hflat, -, hpaths, -⟩ := exists_flatten_twins
  obtain ⟨placed, -, -, hnames⟩ :=
    exports_run twins ht hflat (not_isDirectoryOf_of_length (hpaths ▸ forall_length_twins))
  exact ⟨files, after, placed, hflat, fun u hu path hpath hkind => (hnames u hu path hpath hkind).1⟩

/-- The export line of the inner index stands for two files, and only the names of one are compared. -/
theorem reached_not_checked_twins : ∃ t files after placed u, (run twins).outputTree? 0 = some t ∧
    (run twins).flatten 0 none = .ok (files, after) ∧ placeTree [""] t = .ok placed ∧
    (∀ f ∈ files, ∀ g ∈ files, ¬Path.IsDirectoryOf f.path g.path) ∧ u ∈ placed.subtrees ∧
    u.value.path? = some "index.ts" ∧ u.value.module.kind ≠ .content ∧
    Reaches placed files "index.ts" "a.ts" ∧ Declares placed "a.ts" "A" ∧
    ("A", "a.ts") ∉ checkedNames u.value.module "index.ts" u.children := by
  obtain ⟨t, files, after, placed, ht, hflat, hplaced, hpaths, hsubtrees⟩ := exists_flatten_twins
  obtain ⟨used?, hfiles⟩ := (wellFormed_run twins).exists_flatten ht hflat
  have hflattened := isFlattened_of_flatten (isBuilt_of_outputTree? ht) hfiles hplaced
  have hapart := not_isDirectoryOf_of_length (hpaths ▸ forall_length_twins)
  have hfind : ∀ x ∈ placed.subtrees.map passage, ∃ u ∈ placed.subtrees, passage u = x :=
    fun x hx => List.mem_map.mp hx
  rw [hsubtrees] at hfind
  simp only [twinPassages, passage, List.forall_mem_cons, Passage.mk.injEq] at hfind
  obtain ⟨⟨root, hroot, hrootPath, hrootKind, hrootNames, hrootExports, hrootBelow⟩, -,
    ⟨a, ha, haPath, -, haNames, -⟩, ⟨sub, hsub, hsubPath, hsubKind, -, hsubExports, -⟩, -⟩ := hfind
  have hrootKind' : root.value.module.kind ≠ .content := by simp [hrootKind]
  have hsubKind' : sub.value.module.kind ≠ .content := by simp [hsubKind]
  have hfirst : LeadsTo placed files "index.ts" "sub.ts" :=
    hflattened.leadsTo_of_mem_exportedPathsAll hapart hroot hrootKind' hrootPath (by simp [hrootExports])
  have hsecond : LeadsTo placed files "sub.ts" "a.js" :=
    hflattened.leadsTo_of_mem_exportedPathsAll hapart hsub hsubKind' hsubPath (by simp [hsubExports])
  -- The line was made for `a.js`, and `a.ts` is the same without its extension.
  obtain ⟨f, hf, hfpath⟩ := hflattened.file a ha "a.ts" haPath
  have hother : LeadsTo placed files "sub.ts" "a.ts" := by
    rw [← hfpath]
    apply hsecond.of_withoutExtension hf
    rw [hfpath]
    decide +kernel
  refine ⟨t, files, after, placed, root, ht, hflat, hplaced, hapart, hroot, hrootPath, hrootKind',
    .head hfirst (.single hother), ⟨a, ha, haPath, by simp [haNames]⟩, ?_⟩
  simp [checkedNames, hrootNames, hrootBelow]

end SchemaTypings.OutputStore
