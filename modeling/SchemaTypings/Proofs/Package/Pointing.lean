/-
  SchemaTypings.Proofs.Package.Pointing

  The indexes that are composed by hand point at the typings that are generated.  A specifier comes
  from the paths joined as they are; the files come from the directories that the paths are cut into.
  Both lead to one place as long as the two ways cut the paths alike: no backslash may stand in them,
  and no directory behind the first may begin with a slash.
-/
import SchemaTypings.Proofs.Package.Confinement

namespace SchemaTypings

open SchemaTypings.Path (Component IsName place? reach written)
open OutputModule (cleanSegments)

/-! ## Joined directories -/

namespace Path

/-- A strict walk along a path behind a directory goes along the directory first. -/
theorem reach_components_append (directory : List Char) {path : List Char}
    (hpath : isRooted path = false) (place : List Component) :
    reach place (components (append directory path)) =
      reach place (components directory ++ components path) := by
  rw [append, hpath, if_neg Bool.false_ne_true]
  split
  · next hends =>
    rcases hends with rfl | hlast
    · rw [List.nil_append]
      rfl
    · -- The slash at the end of the directory leaves an empty component behind.
      obtain ⟨front, rfl⟩ := List.getLast?_eq_some_iff.mp hlast
      have hdirectory : components (front ++ ['/']) = components front ++ [[]] :=
        Text.splitAt_append_cons front []
      have hboth : components (front ++ ['/'] ++ path) = components front ++ components path := by
        rw [List.append_assoc]
        exact Text.splitAt_append_cons front path
      rw [hdirectory, hboth, List.append_assoc, reach_append, reach_append]
      rfl
  · rw [components, Text.splitAt_append_cons]
    rfl

/-- A strict walk along a joined path goes along all its parts. -/
theorem reach_components_join (first : List Char) {rest : List (List Char)}
    (hrest : ∀ d ∈ rest, isRooted d = false) {path : List Char} (hpath : isRooted path = false)
    (place : List Component) :
    reach place (components (join (first :: rest) path)) =
      reach place ((first :: rest).flatMap components ++ components path) := by
  rw [join, reach_components_append _ hpath, reach_append, reach_append, List.flatMap_cons]
  congr 1
  induction rest generalizing first with
  | nil => rw [List.foldl_nil, List.flatMap_nil, List.append_nil]
  | cons d rest ih =>
    rw [List.forall_mem_cons] at hrest
    rw [List.foldl_cons, ih (append first d) hrest.2, reach_append, reach_components_append _ hrest.1,
      List.flatMap_cons, ← List.append_assoc, reach_append, reach_append, reach_append]

/-- Specifiers of paths that lead to one place from the root are the same. -/
theorem specifier_congr {target other : List Char} (h : fromRoot target = fromRoot other)
    (source : List Char) : specifier source target = specifier source other := by
  rw [specifier, specifier, relative_eq, relative_eq, h]

end Path

/-- The name of the index files under the default layout. -/
def indexName : Component := "index.ts".toList

theorem isName_indexName : IsName indexName :=
  ⟨⟨by decide, by decide, by decide, by decide⟩, by decide⟩

/-- Whether directories are cut alike, joined as they are and one by one. -/
structure IsCutAlike (directories : List String) : Prop where
  ne_nil : directories ≠ []
  no_backslash : ∀ d ∈ directories, '\\' ∉ d.toList
  not_rooted : ∀ d ∈ directories.tail, Path.isRooted d.toList = false

/-- A name behind joined directories is in the place that the directories lead to one by one. -/
theorem place?_components_join {directories : List String} (h : IsCutAlike directories)
    {p : List Component} (hp : place? ((cleanSegments directories).map String.toList) = some p)
    {name : Component} (hname : IsName name) :
    place? (Path.components (Path.join (directories.map String.toList) name)) =
      some (p ++ [name]) := by
  obtain ⟨first, rest, rfl⟩ := List.exists_cons_of_ne_nil h.ne_nil
  have hrest : ∀ d ∈ rest.map String.toList, Path.isRooted d = false := by
    rw [List.forall_mem_map]
    exact h.not_rooted
  have hjoin := Path.reach_components_join first.toList hrest
    (Path.isRooted_of_isSegment hname.toIsSegment) []
  have hplain : (first :: rest).flatMap (fun d => Path.components (Path.withSlashes d.toList)) =
      (first :: rest).flatMap fun d => Path.components d.toList :=
    List.flatMap_congr fun d hd => by rw [Path.withSlashes_eq_self (h.no_backslash d hd)]
  rw [OutputModule.map_toList_cleanSegments, hplain, ← List.append_nil (List.filter _ _),
    Path.place?_filter, List.append_nil] at hp
  have hflat : ((first :: rest).map String.toList).flatMap Path.components =
      (first :: rest).flatMap fun d => Path.components d.toList := List.flatMap_map ..
  have hlast : Path.components name = [name] := Text.splitAt_of_not_mem hname.no_slash
  rw [place?, List.map_cons, hjoin, ← List.map_cons, hflat, ← place?, hlast,
    Path.place?_append_isName _ (by simpa using hname), hp]
  rfl

/-- The index behind joined directories is in the place that the directories lead to one by one. -/
theorem fromRoot_join {directories : List String} (h : IsCutAlike directories) {p : List Component}
    (hp : place? ((cleanSegments directories).map String.toList) = some p) :
    Path.fromRoot (Path.join (directories.map String.toList) indexName) = p ++ [indexName] :=
  Path.walk_of_place? true (place?_components_join h hp isName_indexName)

/-! ## Specifiers -/

/-- Whether a specifier in the index of a package stands for the first of some files. -/
def PointsAt (specifier : String) (files : List File) : Prop :=
  ∃ root ∈ files.head?, Path.resolveString? "index.ts" specifier =
    some (Path.withoutExtensionString root.path)

/-- The specifier of the index behind directories stands for the index in their place. -/
theorem resolveString?_specifierString_join {directories : List String} (h : IsCutAlike directories)
    {p : List Component} (hp : place? ((cleanSegments directories).map String.toList) = some p) :
    Path.resolveString? "index.ts"
        (Path.specifierString "index.ts" (Path.joinStrings directories "index.ts")) =
      some (Path.withoutExtensionString (String.ofList (written (p ++ [indexName])))) := by
  have hsegments : ∀ c ∈ (cleanSegments directories).map String.toList,
      c ≠ [] → c ≠ Path.here → Path.IsSegment c := by
    rw [List.forall_mem_map]
    exact fun d hd _ _ => OutputModule.isSegment_of_mem_cleanSegments hd
  have hnames : ∀ c ∈ p ++ [indexName], IsName c := by
    rw [List.forall_mem_append, List.forall_mem_singleton]
    exact ⟨Path.isName_of_place? hsegments hp, isName_indexName⟩
  have hsource : ∀ c ∈ [indexName], IsName c := by simpa using isName_indexName
  have hspecifier : Path.specifier indexName (Path.join (directories.map String.toList) indexName) =
      Path.specifier indexName (written (p ++ [indexName])) := by
    refine Path.specifier_congr ?_ _
    rw [fromRoot_join h hp, Path.fromRoot_written (Path.forall_isProper hnames)]
  have hname : "index.ts".toList = indexName := rfl
  have hwritten : written [indexName] = indexName := rfl
  have hresolve := Path.resolve?_specifier hsource hnames (List.cons_ne_nil _ _) (by simp)
  rw [hwritten] at hresolve
  rw [Path.resolveString?, Path.specifierString, Path.joinStrings, Path.withoutExtensionString]
  simp only [String.toList_ofList]
  rw [hname, hspecifier, hresolve, Option.map_some]

/-- The specifier of an index can be made: its path is not empty. -/
theorem indexSpecifier_default {directories : List String} (hne : directories ≠ []) :
    indexSpecifier .default directories = .ok
      (Path.specifierString "index.ts" (Path.joinStrings directories "index.ts")) := by
  have hjoined : Path.joinStrings directories "index.ts" ≠ "" := by
    obtain ⟨first, rest, rfl⟩ := List.exists_cons_of_ne_nil hne
    intro hempty
    have hnil := congrArg String.toList hempty
    rw [Path.joinStrings, String.toList_ofList, List.map_cons, Path.join, Path.append] at hnil
    split at hnil
    · cases hnil
    · split at hnil
      · exact List.append_ne_nil_of_right_ne_nil _ (by decide) hnil
      · exact List.append_ne_nil_of_right_ne_nil _ (List.cons_ne_nil _ _) hnil
  have hfile : Config.default.indexFile = "index.ts" := rfl
  rw [indexSpecifier, hfile, Path.specifierString?, if_neg hjoined]

/-- An index that is written on its own is one file. -/
theorem indexFiles_default (exportName text : String) :
    indexFiles .default exportName text = .ok [⟨"index.ts", text⟩] := by
  have hfile : Config.default.indexFile = "index.ts" := rfl
  have hnormal := Path.normalizeString?_index
  have hjoined : Path.joinStrings [""] "index.ts" = "index.ts" := by decide +kernel
  have hmodule : OutputModule.ofDescription
      { exportName, path? := some "index.ts", content? := some text } =
        .ok { exportName, source := .content "index.ts" text, names := [exportName] } := by
    simp only [OutputModule.ofDescription, OutputModule.Description.source,
      OutputModule.Description.kind, OutputModule.Description.textSource, OutputModule.normalPath,
      hnormal, Option.isSome]
    rfl
  have hplaced : ∀ m : OutputModule, m.ownPath? = some "index.ts" → m.directories = [] →
      placeTree [""] (.leaf m) = .ok (.node ⟨m, some "index.ts"⟩ []) := by
    intro m hpath hdirectories
    simp only [OutputTree.leaf, placeTree, OutputModule.placed?, hpath, hdirectories,
      OutputModule.place, List.append_nil, hjoined, hnormal, placeTrees]
    rfl
  rw [indexFiles, hfile, hmodule]
  simp only [OutputTree.flatten]
  rw [hplaced _ rfl rfl]
  rfl

/-! ## Root indexes -/

theorem ownPath?_of_ofDescription {d : OutputModule.Description} {m : OutputModule}
    (h : OutputModule.ofDescription d = .ok m) (hpath : d.path? = some "index.ts") :
    m.ownPath? = some "index.ts" := by
  rcases OutputModule.Description.ownPath?_of_source (OutputModule.source_of_ofDescription h).1 with
    ⟨hnone, -⟩ | ⟨given, normal, hgiven, hplace, hsome⟩
  · rw [hpath] at hnone
    cases hnone
  · rw [hpath] at hgiven
    cases hgiven
    rw [OutputModule.normalPath, Path.normalizeString?_index] at hplace
    cases hplace
    exact hsome

/-- The sites of a tree that is moved: that of its root behind the directories, and those below. -/
theorem sites_moveUnder {m : OutputModule} (hpath : m.ownPath? = some "index.ts")
    (hdirectories : m.directories = []) (children : List OutputTree) (segments : List String) :
    OutputTree.sites (OutputTree.moveUnder (.node m children) segments) =
      ⟨m.moveUnder segments, (cleanSegments segments).map String.toList ++ [indexName]⟩ ::
        sitesOfAll ((cleanSegments segments).map String.toList) children := by
  have hindex : Path.components (Path.withSlashes "index.ts".toList) = [indexName] := by decide
  have hown : (m.moveUnder segments).ownPath? = some "index.ts" := hpath
  have hfront : (m.moveUnder segments).directories = cleanSegments segments := by
    rw [OutputModule.moveUnder, hdirectories, List.append_nil]
  have hsegments : ∀ d ∈ cleanSegments segments, Path.IsSegment d.toList := fun d hd =>
    OutputModule.isSegment_of_mem_cleanSegments hd
  have hroute := directoryRoute_of_isSegment hsegments
  rw [OutputTree.sites, OutputTree.moveUnder, Tree.withValue, Tree.value, sitesOf, hown, hfront,
    hroute]
  simp only [Option.map_some, hindex]
  rfl

section
variable {generator : Config} {external? : Option (Json → Except Fault Json)}
  {definition : Definition} {files : List File}

/-- The first file of a tree over sections is the index in the place that its directories lead to. -/
theorem exists_root_of_rootTree {root : OutputModule.Description} (hroot : root.path? = some "index.ts")
    {tree : OutputTree} (h : rootTree { generator, external? } .standard definition root = .ok tree)
    {segments : List String} (hfiles : (tree.moveUnder segments).flatten = .ok files) :
    ∃ f ∈ files.head?, ∃ p, place? ((cleanSegments segments).map String.toList) = some p ∧
      f.path = String.ofList (written (p ++ [indexName])) := by
  have hconfined := isConfined_of_rootTree hroot h
  rw [rootTree] at h
  split at h
  · cases h
  · next m hm =>
    obtain ⟨trees, -, rfl⟩ := exists_of_map_eq_ok h
    rw [OutputTree.IsConfined, Tree.toList, List.forall_mem_cons] at hconfined
    have hbuilt : ∀ n ∈ (OutputTree.moveUnder (.node m trees) segments).toList, n.IsBuilt :=
      List.forall_mem_cons.mpr
        ⟨hconfined.1.isBuilt.moveUnder segments, fun n hn => (hconfined.2 n hn).isBuilt⟩
    have hrow := (OutputTree.forall₂_isFileAt_of_flatten hbuilt hfiles).1
    rw [sites_moveUnder (ownPath?_of_ofDescription hm hroot)
      (OutputModule.source_of_ofDescription hm).2 trees segments] at hrow
    obtain ⟨f, rest, ⟨hf, -⟩, -, rfl⟩ := List.forall₂_cons_left_iff.mp hrow
    obtain ⟨q, hq, hpath⟩ := hf.place
    rw [Path.place?_append_isName _ (by simpa using isName_indexName)] at hq
    obtain ⟨p, hp, rfl⟩ := Option.map_eq_some_iff.mp hq
    exact ⟨f, rfl, p, hp, hpath⟩

/-- The specifier of the index behind directories points at a tree over sections that is moved
there. -/
theorem pointsAt_of_rootTree {root : OutputModule.Description} (hroot : root.path? = some "index.ts")
    {tree : OutputTree} (h : rootTree { generator, external? } .standard definition root = .ok tree)
    {directories : List String} (hdirectories : IsCutAlike directories)
    (hfiles : (tree.moveUnder directories).flatten = .ok files) :
    PointsAt (Path.specifierString "index.ts" (Path.joinStrings directories "index.ts")) files := by
  obtain ⟨f, hf, p, hp, hpath⟩ := exists_root_of_rootTree hroot h hfiles
  refine ⟨f, hf, ?_⟩
  rw [hpath]
  exact resolveString?_specifierString_join hdirectories hp

theorem pointsAt_of_generateTypings {path : String} (hpath : IsCutAlike [path])
    (h : generateTypings { generator, external? } .standard definition path = .ok files) :
    PointsAt (Path.specifierString "index.ts" (Path.joinStrings [path] "index.ts")) files := by
  rw [generateTypings] at h
  split at h
  · cases h
  · next tree htree =>
    unfold implementationTree at htree
    split at htree
    · cases htree
    · exact pointsAt_of_rootTree rfl htree hpath h

theorem pointsAt_of_generateInstance {installed : InstalledIntegration} {path : String}
    (hpath : IsCutAlike [path, Naming.kebabCase installed.name])
    (h : generateInstance { generator, external? } .standard installed path = .ok files) :
    PointsAt (Path.specifierString "index.ts"
      (Path.joinStrings [path, Naming.kebabCase installed.name] "index.ts")) files := by
  obtain ⟨tree, htree, h⟩ := exists_of_bind_eq_ok h
  obtain ⟨own, hown, h⟩ := exists_of_bind_eq_ok h
  obtain ⟨recordPath, -, h⟩ := exists_of_bind_eq_ok h
  split at h
  · cases h
  · cases h
    obtain ⟨f, hf, hresolve⟩ := pointsAt_of_rootTree rfl htree hpath hown
    refine ⟨f, ?_, hresolve⟩
    -- The record stands last.
    rw [Option.mem_def] at hf ⊢
    rw [List.head?_append, hf]
    rfl

/-! ## Indexes -/

/-- The imports of instances are made one by one. -/
theorem forall₂_of_instanceImports {installPath : String} {seen : Entries String}
    {names : List String} {imports : List Typescript.InstanceImport}
    (h : instanceImports .default installPath seen names = .ok imports) :
    List.Forall₂ (fun name i => i = ⟨instanceIdentifier name, Path.specifierString "index.ts"
      (Path.joinStrings [installPath, Naming.kebabCase name] "index.ts"), instanceTypeName name⟩)
      names imports := by
  induction names generalizing seen imports with
  | nil =>
    cases h
    exact .nil
  | cons name rest ih =>
    rw [instanceImports, indexSpecifier_default (List.cons_ne_nil _ _)] at h
    dsimp only at h
    split at h
    · cases h
    · obtain ⟨more, hmore, rfl⟩ := exists_of_map_eq_ok h
      exact .cons rfl (ih hmore)

/-- Under the default layout the index of an integration points at the typings that are generated for
its path; and that of a bot at those of its implementation and of each installed instance.  In both
cases the paths have to be cut alike on both ways. -/
theorem pointsAt_of_indexes (generator : Config) (external? : Option (Json → Except Fault Json))
    (path installPath : String) :
    (∃ specifier, generateIntegrationIndex { generator, external? } path =
        .ok [⟨"index.ts", Typescript.integrationIndexPage generator [specifier]⟩] ∧
      (IsCutAlike [path] → ∀ definition files,
        generateTypings { generator, external? } .standard definition path = .ok files →
          PointsAt specifier files)) ∧
    ∀ names index, generateBotIndex { generator, external? } path installPath names = .ok index →
      ∃ implementation imports text, index = [⟨"index.ts", text⟩] ∧
        Typescript.botIndexPage generator implementation imports = .ok text ∧
        (IsCutAlike [path] → ∀ definition files,
          generateTypings { generator, external? } .standard definition path = .ok files →
            PointsAt implementation files) ∧
        List.Forall₂ (fun name i => i.identifier = instanceIdentifier name ∧
          i.typeName = instanceTypeName name ∧
          (IsCutAlike [installPath, Naming.kebabCase name] → ∀ installed files,
            installed.name = name →
            generateInstance { generator, external? } .standard installed installPath = .ok files →
              PointsAt i.specifier files)) names imports := by
  have hspecifier := indexSpecifier_default (List.cons_ne_nil path [])
  refine ⟨⟨_, ?_, fun hpath _ _ => pointsAt_of_generateTypings hpath⟩, ?_⟩
  · simp only [generateIntegrationIndex, hspecifier, indexFiles_default, bind, Except.bind]
  · intro names index h
    obtain ⟨imports, himports, h⟩ := exists_of_bind_eq_ok h
    obtain ⟨implementation, himplementation, h⟩ := exists_of_bind_eq_ok h
    obtain ⟨text, htext, hindex⟩ := exists_of_bind_eq_ok h
    simp only [hspecifier, Except.ok.injEq] at himplementation
    simp only [indexFiles_default, Except.ok.injEq] at hindex
    subst himplementation hindex
    refine ⟨_, imports, text, rfl, eq_ok_of_mapError_eq_ok htext,
      fun hpath _ _ => pointsAt_of_generateTypings hpath, ?_⟩
    refine (forall₂_of_instanceImports himports).imp ?_
    rintro name i rfl
    refine ⟨rfl, rfl, ?_⟩
    rintro hpath installed files rfl
    exact pointsAt_of_generateInstance hpath

end

/-- An installed instance with a full stop in its name. -/
def dottedInstance : InstalledIntegration :=
  { name := "up.low", version := "1.0.0", id := "i", configuration := textSchema }

theorem sectionTrees_dottedInstance : sectionTrees {} .standard (.instance dottedInstance) =
    .ok (instanceSections [] [] [] []) :=
  sectionTrees_instance rfl rfl rfl rfl rfl

theorem exists_files_dottedInstance :
    ∃ files, generateInstance {} .standard dottedInstance "bots/../bot" = .ok files := by
  refine exists_ok_of_isSome_toOption ?_
  simp only [generateInstance, instanceTree, rootTree, sectionTrees_dottedInstance,
    Typescript.exportedNames_metadataSource, OutputTree.flatten_eq]
  decide +kernel

/-- Paths that are spelled with detours are cut alike. -/
theorem pointsAt_of_indexes_detours :
    ∃ index typings own,
      generateBotIndex {} "/out/./typings//" "bots/../bot" ["up.low"] = .ok index ∧
      generateTypings {} .standard eventBot "/out/./typings//" = .ok typings ∧
      generateInstance {} .standard dottedInstance "bots/../bot" = .ok own ∧
      ∃ implementation imports text, index = [⟨"index.ts", text⟩] ∧
        Typescript.botIndexPage .default implementation imports = .ok text ∧
        PointsAt implementation typings ∧ imports.length = 1 ∧ ∀ i ∈ imports, PointsAt i.specifier own := by
  obtain ⟨index, hindex⟩ : ∃ index, generateBotIndex {} "/out/./typings//" "bots/../bot" ["up.low"] =
      .ok index := exists_ok_of_isSome_toOption (by decide +kernel)
  obtain ⟨typings, htypings⟩ : ∃ typings, generateTypings {} .standard eventBot "/out/./typings//" =
      .ok typings := by
    refine exists_ok_of_isSome_toOption ?_
    simp only [generateTypings, implementationTree, rootTree, sectionTrees_eventBot,
      OutputTree.flatten_eq]
    decide +kernel
  obtain ⟨own, hown⟩ := exists_files_dottedInstance
  refine ⟨index, typings, own, hindex, htypings, hown, ?_⟩
  obtain ⟨implementation, imports, text, hfile, hpage, himplementation, hrow⟩ :=
    (pointsAt_of_indexes .default none "/out/./typings//" "bots/../bot").2 _ index hindex
  have hpath : IsCutAlike ["/out/./typings//"] :=
    ⟨List.cons_ne_nil _ _, by simp, by simp⟩
  have hinstall : IsCutAlike ["bots/../bot", Naming.kebabCase "up.low"] :=
    ⟨List.cons_ne_nil _ _, by decide +kernel, by decide +kernel⟩
  refine ⟨implementation, imports, text, hfile, hpage, himplementation hpath _ _ htypings,
    hrow.length_eq.symm, fun i hi => ?_⟩
  obtain ⟨name, hname, -, -, hpoints⟩ := exists_left_of_forall₂ hrow hi
  obtain rfl := List.mem_singleton.mp hname
  exact hpoints hinstall dottedInstance own rfl hown

/-- A backslash parts directories where the files go but not in the specifier, so going up from it
leads to different places. -/
theorem not_pointsAt_of_backslash :
    ∃ specifier files, generateIntegrationIndex {} "out/gen\\x/../typings" =
        .ok [⟨"index.ts", Typescript.integrationIndexPage .default [specifier]⟩] ∧
      generateTypings {} .standard eventBot "out/gen\\x/../typings" = .ok files ∧
      ¬PointsAt specifier files := by
  have hpath : (generateTypings {} .standard eventBot "out/gen\\x/../typings").toOption.map
      (·.head?.map File.path) = some (some "out/gen/typings/index.ts") := by
    simp only [generateTypings, implementationTree, rootTree, sectionTrees_eventBot,
      OutputTree.flatten_eq]
    decide +kernel
  obtain ⟨files, hfiles, hhead⟩ := exists_ok_of_map_toOption hpath
  have hspecifier : Path.specifierString "index.ts"
      (Path.joinStrings ["out/gen\\x/../typings"] "index.ts") = "./out/typings/index" := by
    decide +kernel
  refine ⟨"./out/typings/index", files, ?_, hfiles, ?_⟩
  · simp only [generateIntegrationIndex, indexSpecifier_default (List.cons_ne_nil _ _),
      hspecifier, indexFiles_default, bind, Except.bind]
  · rintro ⟨root, hroot, hresolve⟩
    have hroot : root.path = "out/gen/typings/index.ts" := by
      rw [Option.mem_def.mp hroot] at hhead
      exact Option.some.inj hhead
    rw [hroot] at hresolve
    exact absurd hresolve (by decide +kernel)

end SchemaTypings
