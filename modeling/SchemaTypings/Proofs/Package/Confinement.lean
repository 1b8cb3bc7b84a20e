/-
  SchemaTypings.Proofs.Package.Confinement

  No name in a definition places a file outside the directory that the typings go to.  Every module
  below the root of a tree goes into directories with names and to a path that ends in a name; so its
  file lies below the place that the path of the typings leads to, wherever that is.
-/
import SchemaTypings.Proofs.Naming.Kebab
import SchemaTypings.Proofs.Output.Relocation
import SchemaTypings.Proofs.Package.Trees
import SchemaTypings.Proofs.Path.Directory

namespace SchemaTypings

open SchemaTypings.Path (Component IsName place? written)

/-! ## Confined modules -/

/-- Whether a module goes down from the directory that it is put into. -/
structure OutputModule.IsConfined (m : OutputModule) : Prop where
  directories : ∀ d ∈ m.directories, IsName d.toList
  ownPath : ∀ path, m.ownPath? = some path → IsDeep path

namespace OutputModule

variable {m : OutputModule}

theorem IsConfined.isBuilt (h : m.IsConfined) : m.IsBuilt where
  directories d hd := (h.directories d hd).toIsSegment
  ownPath path hpath := by
    obtain ⟨p, hp, -, rfl⟩ := h.ownPath path hpath
    exact .inr ⟨p, hp, String.toList_ofList⟩

theorem IsConfined.moveUnder (h : m.IsConfined) {segments : List String}
    (hsegments : ∀ d ∈ cleanSegments segments, IsName d.toList) :
    (m.moveUnder segments).IsConfined where
  directories d hd := (List.mem_append.mp hd).elim (hsegments d) (h.directories d)
  ownPath := h.ownPath

/-- A module that is described with a path that ends in a name is confined. -/
theorem isConfined_of_ofDescription {d : Description} (h : ofDescription d = .ok m)
    (hpath : ∀ path ∈ d.path?, Path.EndsInName path.toList) : m.IsConfined := by
  obtain ⟨hsource, hdirectories⟩ := source_of_ofDescription h
  refine ⟨by simp [hdirectories], fun path hown => ?_⟩
  rcases Description.ownPath?_of_source hsource with
    ⟨-, hnone⟩ | ⟨given, normal, hgiven, hnormal, hsome⟩
  · rw [hnone] at hown
    cases hown
  rw [hsome] at hown
  cases hown
  rw [normalPath] at hnormal
  split at hnormal
  · next normal hsome =>
    cases hnormal
    obtain ⟨cs, hcs, rfl⟩ := Option.map_eq_some_iff.mp hsome
    obtain ⟨p, hp, hne, rfl⟩ := (hpath given hgiven).exists_place hcs
    exact ⟨p, hp, hne, rfl⟩
  · cases hnormal

/-- The directories that segments name are those of their components that lead somewhere. -/
theorem map_toList_cleanSegments (segments : List String) :
    (cleanSegments segments).map String.toList =
      (segments.flatMap fun d => Path.components (Path.withSlashes d.toList)).filter
        fun c => c ≠ [] ∧ c ≠ Path.here := by
  have hsame : ∀ cs : List Component, (cs.map String.ofList).map String.toList = cs := fun cs =>
    (List.map_map ..).trans
      ((List.map_congr_left fun c _ => String.toList_ofList).trans (List.map_id _))
  rw [cleanSegments, List.map_flatMap, List.filter_flatMap]
  simp only [hsame]

/-- A text without full stops is cut into names. -/
theorem isName_of_mem_cleanSegments {segment d : String} (hdot : '.' ∉ segment.toList)
    (h : d ∈ cleanSegments [segment]) : IsName d.toList := by
  refine ⟨isSegment_of_mem_cleanSegments h, fun habove => hdot ?_⟩
  rw [cleanSegments, List.flatMap_singleton] at h
  obtain ⟨c, hc, rfl⟩ := List.mem_map.mp h
  rw [String.toList_ofList] at habove
  have hmem : '.' ∈ Path.withSlashes segment.toList :=
    Text.mem_of_mem_splitAt (List.mem_filter.mp hc).1 (by simp [habove, Path.above])
  obtain ⟨e, he, heq⟩ := List.mem_map.mp hmem
  split at heq
  · cases heq
  · exact heq ▸ he

theorem isName_of_mem_cleanSegments_kebabCase {name d : String}
    (h : d ∈ cleanSegments [Naming.kebabCase name]) : IsName d.toList := by
  refine isName_of_mem_cleanSegments ?_ h
  rw [Naming.kebabCase, String.toList_ofList]
  exact Naming.dot_not_mem_kebab name.toList

end OutputModule

/-! ## Confined trees -/

/-- Whether all modules of a tree are confined. -/
def OutputTree.IsConfined (t : OutputTree) : Prop := ∀ m ∈ t.toList, m.IsConfined

/-- Whether a route leads from a directory down to something in it. -/
def LeadsBelow (base route : List Component) : Prop :=
  ∃ below, below ≠ [] ∧ (∀ c ∈ below, IsName c) ∧ route = base ++ below

/-- The sites below a module that adds directories to those in front of it. -/
theorem leadsBelow_of_mem_sitesOf_node {m : OutputModule} (base : List Component)
    {front names : List Component} {children : List OutputTree}
    (hdirectories : directoryRoute m.directories = front ++ names)
    (hnames : ∀ c ∈ names, IsName c) (hpath : ∀ path, m.ownPath? = some path → IsDeep path)
    (hchildren : ∀ base, ∀ site ∈ sitesOfAll base children, LeadsBelow base site.route) :
    ∀ site ∈ sitesOf base (.node m children), LeadsBelow (base ++ front) site.route := by
  have hbelow : ∀ {route}, LeadsBelow (base ++ (front ++ names)) route →
      LeadsBelow (base ++ front) route := by
    rintro route ⟨below, hne, hbelow, rfl⟩
    refine ⟨names ++ below, List.append_ne_nil_of_right_ne_nil _ hne, ?_, by simp⟩
    exact fun c hc => (List.mem_append.mp hc).elim (hnames c) (hbelow c)
  intro site hsite
  rw [sitesOf, hdirectories, List.mem_append] at hsite
  rcases hsite with hown | hsite
  · obtain ⟨path, hsome, rfl⟩ := Option.map_eq_some_iff.mp (Option.mem_toList.mp hown)
    obtain ⟨p, hp, hne, rfl⟩ := hpath path hsome
    refine hbelow ⟨p, hne, hp, ?_⟩
    rw [String.toList_ofList, Path.withSlashes_eq_self (Path.not_mem_backslash_written hp),
      Path.components_written hp hne]
  · exact hbelow (hchildren _ site hsite)

mutual
/-- Every site in a confined tree is below the directory of the tree. -/
theorem leadsBelow_of_mem_sitesOf : (t : OutputTree) → t.IsConfined →
    ∀ base, ∀ site ∈ sitesOf base t, LeadsBelow base site.route
  | .node m children => by
    intro h base
    rw [OutputTree.IsConfined, Tree.toList, List.forall_mem_cons] at h
    have hdirectories := directoryRoute_of_isSegment h.1.isBuilt.directories
    have hnode := leadsBelow_of_mem_sitesOf_node base
      (hdirectories.trans (List.nil_append _).symm)
      (by rw [List.forall_mem_map]; exact h.1.directories) h.1.ownPath
      (leadsBelow_of_mem_sitesOfAll children h.2)
    rwa [List.append_nil] at hnode

/-- Every site in confined trees is below their directory. -/
theorem leadsBelow_of_mem_sitesOfAll : (ts : List OutputTree) →
    (∀ m ∈ Tree.toListAll ts, m.IsConfined) →
      ∀ base, ∀ site ∈ sitesOfAll base ts, LeadsBelow base site.route
  | [] => by simp [sitesOfAll]
  | t :: rest => by
    intro h base site hsite
    rw [Tree.toListAll, List.forall_mem_append] at h
    rcases List.mem_append.mp hsite with hsite | hsite
    · exact leadsBelow_of_mem_sitesOf t h.1 base site hsite
    · exact leadsBelow_of_mem_sitesOfAll rest h.2 base site hsite
end

/-! ## Confined files -/

/-- Whether a file lies strictly inside the directory that a path normalises to. -/
def IsWithin (path file : String) : Prop :=
  ∃ directory, Path.normalizeString? path = some directory ∧ Path.IsDirectoryOf directory file ∧
    IsInside file

/-- What a strict walk finds below the directories of a path is within the path. -/
theorem isWithin_of_place? {path : String} {names p : List Component} (hne : names ≠ [])
    (hnames : ∀ c ∈ names, IsName c)
    (h : place? ((OutputModule.cleanSegments [path]).map String.toList ++ names) = some p) :
    IsWithin path (String.ofList (written p)) := by
  rw [OutputModule.map_toList_cleanSegments, List.flatMap_singleton, Path.place?_filter,
    Path.place?_append_isName _ hnames] at h
  obtain ⟨q, hq, rfl⟩ := Option.map_eq_some_iff.mp h
  obtain ⟨normal, hnormal, hplace⟩ := Path.exists_normalize?_of_place? hq
  have hall : ∀ c ∈ q ++ names, IsName c := by
    have hq := Path.isName_of_place? (fun c hc => Path.isSegment_of_mem_components hc) hq
    exact fun c hc => (List.mem_append.mp hc).elim (hq c) (hnames c)
  refine ⟨String.ofList normal, by rw [Path.normalizeString?, hnormal]; rfl, ⟨q, names, hne, ?_, ?_⟩,
    isInside_written hall⟩
  · rwa [String.toList_ofList]
  · rw [String.toList_ofList]
    exact Path.place?_components_written hall

/-- A confined tree that is moved under a path and more directories with names has its files within
the path. -/
theorem isWithin_of_flatten {t : OutputTree} (ht : t.IsConfined) {path : String} {more : List String}
    (hmore : ∀ d ∈ OutputModule.cleanSegments more, IsName d.toList) {files : List File}
    (h : (t.moveUnder (path :: more)).flatten = .ok files) :
    ∀ f ∈ files, IsWithin path f.path := by
  obtain ⟨m, children⟩ := t
  rw [OutputTree.IsConfined, Tree.toList, List.forall_mem_cons] at ht
  have hmoved := ht.1.isBuilt.moveUnder (path :: more)
  have hbuilt : ∀ n ∈ (OutputTree.moveUnder (.node m children) (path :: more)).toList, n.IsBuilt :=
    List.forall_mem_cons.mpr ⟨hmoved, fun n hn => (ht.2 n hn).isBuilt⟩
  -- In front of the names there are only the directories of the path.
  let front := (OutputModule.cleanSegments [path]).map String.toList
  let names := (OutputModule.cleanSegments more).map String.toList ++ m.directories.map String.toList
  have hnames : ∀ c ∈ names, IsName c := by
    rw [List.forall_mem_append, List.forall_mem_map, List.forall_mem_map]
    exact ⟨hmore, ht.1.directories⟩
  have hdirectories : directoryRoute (m.moveUnder (path :: more)).directories = front ++ names := by
    rw [directoryRoute_of_isSegment hmoved.directories, OutputModule.moveUnder,
      OutputModule.cleanSegments, List.flatMap_cons]
    simp [front, names, OutputModule.cleanSegments]
  have hbelow := leadsBelow_of_mem_sitesOf_node [] hdirectories hnames ht.1.ownPath
    (leadsBelow_of_mem_sitesOfAll children ht.2)
  intro f hf
  obtain ⟨site, hsite, hfile, -⟩ :=
    exists_left_of_forall₂ (OutputTree.forall₂_isFileAt_of_flatten hbuilt h).1 hf
  obtain ⟨below, hne, hrow, hroute⟩ := hbelow site hsite
  obtain ⟨p, hp, hpath⟩ := hfile.place
  rw [hroute, List.nil_append] at hp
  rw [hpath]
  exact isWithin_of_place? hne hrow hp

/-! ## Typings -/

section
variable {generator : Config} {external? : Option (Json → Except Fault Json)}
  {definition : Definition} {path : String} {files : List File}

theorem endsInName_fileName (t : Toolkit) (hextension : t.layout.fileExtension = ".ts")
    (name : String) : Path.EndsInName (t.fileName name).toList := by
  rw [Toolkit.fileName, hextension, String.toList_append]
  exact Path.endsInName_append _ (by decide) (by decide) (by decide)

theorem endsInName_indexFile : Path.EndsInName "index.ts".toList :=
  Path.endsInName_append [] (by decide) (by decide) (by decide)

/-- The trees of the sections are confined. -/
theorem isConfined_of_builds {tree : OutputTree}
    (h : Toolkit.Builds { generator, external? } tree) : tree.IsConfined := by
  refine Toolkit.forall_toList_of_builds (fun d m hm hpath => ?_) (fun m name hm => ?_) h
  · refine OutputModule.isConfined_of_ofDescription hm ?_
    rcases hpath with hpath | ⟨name, hpath⟩
    · rw [hpath]
      rintro _ ⟨rfl⟩
      exact endsInName_indexFile
    · intro path hmem
      obtain rfl := Option.some.inj (hpath.symm.trans hmem)
      exact endsInName_fileName _ rfl name
  · exact hm.moveUnder fun d => OutputModule.isName_of_mem_cleanSegments_kebabCase

/-- A tree over the sections of a definition. -/
theorem exists_of_rootTree {t : Toolkit} {root : OutputModule.Description} {tree : OutputTree}
    (h : rootTree t .standard definition root = .ok tree) : ∃ m trees,
      OutputModule.ofDescription root = .ok m ∧ sectionTrees t .standard definition = .ok trees ∧
        .node m trees = tree := by
  rw [rootTree] at h
  split at h
  · cases h
  · next m hm =>
    obtain ⟨trees, htrees, htree⟩ := exists_of_map_eq_ok h
    exact ⟨m, trees, hm, htrees, htree⟩

/-- A tree over the sections is confined. -/
theorem isConfined_of_rootTree {root : OutputModule.Description} (hroot : root.path? = some "index.ts")
    {tree : OutputTree} (h : rootTree { generator, external? } .standard definition root = .ok tree) :
    tree.IsConfined := by
  obtain ⟨m, trees, hm, htrees, rfl⟩ := exists_of_rootTree h
  refine List.forall_mem_cons.mpr ⟨OutputModule.isConfined_of_ofDescription hm ?_, ?_⟩
  · rw [hroot]
    rintro _ ⟨rfl⟩
    exact endsInName_indexFile
  · exact Tree.forall_mem_toListAll.mpr fun child hchild =>
      isConfined_of_builds (builds_of_sectionTrees htrees child hchild)

/-- The files of the module tree of a definition: those of `Toolkit.generate` without the record of an
instance's metadata. -/
def Toolkit.treeFiles (t : Toolkit) (definition : Definition) (path : String) :
    Except Failure (List File) :=
  match definition with
  | .instance installed =>
    match instanceTree t .standard installed with
    | .error e => .error e
    | .ok tree => (tree.moveUnder [path, Naming.kebabCase installed.name]).flatten
  | _ => generateTypings t .standard definition path

/-- Whether a file is at the place of the record of an instance's metadata. -/
def IsRecordOf (t : Toolkit) (definition : Definition) (path : String) (f : File) : Prop :=
  ∃ installed, definition = .instance installed ∧
    metadataPath t path (Naming.kebabCase installed.name) = .ok f.path

/-- Besides the files of the module tree there is at most the record of an instance's metadata. -/
theorem exists_treeFiles_of_generate {t : Toolkit} (h : t.generate definition path = .ok files) :
    ∃ own, ∃ record? : Option File, t.treeFiles definition path = .ok own ∧
      files = own ++ record?.toList ∧ ∀ record ∈ record?, IsRecordOf t definition path record := by
  rcases definition with b | i | installed
  · exact ⟨files, none, h, by simp, by simp⟩
  · exact ⟨files, none, h, by simp, by simp⟩
  · obtain ⟨tree, htree, h⟩ := exists_of_bind_eq_ok h
    obtain ⟨own, hown, h⟩ := exists_of_bind_eq_ok h
    obtain ⟨recordPath, hrecord, h⟩ := exists_of_bind_eq_ok h
    split at h
    · cases h
    · cases h
      refine ⟨own, some _, ?_, rfl, ?_⟩
      · rw [Toolkit.treeFiles, htree]
        exact hown
      · rintro _ ⟨rfl⟩
        exact ⟨installed, rfl, hrecord⟩

theorem isWithin_of_generateTypings
    (h : generateTypings { generator, external? } .standard definition path = .ok files) :
    ∀ f ∈ files, IsWithin path f.path := by
  rw [generateTypings] at h
  split at h
  · cases h
  · next tree htree =>
    unfold implementationTree at htree
    split at htree
    · cases htree
    · exact isWithin_of_flatten (isConfined_of_rootTree rfl htree)
        (by simp [OutputModule.cleanSegments]) h

/-- Under the default layout, whatever the names in a definition are and wherever external schemas
come from, all files of the module tree lie strictly inside the directory that the path normalises to;
and the whole of the files is the module tree's, for an instance with the record of its metadata. -/
theorem isWithin_of_treeFiles (generator : Config) (external? : Option (Json → Except Fault Json))
    (definition : Definition) (path : String) :
    (∀ files, Toolkit.treeFiles { generator, external? } definition path = .ok files →
      ∀ f ∈ files, IsWithin path f.path) ∧
    ∀ files, Toolkit.generate { generator, external? } definition path = .ok files →
      ∃ own, ∃ record? : Option File,
        Toolkit.treeFiles { generator, external? } definition path = .ok own ∧
        files = own ++ record?.toList ∧
        ∀ record ∈ record?, IsRecordOf { generator, external? } definition path record := by
  refine ⟨fun files h => ?_, fun files => exists_treeFiles_of_generate⟩
  rcases definition with b | i | installed
  · exact isWithin_of_generateTypings h
  · exact isWithin_of_generateTypings h
  · rw [Toolkit.treeFiles] at h
    split at h
    · cases h
    · next tree htree =>
      exact isWithin_of_flatten (isConfined_of_rootTree rfl htree)
        (fun d => OutputModule.isName_of_mem_cleanSegments_kebabCase) h

end

/-- An installed instance whose names try to climb. -/
def climbingInstance : InstalledIntegration :=
  { name := "../../up", version := "1.0.0", id := "i"
    configuration := textSchema
    events := [("../../etc/passwd", ⟨textSchema, {}⟩)]
    channels := [("..\\chat", { messages := [("/", ⟨textSchema, {}⟩)] })] }

/-- The places of the files for the climbing names. -/
def climbingPaths : List String :=
  ["index.ts", "configuration/index.ts", "configuration/configuration.ts", "events/index.ts",
    "events/-/etc/passwd.ts", "states/index.ts", "actions/index.ts", "channels/index.ts",
    "channels/chat/index.ts", "channels/chat/.ts"].map ("bots/-/up/" ++ ·)

/-- The trees of the sections of the instance. -/
def climbingTrees : List OutputTree :=
  instanceSections
    [OutputTree.leaf (textModule "EtcPasswd" "EtcPasswd" "-/etc/passwd.ts" (some "../../etc/passwd"))]
    [] [] [Toolkit.sectionOf "Chat" "..\\chat"
      [OutputTree.leaf (textModule "Chatfield" "Chatfield" ".ts" (some "/"))] ["chat"]]

theorem sectionTrees_climbingInstance :
    sectionTrees {} .standard (.instance climbingInstance) = .ok climbingTrees := by
  have hevent : Toolkit.eventModule {} "../../etc/passwd" ⟨textSchema, {}⟩ = .ok (.leaf
      (textModule "EtcPasswd" "EtcPasswd" "-/etc/passwd.ts" (some "../../etc/passwd"))) :=
    Toolkit.eventModule_textSchema (by decide +kernel) (by decide +kernel) (by decide +kernel)
  have hmessage : Toolkit.messageModule {} "Chat" "/" ⟨textSchema, {}⟩ =
      .ok (.leaf (textModule "Chatfield" "Chatfield" ".ts" (some "/"))) :=
    Toolkit.messageModule_textSchema (by decide +kernel) (by decide +kernel) (by decide +kernel)
  have hchannel : Toolkit.channelModule {} "..\\chat" { messages := [("/", ⟨textSchema, {}⟩)] } =
      .ok (Toolkit.sectionOf "Chat" "..\\chat"
        [OutputTree.leaf (textModule "Chatfield" "Chatfield" ".ts" (some "/"))] ["chat"]) :=
    Toolkit.channelModule_default (by decide +kernel) (by decide +kernel)
      (Toolkit.buildEach_eq_ok_iff.mpr (.cons hmessage .nil))
  exact sectionTrees_instance rfl (Toolkit.buildEach_eq_ok_iff.mpr (.cons hevent .nil)) rfl rfl
    (Toolkit.buildEach_eq_ok_iff.mpr (.cons hchannel .nil))

/-- The files of an instance with climbing names stay inside. -/
theorem isWithin_of_treeFiles_climbing :
    ∃ files, Toolkit.treeFiles {} (.instance climbingInstance) "a/../bots" = .ok files ∧
      files.map File.path = climbingPaths ∧ ∀ f ∈ files, IsWithin "a/../bots" f.path := by
  have hpaths : (Toolkit.treeFiles {} (.instance climbingInstance) "a/../bots").toOption.map
      (·.map File.path) = some climbingPaths := by
    simp only [Toolkit.treeFiles, instanceTree, rootTree, sectionTrees_climbingInstance,
      Typescript.exportedNames_metadataSource, OutputTree.flatten_eq]
    decide +kernel
  obtain ⟨files, hfiles, hpaths⟩ := exists_ok_of_map_toOption hpaths
  exact ⟨files, hfiles, hpaths,
    (isWithin_of_treeFiles .default none (.instance climbingInstance) "a/../bots").1 files hfiles⟩

end SchemaTypings
