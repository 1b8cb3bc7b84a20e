/-
  SchemaTypings.Proofs.Package.Quoting

  What the import and export lines of generated indexes have between their quotes.  Each is the
  specifier of another file, put there as it is.  Kebab names have no line ends and paths have no
  backslashes, so of all characters only a quote is read as anything else.
-/
import SchemaTypings.Proofs.Package.Pointing
import SchemaTypings.Proofs.Package.Unambiguous
import SchemaTypings.Proofs.Typescript.IndexLines

namespace SchemaTypings

open Json (textUnits)
open SchemaTypings.Path (Component IsName place? written)
open Typescript (IsUnbroken IsWholeWord exportLine importLine readSpecifier? specifierLines)

/-! ## Routes without line ends -/

/-- A text that stays on one line. -/
def IsOnLine (text : List Char) : Prop := ∀ c ∈ text, c ≠ '\n' ∧ c ≠ '\r'

instance (text : List Char) : Decidable (IsOnLine text) := List.decidableBAll _ text

theorem isOnLine_components {path : List Char} (h : IsOnLine path) :
    ∀ c ∈ Path.components (Path.withSlashes path), IsOnLine c := by
  intro piece hpiece c hc
  obtain ⟨d, hd, heq⟩ := List.mem_map.mp (Text.mem_of_mem_splitAt hpiece hc)
  split at heq
  · rw [← heq]
    decide
  · exact heq ▸ h d hd

theorem isOnLine_kebabCase (name : String) : IsOnLine (Naming.kebabCase name).toList := by
  intro c hc
  rw [Naming.kebabCase, String.toList_ofList] at hc
  have hnot : ∀ d ∈ ['\n', '\r'], c ≠ d := by
    rintro d hd rfl
    have hseparates : ∀ d ∈ ['\n', '\r'], Text.isUnmade d = true ∧ d ≠ '-' ∧
        Naming.isSeparator d = true := List.all_iff_forall_prop.mp (by decide)
    obtain ⟨hunmade, hdash, hseparator⟩ := hseparates c hd
    rcases Naming.mem_of_mem_kebab hc hunmade with heq | ⟨-, hother⟩
    · exact hdash heq
    · rw [hseparator] at hother
      cases hother
  exact ⟨hnot '\n' (by decide), hnot '\r' (by decide)⟩

/-- Whether the components that a module adds to a route stay on one line. -/
structure OutputModule.IsRoutedOnLine (m : OutputModule) : Prop where
  directories : ∀ c ∈ directoryRoute m.directories, IsOnLine c
  ownPath : ∀ path, m.ownPath? = some path →
    ∀ c ∈ Path.components (Path.withSlashes path.toList), IsOnLine c

theorem OutputModule.IsRoutedOnLine.moveUnder {m : OutputModule} (h : m.IsRoutedOnLine)
    {segments : List String}
    (hsegments : ∀ c ∈ (OutputModule.cleanSegments segments).map String.toList, IsOnLine c) :
    (m.moveUnder segments).IsRoutedOnLine where
  directories := by
    have hclean : ∀ d ∈ OutputModule.cleanSegments segments, Path.IsSegment d.toList := fun d hd =>
      OutputModule.isSegment_of_mem_cleanSegments hd
    have hroute := directoryRoute_of_isSegment hclean
    rw [directoryRoute] at hroute
    rw [OutputModule.moveUnder, directoryRoute, List.flatMap_append, List.forall_mem_append, hroute]
    exact ⟨hsegments, h.directories⟩
  ownPath := h.ownPath

mutual
/-- What the modules of a tree add to the routes of its sites stays on one line. -/
theorem exists_onLine_of_mem_sitesOf : (t : OutputTree) → (∀ m ∈ t.toList, m.IsRoutedOnLine) →
    ∀ base, ∀ site ∈ sitesOf base t, ∃ below, site.route = base ++ below ∧
      ∀ c ∈ below, IsOnLine c
  | .node m children => by
    intro h base site hsite
    rw [Tree.toList, List.forall_mem_cons] at h
    rw [sitesOf, List.mem_append] at hsite
    rcases hsite with hown | hsite
    · obtain ⟨path, hpath, rfl⟩ := Option.map_eq_some_iff.mp (Option.mem_toList.mp hown)
      refine ⟨_, List.append_assoc _ _ _, ?_⟩
      exact List.forall_mem_append.mpr ⟨h.1.directories, h.1.ownPath path hpath⟩
    · obtain ⟨below, hroute, hbelow⟩ := exists_onLine_of_mem_sitesOfAll children h.2 _ site hsite
      refine ⟨directoryRoute m.directories ++ below, by rw [hroute, List.append_assoc], ?_⟩
      exact List.forall_mem_append.mpr ⟨h.1.directories, hbelow⟩

/-- What the modules of trees add to the routes of their sites stays on one line. -/
theorem exists_onLine_of_mem_sitesOfAll : (ts : List OutputTree) →
    (∀ m ∈ Tree.toListAll ts, m.IsRoutedOnLine) → ∀ base, ∀ site ∈ sitesOfAll base ts,
      ∃ below, site.route = base ++ below ∧ ∀ c ∈ below, IsOnLine c
  | [] => by simp [sitesOfAll]
  | t :: rest => by
    intro h base site hsite
    rw [Tree.toListAll, List.forall_mem_append] at h
    rcases List.mem_append.mp hsite with hsite | hsite
    · exact exists_onLine_of_mem_sitesOf t h.1 base site hsite
    · exact exists_onLine_of_mem_sitesOfAll rest h.2 base site hsite
end

section
variable {generator : Config} {external? : Option (Json → Except Fault Json)}

/-- The sections put their files at paths out of kebab names. -/
theorem isRoutedOnLine_of_builds {tree : OutputTree}
    (h : Toolkit.Builds { generator, external? } tree) : ∀ m ∈ tree.toList, m.IsRoutedOnLine := by
  have hindex : IsOnLine "index.ts".toList := by decide
  have hextension : IsOnLine ".ts".toList := by decide
  refine Toolkit.forall_toList_of_builds (fun d m hm hpath => ?_) (fun m name hm => ?_) h
  · obtain ⟨hsource, hdirectories⟩ := OutputModule.source_of_ofDescription hm
    have hgiven : ∀ path, d.path? = some path → IsOnLine path.toList := by
      intro path hgiven
      rcases hpath with hpath | ⟨name, hpath⟩
      · obtain rfl := Option.some.inj (hpath.symm.trans hgiven)
        exact hindex
      · obtain rfl := Option.some.inj (hpath.symm.trans hgiven)
        rw [Toolkit.fileName, String.toList_append]
        exact List.forall_mem_append.mpr ⟨isOnLine_kebabCase name, hextension⟩
    refine ⟨by simp [hdirectories, directoryRoute], fun path hown => isOnLine_components ?_⟩
    rcases OutputModule.Description.ownPath?_of_source hsource with
      ⟨-, hnone⟩ | ⟨given, normal, hsome, hnormal, hsame⟩
    · rw [hnone] at hown
      cases hown
    · obtain rfl := Option.some.inj (hsame.symm.trans hown)
      rw [OutputModule.normalPath] at hnormal
      split at hnormal
      · next text htext =>
        cases hnormal
        obtain ⟨cs, hcs, rfl⟩ := Option.map_eq_some_iff.mp htext
        rw [String.toList_ofList]
        exact Path.forall_mem_normalize? (p := fun c => c ≠ '\n' ∧ c ≠ '\r') (by decide) (by decide)
          (hgiven given hsome) hcs
      · cases hnormal
  · refine hm.moveUnder ?_
    rw [OutputModule.map_toList_cleanSegments, List.flatMap_singleton]
    intro c hc
    exact isOnLine_components (isOnLine_kebabCase name) c (List.mem_filter.mp hc).1

/-- Files of a tree over sections that is moved have nothing but text without line ends in their
paths behind a directory that all share. -/
theorem exists_front_of_rootTree {definition : Definition} {root : OutputModule.Description}
    (hroot : root.path? = some "index.ts") {tree : OutputTree}
    (h : rootTree { generator, external? } .standard definition root = .ok tree)
    {segments : List String} {files : List File}
    (hfiles : (tree.moveUnder segments).flatten = .ok files) :
    ∃ front : List Component, ∀ f ∈ files, ∃ rest, rest ≠ [] ∧
      Path.components f.path.toList = front ++ rest ∧ ∀ c ∈ rest, IsOnLine c := by
  have hconfined := isConfined_of_rootTree hroot h
  obtain ⟨m, trees, hm, htrees, rfl⟩ := exists_of_rootTree h
  rw [OutputTree.IsConfined, Tree.toList, List.forall_mem_cons] at hconfined
  have hbuilt : ∀ n ∈ (OutputTree.moveUnder (.node m trees) segments).toList, n.IsBuilt :=
    List.forall_mem_cons.mpr
      ⟨hconfined.1.isBuilt.moveUnder segments, fun n hn => (hconfined.2 n hn).isBuilt⟩
  have honLine : ∀ n ∈ Tree.toListAll trees, n.IsRoutedOnLine :=
    Tree.forall_mem_toListAll.mpr fun child hchild =>
      isRoutedOnLine_of_builds (builds_of_sectionTrees htrees child hchild)
  let base := (OutputModule.cleanSegments segments).map String.toList
  -- every route is that of the root and then names that the builders have made
  have hsites := sites_moveUnder (ownPath?_of_ofDescription hm hroot)
    (OutputModule.source_of_ofDescription hm).2 trees segments
  have hroutes : ∀ site ∈ OutputTree.sites (OutputTree.moveUnder (.node m trees) segments),
      ∃ below, below ≠ [] ∧ (∀ c ∈ below, IsName c) ∧ (∀ c ∈ below, IsOnLine c) ∧
        site.route = base ++ below := by
    rw [hsites, List.forall_mem_cons]
    refine ⟨⟨[indexName], List.cons_ne_nil _ _, ?_, ?_, rfl⟩, fun site hsite => ?_⟩
    · exact List.forall_mem_singleton.mpr isName_indexName
    · exact List.forall_mem_singleton.mpr (by decide)
    · obtain ⟨below, hne, hnames, hroute⟩ :=
        leadsBelow_of_mem_sitesOfAll trees hconfined.2 base site hsite
      obtain ⟨other, hother, hline⟩ := exists_onLine_of_mem_sitesOfAll trees honLine base site hsite
      obtain rfl : below = other := List.append_cancel_left (hroute.symm.trans hother)
      exact ⟨below, hne, hnames, hline, hroute⟩
  -- what is in front is resolved alike for all files; what is below stays as it is
  refine ⟨(place? base).getD [], fun f hf => ?_⟩
  obtain ⟨site, hsite, hfile, -⟩ :=
    exists_left_of_forall₂ (OutputTree.forall₂_isFileAt_of_flatten hbuilt hfiles).1 hf
  obtain ⟨below, hne, hnames, hline, hroute⟩ := hroutes site hsite
  obtain ⟨p, hp, hpath⟩ := hfile.place
  rw [hroute, Path.place?_append_isName _ hnames] at hp
  obtain ⟨q, hq, rfl⟩ := Option.map_eq_some_iff.mp hp
  have hall : ∀ c ∈ q ++ below, IsName c := by
    have hbase := Path.isName_of_place? (fun c hc _ _ => ?_) hq
    · exact List.forall_mem_append.mpr ⟨hbase, hnames⟩
    · obtain ⟨d, hd, rfl⟩ := List.mem_map.mp hc
      exact OutputModule.isSegment_of_mem_cleanSegments hd
  refine ⟨below, hne, ?_, hline⟩
  rw [hpath, String.toList_ofList, Path.components_written hall
    (List.append_ne_nil_of_right_ne_nil _ hne), hq]
  rfl

end

/-! ## Words in indexes -/

/-- Whether a module is content, or else writes words only into its index page. -/
structure OutputModule.WritesWords (config : Config) (m : OutputModule) : Prop where
  exportName : IsWholeWord m.exportName
  aggregate : ∀ name ∈ m.aggregate?, IsWholeWord name
  text : m.kind ≠ .content → m.text? = none
  renderer : m.kind ≠ .content → m.renderer? = some (Typescript.renderer config)

/-- An index without a text of its own. -/
theorem OutputModule.writesWords_of_reexport {config : Config} {m : OutputModule}
    {path? : Option String} (hname : IsWholeWord m.exportName)
    (haggregate : ∀ name ∈ m.aggregate?, IsWholeWord name)
    (hsource : m.source = .reexport path? m.aggregate?)
    (hrenderer : m.renderer? = some (Typescript.renderer config)) : m.WritesWords config where
  exportName := hname
  aggregate := haggregate
  text _ := by rw [text?, hsource]
  renderer _ := hrenderer

theorem OutputModule.WritesWords.moveUnder {config : Config} {m : OutputModule}
    (h : m.WritesWords config) (segments : List String) :
    (m.moveUnder segments).WritesWords config :=
  ⟨h.exportName, h.aggregate, h.text, h.renderer⟩

/-- The modules of the sections write words into their indexes. -/
theorem writesWords_of_builds {t : Toolkit} {tree : OutputTree} (h : t.Builds tree) :
    ∀ m ∈ tree.toList, m.WritesWords t.generator := by
  have hcontent : ∀ {m : OutputModule} {path text : String}, IsWholeWord m.exportName →
      m.source = .content path text → ∀ n ∈ (OutputTree.leaf m).toList,
        n.WritesWords t.generator := by
    intro m path text hname hsource
    have hkind : m.kind = .content := by rw [OutputModule.kind, hsource]
    refine List.forall_mem_singleton.mpr ⟨hname, ?_, fun hne => absurd hkind hne,
      fun hne => absurd hkind hne⟩
    rw [OutputModule.aggregate?, hsource]
    intro name hname
    cases hname
  -- a content module only has to be named by a word; what is asked of an index does not concern it
  induction h with
  | content hname _ htree =>
    obtain ⟨normal, text, -, -, rfl⟩ := Toolkit.exists_of_contentModule htree
    exact hcontent hname rfl
  | secrets htree =>
    obtain ⟨environment, -, htree⟩ := exists_of_bind_eq_ok htree
    obtain ⟨text, -, htree⟩ := exists_of_bind_eq_ok htree
    obtain ⟨m, hm, htree⟩ := exists_of_bind_eq_ok htree
    cases htree
    obtain ⟨source, hsource, rfl⟩ := exists_of_map_eq_ok (eq_ok_of_mapError_eq_ok hm)
    obtain ⟨normal, -, rfl⟩ := exists_of_map_eq_ok hsource
    have hname : IsWholeWord "Secrets" := by decide
    exact hcontent hname rfl
  | index hname haggregate hm _ ih =>
    obtain ⟨path, rfl⟩ := Toolkit.exists_of_indexModule hm
    refine List.forall_mem_cons.mpr ⟨OutputModule.writesWords_of_reexport hname ?_ rfl rfl, ?_⟩
    · intro name hmem
      rw [(haggregate name hmem).1]
      exact hname
    · exact Tree.forall_mem_toListAll.mpr ih
  | @moved tree name _ ih =>
    obtain ⟨m, children⟩ := tree
    rw [Tree.toList, List.forall_mem_cons] at ih
    exact List.forall_mem_cons.mpr ⟨ih.1.moveUnder _, ih.2⟩

/-! ## Indexes among the typings -/

/-- Whether a file among the typings of a definition is an index: the module that is placed at its path
is not content. -/
def IsIndexFile (t : Toolkit) (definition : Definition) (path : String) (f : File) : Prop :=
  ∃ tree placed, implementationTree t .standard definition = .ok tree ∧
    placeTree [""] (tree.moveUnder [path]) = .ok placed ∧
      ∃ u ∈ placed.subtrees, u.value.path? = some f.path ∧ u.value.module.kind ≠ .content

/-- Whether a line of an index takes something by a specifier: one type, or all that there is. -/
def TakesFrom (line : List Char) (specifier : String) : Prop :=
  line = exportLine specifier ∨
    ∃ name, IsWholeWord name ∧ line = importLine ⟨name, specifier⟩

/-- What a line of an index has between its quotes is read as the specifier that it is for, unless
there is a quote in it. -/
theorem TakesFrom.readSpecifier?_eq_iff {line : List Char} {specifier : String}
    (h : TakesFrom line specifier) (hspecifier : IsUnbroken specifier.toList) :
    readSpecifier? line = some (textUnits specifier.toList) ↔ '\'' ∉ specifier.toList := by
  rcases h with rfl | ⟨name, hname, rfl⟩
  · exact Typescript.readSpecifier?_exportLine_eq_iff hspecifier
  · exact Typescript.readSpecifier?_importLine_eq_iff hname hspecifier

section
variable {config : Config} {fallback : IndexRenderer} {m : OutputModule} {path text : String}
  {children : List PlacedTree}

/-- The lines with specifiers in an index take from modules below it. -/
theorem takesFrom_of_fileText (hheader : Typescript.Finds (Text.lines config.header.plain.toList) [])
    (hm : m.WritesWords config) (hkind : m.kind ≠ .content)
    (hnames : ∀ t ∈ children, IsWholeWord t.value.module.exportName)
    (hspecifiers : ∀ w ∈ Tree.subtreesAll children, ∀ target, w.value.path? = some target →
      IsUnbroken (Path.specifierString path target).toList)
    (h : fileText fallback m path children = .ok text) :
    ∀ line ∈ specifierLines text, ∃ w ∈ Tree.subtreesAll children, ∃ target,
      w.value.path? = some target ∧ TakesFrom line (Path.specifierString path target) := by
  obtain ⟨view, hview, hpage⟩ := (fileText_eq_ok_iff hkind).mp h
  rw [hm.renderer hkind] at hpage
  obtain ⟨-, members, hmembers, rfl⟩ := indexView_eq_ok_iff.mp hview
  have hlisted : ∀ member ∈ members, IsWholeWord member.2.1 ∧
      ∃ w ∈ Tree.subtreesAll children, w.value.path? = some member.2.2 := by
    intro member hmember
    obtain ⟨t, ht, -, hname, htarget⟩ := exists_isListed_of_membersOf hmembers member hmember
    exact ⟨hname ▸ hnames t ht, t, Tree.mem_subtreesAll_of_mem ht, htarget⟩
  have hlined : (viewOf m path children members).IsLined := by
    refine ⟨?_, ?_, ?_, hm.aggregate, ?_⟩
    · rw [viewOf, hm.text hkind]
      rfl
    · refine List.forall_mem_map.mpr fun member hmember => ?_
      obtain ⟨hname, w, hw, htarget⟩ := hlisted member hmember
      exact ⟨hname, (hspecifiers w hw _ htarget).newline_not_mem⟩
    · refine List.forall_mem_map.mpr fun target htarget => ?_
      obtain ⟨w, hw, hpath⟩ := mem_exportedPathsAll children target htarget
      exact (hspecifiers w hw target hpath).newline_not_mem
    · exact List.forall_mem_map.mpr fun member hmember => (hlisted member hmember).1
  -- a page quotes a specifier in its imports and in its exports, and nowhere else
  rw [Typescript.specifierLines_indexPage hheader hlined hpage, List.forall_mem_append]
  constructor
  · rw [List.forall_mem_map]
    refine List.forall_mem_map.mpr fun member hmember => ?_
    obtain ⟨hname, w, hw, htarget⟩ := hlisted member hmember
    exact ⟨w, hw, _, htarget, .inr ⟨_, hname, rfl⟩⟩
  · rw [List.forall_mem_map]
    refine List.forall_mem_map.mpr fun target htarget => ?_
    obtain ⟨w, hw, hpath⟩ := mem_exportedPathsAll children target htarget
    exact ⟨w, hw, _, hpath, .inl rfl⟩

end

section
variable {external? : Option (Json → Except Fault Json)} {definition : Definition} {path : String}
  {files : List File}

/-- An implementation is a tree over sections with an index at its root. -/
theorem exists_root_of_implementationTree {t : Toolkit} {tree : OutputTree}
    (h : implementationTree t .standard definition = .ok tree) :
    ∃ root, root.path? = some t.layout.indexFile ∧ rootTree t .standard definition root = .ok tree ∧
      ∀ m, OutputModule.ofDescription root = .ok m → m.WritesWords t.generator := by
  unfold implementationTree at h
  split at h
  · cases h
  · refine ⟨_, rfl, h, fun m hm => ?_⟩
    obtain ⟨source, hsource, rfl⟩ := exists_of_map_eq_ok hm
    obtain ⟨normal, -, rfl⟩ := exists_of_map_eq_ok hsource
    have hname : IsWholeWord "Implementation" := by decide
    exact OutputModule.writesWords_of_reexport hname (by rintro _ ⟨⟩) rfl rfl

/-- The modules of an implementation that is moved are built and write words. -/
theorem forall_toList_of_implementationTree {tree : OutputTree}
    (h : implementationTree { external? } .standard definition = .ok tree) (segments : List String) :
    ∀ m ∈ (tree.moveUnder segments).toList, m.IsBuilt ∧ m.WritesWords .default := by
  obtain ⟨root, hroot, htree, hwords⟩ := exists_root_of_implementationTree h
  have hconfined := isConfined_of_rootTree hroot htree
  obtain ⟨m, trees, hm, htrees, rfl⟩ := exists_of_rootTree htree
  rw [OutputTree.IsConfined, Tree.toList, List.forall_mem_cons] at hconfined
  have hbelow : ∀ n ∈ Tree.toListAll trees, n.WritesWords .default :=
    Tree.forall_mem_toListAll.mpr fun child hchild =>
      writesWords_of_builds (builds_of_sectionTrees htrees child hchild)
  exact List.forall_mem_cons.mpr
    ⟨⟨hconfined.1.isBuilt.moveUnder _, (hwords m hm).moveUnder _⟩,
      fun n hn => ⟨(hconfined.2 n hn).isBuilt, hbelow n hn⟩⟩

/-- Specifiers between an index of an implementation and the files below it need no escapes but for
quotes. -/
theorem isUnbroken_specifierString {tree : OutputTree}
    (h : implementationTree { external? } .standard definition = .ok tree) {segments : List String}
    (hfiles : (tree.moveUnder segments).flatten = .ok files) {placed : PlacedTree}
    (hplaced : IsFlattened placed files) : ∀ u ∈ placed.subtrees,
      ∀ w ∈ Tree.subtreesAll u.children, ∀ source, u.value.path? = some source →
        ∀ target, w.value.path? = some target →
          IsUnbroken (Path.specifierString source target).toList := by
  obtain ⟨root, hroot, htree, -⟩ := exists_root_of_implementationTree h
  obtain ⟨front, hfront⟩ := exists_front_of_rootTree hroot htree hfiles
  have hchars : ∀ f ∈ files, ∃ rest, rest ≠ [] ∧ Path.components f.path.toList = front ++ rest ∧
      ∀ c ∈ rest, ∀ d ∈ c, d ≠ '\\' → d ≠ '\\' ∧ d ≠ '\n' ∧ d ≠ '\r' := by
    intro f hf
    obtain ⟨rest, hne, hcomponents, hrest⟩ := hfront f hf
    exact ⟨rest, hne, hcomponents, fun c hc d hd hbackslash => ⟨hbackslash, hrest c hc d hd⟩⟩
  exact hplaced.forall_mem_specifier (by decide) (by decide) hchars

/-- The file at the path of a placed module is the module's. -/
theorem isFileOf_of_path {fallback : IndexRenderer} {placed u : PlacedTree} (hu : u ∈ placed.subtrees)
    (hfiles : List.Forall₂ (IsFileOf fallback) (placed.subtrees.filter hasPath) files)
    (hnodup : (files.map File.path).Nodup) {f : File} (hf : f ∈ files)
    (hpath : u.value.path? = some f.path) : IsFileOf fallback u f := by
  have hmem : u ∈ placed.subtrees.filter hasPath :=
    List.mem_filter.mpr ⟨hu, by rw [hasPath, hpath]; rfl⟩
  obtain ⟨own, hown, hfile⟩ := exists_right_of_forall₂ hfiles hmem
  have hsame : own.path = f.path := Option.some.inj (hfile.path.symm.trans hpath)
  rwa [List.inj_on_of_nodup_map hnodup hown hf hsame] at hfile

theorem finds_defaultHeader :
    Typescript.Finds (Text.lines Config.default.header.plain.toList) [] :=
  ⟨by decide +kernel, by decide +kernel⟩

/-- Under the default settings, whatever the names in a definition are, each import and export line of
an index takes from a generated file by the specifier that leads there, and what stands between its
quotes is read as this specifier exactly if there is no quote in it. -/
theorem readSpecifier?_of_generateTypings
    (h : generateTypings { external? } .standard definition path = .ok files) {f : File}
    (hf : f ∈ files) (hindex : IsIndexFile { external? } definition path f) :
    ∀ line ∈ specifierLines f.content, ∃ g ∈ files,
      TakesFrom line (Path.specifierString f.path g.path) ∧
        (readSpecifier? line = some (textUnits (Path.specifierString f.path g.path).toList) ↔
          '\'' ∉ (Path.specifierString f.path g.path).toList) := by
  obtain ⟨tree, placed, htree, hplaced, u, hu, hupath, hkind⟩ := hindex
  rw [generateTypings, htree] at h
  replace h : (tree.moveUnder [path]).flatten = .ok files := h
  have hmoved := forall_toList_of_implementationTree htree [path]
  have hflat := isFlattened_of_flatten (fun m hm => (hmoved m hm).1) h hplaced
  have hwords : ∀ w ∈ placed.subtrees, w.value.module.WritesWords .default := by
    intro w hw
    refine (hmoved _ ?_).2
    rw [← map_module_of_placeTree _ _ placed hplaced, Tree.toList_map]
    exact List.mem_map.mpr ⟨w.value, Tree.value_mem_toList hw, rfl⟩
  have hbelow : ∀ w ∈ Tree.subtreesAll u.children, w ∈ placed.subtrees := fun w hw =>
    Tree.subtrees_trans placed u hu w (Tree.mem_subtrees_iff.mpr (.inr hw))
  have hunbroken := fun w hw =>
    isUnbroken_specifierString htree h hflat u hu w hw f.path hupath
  obtain ⟨other, hother, hfiles, hnodup⟩ := flatten_eq_ok_iff.mp h
  obtain rfl : other = placed := Except.ok.inj (hother.symm.trans hplaced)
  have hfile := isFileOf_of_path hu hfiles hnodup hf hupath
  intro line hline
  obtain ⟨w, hw, target, htarget, htakes⟩ := takesFrom_of_fileText finds_defaultHeader (hwords u hu) hkind
    (fun t ht => (hwords t (hbelow t (Tree.mem_subtreesAll_of_mem ht))).exportName) hunbroken
    hfile.text line hline
  obtain ⟨g, hg, rfl⟩ := hflat.file w (hbelow w hw) target htarget
  exact ⟨g, hg, htakes, htakes.readSpecifier?_eq_iff (hunbroken w hw g.path htarget)⟩

/-- A module that is placed has its file among the typings. -/
theorem exists_isFileOf_of_generateTypings
    (h : generateTypings { external? } .standard definition path = .ok files) {tree : OutputTree}
    (htree : implementationTree { external? } .standard definition = .ok tree) {placed u : PlacedTree}
    (hplaced : placeTree [""] (tree.moveUnder [path]) = .ok placed) (hu : u ∈ placed.subtrees)
    {place : String} (hpath : u.value.path? = some place) :
    ∃ f ∈ files, f.path = place ∧ IsFileOf defaultRenderer u f := by
  rw [generateTypings, htree] at h
  obtain ⟨other, hother, hfiles, -⟩ := flatten_eq_ok_iff.mp h
  obtain rfl : other = placed := Except.ok.inj (hother.symm.trans hplaced)
  obtain ⟨f, hf, hfile⟩ := exists_right_of_forall₂ hfiles
    (List.mem_filter.mpr ⟨hu, by rw [hasPath, hpath]; rfl⟩)
  exact ⟨f, hf, Option.some.inj (hfile.path.symm.trans hpath), hfile⟩

/-- The file of an index has the page of its view. -/
theorem exists_indexPage_of_generateTypings
    (h : generateTypings { external? } .standard definition path = .ok files) {tree : OutputTree}
    (htree : implementationTree { external? } .standard definition = .ok tree) {placed u : PlacedTree}
    (hplaced : placeTree [""] (tree.moveUnder [path]) = .ok placed) (hu : u ∈ placed.subtrees)
    (hkind : u.value.module.kind ≠ .content) {place : String} (hpath : u.value.path? = some place) :
    ∃ f ∈ files, f.path = place ∧ ∃ view, indexView u.value.module place u.children = .ok view ∧
      Typescript.indexPage .default view = .ok f.content := by
  obtain ⟨f, hf, rfl, hfile⟩ := exists_isFileOf_of_generateTypings h htree hplaced hu hpath
  have hwords : u.value.module.WritesWords .default := by
    refine (forall_toList_of_implementationTree htree [path] _ ?_).2
    rw [← map_module_of_placeTree _ _ placed hplaced, Tree.toList_map]
    exact List.mem_map.mpr ⟨u.value, Tree.value_mem_toList hu, rfl⟩
  obtain ⟨view, hview, hpage⟩ := (fileText_eq_ok_iff hkind).mp hfile.text
  rw [hwords.renderer hkind] at hpage
  exact ⟨f, hf, rfl, view, hview, hpage⟩

end

/-- A bot with an event that has a quote in its name, and a plain one. -/
def quoteBot : Definition :=
  .bot { configuration := textSchema, events := [("it's", ⟨textSchema, {}⟩), ("ready", ⟨textSchema, {}⟩)] }

/-- The import and export lines of the index of the bot's events. -/
def quoteBotLines : List String :=
  ["import type \x7b ItS \x7d from './it's'", "import type \x7b Ready \x7d from './ready'",
    "export * from './it's'", "export * from './ready'"]

/-- The trees of the sections of the bot. -/
def quoteBotTrees : List OutputTree :=
  botSections [OutputTree.leaf (textModule "ItS" "ItS" "it's.ts" (some "it's")),
    OutputTree.leaf (textModule "Ready" "Ready" "ready.ts" (some "ready"))] []

theorem sectionTrees_quoteBot : sectionTrees {} .standard quoteBot = .ok quoteBotTrees := by
  have hquote : Toolkit.eventModule {} "it's" ⟨textSchema, {}⟩ =
      .ok (.leaf (textModule "ItS" "ItS" "it's.ts" (some "it's"))) :=
    Toolkit.eventModule_textSchema (by decide +kernel) (by decide +kernel) (by decide +kernel)
  exact sectionTrees_bot rfl
    (Toolkit.buildEach_eq_ok_iff.mpr (.cons hquote (.cons eventModule_ready .nil))) rfl

theorem exists_files_quoteBot : ∃ files, generateTypings {} .standard quoteBot "out" = .ok files := by
  refine exists_ok_of_isSome_toOption ?_
  simp only [generateTypings, implementationTree, rootTree, sectionTrees_quoteBot,
    OutputTree.flatten_eq]
  decide +kernel

/-- What the index of the bot's events is written from. -/
structure IsQuoteBotView (view : Typescript.IndexView) : Prop where
  content : view.content? = none
  imports : view.imports = [⟨"ItS", "./it's"⟩, ⟨"Ready", "./ready"⟩]
  exports : view.exports = ["./it's", "./ready"]
  aggregate : view.aggregate? = some "Events"
  entries : view.entries = [⟨"it's", "ItS"⟩, ⟨"ready", "Ready"⟩]

theorem IsQuoteBotView.isLined {view : Typescript.IndexView} (h : IsQuoteBotView view) :
    view.IsLined where
  content := by rw [h.content]; rfl
  imports := by rw [h.imports]; decide +kernel
  exports := by rw [h.exports]; decide +kernel
  aggregate := by rw [h.aggregate]; decide +kernel
  entries := by rw [h.entries]; decide +kernel

/-- The index of the bot's events among its placed modules, above the file of the event with the
quote. -/
theorem exists_view_quoteBot :
    ∃ tree placed, implementationTree {} .standard quoteBot = .ok tree ∧
      placeTree [""] (tree.moveUnder ["out"]) = .ok placed ∧
      ∃ u ∈ placed.subtrees, u.value.path? = some "out/events/index.ts" ∧
        u.value.module.kind ≠ .content ∧
        (∃ w ∈ Tree.subtreesAll u.children, w.value.path? = some "out/events/it's.ts") ∧
        ∃ view, indexView u.value.module "out/events/index.ts" u.children = .ok view ∧
          IsQuoteBotView view := by
  let isView (view : Typescript.IndexView) : Bool :=
    view.content? = none ∧ view.imports = [⟨"ItS", "./it's"⟩, ⟨"Ready", "./ready"⟩] ∧
      view.exports = ["./it's", "./ready"] ∧ view.aggregate? = some "Events" ∧
      view.entries = [⟨"it's", "ItS"⟩, ⟨"ready", "Ready"⟩]
  let isIndex (u : PlacedTree) : Bool :=
    u.value.path? = some "out/events/index.ts" ∧ u.value.module.kind ≠ .content ∧
      (∃ w ∈ Tree.subtreesAll u.children, w.value.path? = some "out/events/it's.ts") ∧
      (indexView u.value.module "out/events/index.ts" u.children).toOption.map isView = some true
  have hplaced : (implementationTree {} .standard quoteBot).toOption.map (fun tree =>
      (placeTree [""] (tree.moveUnder ["out"])).toOption.map (·.subtrees.any isIndex)) =
        some (some true) := by
    simp only [implementationTree, rootTree, sectionTrees_quoteBot, placeTree_eq_placeTreeChars]
    decide +kernel
  obtain ⟨tree, htree, hplaced⟩ := exists_ok_of_map_toOption hplaced
  obtain ⟨placed, hplaced, hindex⟩ := exists_ok_of_map_toOption hplaced
  obtain ⟨u, hu, hindex⟩ := List.any_eq_true.mp hindex
  obtain ⟨hpath, hkind, hbelow, hview⟩ := of_decide_eq_true hindex
  obtain ⟨view, hview, hlines⟩ := exists_ok_of_map_toOption hview
  obtain ⟨hcontent, himports, hexports, haggregate, hentries⟩ := of_decide_eq_true hlines
  exact ⟨tree, placed, htree, hplaced, u, hu, hpath, hkind, hbelow, view, hview,
    ⟨hcontent, himports, hexports, haggregate, hentries⟩⟩

/-- The index of the bot's events, and the file of the event with the quote. -/
theorem exists_index_quoteBot :
    ∃ files, generateTypings {} .standard quoteBot "out" = .ok files ∧
      (∃ f ∈ files, f.path = "out/events/index.ts" ∧
        (specifierLines f.content).map String.ofList = quoteBotLines) ∧
      ∃ g ∈ files, g.path = "out/events/it's.ts" := by
  obtain ⟨files, hfiles⟩ := exists_files_quoteBot
  obtain ⟨tree, placed, htree, hplaced, u, hu, hpath, hkind, ⟨w, hw, htarget⟩, view, hview, hlines⟩ :=
    exists_view_quoteBot
  obtain ⟨f, hf, hfpath, page, hpage, htext⟩ :=
    exists_indexPage_of_generateTypings hfiles htree hplaced hu hkind hpath
  obtain rfl : page = view := Except.ok.inj (hpage.symm.trans hview)
  have hbelow : w ∈ placed.subtrees :=
    Tree.subtrees_trans placed u hu w (Tree.mem_subtrees_iff.mpr (.inr hw))
  obtain ⟨g, hg, hgpath, -⟩ := exists_isFileOf_of_generateTypings hfiles htree hplaced hbelow htarget
  refine ⟨files, hfiles, ⟨f, hf, hfpath, ?_⟩, g, hg, hgpath⟩
  rw [Typescript.specifierLines_indexPage finds_defaultHeader hlines.isLined htext, hlines.imports,
    hlines.exports]
  decide +kernel

theorem isIndexFile_quoteBot {f : File} (h : f.path = "out/events/index.ts") :
    IsIndexFile {} quoteBot "out" f := by
  obtain ⟨tree, placed, htree, hplaced, u, hu, hpath, hkind, -⟩ := exists_view_quoteBot
  exact ⟨tree, placed, htree, hplaced, u, hu, h ▸ hpath, hkind⟩

/-- Of the event with the quote the literals are not read as its specifier, of the other they are. -/
theorem readSpecifier?_of_generateTypings_quoteBot :
    ∃ files, generateTypings {} .standard quoteBot "out" = .ok files ∧
      ∃ f ∈ files, f.path = "out/events/index.ts" ∧ (specifierLines f.content).length = 4 ∧
        ∀ line ∈ specifierLines f.content, ∃ g ∈ files,
          TakesFrom line (Path.specifierString f.path g.path) ∧
            (readSpecifier? line = some (textUnits (Path.specifierString f.path g.path).toList) ↔
              '\'' ∉ (Path.specifierString f.path g.path).toList) := by
  obtain ⟨files, hfiles, ⟨f, hf, hpath, hcontent⟩, -⟩ := exists_index_quoteBot
  have hlength := congrArg List.length hcontent
  rw [List.length_map] at hlength
  exact ⟨files, hfiles, f, hf, hpath, hlength,
    readSpecifier?_of_generateTypings hfiles hf (isIndexFile_quoteBot hpath)⟩

/-- A line of an index is not read as the specifier of the file that it takes from. -/
theorem exists_misread_specifier :
    ∃ files, generateTypings {} .standard quoteBot "out" = .ok files ∧
      ∃ f ∈ files, IsIndexFile {} quoteBot "out" f ∧ ∃ g ∈ files,
        ∃ line ∈ specifierLines f.content, TakesFrom line (Path.specifierString f.path g.path) ∧
          readSpecifier? line ≠ some (textUnits (Path.specifierString f.path g.path).toList) := by
  obtain ⟨files, hfiles, ⟨f, hf, hpath, hcontent⟩, g, hg, htarget⟩ := exists_index_quoteBot
  have hspecifier : Path.specifierString f.path g.path = "./it's" := by
    rw [hpath, htarget]
    decide +kernel
  have hread : readSpecifier? (exportLine "./it's") ≠ some (textUnits "./it's".toList) := by
    decide +kernel
  have hline : "export * from './it's'" ∈ (specifierLines f.content).map String.ofList := by
    rw [hcontent]
    decide
  obtain ⟨line, hline, heq⟩ := List.mem_map.mp hline
  have hsame : line = exportLine "./it's" := by
    rw [← String.toList_ofList (l := line), heq]
    decide +kernel
  rw [hsame] at hline
  refine ⟨files, hfiles, f, hf, isIndexFile_quoteBot hpath, g, hg, exportLine "./it's", hline, ?_, ?_⟩
  · rw [hspecifier]
    exact .inl rfl
  · rw [hspecifier]
    exact hread

end SchemaTypings
