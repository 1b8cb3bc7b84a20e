/-
  SchemaTypings.Proofs.Output.Site

  Where the files of a tree have to go.  A site is a module with a path and the components that lead
  to it from the root: the directories of all modules above it and its own, then its path.  A tree is
  flattened to one file for each site, in pre-order, at the place that a strict walk along the
  components finds; if a walk leaves the root or two end at one place, there are no files.
-/
import SchemaTypings.Proofs.Output.Files
import SchemaTypings.Proofs.Path.Place
import SchemaTypings.Proofs.Rows
import Mathlib.Data.List.Nodup

namespace SchemaTypings

open SchemaTypings.Path (Component IsName IsSegment place? written)

/-! ## Modules as they are built -/

namespace OutputModule

/-- Construction and moves see to it that the directories of a module are segments and that its path
is in normal form. -/
structure IsBuilt (m : OutputModule) : Prop where
  directories : ∀ d ∈ m.directories, IsSegment d.toList
  ownPath : ∀ path, m.ownPath? = some path → Path.IsNormal path.toList

theorem isNormal_of_normalPath {path normal : String} (h : normalPath path = .ok normal) :
    Path.IsNormal normal.toList := by
  rw [normalPath] at h
  split at h
  · next found hfound =>
    cases h
    obtain ⟨cs, hcs, rfl⟩ := Option.map_eq_some_iff.mp hfound
    rw [String.toList_ofList]
    exact Path.isNormal_of_normalize? hcs
  · cases h

/-- The path of a source is the one that the description gives, in normal form. -/
theorem Description.ownPath?_of_source {d : Description} {m : OutputModule}
    (h : d.source = .ok m.source) :
    d.path? = none ∧ m.ownPath? = none ∨ ∃ given normal, d.path? = some given ∧
      normalPath given = .ok normal ∧ m.ownPath? = some normal := by
  have htext : ∀ make : String → String → ModuleSource, d.textSource make = .ok m.source →
      ∃ given normal text, d.path? = some given ∧ normalPath given = .ok normal ∧
        m.source = make normal text := by
    intro make hmake
    rw [textSource] at hmake
    -- content has a path; a re-export has one or none
    split at hmake
    · cases hmake
    · cases hmake
    · next text given _ hgiven =>
      split at hmake
      · cases hmake
      · obtain ⟨normal, hnormal, hsource⟩ := exists_of_map_eq_ok hmake
        exact ⟨given, normal, text, hgiven, hnormal, hsource.symm⟩
  rw [source] at h
  rw [ownPath?]
  split at h
  · obtain ⟨given, normal, text, hgiven, hnormal, hsource⟩ := htext _ h
    exact .inr ⟨given, normal, hgiven, hnormal, by rw [hsource]⟩
  · obtain ⟨given, normal, text, hgiven, hnormal, hsource⟩ := htext _ h
    exact .inr ⟨given, normal, hgiven, hnormal, by rw [hsource]⟩
  · split at h
    · cases h
    · split at h
      · next hnone =>
        injection h with hsource
        exact .inl ⟨hnone, by rw [← hsource]⟩
      · next given hgiven =>
        obtain ⟨normal, hnormal, hsource⟩ := exists_of_map_eq_ok h
        exact .inr ⟨given, normal, hgiven, hnormal, by rw [← hsource]⟩

/-- The path of a source that a description gives is in normal form. -/
theorem Description.isNormal_of_source {d : Description} {m : OutputModule}
    (h : d.source = .ok m.source) {path : String} (hpath : m.ownPath? = some path) :
    Path.IsNormal path.toList := by
  rcases ownPath?_of_source h with ⟨-, hnone⟩ | ⟨given, normal, -, hnormal, hsome⟩
  · rw [hnone] at hpath
    cases hpath
  · rw [hsome] at hpath
    cases hpath
    exact isNormal_of_normalPath hnormal

theorem source_of_ofDescription {d : Description} {m : OutputModule} (h : ofDescription d = .ok m) :
    d.source = .ok m.source ∧ m.directories = [] := by
  obtain ⟨source, hsource, rfl⟩ := exists_of_map_eq_ok h
  exact ⟨hsource, rfl⟩

theorem isBuilt_of_ofDescription {d : Description} {m : OutputModule}
    (h : ofDescription d = .ok m) : m.IsBuilt := by
  obtain ⟨hsource, hdirectories⟩ := source_of_ofDescription h
  exact ⟨by simp [hdirectories], fun path => Description.isNormal_of_source hsource⟩

theorem isSegment_of_mem_cleanSegments {segments : List String} {d : String}
    (h : d ∈ cleanSegments segments) : IsSegment d.toList := by
  obtain ⟨segment, -, hd⟩ := List.mem_flatMap.mp h
  obtain ⟨c, hc, rfl⟩ := List.mem_map.mp hd
  obtain ⟨hmem, hkeep⟩ := List.mem_filter.mp hc
  have hsome := of_decide_eq_true hkeep
  rw [String.toList_ofList]
  exact Path.isSegment_of_mem_components hmem hsome.1 hsome.2

theorem IsBuilt.moveUnder {m : OutputModule} (h : m.IsBuilt) (segments : List String) :
    (m.moveUnder segments).IsBuilt where
  directories := by
    intro d hd
    rcases List.mem_append.mp hd with hd | hd
    · exact isSegment_of_mem_cleanSegments hd
    · exact h.directories d hd
  ownPath := h.ownPath

/-- A path behind directories is the place that all of them lead to, written down. -/
theorem place_eq_ok_iff {ds : List String} (hds : ∀ d ∈ ds, IsSegment d.toList) {path : String}
    (hpath : Path.IsNormal path.toList) {normal : String} :
    place ("" :: ds) path = .ok normal ↔
      ∃ p, place? (ds.map String.toList ++ Path.components path.toList) = some p ∧
        String.ofList (written p) = normal := by
  have hsegments : ∀ d ∈ ds.map String.toList, IsSegment d := by
    intro d hd
    obtain ⟨segment, hsegment, rfl⟩ := List.mem_map.mp hd
    exact hds segment hsegment
  have hjoin := Path.normalize?_join hsegments hpath.isRooted hpath.not_mem_backslash
  have hnormal : Path.normalizeString? (Path.joinStrings ("" :: ds) path) =
      ((place? (ds.map String.toList ++ Path.components path.toList)).map written).map String.ofList := by
    rw [Path.normalizeString?, Path.joinStrings, String.toList_ofList, List.map_cons]
    exact congrArg _ hjoin
  rw [place]
  simp only [hnormal]
  cases place? (ds.map String.toList ++ Path.components path.toList) with
  | none => simp
  | some p => simp

end OutputModule

/-! ## Sites -/

/-- A module with a path, and the components that lead to its file from the root. -/
structure Site where
  module : OutputModule
  route : List Component

/-- The components of directories, both slashes parting them. -/
def directoryRoute (directories : List String) : List Component :=
  directories.flatMap fun d => Path.components (Path.withSlashes d.toList)

mutual
/-- The sites in a tree below the given components, parents first. -/
def sitesOf (base : List Component) : OutputTree → List Site
  | .node m children =>
    let below := base ++ directoryRoute m.directories
    (m.ownPath?.map fun path =>
      ⟨m, below ++ Path.components (Path.withSlashes path.toList)⟩).toList ++ sitesOfAll below children

/-- The sites in trees below the given components, parents first. -/
def sitesOfAll (base : List Component) : List OutputTree → List Site
  | [] => []
  | t :: rest => sitesOf base t ++ sitesOfAll base rest
end

/-- The sites in a tree, parents first. -/
def OutputTree.sites (t : OutputTree) : List Site := sitesOf [] t

/-- Whether a placed tree has its root at the place that a site's components lead to. -/
structure IsSiteOf (site : Site) (t : PlacedTree) : Prop where
  module : t.value.module = site.module
  place : ∃ p, place? site.route = some p ∧ (∀ c ∈ p, IsName c) ∧
    t.value.path? = some (String.ofList (written p))

theorem directoryRoute_of_isSegment {ds : List String} (h : ∀ d ∈ ds, IsSegment d.toList) :
    directoryRoute ds = ds.map String.toList := by
  induction ds with
  | nil => rfl
  | cons d rest ih =>
    rw [List.forall_mem_cons] at h
    rw [directoryRoute, List.flatMap_cons, h.1.components_withSlashes, ← directoryRoute, ih h.2]
    rfl

/-- The root of a tree has its file at its site, or no path and no site. -/
theorem forall₂_isSiteOf_root {m : OutputModule} (hm : m.IsBuilt) {ds : List String}
    (hds : ∀ d ∈ ds, IsSegment d.toList) {path? : Option String}
    (h : m.placed? ("" :: ds) = .ok path?) (below : List PlacedTree) :
    List.Forall₂ IsSiteOf
      (m.ownPath?.map fun path =>
        (⟨m, ds.map String.toList ++ Path.components (Path.withSlashes path.toList)⟩ : Site)).toList
      ([Tree.node ⟨m, path?⟩ below].filter hasPath) := by
  rw [OutputModule.placed?] at h
  cases hown : m.ownPath? with
  | none =>
    rw [hown] at h
    cases h
    exact .nil
  | some path =>
    rw [hown] at h
    obtain ⟨normal, hnormal, rfl⟩ := exists_of_map_eq_ok h
    have hpath := hm.ownPath path hown
    obtain ⟨p, hp, rfl⟩ := (OutputModule.place_eq_ok_iff hds hpath).mp hnormal
    have hsame := Path.withSlashes_eq_self hpath.not_mem_backslash
    have hsegments : ∀ c ∈ ds.map String.toList ++ Path.components path.toList,
        c ≠ [] → c ≠ Path.here → IsSegment c := by
      intro c hc hne hhere
      rcases List.mem_append.mp hc with hc | hc
      · obtain ⟨d, hd, rfl⟩ := List.mem_map.mp hc
        exact hds d hd
      · exact Path.isSegment_of_mem_components (hsame.symm ▸ hc) hne hhere
    refine .cons ⟨rfl, p, ?_, Path.isName_of_place? hsegments hp, rfl⟩ .nil
    dsimp only
    rw [hsame]
    exact hp

mutual
/-- A tree of built modules is placed with its files at its sites. -/
theorem forall₂_isSiteOf : (t : OutputTree) → (∀ m ∈ t.toList, m.IsBuilt) →
    ∀ ds : List String, (∀ d ∈ ds, IsSegment d.toList) →
      ∀ placed, placeTree ("" :: ds) t = .ok placed →
        List.Forall₂ IsSiteOf (sitesOf (ds.map String.toList) t) (placed.subtrees.filter hasPath)
  | .node m children => by
    intro hbuilt ds hds placed h
    rw [Tree.toList, List.forall_mem_cons] at hbuilt
    have hboth : ∀ d ∈ ds ++ m.directories, IsSegment d.toList := by
      intro d hd
      exact (List.mem_append.mp hd).elim (hds d) (hbuilt.1.directories d)
    have hroute : ds.map String.toList ++ directoryRoute m.directories =
        (ds ++ m.directories).map String.toList := by
      rw [directoryRoute_of_isSegment hbuilt.1.directories, List.map_append]
    obtain ⟨path?, below, hpath, hbelow, rfl⟩ := exists_of_placeTree_node h
    have hroot := forall₂_isSiteOf_root hbuilt.1 hboth hpath below
    have hrest := forall₂_isSiteOf_all children hbuilt.2 _ hboth below hbelow
    have hsplit : (Tree.node ⟨m, path?⟩ below).subtrees.filter hasPath =
        [Tree.node ⟨m, path?⟩ below].filter hasPath ++ (Tree.subtreesAll below).filter hasPath := by
      rw [Tree.subtrees, ← List.singleton_append, List.filter_append]
    rw [sitesOf, hsplit]
    rw [hroute]
    exact List.rel_append hroot hrest

/-- Trees of built modules are placed with their files at their sites. -/
theorem forall₂_isSiteOf_all : (ts : List OutputTree) → (∀ m ∈ Tree.toListAll ts, m.IsBuilt) →
    ∀ ds : List String, (∀ d ∈ ds, IsSegment d.toList) →
      ∀ placed, placeTrees ("" :: ds) ts = .ok placed →
        List.Forall₂ IsSiteOf (sitesOfAll (ds.map String.toList) ts)
          ((Tree.subtreesAll placed).filter hasPath)
  | [] => by
    intro _ ds _ placed h
    cases h
    exact .nil
  | t :: rest => by
    intro hbuilt ds hds placed h
    rw [Tree.toListAll, List.forall_mem_append] at hbuilt
    obtain ⟨first, more, hfirst, hmore, rfl⟩ := exists_of_placeTrees_cons h
    rw [sitesOfAll, Tree.subtreesAll, List.filter_append]
    exact List.rel_append (forall₂_isSiteOf t hbuilt.1 ds hds first hfirst)
      (forall₂_isSiteOf_all rest hbuilt.2 ds hds more hmore)
end

/-! ## Files at sites -/

/-- Whether a file stands at the place that a site's components lead to, with the text of a content
module as it is. -/
structure IsFileAt (site : Site) (f : File) : Prop where
  place : ∃ p, place? site.route = some p ∧ f.path = String.ofList (written p)
  text : ∀ path text, site.module.source = .content path text → f.content = text

/-- Whether a path stays below the root and does not begin with a slash. -/
def IsInside (path : String) : Prop :=
  Path.isRooted path.toList = false ∧ Path.above ∉ Path.components path.toList

theorem isInside_written {p : List Component} (h : ∀ c ∈ p, IsName c) :
    IsInside (String.ofList (written p)) := by
  rw [IsInside, String.toList_ofList]
  refine ⟨Path.isRooted_written h, ?_⟩
  cases hp : p with
  | nil => decide
  | cons c rest =>
    rw [hp] at h
    rw [Path.components_written h (List.cons_ne_nil _ _)]
    intro hmem
    exact (h _ hmem).ne_above rfl

theorem isFileAt_of_isSiteOf {fallback : IndexRenderer} {site : Site} {t : PlacedTree} {f : File}
    (hsite : IsSiteOf site t) (hfile : IsFileOf fallback t f) : IsFileAt site f ∧ IsInside f.path := by
  obtain ⟨p, hp, hnames, hpath⟩ := hsite.place
  have hsame : f.path = String.ofList (written p) :=
    Option.some.inj (hfile.path.symm.trans hpath)
  refine ⟨⟨⟨p, hp, hsame⟩, ?_⟩, ?_⟩
  · intro path text hsource
    have htext := hfile.text
    rw [fileText, hsite.module, hsource] at htext
    cases htext
    rfl
  · rw [hsame]
    exact isInside_written hnames

/-- A built tree is flattened to one file for each site, parents first, with pairwise different paths
inside the root. -/
theorem OutputTree.forall₂_isFileAt_of_flatten {t : OutputTree} (hbuilt : ∀ m ∈ t.toList, m.IsBuilt)
    {fallback? : Option IndexRenderer} {files : List File} (h : t.flatten fallback? = .ok files) :
    List.Forall₂ (fun site f => IsFileAt site f ∧ IsInside f.path) t.sites files ∧
      (files.map File.path).Nodup := by
  obtain ⟨placed, hplaced, hfiles, hnodup⟩ := flatten_eq_ok_iff.mp h
  have hsites := forall₂_isSiteOf t hbuilt [] (by simp) placed hplaced
  refine ⟨?_, hnodup⟩
  refine (forall₂_comp hsites hfiles).imp ?_
  rintro site f ⟨placed, hsite, hfile⟩
  exact isFileAt_of_isSiteOf hsite hfile

/-- Files at sites have their sites at pairwise different places below the root. -/
theorem places_of_forall₂_isFileAt {sites : List Site} {files : List File}
    (h : List.Forall₂ IsFileAt sites files) (hnodup : (files.map File.path).Nodup) :
    (∀ site ∈ sites, place? site.route ≠ none) ∧ (sites.map fun site => place? site.route).Nodup := by
  have hpaths : files.map File.path = (sites.map fun site => place? site.route).map fun place =>
      String.ofList (written (place.getD [])) := by
    induction h with
    | nil => rfl
    | cons hhead _ ih =>
      obtain ⟨p, hp, hpath⟩ := hhead.place
      rw [List.map_cons, List.nodup_cons] at hnodup
      rw [List.map_cons, List.map_cons, List.map_cons, ih hnodup.2, hp, hpath]
      rfl
  refine ⟨?_, List.Nodup.of_map _ (hpaths ▸ hnodup)⟩
  intro site hsite hnone
  obtain ⟨f, -, hf⟩ := exists_right_of_forall₂ h hsite
  obtain ⟨p, hp, -⟩ := hf.place
  rw [hp] at hnone
  cases hnone

end SchemaTypings
