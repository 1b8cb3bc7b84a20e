/-
  SchemaTypings.Proofs.Output.Relocation

  Moving a whole tree under more directories.  The files keep their order and their texts, and the
  directories stand in front of every path.  The texts stay because a page names other files only by
  specifiers, and these depend on what lies behind the common beginning of two places.
-/
import SchemaTypings.Proofs.Output.Site
import SchemaTypings.Proofs.Path.Specifier

namespace SchemaTypings

open SchemaTypings.Path (Component IsName IsSegment place? written)
open Typescript (IndexView)

/-! ## Paths with directories in front -/

/-- A path with directories in front. -/
def pathUnder (front : List String) (path : String) : String :=
  Text.joinStrings "/" (front ++ [path])

/-- A file with directories in front of its path. -/
def File.under (front : List String) (f : File) : File := { f with path := pathUnder front f.path }

theorem pathUnder_injective (front : List String) : (pathUnder front).Injective := by
  intro p q h
  have hchars := congrArg String.toList h
  simp only [pathUnder, Text.joinStrings, String.toList_ofList, List.map_append, List.map_cons,
    List.map_nil] at hchars
  apply String.toList_inj.mp
  by_cases hfront : front.map String.toList = []
  · rw [hfront] at hchars
    exact hchars
  · rw [Text.joinWith_concat _ hfront, Text.joinWith_concat _ hfront] at hchars
    exact List.append_cancel_left hchars

/-- A path that leads to a place other than the root. -/
def IsDeep (path : String) : Prop :=
  ∃ p, (∀ c ∈ p, IsName c) ∧ p ≠ [] ∧ path = String.ofList (written p)

theorem pathUnder_written {front : List String} {p : List Component} (hne : p ≠ []) :
    pathUnder front (String.ofList (written p)) =
      String.ofList (written (front.map String.toList ++ p)) := by
  have hsep : "/".toList = ['/'] := by decide
  rw [Path.written_of_ne_nil (List.append_ne_nil_of_right_ne_nil _ hne), Path.written_of_ne_nil hne,
    pathUnder, Text.joinStrings, hsep, List.map_append, List.map_singleton, String.toList_ofList,
    Text.joinWith_append_joinWith _ hne]

/-- Moving two files under one directory does not change the specifier between them. -/
theorem specifierString_pathUnder {front : List String} (hfront : ∀ d ∈ front, IsName d.toList)
    {source target : String} (hsource : IsDeep source) (htarget : IsDeep target) :
    Path.specifierString (pathUnder front source) (pathUnder front target) =
      Path.specifierString source target := by
  obtain ⟨p, hp, hpne, rfl⟩ := hsource
  obtain ⟨q, hq, hqne, rfl⟩ := htarget
  have hnames : ∀ c ∈ front.map String.toList, IsName c := by
    intro c hc
    obtain ⟨d, hd, rfl⟩ := List.mem_map.mp hc
    exact hfront d hd
  rw [pathUnder_written hpne, pathUnder_written hqne, Path.specifierString, Path.specifierString]
  simp only [String.toList_ofList]
  rw [Path.specifier_written_append (Path.forall_isProper hnames) (Path.forall_isProper hp)
    (Path.forall_isProper hq) hpne]

/-! ## Placed trees with other paths -/

/-- A placed module with its path changed. -/
def PlacedModule.rename (f : String → String) (m : PlacedModule) : PlacedModule :=
  { m with path? := m.path?.map f }

/-- A placed tree with all paths changed. -/
abbrev PlacedTree.rename (f : String → String) (t : PlacedTree) : PlacedTree :=
  t.map (PlacedModule.rename f)

section
variable (f : String → String)

theorem hasPath_rename (t : PlacedTree) : hasPath (t.rename f) = hasPath t := by
  obtain ⟨⟨m, path?⟩, children⟩ := t
  cases path? <;> rfl

mutual
theorem exportedPaths_rename : (t : PlacedTree) →
    exportedPaths (t.rename f) = (exportedPaths t).map f
  | .node ⟨m, path?⟩ children => by
    rw [PlacedTree.rename, Tree.map, exportedPaths, exportedPaths]
    cases path? with
    | none => exact exportedPathsAll_rename children
    | some path => rfl

theorem exportedPathsAll_rename : (ts : List PlacedTree) →
    exportedPathsAll (Tree.mapAll (PlacedModule.rename f) ts) = (exportedPathsAll ts).map f
  | [] => rfl
  | t :: rest => by
    rw [Tree.mapAll, exportedPathsAll, exportedPathsAll, List.map_append,
      ← exportedPaths_rename t, exportedPathsAll_rename rest]
end

mutual
theorem exportedNamesOf_rename : (t : PlacedTree) →
    (exportedNamesOf (t.rename f)).map Prod.fst = (exportedNamesOf t).map Prod.fst
  | .node ⟨m, path?⟩ children => by
    have hown : ∀ path : String, (m.declaredNames.map fun name => (name, path)).map Prod.fst =
        m.declaredNames := by
      intro path
      rw [List.map_map]
      exact List.map_id _
    have hbelow := exportedNamesAll_rename children
    rw [PlacedTree.rename, Tree.map, exportedNamesOf, exportedNamesOf, List.map_append,
      List.map_append]
    congr 1
    · cases path? with
      | none => rfl
      | some path => exact (hown _).trans (hown path).symm
    · show (match m.kind with | .content => [] | _ => exportedNamesAll _).map Prod.fst = _
      cases m.kind
      · rfl
      · exact hbelow
      · exact hbelow

theorem exportedNamesAll_rename : (ts : List PlacedTree) →
    (exportedNamesAll (Tree.mapAll (PlacedModule.rename f) ts)).map Prod.fst =
      (exportedNamesAll ts).map Prod.fst
  | [] => rfl
  | t :: rest => by
    rw [Tree.mapAll, exportedNamesAll, exportedNamesAll, List.map_append, List.map_append,
      ← exportedNamesOf_rename t, exportedNamesAll_rename rest]
end

/-- The check of names does not look at paths. -/
theorem checkNames_rename {m : OutputModule} {path : String} {children : List PlacedTree}
    (h : checkNames m path children = .ok ()) (other : String) :
    checkNames m other (Tree.mapAll (PlacedModule.rename f) children) = .ok () := by
  rw [checkNames_eq_ok_iff, exportedNamesAll_rename]
  exact checkNames_eq_ok_iff.mp h

/-- Modules are listed with their new paths. -/
theorem aggregated_rename {owner : String} {seen : Entries String} {ts : List PlacedTree}
    {members : List (String × String × String)} (h : aggregated owner seen ts = .ok members) :
    aggregated owner seen (Tree.mapAll (PlacedModule.rename f) ts) =
      .ok (members.map fun member => (member.1, member.2.1, f member.2.2)) := by
  -- what is remembered of the members before is their keys, and these stay
  induction ts generalizing seen members with
  | nil =>
    cases h
    rfl
  | cons t rest ih =>
    obtain ⟨⟨m, path?⟩, children⟩ := t
    rw [aggregated] at h
    rw [Tree.mapAll, Tree.map, aggregated]
    simp only [Tree.value, PlacedModule.rename] at h ⊢
    cases hkey : m.key? with
    | none =>
      rw [hkey] at h
      exact ih h
    | some key =>
      rw [hkey] at h
      cases path? with
      | none => cases h
      | some path =>
        dsimp only [Option.map_some] at h ⊢
        split at h
        · cases h
        · next hfree =>
          obtain ⟨more, hmore, rfl⟩ := exists_of_map_eq_ok h
          rw [ih hmore]
          rfl

end

/-! ## Views and texts -/

/-- Whether a page does not depend on where it stands. -/
def IndexRenderer.IgnoresPath (r : IndexRenderer) : Prop :=
  ∀ view path, r.render { view with path := path } = r.render view

/-- Whether a renderer writes pages under some configuration. -/
def IndexRenderer.IsTypescript (r : IndexRenderer) : Prop :=
  ∃ config, r.render = Typescript.indexPage config

theorem IndexRenderer.IsTypescript.ignoresPath {r : IndexRenderer} (h : r.IsTypescript) :
    r.IgnoresPath := by
  obtain ⟨config, hrender⟩ := h
  intro view path
  rw [hrender]
  rfl

section
variable {front : List String} {m : OutputModule} {path : String} {children : List PlacedTree}

/-- Under more directories an index is written from the same view, but for its path. -/
theorem indexView_under (hfront : ∀ d ∈ front, IsName d.toList) (hpath : IsDeep path)
    (hdeep : ∀ u ∈ Tree.subtreesAll children, ∀ target, u.value.path? = some target → IsDeep target)
    {view : IndexView} (h : indexView m path children = .ok view) :
    indexView m (pathUnder front path)
        (Tree.mapAll (PlacedModule.rename (pathUnder front)) children) =
      .ok { view with path := pathUnder front path } := by
  obtain ⟨hnames, members, hmembers, rfl⟩ := indexView_eq_ok_iff.mp h
  -- a specifier leads from place to place, and both are moved below the same front
  have hspecifier : ∀ u ∈ Tree.subtreesAll children, ∀ target, u.value.path? = some target →
      Path.specifierString (pathUnder front path) (pathUnder front target) =
        Path.specifierString path target := fun u hu target htarget =>
    specifierString_pathUnder hfront hpath (hdeep u hu target htarget)
  have hexports : (exportedPathsAll (Tree.mapAll (PlacedModule.rename (pathUnder front)) children)).map
      (Path.specifierString (pathUnder front path)) =
        (exportedPathsAll children).map (Path.specifierString path) := by
    rw [exportedPathsAll_rename, List.map_map]
    apply List.map_congr_left
    intro target htarget
    obtain ⟨u, hu, hut⟩ := mem_exportedPathsAll children target htarget
    exact hspecifier u hu target hut
  have hlisted : membersOf m (Tree.mapAll (PlacedModule.rename (pathUnder front)) children) =
      .ok (members.map fun member => (member.1, member.2.1, pathUnder front member.2.2)) := by
    rw [membersOf] at hmembers ⊢
    split at hmembers
    · cases hmembers
      rfl
    · exact aggregated_rename _ hmembers
  refine indexView_eq_ok_iff.mpr ⟨checkNames_rename _ hnames _, _, hlisted, ?_⟩
  have himports : ∀ member ∈ members,
      (⟨member.2.1, Path.specifierString (pathUnder front path) (pathUnder front member.2.2)⟩ :
          Typescript.Import) = ⟨member.2.1, Path.specifierString path member.2.2⟩ := by
    intro member hmember
    obtain ⟨u, hu, hut⟩ := mem_of_membersOf hmembers member hmember
    rw [hspecifier u (Tree.mem_subtreesAll_of_mem hu) member.2.2 hut]
  rw [viewOf, viewOf, hexports, List.map_map, List.map_map]
  simp only [Function.comp_def, List.map_congr_left himports]

/-- Under more directories a module has the same text. -/
theorem fileText_under (hfront : ∀ d ∈ front, IsName d.toList) (hpath : IsDeep path)
    (hdeep : ∀ u ∈ Tree.subtreesAll children, ∀ target, u.value.path? = some target → IsDeep target)
    {fallback : IndexRenderer} (hrenderer : (m.renderer?.getD fallback).IgnoresPath) {text : String}
    (h : fileText fallback m path children = .ok text) :
    fileText fallback m (pathUnder front path)
      (Tree.mapAll (PlacedModule.rename (pathUnder front)) children) = .ok text := by
  by_cases hkind : m.kind = .content
  · -- A content module has its own text wherever it stands.
    rw [fileText] at h ⊢
    rw [OutputModule.kind] at hkind
    cases hsource : m.source with
    | content own text => rwa [hsource] at h
    | reexport own? aggregate? =>
      rw [hsource] at hkind
      cases hkind
    | mixed own text aggregate? =>
      rw [hsource] at hkind
      cases hkind
  · obtain ⟨view, hview, hpage⟩ := (fileText_eq_ok_iff hkind).mp h
    have hmoved := indexView_under hfront hpath hdeep hview
    exact (fileText_eq_ok_iff hkind).mpr ⟨_, hmoved, (hrenderer view _).trans hpage⟩

end

/-! ## Placing under more directories -/

/-- Whether the own path of a module leads to a place other than its directory. -/
def OutputModule.HasOwnPlace (m : OutputModule) : Prop :=
  ∀ path, m.ownPath? = some path → place? (Path.components (Path.withSlashes path.toList)) ≠ some []

/-- A path behind more directories is the same path with the directories in front. -/
theorem place_under {front ds : List String} (hfront : ∀ d ∈ front, IsName d.toList)
    (hds : ∀ d ∈ ds, IsSegment d.toList) {path normal : String} (hpath : Path.IsNormal path.toList)
    (hown : place? (Path.components (Path.withSlashes path.toList)) ≠ some [])
    (h : OutputModule.place ("" :: ds) path = .ok normal) :
    OutputModule.place ("" :: (front ++ ds)) path = .ok (pathUnder front normal) ∧ IsDeep normal := by
  obtain ⟨p, hp, rfl⟩ := (OutputModule.place_eq_ok_iff hds hpath).mp h
  -- The own path is a place that is written down, and not the root.
  obtain ⟨q, hq, hwritten, hqne⟩ : ∃ q, (∀ c ∈ q, IsName c) ∧ path.toList = written q ∧ q ≠ [] := by
    rcases hpath with hnil | ⟨q, hq, hwritten⟩
    · rw [hnil] at hown
      exact absurd rfl hown
    · refine ⟨q, hq, hwritten, ?_⟩
      rintro rfl
      rw [hwritten, Path.place?_written hq] at hown
      exact hown rfl
  rw [hwritten, Path.components_written hq hqne] at hp
  have hsplit := Path.place?_append_isName (ds.map String.toList) hq
  rw [hp] at hsplit
  obtain ⟨p₀, -, hpq⟩ := Option.map_eq_some_iff.mp hsplit.symm
  have hpne : p ≠ [] := hpq ▸ List.append_ne_nil_of_right_ne_nil _ hqne
  have hsegments : ∀ c ∈ ds.map String.toList ++ q, c ≠ [] → c ≠ Path.here → IsSegment c := by
    intro c hc _ _
    rcases List.mem_append.mp hc with hc | hc
    · obtain ⟨d, hd, rfl⟩ := List.mem_map.mp hc
      exact hds d hd
    · exact (hq c hc).toIsSegment
  have hboth : ∀ d ∈ front ++ ds, IsSegment d.toList := by
    intro d hd
    exact (List.mem_append.mp hd).elim (fun hd => (hfront d hd).toIsSegment) (hds d)
  have hnames : ∀ c ∈ front.map String.toList, IsName c := by
    intro c hc
    obtain ⟨d, hd, rfl⟩ := List.mem_map.mp hc
    exact hfront d hd
  refine ⟨(OutputModule.place_eq_ok_iff hboth hpath).mpr ?_,
    p, Path.isName_of_place? hsegments hp, hpne, rfl⟩
  refine ⟨front.map String.toList ++ p, ?_, (pathUnder_written hpne).symm⟩
  rw [hwritten, Path.components_written hq hqne, List.map_append, List.append_assoc]
  exact Path.place?_append hnames hp

section
variable {front : List String}

mutual
/-- A tree is placed under more directories with them in front of all paths. -/
theorem placeTree_under (hfront : ∀ d ∈ front, IsName d.toList) : (t : OutputTree) →
    (∀ m ∈ t.toList, m.IsBuilt ∧ m.HasOwnPlace) →
    ∀ ds : List String, (∀ d ∈ ds, IsSegment d.toList) →
      ∀ placed, placeTree ("" :: ds) t = .ok placed →
        placeTree ("" :: (front ++ ds)) t = .ok (placed.rename (pathUnder front)) ∧
          ∀ u ∈ placed.toList, ∀ path, u.path? = some path → IsDeep path
  | .node m children => by
    intro hbuilt ds hds placed h
    rw [Tree.toList, List.forall_mem_cons] at hbuilt
    obtain ⟨⟨hm, hown⟩, hbelow⟩ := hbuilt
    have hboth : ∀ d ∈ ds ++ m.directories, IsSegment d.toList := by
      intro d hd
      exact (List.mem_append.mp hd).elim (hds d) (hm.directories d)
    obtain ⟨path?, below, hplaced, hplacedBelow, rfl⟩ := exists_of_placeTree_node h
    obtain ⟨hmoved, hdeep⟩ := placeTrees_under hfront children hbelow _ hboth below hplacedBelow
    have hroot : m.placed? ("" :: (front ++ (ds ++ m.directories))) =
          .ok (path?.map (pathUnder front)) ∧
        ∀ path, path? = some path → IsDeep path := by
      rw [OutputModule.placed?] at hplaced ⊢
      cases hpath : m.ownPath? with
      | none =>
        rw [hpath] at hplaced
        cases hplaced
        exact ⟨rfl, by simp⟩
      | some path =>
        rw [hpath] at hplaced
        obtain ⟨normal, hnormal, rfl⟩ := exists_of_map_eq_ok hplaced
        obtain ⟨hunder, hnormalDeep⟩ :=
          place_under hfront hboth (hm.ownPath path hpath) (hown path hpath) hnormal
        refine ⟨by dsimp only; rw [hunder]; rfl, ?_⟩
        intro path heq
        cases heq
        exact hnormalDeep
    constructor
    · rw [placeTree, List.cons_append, List.append_assoc, hroot.1, hmoved]
      rfl
    · rw [Tree.toList]
      exact List.forall_mem_cons.mpr ⟨hroot.2, hdeep⟩

/-- Trees are placed under more directories with them in front of all paths. -/
theorem placeTrees_under (hfront : ∀ d ∈ front, IsName d.toList) : (ts : List OutputTree) →
    (∀ m ∈ Tree.toListAll ts, m.IsBuilt ∧ m.HasOwnPlace) →
    ∀ ds : List String, (∀ d ∈ ds, IsSegment d.toList) →
      ∀ placed, placeTrees ("" :: ds) ts = .ok placed →
        placeTrees ("" :: (front ++ ds)) ts =
            .ok (Tree.mapAll (PlacedModule.rename (pathUnder front)) placed) ∧
          ∀ u ∈ Tree.toListAll placed, ∀ path, u.path? = some path → IsDeep path
  | [] => by
    intro _ ds _ placed h
    cases h
    exact ⟨rfl, by simp [Tree.toListAll]⟩
  | t :: rest => by
    intro hbuilt ds hds placed h
    rw [Tree.toListAll, List.forall_mem_append] at hbuilt
    obtain ⟨first, more, hfirst, hmore, rfl⟩ := exists_of_placeTrees_cons h
    obtain ⟨hmoved, hdeep⟩ := placeTree_under hfront t hbuilt.1 ds hds first hfirst
    obtain ⟨hmovedRest, hdeepRest⟩ := placeTrees_under hfront rest hbuilt.2 ds hds more hmore
    constructor
    · rw [placeTrees, hmoved]
      dsimp only
      rw [hmovedRest]
      rfl
    · rw [Tree.toListAll, List.forall_mem_append]
      exact ⟨hdeep, hdeepRest⟩
end

end

mutual
/-- Placing keeps the modules and the shape of a tree. -/
theorem map_module_of_placeTree : (t : OutputTree) → ∀ base placed, placeTree base t = .ok placed →
    placed.map PlacedModule.module = t
  | .node m children => by
    intro base placed h
    obtain ⟨path?, below, -, hbelow, rfl⟩ := exists_of_placeTree_node h
    rw [Tree.map, mapAll_module_of_placeTrees children _ below hbelow]

/-- Placing keeps the modules and the shape of trees. -/
theorem mapAll_module_of_placeTrees : (ts : List OutputTree) →
    ∀ base placed, placeTrees base ts = .ok placed → Tree.mapAll PlacedModule.module placed = ts
  | [] => by
    intro base placed h
    cases h
    rfl
  | t :: rest => by
    intro base placed h
    obtain ⟨first, more, hfirst, hmore, rfl⟩ := exists_of_placeTrees_cons h
    rw [Tree.mapAll, map_module_of_placeTree t base first hfirst,
      mapAll_module_of_placeTrees rest base more hmore]
end

/-! ## Flattening under more directories -/

/-- The root of a tree that is moved is placed in its new directories. -/
theorem placeTree_moveUnder (t : OutputTree) (segments : List String) {placed : PlacedTree}
    (h : placeTree ("" :: OutputModule.cleanSegments segments) t = .ok placed) :
    placeTree [""] (t.moveUnder segments) =
      .ok (placed.withValue
        { placed.value with module := placed.value.module.moveUnder segments }) := by
  obtain ⟨m, children⟩ := t
  obtain ⟨path?, below, hpath, hbelow, rfl⟩ := exists_of_placeTree_node h
  rw [OutputTree.moveUnder, Tree.withValue, placeTree]
  have hdirectories : [""] ++ (m.moveUnder segments).directories =
      "" :: OutputModule.cleanSegments segments ++ m.directories := rfl
  have hplaced : (m.moveUnder segments).placed?
      ("" :: OutputModule.cleanSegments segments ++ m.directories) = .ok path? := hpath
  dsimp only [Tree.value, Tree.children]
  rw [hdirectories, hplaced]
  dsimp only
  rw [hbelow]
  rfl

/-- Under more directories the file of a module is the old one with them in front of its path. -/
theorem IsFileOf.under {front : List String} (hfront : ∀ d ∈ front, IsName d.toList)
    {fallback : IndexRenderer} {u : PlacedTree}
    (hdeep : ∀ w ∈ u.subtrees, ∀ target, w.value.path? = some target → IsDeep target)
    (hrenderer : (u.value.module.renderer?.getD fallback).IgnoresPath) {f : File}
    (hf : IsFileOf fallback u f) :
    IsFileOf fallback (PlacedTree.rename (pathUnder front) u) (f.under front) := by
  have hown := hdeep u (Tree.self_mem_subtrees u) f.path hf.path
  have hbelow : ∀ w ∈ Tree.subtreesAll u.children, ∀ target,
      w.value.path? = some target → IsDeep target := fun w hw =>
    hdeep w (Tree.mem_subtrees_iff.mpr (.inr hw))
  have htext := fileText_under hfront hown hbelow hrenderer hf.text
  obtain ⟨⟨m, path?⟩, children⟩ := u
  have hpath : path? = some f.path := hf.path
  refine ⟨?_, htext⟩
  show path?.map (pathUnder front) = some (pathUnder front f.path)
  rw [hpath, Option.map_some]

/-- A tree that is moved under directories is flattened to the same files in the same order and with
the same texts, with the directories in front of their paths. -/
theorem OutputTree.flatten_moveUnder {t : OutputTree} {segments : List String}
    (hbuilt : ∀ m ∈ t.toList, m.IsBuilt ∧ m.HasOwnPlace)
    (hsegments : ∀ d ∈ OutputModule.cleanSegments segments, d.toList ≠ Path.above)
    {fallback? : Option IndexRenderer}
    (hrenderers : ∀ m ∈ t.toList, (m.renderer?.getD (fallback?.getD defaultRenderer)).IgnoresPath)
    {files : List File} (h : t.flatten fallback? = .ok files) :
    (t.moveUnder segments).flatten fallback? =
      .ok (files.map (File.under (OutputModule.cleanSegments segments))) := by
  generalize hfrontEq : OutputModule.cleanSegments segments = front at hsegments ⊢
  have hfront : ∀ d ∈ front, IsName d.toList := by
    intro d hd
    exact ⟨OutputModule.isSegment_of_mem_cleanSegments (hfrontEq ▸ hd), hsegments d hd⟩
  obtain ⟨placed, hplaced, hfiles, hnodup⟩ := flatten_eq_ok_iff.mp h
  obtain ⟨hmoved, hdeep⟩ := placeTree_under hfront t hbuilt [] (by simp) placed hplaced
  rw [List.append_nil, ← hfrontEq] at hmoved
  have hroot := placeTree_moveUnder t segments hmoved
  rw [hfrontEq] at hroot
  have hunder : ∀ u ∈ placed.subtrees, ∀ f, IsFileOf (fallback?.getD defaultRenderer) u f →
      IsFileOf (fallback?.getD defaultRenderer) (PlacedTree.rename (pathUnder front) u)
        (f.under front) := by
    intro u hu f
    apply IsFileOf.under hfront
    · intro w hw
      exact hdeep _ (Tree.value_mem_toList (Tree.subtrees_trans placed u hu w hw))
    · apply hrenderers
      rw [← map_module_of_placeTree t _ placed hplaced, Tree.toList_map]
      exact List.mem_map.mpr ⟨u.value, Tree.value_mem_toList hu, rfl⟩
  refine flatten_eq_ok_iff.mpr ⟨_, hroot, ?_, ?_⟩
  · obtain ⟨⟨m, path?⟩, below⟩ := placed
    -- The moved tree is the renamed one with another module at its root, of which only the
    -- directories differ.
    have hrows : List.Forall₂ (fun u u' => hasPath u = hasPath u' ∧
        ∀ f, IsFileOf (fallback?.getD defaultRenderer) u f →
          IsFileOf (fallback?.getD defaultRenderer) u' (f.under front))
        (Tree.node ⟨m, path?⟩ below).subtrees
        (Tree.node ⟨m.moveUnder segments, path?.map (pathUnder front)⟩
          (Tree.mapAll (PlacedModule.rename (pathUnder front)) below)).subtrees := by
      rw [Tree.subtrees, Tree.subtrees, Tree.subtreesAll_mapAll]
      refine .cons ⟨by cases path? <;> rfl, fun f hf => ?_⟩ ?_
      · have hold := hunder _ (Tree.self_mem_subtrees _) f hf
        exact ⟨hold.path, hold.text⟩
      · rw [List.forall₂_map_right_iff, List.forall₂_same]
        intro u hu
        exact ⟨(hasPath_rename _ u).symm, hunder u (Tree.mem_subtrees_node.mpr (.inr hu))⟩
    have hpaths := List.rel_filter (p := hasPath) (q := hasPath)
      (fun _ _ h => iff_of_eq (congrArg (· = true) h.1)) hrows
    rw [List.forall₂_map_right_iff]
    refine (forall₂_comp hpaths.flip hfiles).imp ?_
    rintro u' f ⟨u, hu, hf⟩
    exact hu.2 f hf
  · have hpaths : (files.map (File.under front)).map File.path =
        (files.map File.path).map (pathUnder front) := by
      rw [List.map_map, List.map_map]
      rfl
    rw [hpaths]
    exact hnodup.map (pathUnder_injective front)

end SchemaTypings
