/-
  SchemaTypings.Proofs.Output.Reexport

  What an index passes on.  The specifiers of a page lead to files; along those of the exports one
  comes from an index to all files whose names reach it.  The check of names follows the tree instead,
  and both agree as long as no two files are told apart by their extensions only.
-/
import SchemaTypings.Proofs.Output.Site
import SchemaTypings.Proofs.Path.Specifier
import Mathlib.Logic.Relation

namespace SchemaTypings

open SchemaTypings.Path (Component IsName written)
open Typescript (IndexView)

/-! ## Pages and the files that they lead to -/

/-- Whether the page of an index in a placed tree is written from a view. -/
def IsRendered (placed : PlacedTree) (view : IndexView) : Prop :=
  ∃ u ∈ placed.subtrees, u.value.path? = some view.path ∧ u.value.module.kind ≠ .content ∧
    indexView u.value.module view.path u.children = .ok view

/-- Whether a specifier in the file at `source` stands for a file. -/
def ResolvesTo (source specifier : String) (f : File) : Prop :=
  Path.resolveString? source specifier = some (Path.withoutExtensionString f.path)

/-- Whether one of the export lines at `source` stands for the file at `target`. -/
def LeadsTo (placed : PlacedTree) (files : List File) (source target : String) : Prop :=
  ∃ view, IsRendered placed view ∧ view.path = source ∧
    ∃ specifier ∈ view.exports, ∃ f ∈ files, f.path = target ∧ ResolvesTo source specifier f

/-- Whether export lines lead from one file to another, in any number of steps. -/
def Reaches (placed : PlacedTree) (files : List File) : String → String → Prop :=
  Relation.ReflTransGen (LeadsTo placed files)

/-- Whether the file at a path declares a name. -/
def Declares (placed : PlacedTree) (path name : String) : Prop :=
  ∃ u ∈ placed.subtrees, u.value.path? = some path ∧ name ∈ u.value.module.declaredNames

/-- The names that the check of an index compares, its own and those that come to it, with the paths of
the files that declare them. -/
def checkedNames (m : OutputModule) (path : String) (children : List PlacedTree) :
    List (String × String) :=
  m.declaredNames.map (fun name => (name, path)) ++ exportedNamesAll children

/-- An export line stands for all files of one path without extension. -/
theorem LeadsTo.of_withoutExtension {placed : PlacedTree} {files : List File} {source target : String}
    (h : LeadsTo placed files source target) {g : File} (hg : g ∈ files)
    (hsame : Path.withoutExtensionString g.path = Path.withoutExtensionString target) :
    LeadsTo placed files source g.path := by
  obtain ⟨view, hview, hpath, specifier, hspecifier, f, -, rfl, hresolves⟩ := h
  refine ⟨view, hview, hpath, specifier, hspecifier, g, hg, rfl, ?_⟩
  rw [ResolvesTo, hsame]
  exact hresolves

/-! ## Flattened trees -/

/-- What is known of a placed tree and the files it has been flattened to. -/
structure IsFlattened (placed : PlacedTree) (files : List File) : Prop where
  file : ∀ u ∈ placed.subtrees, ∀ path, u.value.path? = some path → ∃ f ∈ files, f.path = path
  view : ∀ u ∈ placed.subtrees, ∀ path, u.value.path? = some path →
    u.value.module.kind ≠ .content → ∃ view, indexView u.value.module path u.children = .ok view
  /-- A path tells its module. -/
  unique : ∀ u ∈ placed.subtrees, ∀ w ∈ placed.subtrees, ∀ path, u.value.path? = some path →
    w.value.path? = some path → u = w
  place : ∀ u ∈ placed.subtrees, ∀ path, u.value.path? = some path →
    ∃ p, (∀ c ∈ p, IsName c) ∧ path = String.ofList (written p)
  pathless : ∀ u ∈ placed.subtrees, u.value.path? = none → u.value.module.kind ≠ .content

mutual
/-- What holds of a module wherever it is placed holds of all modules of a placed tree. -/
theorem forall_toList_of_placeTree {holds : PlacedModule → Prop}
    (h : ∀ m base path?, OutputModule.placed? m base = .ok path? → holds ⟨m, path?⟩) :
    (t : OutputTree) → ∀ base placed, placeTree base t = .ok placed → ∀ u ∈ placed.toList, holds u
  | .node m children => by
    intro base placed hplaced
    obtain ⟨path?, below, hpath, hbelow, rfl⟩ := exists_of_placeTree_node hplaced
    rw [Tree.toList, List.forall_mem_cons]
    exact ⟨h m _ path? hpath, forall_toListAll_of_placeTrees h children _ below hbelow⟩

/-- What holds of a module wherever it is placed holds of all modules of placed trees. -/
theorem forall_toListAll_of_placeTrees {holds : PlacedModule → Prop}
    (h : ∀ m base path?, OutputModule.placed? m base = .ok path? → holds ⟨m, path?⟩) :
    (ts : List OutputTree) → ∀ base placed, placeTrees base ts = .ok placed →
      ∀ u ∈ Tree.toListAll placed, holds u
  | [] => by
    intro base placed hplaced
    cases hplaced
    simp [Tree.toListAll]
  | t :: rest => by
    intro base placed hplaced
    obtain ⟨first, more, hfirst, hmore, rfl⟩ := exists_of_placeTrees_cons hplaced
    rw [Tree.toListAll, List.forall_mem_append]
    exact ⟨forall_toList_of_placeTree h t base first hfirst,
      forall_toListAll_of_placeTrees h rest base more hmore⟩
end

/-- A content module has a path, so it has one when it is placed. -/
theorem kind_ne_content_of_placed? {m : OutputModule} {base : List String} {path? : Option String}
    (h : m.placed? base = .ok path?) (hnone : path? = none) : m.kind ≠ .content := by
  intro hkind
  have hown : m.ownPath?.isSome := by
    rw [OutputModule.kind] at hkind
    rw [OutputModule.ownPath?]
    cases hsource : m.source with
    | content path text => rfl
    | reexport path? aggregate? =>
      rw [hsource] at hkind
      cases hkind
    | mixed path text aggregate? => rfl
  have hsome := isSome_of_placed? h hown
  rw [hnone] at hsome
  cases hsome

/-- A tree of built modules that is flattened. -/
theorem isFlattened_of_flatten {t : OutputTree} (hbuilt : ∀ m ∈ t.toList, m.IsBuilt)
    {fallback? : Option IndexRenderer} {files : List File} (h : t.flatten fallback? = .ok files)
    {placed : PlacedTree} (hplaced : placeTree [""] t = .ok placed) : IsFlattened placed files := by
  obtain ⟨other, hother, hfiles, hnodup⟩ := flatten_eq_ok_iff.mp h
  rw [hplaced] at hother
  cases hother
  have hmem : ∀ u ∈ placed.subtrees, ∀ path, u.value.path? = some path →
      u ∈ placed.subtrees.filter hasPath := by
    intro u hu path hpath
    exact List.mem_filter.mpr ⟨hu, by rw [hasPath, hpath]; rfl⟩
  -- distinct files have distinct paths, and so have the modules that they are of
  have hpaths : ((placed.subtrees.filter hasPath).map fun u => u.value.path?).Nodup := by
    have hsame : (placed.subtrees.filter hasPath).map (fun u => u.value.path?) =
        (files.map File.path).map some := by
      rw [List.map_map, ← List.forall₂_eq_eq_eq, List.forall₂_map_left_iff, List.forall₂_map_right_iff]
      exact hfiles.imp fun u f hf => hf.path
    rw [hsame]
    exact hnodup.map fun _ _ => Option.some.inj
  have hsites := forall₂_isSiteOf t hbuilt [] (by simp) placed hplaced
  refine ⟨?_, ?_, ?_, ?_, ?_⟩
  · intro u hu path hpath
    obtain ⟨f, hf, hfile⟩ := exists_right_of_forall₂ hfiles (hmem u hu path hpath)
    exact ⟨f, hf, Option.some.inj (hfile.path.symm.trans hpath)⟩
  · intro u hu path hpath hkind
    obtain ⟨f, -, hfile⟩ := exists_right_of_forall₂ hfiles (hmem u hu path hpath)
    obtain ⟨view, hview, -⟩ := (fileText_eq_ok_iff hkind).mp hfile.text
    have hsame : f.path = path := Option.some.inj (hfile.path.symm.trans hpath)
    exact ⟨view, hsame ▸ hview⟩
  · intro u hu w hw path hupath hwpath
    exact List.inj_on_of_nodup_map hpaths (hmem u hu path hupath) (hmem w hw path hwpath)
      (hupath.trans hwpath.symm)
  · intro u hu path hpath
    obtain ⟨site, -, hsite⟩ := exists_left_of_forall₂ hsites (hmem u hu path hpath)
    obtain ⟨p, -, hnames, hwritten⟩ := hsite.place
    exact ⟨p, hnames, Option.some.inj (hpath.symm.trans hwritten)⟩
  · have hkinds : ∀ v ∈ placed.toList, v.path? = none → v.module.kind ≠ .content := by
      refine forall_toList_of_placeTree ?_ t _ placed hplaced
      intro m base path? hroot
      exact kind_ne_content_of_placed? hroot
    exact fun u hu => hkinds u.value (Tree.value_mem_toList hu)

namespace IsFlattened

variable {placed : PlacedTree} {files : List File}

/-- The specifier of a module below an index leads from the index to the module's file. -/
theorem resolvesTo_specifierString (h : IsFlattened placed files)
    (hapart : ∀ f ∈ files, ∀ g ∈ files, ¬Path.IsDirectoryOf f.path g.path) {u w : PlacedTree}
    (hu : u ∈ placed.subtrees) (hw : w ∈ Tree.subtreesAll u.children) {source target : String}
    (hsource : u.value.path? = some source) (htarget : w.value.path? = some target) :
    ∃ f ∈ files, f.path = target ∧ ResolvesTo source (Path.specifierString source target) f := by
  have hwAll : w ∈ placed.subtrees :=
    Tree.subtrees_trans placed u hu w (Tree.mem_subtrees_iff.mpr (.inr hw))
  obtain ⟨f, hf, hfpath⟩ := h.file u hu source hsource
  obtain ⟨g, hg, hgpath⟩ := h.file w hwAll target htarget
  obtain ⟨p, hp, hpsource⟩ := h.place u hu source hsource
  obtain ⟨q, hq, hqtarget⟩ := h.place w hwAll target htarget
  refine ⟨g, hg, hgpath, ?_⟩
  have hne : p ≠ q := by
    rintro rfl
    -- One path would make the module one with the index above it.
    have hsame := h.unique u hu w hwAll source hsource (by rw [htarget, hqtarget, hpsource])
    exact Tree.not_mem_below u (hsame ▸ hw)
  have hdown := hapart f hf g hg
  have hup := hapart g hg f hf
  rw [hfpath, hgpath, hpsource, hqtarget] at hdown hup
  rw [ResolvesTo, hgpath, hpsource, hqtarget]
  exact Path.resolveString?_specifierString hp hq hne hdown hup

/-- All specifiers of a page lead to files. -/
theorem exists_file_of_specifier (h : IsFlattened placed files)
    (hapart : ∀ f ∈ files, ∀ g ∈ files, ¬Path.IsDirectoryOf f.path g.path) {view : IndexView}
    (hview : IsRendered placed view) :
    ∀ specifier ∈ view.exports ++ view.imports.map Typescript.Import.specifier,
      ∃ f ∈ files, ResolvesTo view.path specifier f := by
  obtain ⟨u, hu, hpath, -, hok⟩ := hview
  obtain ⟨-, members, hmembers, hsame⟩ := indexView_eq_ok_iff.mp hok
  generalize view.path = path at hpath hsame
  subst hsame
  intro specifier hspecifier
  rcases List.mem_append.mp hspecifier with hexport | himport
  · obtain ⟨target, htarget, rfl⟩ := List.mem_map.mp hexport
    obtain ⟨w, hw, hwpath⟩ := mem_exportedPathsAll u.children target htarget
    obtain ⟨f, hf, -, hresolves⟩ := h.resolvesTo_specifierString hapart hu hw hpath hwpath
    exact ⟨f, hf, hresolves⟩
  · obtain ⟨i, hi, rfl⟩ := List.mem_map.mp himport
    obtain ⟨member, hmember, rfl⟩ := List.mem_map.mp hi
    obtain ⟨w, hw, hwpath⟩ := mem_of_membersOf hmembers member hmember
    obtain ⟨f, hf, -, hresolves⟩ :=
      h.resolvesTo_specifierString hapart hu (Tree.mem_subtreesAll_of_mem hw) hpath hwpath
    exact ⟨f, hf, hresolves⟩

/-! ## Names -/

/-- From an index one comes in one step to every module that it passes on. -/
theorem leadsTo_of_mem_exportedPathsAll (h : IsFlattened placed files)
    (hapart : ∀ f ∈ files, ∀ g ∈ files, ¬Path.IsDirectoryOf f.path g.path) {u : PlacedTree}
    (hu : u ∈ placed.subtrees) (hkind : u.value.module.kind ≠ .content) {source target : String}
    (hsource : u.value.path? = some source) (htarget : target ∈ exportedPathsAll u.children) :
    LeadsTo placed files source target := by
  obtain ⟨view, hview⟩ := h.view u hu source hsource hkind
  obtain ⟨-, members, -, rfl⟩ := indexView_eq_ok_iff.mp hview
  obtain ⟨w, hw, hwpath⟩ := mem_exportedPathsAll u.children target htarget
  obtain ⟨f, hf, hfpath, hresolves⟩ := h.resolvesTo_specifierString hapart hu hw hsource hwpath
  have hexport : Path.specifierString source target ∈
      (viewOf u.value.module source u.children members).exports :=
    List.mem_map.mpr ⟨target, htarget, rfl⟩
  exact ⟨_, ⟨u, hu, hsource, hkind, hview⟩, rfl, _, hexport, f, hf, hfpath, hresolves⟩

mutual
/-- A name that reaches an index through a tree is declared by a file that one comes to from what
stands for the tree. -/
theorem exists_reaches_of_mem_exportedNamesOf (h : IsFlattened placed files)
    (hapart : ∀ f ∈ files, ∀ g ∈ files, ¬Path.IsDirectoryOf f.path g.path) :
    (w : PlacedTree) → w ∈ placed.subtrees → ∀ name source, (name, source) ∈ exportedNamesOf w →
      Declares placed source name ∧ ∃ target ∈ exportedPaths w, Reaches placed files target source
  | .node ⟨m, path?⟩ children => by
    intro hw name source hmem
    rw [exportedNamesOf, List.mem_append] at hmem
    rw [exportedPaths]
    have hchildren : ∀ c ∈ children, c ∈ placed.subtrees := by
      intro c hc
      exact Tree.subtrees_trans placed _ hw c
        (Tree.mem_subtrees_node.mpr (.inr (Tree.mem_subtreesAll_of_mem hc)))
    cases path? with
    | none =>
      -- A group stands for what is below it.
      rcases hmem with hown | hbelow
      · cases hown
      · refine exists_reaches_of_mem_exportedNamesAll h hapart children hchildren name source ?_
        dsimp only at hbelow
        split at hbelow
        · cases hbelow
        · exact hbelow
    | some path =>
      rcases hmem with hown | hbelow
      · obtain ⟨_, hname, heq⟩ := List.mem_map.mp hown
        cases heq
        exact ⟨⟨_, hw, rfl, hname⟩, _, List.mem_cons_self, .refl⟩
      · dsimp only at hbelow
        split at hbelow
        · cases hbelow
        · next hkind =>
          -- One step leads from the index to what stands for the tree below it.
          obtain ⟨hdeclares, target, htarget, hreaches⟩ :=
            exists_reaches_of_mem_exportedNamesAll h hapart children hchildren name source hbelow
          have hstep : LeadsTo placed files path target :=
            h.leadsTo_of_mem_exportedPathsAll hapart hw hkind rfl htarget
          exact ⟨hdeclares, path, List.mem_cons_self, .head hstep hreaches⟩

/-- A name that reaches an index through trees is declared by a file that one comes to from what stands
for the trees. -/
theorem exists_reaches_of_mem_exportedNamesAll (h : IsFlattened placed files)
    (hapart : ∀ f ∈ files, ∀ g ∈ files, ¬Path.IsDirectoryOf f.path g.path) :
    (ts : List PlacedTree) → (∀ t ∈ ts, t ∈ placed.subtrees) →
      ∀ name source, (name, source) ∈ exportedNamesAll ts →
        Declares placed source name ∧
          ∃ target ∈ exportedPathsAll ts, Reaches placed files target source
  | [] => by simp [exportedNamesAll]
  | t :: rest => by
    intro hts name source hmem
    rw [List.forall_mem_cons] at hts
    rw [exportedNamesAll, List.mem_append] at hmem
    rw [exportedPathsAll]
    rcases hmem with hfirst | hrest
    · obtain ⟨hdeclares, target, htarget, hreaches⟩ :=
        exists_reaches_of_mem_exportedNamesOf h hapart t hts.1 name source hfirst
      exact ⟨hdeclares, target, List.mem_append_left _ htarget, hreaches⟩
    · obtain ⟨hdeclares, target, htarget, hreaches⟩ :=
        exists_reaches_of_mem_exportedNamesAll h hapart rest hts.2 name source hrest
      exact ⟨hdeclares, target, List.mem_append_right _ htarget, hreaches⟩
end

/-- Every name that an index compares is declared by a file that its export lines lead to. -/
theorem reaches_of_mem_checkedNames (h : IsFlattened placed files)
    (hapart : ∀ f ∈ files, ∀ g ∈ files, ¬Path.IsDirectoryOf f.path g.path) {u : PlacedTree}
    (hu : u ∈ placed.subtrees) (hkind : u.value.module.kind ≠ .content) {path : String}
    (hpath : u.value.path? = some path) {name source : String}
    (hmem : (name, source) ∈ checkedNames u.value.module path u.children) :
    Reaches placed files path source ∧ Declares placed source name := by
  rw [checkedNames, List.mem_append] at hmem
  rcases hmem with hown | hbelow
  · obtain ⟨_, hname, heq⟩ := List.mem_map.mp hown
    cases heq
    exact ⟨.refl, u, hu, hpath, hname⟩
  · have hchildren : ∀ c ∈ u.children, c ∈ placed.subtrees := by
      intro c hc
      exact Tree.subtrees_trans placed u hu c
        (Tree.mem_subtrees_iff.mpr (.inr (Tree.mem_subtreesAll_of_mem hc)))
    obtain ⟨hdeclares, target, htarget, hreaches⟩ :=
      exists_reaches_of_mem_exportedNamesAll h hapart u.children hchildren name source hbelow
    have hstep := h.leadsTo_of_mem_exportedPathsAll hapart hu hkind hpath htarget
    exact ⟨.head hstep hreaches, hdeclares⟩

mutual
/-- What stands for a tree passes its names on to the index above. -/
theorem exists_subset_of_mem_exportedPaths : (w : PlacedTree) →
    (∀ v ∈ w.subtrees, v.value.path? = none → v.value.module.kind ≠ .content) →
    ∀ target ∈ exportedPaths w, ∃ v ∈ w.subtrees, v.value.path? = some target ∧
      exportedNamesOf v ⊆ exportedNamesOf w
  | .node ⟨m, path?⟩ children => by
    intro hpathless target htarget
    rw [exportedPaths] at htarget
    cases path? with
    | none =>
      have hkind : m.kind ≠ .content := hpathless _ (Tree.self_mem_subtrees _) rfl
      have hbelow : ∀ v ∈ Tree.subtreesAll children,
          v.value.path? = none → v.value.module.kind ≠ .content := fun v hv =>
        hpathless v (Tree.mem_subtrees_node.mpr (.inr hv))
      obtain ⟨v, hv, hvpath, hsubset⟩ :=
        exists_subset_of_mem_exportedPathsAll children hbelow target htarget
      refine ⟨v, Tree.mem_subtrees_node.mpr (.inr hv), hvpath, List.Subset.trans hsubset ?_⟩
      rw [exportedNamesOf]
      dsimp only
      split
      · next hcontent => exact absurd hcontent hkind
      · exact List.subset_append_right _ _
    | some path =>
      rw [List.mem_singleton.mp htarget]
      exact ⟨_, Tree.self_mem_subtrees _, rfl, List.Subset.refl _⟩

/-- What stands for trees passes its names on to the index above. -/
theorem exists_subset_of_mem_exportedPathsAll : (ts : List PlacedTree) →
    (∀ v ∈ Tree.subtreesAll ts, v.value.path? = none → v.value.module.kind ≠ .content) →
    ∀ target ∈ exportedPathsAll ts, ∃ v ∈ Tree.subtreesAll ts, v.value.path? = some target ∧
      exportedNamesOf v ⊆ exportedNamesAll ts
  | [] => by simp [exportedPathsAll]
  | t :: rest => by
    intro hpathless target htarget
    rw [Tree.subtreesAll, List.forall_mem_append] at hpathless
    rw [exportedPathsAll, List.mem_append] at htarget
    rw [Tree.subtreesAll, exportedNamesAll]
    rcases htarget with htarget | htarget
    · obtain ⟨v, hv, hvpath, hsubset⟩ :=
        exists_subset_of_mem_exportedPaths t hpathless.1 target htarget
      exact ⟨v, List.mem_append_left _ hv, hvpath, List.subset_append_of_subset_left _ hsubset⟩
    · obtain ⟨v, hv, hvpath, hsubset⟩ :=
        exists_subset_of_mem_exportedPathsAll rest hpathless.2 target htarget
      exact ⟨v, List.mem_append_right _ hv, hvpath, List.subset_append_of_subset_right _ hsubset⟩
end

/-- Where no two files are told apart by their extensions only, an export line leads to a module that
passes its names on. -/
theorem exists_subset_of_leadsTo (h : IsFlattened placed files)
    (hapart : ∀ f ∈ files, ∀ g ∈ files, ¬Path.IsDirectoryOf f.path g.path)
    (hstems : ∀ f ∈ files, ∀ g ∈ files,
      Path.withoutExtensionString f.path = Path.withoutExtensionString g.path → f.path = g.path)
    {u : PlacedTree} (hu : u ∈ placed.subtrees) {source target : String}
    (hsource : u.value.path? = some source) (hstep : LeadsTo placed files source target) :
    u.value.module.kind ≠ .content ∧ ∃ v ∈ placed.subtrees, v.value.path? = some target ∧
      exportedNamesOf v ⊆ exportedNamesAll u.children := by
  obtain ⟨view, ⟨u', hu', hpath, hkind, hview⟩, rfl, specifier, hspecifier, f, hf, rfl, hresolves⟩ :=
    hstep
  have hsame := h.unique u' hu' u hu view.path hpath hsource
  subst hsame
  refine ⟨hkind, ?_⟩
  -- The specifier was made for a module below, whose file can only be this one.
  obtain ⟨-, members, -, heq⟩ := indexView_eq_ok_iff.mp hview
  rw [← heq] at hspecifier
  obtain ⟨target, htarget, rfl⟩ := List.mem_map.mp hspecifier
  obtain ⟨w, hw, hwpath⟩ := mem_exportedPathsAll u'.children target htarget
  obtain ⟨g, hg, hgpath, hown⟩ := h.resolvesTo_specifierString hapart hu hw hpath hwpath
  have hfile : f.path = target := by
    rw [← hgpath]
    apply hstems f hf g hg
    exact Option.some.inj (hresolves.symm.trans hown)
  rw [hfile]
  have hpathless : ∀ v ∈ Tree.subtreesAll u'.children,
      v.value.path? = none → v.value.module.kind ≠ .content := by
    intro v hv
    exact h.pathless v (Tree.subtrees_trans placed u' hu v (Tree.mem_subtrees_iff.mpr (.inr hv)))
  obtain ⟨v, hv, hvpath, hsubset⟩ :=
    exists_subset_of_mem_exportedPathsAll u'.children hpathless target htarget
  exact ⟨v, Tree.subtrees_trans placed u' hu v (Tree.mem_subtrees_iff.mpr (.inr hv)), hvpath, hsubset⟩

/-- Where no two files are told apart by their extensions only, a module passes on all names of the
files that export lines lead to from it. -/
theorem mem_exportedNamesOf_of_reaches (h : IsFlattened placed files)
    (hapart : ∀ f ∈ files, ∀ g ∈ files, ¬Path.IsDirectoryOf f.path g.path)
    (hstems : ∀ f ∈ files, ∀ g ∈ files,
      Path.withoutExtensionString f.path = Path.withoutExtensionString g.path → f.path = g.path)
    {path source name : String} (hreaches : Reaches placed files path source)
    (hdeclares : Declares placed source name) {u : PlacedTree} (hu : u ∈ placed.subtrees)
    (hpath : u.value.path? = some path) : (name, source) ∈ exportedNamesOf u := by
  -- from the end of the way: each index passes on what the files it names export
  induction hreaches using Relation.ReflTransGen.head_induction_on generalizing u with
  | refl =>
    obtain ⟨w, hw, hwpath, hname⟩ := hdeclares
    have hsame := h.unique w hw u hu source hwpath hpath
    subst hsame
    obtain ⟨⟨m, path?⟩, children⟩ := w
    have hsome : path? = some source := hpath
    rw [exportedNamesOf, hsome]
    exact List.mem_append_left _ (List.mem_map.mpr ⟨name, hname, rfl⟩)
  | head hstep _ ih =>
    obtain ⟨hkind, v, hv, hvpath, hsubset⟩ := h.exists_subset_of_leadsTo hapart hstems hu hpath hstep
    have hbelow := hsubset (ih hv hvpath)
    obtain ⟨⟨m, path?⟩, children⟩ := u
    rw [exportedNamesOf]
    apply List.mem_append_right
    dsimp only
    split
    · next hcontent => exact absurd hcontent hkind
    · exact hbelow

/-- Where no two files are told apart by their extensions only, an index compares exactly the names
declared by the files that its export lines lead to. -/
theorem mem_checkedNames_iff (h : IsFlattened placed files)
    (hapart : ∀ f ∈ files, ∀ g ∈ files, ¬Path.IsDirectoryOf f.path g.path)
    (hstems : ∀ f ∈ files, ∀ g ∈ files,
      Path.withoutExtensionString f.path = Path.withoutExtensionString g.path → f.path = g.path)
    {u : PlacedTree} (hu : u ∈ placed.subtrees) (hkind : u.value.module.kind ≠ .content)
    {path : String} (hpath : u.value.path? = some path) (name source : String) :
    (name, source) ∈ checkedNames u.value.module path u.children ↔
      Reaches placed files path source ∧ Declares placed source name := by
  constructor
  · exact h.reaches_of_mem_checkedNames hapart hu hkind hpath
  · rintro ⟨hreaches, hdeclares⟩
    have hmem := h.mem_exportedNamesOf_of_reaches hapart hstems hreaches hdeclares hu hpath
    obtain ⟨⟨m, path?⟩, children⟩ := u
    have hsome : path? = some path := hpath
    rw [exportedNamesOf, hsome] at hmem
    rw [checkedNames, List.mem_append]
    rcases List.mem_append.mp hmem with hown | hbelow
    · exact .inl hown
    · right
      dsimp only at hbelow
      split at hbelow
      · cases hbelow
      · exact hbelow

end IsFlattened

end SchemaTypings
