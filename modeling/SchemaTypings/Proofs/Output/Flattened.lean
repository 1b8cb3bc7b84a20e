/-
  SchemaTypings.Proofs.Output.Flattened

  What a tree is flattened to.  Placing keeps the modules and the shape of a tree, every module with a
  path has a file with its text, and the page of an index is made from a view that lists what is
  below it.
-/
import SchemaTypings.Fault
import SchemaTypings.Output.Flatten
import Mathlib.Data.List.Forall2

namespace SchemaTypings

open Typescript (IndexView)

/-! ## Placing -/

/-- A node is placed at its directories, and what is below it below them. -/
theorem exists_of_placeTree_node {base : List String} {m : OutputModule}
    {children : List OutputTree} {placed : PlacedTree}
    (h : placeTree base (.node m children) = .ok placed) :
    ∃ path? below, m.placed? (base ++ m.directories) = .ok path? ∧
      placeTrees (base ++ m.directories) children = .ok below ∧
      placed = .node ⟨m, path?⟩ below := by
  rw [placeTree] at h
  split at h
  · cases h
  · next path? hpath =>
    obtain ⟨below, hbelow, rfl⟩ := exists_of_map_eq_ok h
    exact ⟨path?, below, hpath, hbelow, rfl⟩

theorem exists_of_placeTrees_cons {base : List String} {t : OutputTree} {rest : List OutputTree}
    {placed : List PlacedTree} (h : placeTrees base (t :: rest) = .ok placed) :
    ∃ first more, placeTree base t = .ok first ∧ placeTrees base rest = .ok more ∧
      placed = first :: more := by
  rw [placeTrees] at h
  split at h
  · cases h
  · next first hfirst =>
    obtain ⟨more, hmore, rfl⟩ := exists_of_map_eq_ok h
    exact ⟨first, more, hfirst, hmore, rfl⟩

/-- A content module without any below it is placed as it is. -/
theorem exists_of_placeTree_leaf {base : List String} {m : OutputModule} {own text : String}
    (hsource : m.source = .content own text) {placed : PlacedTree}
    (h : placeTree base (.leaf m) = .ok placed) :
    ∃ path, OutputModule.place (base ++ m.directories) own = .ok path ∧
      placed = .node ⟨m, some path⟩ [] := by
  obtain ⟨path?, below, hpath, hbelow, rfl⟩ := exists_of_placeTree_node h
  cases hbelow
  rw [OutputModule.placed?, OutputModule.ownPath?, hsource] at hpath
  obtain ⟨path, hplace, rfl⟩ := exists_of_map_eq_ok hpath
  exact ⟨path, hplace, rfl⟩

/-- Whether a placed tree is what a tree becomes in some directory. -/
def IsPlaced (t : OutputTree) (placed : PlacedTree) : Prop := ∃ base, placeTree base t = .ok placed

theorem forall₂_isPlaced_of_placeTrees {base : List String} {ts : List OutputTree}
    {placed : List PlacedTree} (h : placeTrees base ts = .ok placed) :
    List.Forall₂ IsPlaced ts placed := by
  induction ts generalizing placed with
  | nil =>
    cases h
    exact .nil
  | cons t rest ih =>
    obtain ⟨first, more, hfirst, hmore, rfl⟩ := exists_of_placeTrees_cons h
    exact .cons ⟨base, hfirst⟩ (ih hmore)

/-- A module with a path from its parent has one from the output root. -/
theorem isSome_of_placed? {m : OutputModule} {directories : List String} {path? : Option String}
    (h : m.placed? directories = .ok path?) (hpath : m.ownPath?.isSome) : path?.isSome := by
  obtain ⟨path, hpath⟩ := Option.isSome_iff_exists.mp hpath
  rw [OutputModule.placed?, hpath] at h
  obtain ⟨normal, -, rfl⟩ := exists_of_map_eq_ok h
  rfl

/-- Placing keeps the module at the root and places all trees below it. -/
theorem IsPlaced.node {m : OutputModule} {children : List OutputTree} {placed : PlacedTree}
    (h : IsPlaced (.node m children) placed) :
    ∃ path? below, placed = .node ⟨m, path?⟩ below ∧ (m.ownPath?.isSome → path?.isSome) ∧
      List.Forall₂ IsPlaced children below := by
  obtain ⟨base, h⟩ := h
  obtain ⟨path?, below, hpath, hbelow, rfl⟩ := exists_of_placeTree_node h
  exact ⟨path?, below, rfl, isSome_of_placed? hpath, forall₂_isPlaced_of_placeTrees hbelow⟩

theorem IsPlaced.module {t : OutputTree} {placed : PlacedTree} (h : IsPlaced t placed) :
    placed.value.module = t.value := by
  obtain ⟨m, children⟩ := t
  obtain ⟨path?, below, rfl, -⟩ := h.node
  rfl

/-! ## Files -/

section
variable {fallback : IndexRenderer} {files : List File}

/-- Whether every module in a tree that has a path has a file there. -/
def HasFiles (fallback : IndexRenderer) (files : List File) (placed : PlacedTree) : Prop :=
  ∀ t ∈ placed.subtrees, ∀ path, t.value.path? = some path →
    ∃ text, fileText fallback t.value.module path t.children = .ok text ∧ ⟨path, text⟩ ∈ files

theorem HasFiles.root {value : PlacedModule} {below : List PlacedTree} {path : String}
    (h : HasFiles fallback files (.node value below)) (hpath : value.path? = some path) :
    ∃ text, fileText fallback value.module path below = .ok text ∧ ⟨path, text⟩ ∈ files :=
  h _ (Tree.self_mem_subtrees _) path hpath

theorem HasFiles.below {value : PlacedModule} {below : List PlacedTree}
    (h : HasFiles fallback files (.node value below)) :
    ∀ placed ∈ below, HasFiles fallback files placed := by
  intro placed hplaced t ht
  refine h t ?_
  rw [Tree.subtrees, Tree.subtreesAll_eq_flatMap]
  exact List.mem_cons_of_mem _ (List.mem_flatMap.mpr ⟨placed, hplaced, ht⟩)

theorem HasFiles.mono {more : List File} {placed : PlacedTree} (h : HasFiles fallback files placed)
    (hsub : files ⊆ more) : HasFiles fallback more placed := by
  intro t ht path hpath
  obtain ⟨text, htext, hmem⟩ := h t ht path hpath
  exact ⟨text, htext, hsub hmem⟩

/-- Of trees whose files are made, each with a path has its file. -/
theorem exists_file_of_filesOf {owners : Entries String} {ts : List PlacedTree}
    (h : filesOf fallback owners ts = .ok files) :
    ∀ t ∈ ts, ∀ path, t.value.path? = some path →
      ∃ text, fileText fallback t.value.module path t.children = .ok text ∧
        ⟨path, text⟩ ∈ files := by
  induction ts generalizing owners files with
  | nil => simp
  | cons first rest ih =>
    obtain ⟨m, children⟩ := first
    rw [filesOf] at h
    rw [List.forall_mem_cons]
    split at h
    · next hnone =>
      refine ⟨fun path hpath => ?_, ih h⟩
      rw [Tree.value, hnone] at hpath
      cases hpath
    · next own hown =>
      split at h
      · cases h
      · split at h
        · cases h
        · next text htext =>
          obtain ⟨more, hmore, rfl⟩ := exists_of_map_eq_ok h
          refine ⟨fun path hpath => ?_, fun t ht path hpath => ?_⟩
          · rw [Tree.value, hown] at hpath
            cases hpath
            exact ⟨text, htext, List.mem_cons_self⟩
          · obtain ⟨other, hother, hmem⟩ := ih hmore t ht path hpath
            exact ⟨other, hother, List.mem_cons_of_mem _ hmem⟩

/-- A tree is placed for its files, and all that have a path have one. -/
theorem exists_placed_of_flatten {t : OutputTree} {fallback? : Option IndexRenderer}
    (h : t.flatten fallback? = .ok files) :
    ∃ placed, IsPlaced t placed ∧ HasFiles (fallback?.getD defaultRenderer) files placed := by
  rw [OutputTree.flatten] at h
  split at h
  · cases h
  · next placed hplaced => exact ⟨placed, ⟨[""], hplaced⟩, exists_file_of_filesOf h⟩

end

/-! ## Indexes -/

/-- A module that an aggregate lists: its key, the name that it exports and its path. -/
def IsListed (t : PlacedTree) (member : String × String × String) : Prop :=
  t.value.module.key? = some member.1 ∧ t.value.module.exportName = member.2.1 ∧
    t.value.path? = some member.2.2

/-- An aggregate lists keyed modules, all of them in order. -/
theorem forall₂_isListed_of_aggregated {owner : String} {seen : Entries String}
    {below : List PlacedTree} {members : List (String × String × String)}
    (hkeys : ∀ t ∈ below, t.value.module.key?.isSome)
    (h : aggregated owner seen below = .ok members) : List.Forall₂ IsListed below members := by
  induction below generalizing seen members with
  | nil =>
    cases h
    exact .nil
  | cons t rest ih =>
    rw [List.forall_mem_cons] at hkeys
    obtain ⟨key, hkey⟩ := Option.isSome_iff_exists.mp hkeys.1
    rw [aggregated, hkey] at h
    simp only at h
    split at h
    · cases h
    · next path hpath =>
      split at h
      · cases h
      · obtain ⟨more, hmore, rfl⟩ := exists_of_map_eq_ok h
        exact .cons ⟨hkey, rfl, hpath⟩ (ih hkeys.2 hmore)

variable {fallback : IndexRenderer} {m : OutputModule} {path text : String}
  {below : List PlacedTree}

/-- The page of a module without a text only is rendered from its view. -/
theorem exists_indexView_of_fileText (hkind : m.kind ≠ .content)
    (h : fileText fallback m path below = .ok text) :
    ∃ view, indexView m path below = .ok view ∧ (m.renderer?.getD fallback).render view = .ok text := by
  rw [fileText] at h
  split at h
  · next hsource =>
    rw [OutputModule.kind, hsource] at hkind
    exact absurd rfl hkind
  · split at h
    · cases h
    · next view hview =>
      split at h
      · cases h
      · next page hpage =>
        cases h
        exact ⟨view, hview, hpage⟩

/-- A view without an aggregate. -/
theorem indexView_of_aggregate?_eq_none {view : IndexView} (hnone : m.aggregate? = none)
    (h : indexView m path below = .ok view) :
    view = {
      path, exportName := m.exportName, content? := m.text?
      exports := (exportedPathsAll below).map (Path.specifierString path), doc := m.doc } := by
  rw [indexView] at h
  cases hnames : checkNames m path below with
  | error e =>
    rw [hnames] at h
    cases h
  | ok _ =>
    rw [hnames, hnone] at h
    cases h
    rfl

/-- A view with an aggregate of keyed modules lists them in order and imports each type from the
module's path. -/
theorem exists_members_of_indexView {view : IndexView} {name : String}
    (hname : m.aggregate? = some name) (hkeys : ∀ t ∈ below, t.value.module.key?.isSome)
    (h : indexView m path below = .ok view) :
    ∃ members, List.Forall₂ IsListed below members ∧
      view = {
        path, exportName := m.exportName, content? := m.text?
        exports := (exportedPathsAll below).map (Path.specifierString path)
        imports := members.map fun (_, name, target) =>
          ⟨name, Path.specifierString path target⟩
        aggregate? := some name
        entries := members.map fun (key, name, _) => ⟨key, name⟩
        doc := m.doc } := by
  rw [indexView] at h
  cases hnames : checkNames m path below with
  | error e =>
    rw [hnames] at h
    cases h
  | ok _ =>
    rw [hnames, hname] at h
    cases hmembers : aggregated m.exportName [] below with
    | error e =>
      have hfailed : (Except.error e : Except GenerationError IndexView) = .ok view := by
        rw [← h]
        simp only [hmembers]
        rfl
      cases hfailed
    | ok members =>
      refine ⟨members, forall₂_isListed_of_aggregated hkeys hmembers, ?_⟩
      simp only [hmembers] at h
      cases h
      rfl

/-! ## Placing on characters -/

/-- A path behind directories, without texts in between. -/
def OutputModule.placeChars (directories : List (List Char)) (path : List Char) :
    Except GenerationError String :=
  let joined := Path.join directories path
  match Path.normalize? joined with
  | some normal => .ok (String.ofList normal)
  | none => .error (.moduleMisuse (.pathEscapes (String.ofList joined)))

theorem OutputModule.place_eq_placeChars (directories : List String) (path : String) :
    place directories path = placeChars (directories.map String.toList) path.toList := by
  rw [place, placeChars, Path.normalizeString?, Path.joinStrings, String.toList_ofList]
  cases Path.normalize? (Path.join (directories.map String.toList) path.toList) with
  | _ => rfl

/-- The path from the root, where the directories are read only once. -/
def OutputModule.placedChars? (m : OutputModule) (directories : List (List Char)) :
    Except GenerationError (Option String) :=
  match m.ownPath? with
  | none => .ok none
  | some path => (placeChars directories path.toList).map some

theorem OutputModule.placed?_eq_placedChars? (m : OutputModule) (directories : List String) :
    m.placed? directories = m.placedChars? (directories.map String.toList) := by
  unfold placed? placedChars?
  cases m.ownPath? with
  | none => rfl
  | some path => exact congrArg (Except.map some) (place_eq_placeChars directories path)

mutual
/-- The tree with its paths resolved below directories that are read only once. -/
def placeTreeChars (base : List (List Char)) : OutputTree → Except GenerationError PlacedTree
  | .node m children =>
    let directories := base ++ m.directories.map String.toList
    match m.placedChars? directories with
    | .error e => .error e
    | .ok path? => (placeTreesChars directories children).map fun placed => .node ⟨m, path?⟩ placed

/-- The trees with their paths resolved below directories that are read only once. -/
def placeTreesChars (base : List (List Char)) :
    List OutputTree → Except GenerationError (List PlacedTree)
  | [] => .ok []
  | t :: rest =>
    match placeTreeChars base t with
    | .error e => .error e
    | .ok placed => (placeTreesChars base rest).map (placed :: ·)
end

mutual
theorem placeTree_eq_placeTreeChars : (t : OutputTree) → ∀ base : List String,
    placeTree base t = placeTreeChars (base.map String.toList) t
  | .node m children => by
    intro base
    rewrite [placeTree, placeTreeChars, ← List.map_append, m.placed?_eq_placedChars?,
      placeTrees_eq_placeTreesChars children]
    rfl

theorem placeTrees_eq_placeTreesChars : (ts : List OutputTree) → ∀ base : List String,
    placeTrees base ts = placeTreesChars (base.map String.toList) ts
  | [] => fun _ => rfl
  | t :: rest => by
    intro base
    rewrite [placeTrees, placeTreesChars, placeTree_eq_placeTreeChars t,
      placeTrees_eq_placeTreesChars rest]
    rfl
end

theorem OutputTree.flatten_eq (t : OutputTree) (fallback? : Option IndexRenderer) :
    t.flatten fallback? =
      match placeTreeChars [[]] t with
      | .error e => .error (.generation e)
      | .ok placed => filesOf (fallback?.getD defaultRenderer) [] placed.subtrees := by
  rewrite [flatten, placeTree_eq_placeTreeChars, List.map_singleton, String.toList_empty]
  rfl

end SchemaTypings
