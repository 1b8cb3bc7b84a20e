/-
  SchemaTypings.Proofs.Output.Collision

  When names collide.  To an index come the names of the modules along its re-export chain: those
  directly below it, and what is below them where they are indexes or groups themselves.  A tree whose
  files have places of their own fails to be flattened exactly if a name that comes to an index is
  there a second time, from another module of the chain or from the index itself.
-/
import SchemaTypings.Proofs.Output.Site
import Mathlib.Data.List.Nodup

namespace SchemaTypings

open SchemaTypings.Path (Component IsName IsSegment place? written)
open Typescript (IndexView)

/-! ## Names that come to an index -/

mutual
/-- The modules along a re-export chain that begins at a tree.  It ends at content modules. -/
def chainOf : OutputTree → List OutputModule
  | .node m children =>
    m :: match m.kind with
      | .content => []
      | _ => chainOfAll children

/-- The modules along the re-export chains that begin at trees. -/
def chainOfAll : List OutputTree → List OutputModule
  | [] => []
  | t :: rest => chainOf t ++ chainOfAll rest
end

/-- The names that the files of modules declare.  A module without a path has no file. -/
def namesOf (ms : List OutputModule) : List String :=
  (ms.filter fun m => m.ownPath?.isSome).flatMap OutputModule.declaredNames

/-- The names that come to the root of a tree through its re-export chain. -/
def reexportedNames (t : OutputTree) : List String := namesOf (chainOfAll t.children)

/-- All names at the root of a tree: those of its own declarations and those that come to it. -/
def namesAt (t : OutputTree) : List String := t.value.declaredNames ++ reexportedNames t

/-- Whether a module has a file that exports what is below the module. -/
def OutputModule.IsIndex (m : OutputModule) : Prop := m.ownPath?.isSome = true ∧ m.kind ≠ .content

/-- Whether a name that comes to the root of a tree is there more than once. -/
def Collides (t : OutputTree) : Prop := ∃ name ∈ reexportedNames t, 2 ≤ (namesAt t).count name

theorem namesOf_append (ms more : List OutputModule) :
    namesOf (ms ++ more) = namesOf ms ++ namesOf more := by
  rw [namesOf, List.filter_append, List.flatMap_append]
  rfl

theorem namesOf_cons (m : OutputModule) (rest : List OutputModule) :
    namesOf (m :: rest) = (if m.ownPath?.isSome then m.declaredNames else []) ++ namesOf rest := by
  cases hpath : m.ownPath?.isSome <;> simp [namesOf, hpath]

/-- No name collides exactly if all that come are different and none is declared at the root. -/
theorem not_collides_iff {t : OutputTree} : ¬Collides t ↔
    (reexportedNames t).Nodup ∧ ∀ name ∈ reexportedNames t, name ∉ t.value.declaredNames := by
  rw [List.nodup_iff_count_le_one]
  constructor
  · intro h
    have hless : ∀ name ∈ reexportedNames t,
        t.value.declaredNames.count name + (reexportedNames t).count name < 2 := by
      intro name hname
      rw [← List.count_append]
      by_contra hmany
      exact h ⟨name, hname, Nat.le_of_not_lt hmany⟩
    refine ⟨fun name => ?_, fun name hname hown => ?_⟩
    · by_cases hname : name ∈ reexportedNames t
      · have := hless name hname
        omega
      · rw [List.count_eq_zero_of_not_mem hname]
        omega
    · have hthere := List.count_pos_iff.mpr hname
      have hdeclared := List.count_pos_iff.mpr hown
      have := hless name hname
      omega
  · rintro ⟨hunique, hapart⟩ ⟨name, hname, hmany⟩
    rw [namesAt, List.count_append, List.count_eq_zero_of_not_mem (hapart name hname)] at hmany
    have := hunique name
    omega

/-- A name is at the root twice exactly if it collides or the root declares a name twice itself. -/
theorem exists_count_namesAt_iff {t : OutputTree} :
    (∃ name, 2 ≤ (namesAt t).count name) ↔ Collides t ∨ ¬t.value.declaredNames.Nodup := by
  constructor
  · rintro ⟨name, hmany⟩
    by_cases hname : name ∈ reexportedNames t
    · exact .inl ⟨name, hname, hmany⟩
    · right
      intro hnodup
      have hone := List.nodup_iff_count_le_one.mp hnodup name
      rw [namesAt, List.count_append, List.count_eq_zero_of_not_mem hname] at hmany
      omega
  · rintro (⟨name, -, hmany⟩ | htwice)
    · exact ⟨name, hmany⟩
    · rw [List.nodup_iff_count_le_one, not_forall] at htwice
      obtain ⟨name, htwice⟩ := htwice
      refine ⟨name, ?_⟩
      rw [namesAt, List.count_append]
      omega

/-! ## Placed trees -/

theorem isSome_eq_of_placed? {m : OutputModule} {directories : List String}
    {path? : Option String} (h : m.placed? directories = .ok path?) :
    path?.isSome = m.ownPath?.isSome := by
  rw [OutputModule.placed?] at h
  cases hown : m.ownPath? with
  | none =>
    rw [hown] at h
    cases h
    rfl
  | some path =>
    rw [hown] at h
    obtain ⟨normal, -, rfl⟩ := exists_of_map_eq_ok h
    rfl

/-- Placing gives a path to exactly the modules that have one. -/
theorem IsPlaced.isSome_path? {t : OutputTree} {placed : PlacedTree} (h : IsPlaced t placed) :
    placed.value.path?.isSome = t.value.ownPath?.isSome := by
  obtain ⟨m, children⟩ := t
  obtain ⟨base, h⟩ := h
  obtain ⟨path?, below, hpath, -, rfl⟩ := exists_of_placeTree_node h
  exact isSome_eq_of_placed? hpath

theorem IsPlaced.children {t : OutputTree} {placed : PlacedTree} (h : IsPlaced t placed) :
    List.Forall₂ IsPlaced t.children placed.children := by
  obtain ⟨m, children⟩ := t
  obtain ⟨path?, below, rfl, -, hbelow⟩ := h.node
  exact hbelow

mutual
/-- Placing a tree places its subtrees. -/
theorem forall₂_isPlaced_subtrees : (t : OutputTree) → ∀ placed, IsPlaced t placed →
    List.Forall₂ IsPlaced t.subtrees placed.subtrees
  | .node m children => by
    intro placed h
    have hroot := h
    obtain ⟨path?, below, rfl, -, hbelow⟩ := h.node
    rw [Tree.subtrees, Tree.subtrees]
    exact .cons hroot (forall₂_isPlaced_subtreesAll children below hbelow)

/-- Placing trees places their subtrees. -/
theorem forall₂_isPlaced_subtreesAll : (ts : List OutputTree) → ∀ placed,
    List.Forall₂ IsPlaced ts placed →
      List.Forall₂ IsPlaced (Tree.subtreesAll ts) (Tree.subtreesAll placed)
  | [] => by
    intro placed h
    cases h
    exact .nil
  | t :: rest => by
    intro placed h
    cases h with
    | cons hfirst hrest =>
      rw [Tree.subtreesAll, Tree.subtreesAll]
      exact List.rel_append (forall₂_isPlaced_subtrees t _ hfirst)
        (forall₂_isPlaced_subtreesAll rest _ hrest)
end

mutual
/-- The names that reach an index through a placed tree are those along the chain. -/
theorem map_fst_exportedNamesOf : (t : OutputTree) → ∀ placed, IsPlaced t placed →
    (exportedNamesOf placed).map Prod.fst = namesOf (chainOf t)
  | .node m children => by
    intro placed h
    obtain ⟨path?, below, rfl, -, hbelow⟩ := h.node
    have hsome : path?.isSome = m.ownPath?.isSome := h.isSome_path?
    rw [exportedNamesOf, chainOf, namesOf_cons, List.map_append]
    congr 1
    · rw [← hsome]
      cases path? with
      | none => rfl
      | some path =>
        show (m.declaredNames.map fun name => (name, path)).map Prod.fst = m.declaredNames
        rw [List.map_map]
        exact List.map_id _
    · cases m.kind with
      | content => rfl
      | reexport => exact map_fst_exportedNamesAll children below hbelow
      | mixed => exact map_fst_exportedNamesAll children below hbelow

/-- The names that reach an index through placed trees are those along the chains. -/
theorem map_fst_exportedNamesAll : (ts : List OutputTree) → ∀ placed,
    List.Forall₂ IsPlaced ts placed →
      (exportedNamesAll placed).map Prod.fst = namesOf (chainOfAll ts)
  | [] => by
    intro placed h
    cases h
    rfl
  | t :: rest => by
    intro placed h
    cases h with
    | cons hfirst hrest =>
      rw [exportedNamesAll, chainOfAll, namesOf_append, List.map_append,
        map_fst_exportedNamesOf t _ hfirst, map_fst_exportedNamesAll rest _ hrest]
end

/-- The check of an index passes exactly if no name collides there. -/
theorem IsPlaced.checkNames_eq_ok_iff {t : OutputTree} {placed : PlacedTree} (h : IsPlaced t placed)
    (path : String) :
    checkNames placed.value.module path placed.children = .ok () ↔ ¬Collides t := by
  rw [SchemaTypings.checkNames_eq_ok_iff, not_collides_iff, h.module,
    map_fst_exportedNamesAll _ _ h.children]
  rfl

/-! ## What goes wrong -/

theorem exists_of_checkOwners_error {owners : Entries String} {pairs : List (String × String)}
    {e : GenerationError} (h : checkOwners owners pairs = .error e) :
    ∃ name paths, e = .nameCollision name paths := by
  induction pairs generalizing owners with
  | nil => cases h
  | cons pair rest ih =>
    obtain ⟨name, path⟩ := pair
    rw [checkOwners] at h
    split at h
    · next owner _ =>
      cases h
      exact ⟨name, [owner, path], rfl⟩
    · exact ih h

/-- Whether a row of modules can be listed by an aggregate: each has a key of its own and a path. -/
def AreListable (ms : List OutputModule) : Prop :=
  (∀ m ∈ ms, m.key?.isSome = true ∧ m.ownPath?.isSome = true) ∧ (ms.map OutputModule.key?).Nodup

theorem exists_aggregated {owner : String} {seen : Entries String} {ts : List OutputTree}
    {placed : List PlacedTree} (hplaced : List.Forall₂ IsPlaced ts placed)
    (h : AreListable (ts.map Tree.value))
    (hseen : ∀ t ∈ ts, ∀ key, t.value.key? = some key → seen.get? key = none) :
    ∃ members, aggregated owner seen placed = .ok members := by
  induction hplaced generalizing seen with
  | nil => exact ⟨[], rfl⟩
  | @cons t first ts rest hfirst _ ih =>
    obtain ⟨hall, hnodup⟩ := h
    rw [List.map_cons, List.forall_mem_cons] at hall
    rw [List.map_cons, List.map_cons, List.nodup_cons] at hnodup
    rw [List.forall_mem_cons] at hseen
    obtain ⟨key, hkey⟩ := Option.isSome_iff_exists.mp hall.1.1
    obtain ⟨path, hpath⟩ := Option.isSome_iff_exists.mp (hfirst.isSome_path?.trans hall.1.2)
    -- the keys differ, so that those of the later members are still free
    have hrest : ∀ u ∈ ts, ∀ other, u.value.key? = some other →
        (seen.insert key first.value.module.exportName).get? other = none := by
      intro u hu other hother
      refine Entries.get?_insert_eq_none_iff.mpr ⟨?_, hseen.2 u hu other hother⟩
      rintro rfl
      apply hnodup.1
      rw [hkey, ← hother, List.map_map]
      exact List.mem_map.mpr ⟨u, hu, rfl⟩
    obtain ⟨members, hmembers⟩ := ih ⟨hall.2, hnodup.2⟩ hrest
    refine ⟨(key, first.value.module.exportName, path) :: members, ?_⟩
    rw [aggregated, hfirst.module, hkey, hpath]
    dsimp only
    rw [hseen.1 key hkey, ← hfirst.module, hmembers]
    rfl

/-- What goes wrong when files are made for paths that are all different is the text of one. -/
theorem exists_of_filesOf_error {fallback : IndexRenderer} {owners : Entries String}
    {ts : List PlacedTree} {failure : Failure}
    (hpaths : ((ts.filter hasPath).map fun t => t.value.path?).Nodup)
    (hfree : ∀ t ∈ ts, ∀ path, t.value.path? = some path → owners.get? path = none)
    (h : filesOf fallback owners ts = .error failure) :
    ∃ t ∈ ts, ∃ path, t.value.path? = some path ∧
      fileText fallback t.value.module path t.children = .error failure := by
  -- as the paths differ, each is still free when its file is written, so that only a text can fail
  induction ts generalizing owners with
  | nil => cases h
  | cons t rest ih =>
    obtain ⟨⟨m, path?⟩, children⟩ := t
    rw [List.forall_mem_cons] at hfree
    rw [filesOf] at h
    cases path? with
    | none =>
      rw [List.filter_cons_of_neg (by simp [hasPath, Tree.value])] at hpaths
      obtain ⟨t, ht, hfails⟩ := ih hpaths hfree.2 h
      exact ⟨t, List.mem_cons_of_mem _ ht, hfails⟩
    | some path =>
      rw [List.filter_cons_of_pos (by simp [hasPath, Tree.value]), List.map_cons,
        List.nodup_cons] at hpaths
      dsimp only at h
      rw [hfree.1 path rfl] at h
      dsimp only at h
      cases htext : fileText fallback m path children with
      | error failure' =>
        rw [htext] at h
        cases h
        exact ⟨_, List.mem_cons_self, path, rfl, htext⟩
      | ok text =>
        rw [htext] at h
        have hrest : ∀ u ∈ rest, ∀ other, u.value.path? = some other →
            (owners.insert path m.exportName).get? other = none := by
          intro u hu other hother
          refine Entries.get?_insert_eq_none_iff.mpr ⟨?_, hfree.2 u hu other hother⟩
          rintro rfl
          apply hpaths.1
          refine List.mem_map.mpr ⟨u, List.mem_filter.mpr ⟨hu, ?_⟩, hother⟩
          rw [hasPath, hother]
          rfl
        obtain ⟨u, hu, hfails⟩ := ih hpaths.2 hrest (eq_error_of_map_eq_error h)
        exact ⟨u, List.mem_cons_of_mem _ hu, hfails⟩

/-- What goes wrong about the text of an index is its view or its renderer. -/
theorem cases_of_fileText_error {fallback : IndexRenderer} {m : OutputModule} {path : String}
    {children : List PlacedTree} {failure : Failure}
    (h : fileText fallback m path children = .error failure) :
    m.kind ≠ .content ∧
      ((∃ e, indexView m path children = .error e ∧ failure = .generation e) ∨
        ∃ view fault, (m.renderer?.getD fallback).render view = .error fault) := by
  rw [fileText] at h
  split at h
  · cases h
  · next hsource =>
    refine ⟨?_, ?_⟩
    · rw [OutputModule.kind]
      split
      · next path text heq => exact absurd heq (hsource path text)
      · simp
      · simp
    · split at h
      · next e he =>
        cases h
        exact .inl ⟨e, he, rfl⟩
      · next view _ =>
        split at h
        · next fault hfault => exact .inr ⟨view, fault, hfault⟩
        · cases h

/-- What goes wrong about the view of an index whose modules can be listed is a name. -/
theorem IsPlaced.exists_of_indexView_error {t : OutputTree} {placed : PlacedTree}
    (h : IsPlaced t placed)
    (hlistable : t.value.aggregate?.isSome = true → AreListable (t.children.map Tree.value))
    {path : String} {e : GenerationError}
    (hfails : indexView placed.value.module path placed.children = .error e) :
    Collides t ∧ ∃ name paths, e = .nameCollision name paths := by
  rw [indexView_eq] at hfails
  -- the names are compared before the members are collected, which here cannot fail
  cases hnames : checkNames placed.value.module path placed.children with
  | error e' =>
    rw [hnames] at hfails
    cases hfails
    refine ⟨?_, exists_of_checkOwners_error hnames⟩
    by_contra hnot
    rw [(h.checkNames_eq_ok_iff path).mpr hnot] at hnames
    cases hnames
  | ok _ =>
    exfalso
    have hmembers : ∃ members, membersOf placed.value.module placed.children = .ok members := by
      rw [membersOf, h.module]
      cases haggregate : t.value.aggregate? with
      | none => exact ⟨[], rfl⟩
      | some name =>
        exact exists_aggregated h.children (hlistable (by rw [haggregate]; rfl))
          fun _ _ _ _ => rfl
    obtain ⟨members, hmembers⟩ := hmembers
    rw [hnames, hmembers] at hfails
    cases hfails

/-! ## Places -/

mutual
/-- A tree of built modules whose sites are all below the root can be placed. -/
theorem exists_placeTree : (t : OutputTree) → (∀ m ∈ t.toList, m.IsBuilt) →
    ∀ ds : List String, (∀ d ∈ ds, IsSegment d.toList) →
      (∀ site ∈ sitesOf (ds.map String.toList) t, place? site.route ≠ none) →
        ∃ placed, placeTree ("" :: ds) t = .ok placed
  | .node m children => by
    intro hbuilt ds hds hsites
    rw [Tree.toList, List.forall_mem_cons] at hbuilt
    have hboth : ∀ d ∈ ds ++ m.directories, IsSegment d.toList := by
      intro d hd
      exact (List.mem_append.mp hd).elim (hds d) (hbuilt.1.directories d)
    have hroute : ds.map String.toList ++ directoryRoute m.directories =
        (ds ++ m.directories).map String.toList := by
      rw [directoryRoute_of_isSegment hbuilt.1.directories, List.map_append]
    rw [sitesOf, hroute, List.forall_mem_append] at hsites
    -- the module's own path is inside exactly if its route resolves
    have hown : ∃ path?, m.placed? ("" :: (ds ++ m.directories)) = .ok path? := by
      rw [OutputModule.placed?]
      cases hpath : m.ownPath? with
      | none => exact ⟨none, rfl⟩
      | some path =>
        have hnormal := hbuilt.1.ownPath path hpath
        have hplace := hsites.1
        rw [hpath, Option.map_some, Option.toList_some, List.forall_mem_singleton,
          Path.withSlashes_eq_self hnormal.not_mem_backslash] at hplace
        obtain ⟨p, hp⟩ := Option.ne_none_iff_exists'.mp hplace
        have hok := (OutputModule.place_eq_ok_iff hboth hnormal).mpr ⟨p, hp, rfl⟩
        exact ⟨some (String.ofList (written p)), by dsimp only; rw [hok]; rfl⟩
    obtain ⟨path?, hpath⟩ := hown
    obtain ⟨below, hbelow⟩ := exists_placeTrees children hbuilt.2 _ hboth hsites.2
    refine ⟨.node ⟨m, path?⟩ below, ?_⟩
    rw [placeTree, List.cons_append, hpath]
    dsimp only
    rw [hbelow]
    rfl

/-- Trees of built modules whose sites are all below the root can be placed. -/
theorem exists_placeTrees : (ts : List OutputTree) → (∀ m ∈ Tree.toListAll ts, m.IsBuilt) →
    ∀ ds : List String, (∀ d ∈ ds, IsSegment d.toList) →
      (∀ site ∈ sitesOfAll (ds.map String.toList) ts, place? site.route ≠ none) →
        ∃ placed, placeTrees ("" :: ds) ts = .ok placed
  | [] => fun _ _ _ _ => ⟨[], rfl⟩
  | t :: rest => by
    intro hbuilt ds hds hsites
    rw [Tree.toListAll, List.forall_mem_append] at hbuilt
    rw [sitesOfAll, List.forall_mem_append] at hsites
    obtain ⟨first, hfirst⟩ := exists_placeTree t hbuilt.1 ds hds hsites.1
    obtain ⟨more, hmore⟩ := exists_placeTrees rest hbuilt.2 ds hds hsites.2
    refine ⟨first :: more, ?_⟩
    rw [placeTrees, hfirst]
    dsimp only
    rw [hmore]
    rfl
end

/-- Files at different places have different paths. -/
theorem nodup_paths_of_forall₂_isSiteOf {sites : List Site} {ts : List PlacedTree}
    (h : List.Forall₂ IsSiteOf sites ts)
    (hapart : (sites.map fun site => place? site.route).Nodup) :
    (ts.map fun t => t.value.path?).Nodup := by
  induction h with
  | nil => exact List.nodup_nil
  | @cons site t sites ts hsite hrest ih =>
    rw [List.map_cons, List.nodup_cons] at hapart ⊢
    refine ⟨fun hmem => ?_, ih hapart.2⟩
    obtain ⟨u, hu, hpath⟩ := List.mem_map.mp hmem
    obtain ⟨other, hother, hothersite⟩ := exists_left_of_forall₂ hrest hu
    obtain ⟨p, hp, hpnames, hppath⟩ := hsite.place
    obtain ⟨q, hq, hqnames, hqpath⟩ := hothersite.place
    rw [hppath, hqpath, Option.some.injEq, String.ofList_inj] at hpath
    have hsame := Path.written_inj hqnames hpnames hpath
    exact hapart.1 (List.mem_map.mpr ⟨other, hother, by rw [hp, hq, hsame]⟩)

/-! ## Trees -/

/-- What flattening a tree rests on beside its names: files inside the root at different places, and
modules that every aggregate can list. -/
structure IsSettled (t : OutputTree) : Prop where
  inside : ∀ site ∈ t.sites, place? site.route ≠ none
  apart : (t.sites.map fun site => place? site.route).Nodup
  listable : ∀ u ∈ t.subtrees, u.value.IsIndex → u.value.aggregate?.isSome = true →
    AreListable (u.children.map Tree.value)

/-- Whether a renderer writes every index. -/
def IndexRenderer.IsTotal (r : IndexRenderer) : Prop := ∀ view, ∃ text, r.render view = .ok text

/-- In a tree that is flattened no name collides. -/
theorem OutputTree.not_collides_of_flatten {t : OutputTree} {fallback? : Option IndexRenderer}
    {files : List File} (h : t.flatten fallback? = .ok files) :
    ∀ u ∈ t.subtrees, u.value.IsIndex → ¬Collides u := by
  intro u hu hindex
  obtain ⟨placed, hplaced, hfiles, -⟩ := flatten_eq_ok_iff.mp h
  obtain ⟨v, hv, huv⟩ :=
    exists_right_of_forall₂ (forall₂_isPlaced_subtrees t placed ⟨_, hplaced⟩) hu
  have hpath : hasPath v = true := huv.isSome_path?.trans hindex.1
  obtain ⟨f, -, hfile⟩ := exists_right_of_forall₂ hfiles (List.mem_filter.mpr ⟨hv, hpath⟩)
  have hkind : v.value.module.kind ≠ .content := huv.module ▸ hindex.2
  obtain ⟨view, hview, -⟩ := (fileText_eq_ok_iff hkind).mp hfile.text
  exact (huv.checkNames_eq_ok_iff f.path).mp (indexView_eq_ok_iff.mp hview).1

/-- A settled tree that is not flattened has a name that collides, and that is what is told. -/
theorem OutputTree.exists_collides_of_flatten_error {t : OutputTree}
    (hbuilt : ∀ m ∈ t.toList, m.IsBuilt) (hsettled : IsSettled t)
    {fallback? : Option IndexRenderer}
    (htotal : ∀ m ∈ t.toList,
      (m.renderer?.getD (fallback?.getD defaultRenderer)).IsTotal)
    {failure : Failure} (h : t.flatten fallback? = .error failure) :
    (∃ u ∈ t.subtrees, u.value.IsIndex ∧ Collides u) ∧
      ∃ name paths, failure = .generation (.nameCollision name paths) := by
  obtain ⟨placed, hplaced⟩ := exists_placeTree t hbuilt [] (by simp) hsettled.inside
  rw [OutputTree.flatten, hplaced] at h
  dsimp only at h
  have hsites := forall₂_isSiteOf t hbuilt [] (by simp) placed hplaced
  -- all paths are placed and differ, so that it is the text of an index that fails
  obtain ⟨v, hv, path, hpath, hfails⟩ := exists_of_filesOf_error
    (nodup_paths_of_forall₂_isSiteOf hsites hsettled.apart) (fun _ _ _ _ => rfl) h
  obtain ⟨u, hu, huv⟩ :=
    exists_left_of_forall₂ (forall₂_isPlaced_subtrees t placed ⟨_, hplaced⟩) hv
  obtain ⟨hkind, hcause⟩ := cases_of_fileText_error hfails
  rw [huv.module] at hkind hcause
  have hindex : u.value.IsIndex := by
    refine ⟨?_, hkind⟩
    rw [← huv.isSome_path?, hpath]
    rfl
  rcases hcause with ⟨e, he, rfl⟩ | ⟨view, fault, hfault⟩
  · rw [← huv.module] at he
    obtain ⟨hcollides, name, paths, rfl⟩ :=
      huv.exists_of_indexView_error (hsettled.listable u hu hindex) he
    exact ⟨⟨u, hu, hindex, hcollides⟩, name, paths, rfl⟩
  · obtain ⟨text, htext⟩ := htotal u.value (Tree.value_mem_toList hu) view
    rw [hfault] at htext
    cases htext

end SchemaTypings
