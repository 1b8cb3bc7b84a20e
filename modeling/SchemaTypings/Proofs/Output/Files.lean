/-
  SchemaTypings.Proofs.Output.Files

  Exactly when names and files pass the checks on the way to a flat list.  The names that come to an
  index are pairwise different and none is its own; the files are those of the placed modules, in
  order, with pairwise different paths.
-/
import SchemaTypings.Proofs.Output.Flattened
import SchemaTypings.Proofs.Store.Forest

namespace SchemaTypings

open Typescript (IndexView)

/-! ## Names -/

/-- Names pass the check exactly if they are pairwise different and none has an owner. -/
theorem checkOwners_eq_ok_iff {owners : Entries String} {pairs : List (String × String)} :
    checkOwners owners pairs = .ok () ↔
      (pairs.map Prod.fst).Nodup ∧ ∀ name ∈ pairs.map Prod.fst, owners.get? name = none := by
  induction pairs generalizing owners with
  | nil => simp [checkOwners]
  | cons pair rest ih =>
    obtain ⟨name, path⟩ := pair
    rw [checkOwners, List.map_cons, List.nodup_cons, List.forall_mem_cons]
    cases howner : owners.get? name with
    | some owner => simp
    | none =>
      simp only [ih, Entries.get?_insert_eq_none_iff, true_and]
      constructor
      · rintro ⟨hnodup, hrest⟩
        have hnot : name ∉ rest.map Prod.fst := fun hmem => (hrest name hmem).1 rfl
        exact ⟨⟨hnot, hnodup⟩, fun other hmem => (hrest other hmem).2⟩
      · rintro ⟨⟨hnot, hnodup⟩, hrest⟩
        refine ⟨hnodup, fun other hmem => ⟨?_, hrest other hmem⟩⟩
        rintro rfl
        exact hnot hmem

/-- An index may be written exactly if the names that come to it are pairwise different and none of
them is declared in its own file. -/
theorem checkNames_eq_ok_iff {m : OutputModule} {path : String} {children : List PlacedTree} :
    checkNames m path children = .ok () ↔
      ((exportedNamesAll children).map Prod.fst).Nodup ∧
        ∀ name ∈ (exportedNamesAll children).map Prod.fst, name ∉ m.declaredNames := by
  have hown : ∀ name, (Entries.insertAll [] (m.declaredNames.map fun name => (name, path))).get? name =
      none ↔ name ∉ m.declaredNames := by
    intro name
    rw [Entries.get?_insertAll_eq_none_iff, Entries.keys, List.map_map]
    simp
  simp only [checkNames, checkOwners_eq_ok_iff, hown]

/-! ## Views -/

mutual
/-- The paths that stand for a tree are paths in it. -/
theorem mem_exportedPaths : (t : PlacedTree) → ∀ target ∈ exportedPaths t,
    ∃ u ∈ t.subtrees, u.value.path? = some target
  | .node ⟨m, path?⟩ children => by
    intro target htarget
    rw [exportedPaths] at htarget
    cases path? with
    | none =>
      obtain ⟨u, hu, hpath⟩ := mem_exportedPathsAll children target htarget
      exact ⟨u, Tree.mem_subtrees_node.mpr (.inr hu), hpath⟩
    | some path =>
      rw [List.mem_singleton.mp htarget]
      exact ⟨_, Tree.self_mem_subtrees _, rfl⟩

/-- The paths that stand for trees are paths in them. -/
theorem mem_exportedPathsAll : (ts : List PlacedTree) → ∀ target ∈ exportedPathsAll ts,
    ∃ u ∈ Tree.subtreesAll ts, u.value.path? = some target
  | [] => by simp [exportedPathsAll]
  | t :: rest => by
    intro target htarget
    rw [exportedPathsAll, List.mem_append] at htarget
    rw [Tree.subtreesAll]
    rcases htarget with htarget | htarget
    · obtain ⟨u, hu, hpath⟩ := mem_exportedPaths t target htarget
      exact ⟨u, List.mem_append_left _ hu, hpath⟩
    · obtain ⟨u, hu, hpath⟩ := mem_exportedPathsAll rest target htarget
      exact ⟨u, List.mem_append_right _ hu, hpath⟩
end

/-- An aggregate lists trees at hand. -/
theorem exists_isListed_of_aggregated {owner : String} {seen : Entries String}
    {ts : List PlacedTree} {members : List (String × String × String)}
    (h : aggregated owner seen ts = .ok members) :
    ∀ member ∈ members, ∃ t ∈ ts, IsListed t member := by
  induction ts generalizing seen members with
  | nil =>
    cases h
    simp
  | cons t rest ih =>
    have hrest : ∀ {seen more}, aggregated owner seen rest = .ok more →
        ∀ member ∈ more, ∃ u ∈ t :: rest, IsListed u member := by
      intro seen more hmore member hmember
      obtain ⟨u, hu, hlisted⟩ := ih hmore member hmember
      exact ⟨u, List.mem_cons_of_mem _ hu, hlisted⟩
    rw [aggregated] at h
    split at h
    · exact hrest h
    · next key hkey =>
      split at h
      · cases h
      · next path hpath =>
        split at h
        · cases h
        · obtain ⟨more, hmore, rfl⟩ := exists_of_map_eq_ok h
          exact List.forall_mem_cons.mpr
            ⟨⟨t, List.mem_cons_self, hkey, rfl, hpath⟩, hrest hmore⟩

/-- The members of the aggregate of an index; without one there are none. -/
def membersOf (m : OutputModule) (children : List PlacedTree) :
    Except GenerationError (List (String × String × String)) :=
  match m.aggregate? with
  | none => .ok []
  | some _ => aggregated m.exportName [] children

theorem exists_isListed_of_membersOf {m : OutputModule} {children : List PlacedTree}
    {members : List (String × String × String)} (h : membersOf m children = .ok members) :
    ∀ member ∈ members, ∃ t ∈ children, IsListed t member := by
  rw [membersOf] at h
  split at h
  · cases h
    simp
  · exact exists_isListed_of_aggregated h

theorem mem_of_membersOf {m : OutputModule} {children : List PlacedTree}
    {members : List (String × String × String)} (h : membersOf m children = .ok members) :
    ∀ member ∈ members, ∃ t ∈ children, t.value.path? = some member.2.2 := by
  intro member hmember
  obtain ⟨t, ht, -, -, hpath⟩ := exists_isListed_of_membersOf h member hmember
  exact ⟨t, ht, hpath⟩

/-- The view of an index with the given members. -/
def viewOf (m : OutputModule) (path : String) (children : List PlacedTree)
    (members : List (String × String × String)) : IndexView where
  path := path
  exportName := m.exportName
  content? := m.text?
  exports := (exportedPathsAll children).map (Path.specifierString path)
  imports := members.map fun (_, name, target) => ⟨name, Path.specifierString path target⟩
  aggregate? := m.aggregate?
  entries := members.map fun (key, name, _) => ⟨key, name⟩
  doc := m.doc

/-- An index is written from its view once its names have passed the check and its members are
listed. -/
theorem indexView_eq (m : OutputModule) (path : String) (children : List PlacedTree) :
    indexView m path children = (checkNames m path children).bind fun _ =>
      (membersOf m children).bind fun members => .ok (viewOf m path children members) := by
  unfold indexView membersOf viewOf
  cases m.aggregate? <;> rfl

/-- An index has a view exactly if its names pass the check and its members can be listed. -/
theorem indexView_eq_ok_iff {m : OutputModule} {path : String} {children : List PlacedTree}
    {view : IndexView} :
    indexView m path children = .ok view ↔ checkNames m path children = .ok () ∧
      ∃ members, membersOf m children = .ok members ∧ viewOf m path children members = view := by
  rw [indexView_eq]
  cases checkNames m path children with
  | error e =>
    constructor
    · intro h
      cases h
    · rintro ⟨h, -⟩
      cases h
  | ok _ =>
    cases membersOf m children with
    | error e =>
      constructor
      · intro h
        cases h
      · rintro ⟨-, members, h, -⟩
        cases h
    | ok members =>
      constructor
      · intro h
        cases h
        exact ⟨rfl, members, rfl, rfl⟩
      · rintro ⟨-, _, hmembers, rfl⟩
        cases hmembers
        rfl

/-- The text of an index is the page of its view. -/
theorem fileText_eq_ok_iff {fallback : IndexRenderer} {m : OutputModule} (hkind : m.kind ≠ .content)
    {path text : String} {children : List PlacedTree} :
    fileText fallback m path children = .ok text ↔
      ∃ view, indexView m path children = .ok view ∧
        (m.renderer?.getD fallback).render view = .ok text := by
  constructor
  · exact exists_indexView_of_fileText hkind
  · rintro ⟨view, hview, hpage⟩
    rw [fileText]
    split
    · next hsource =>
      rw [OutputModule.kind, hsource] at hkind
      exact absurd rfl hkind
    · rw [hview]
      dsimp only
      rw [hpage]

/-! ## Files -/

/-- Whether a module has a file. -/
def hasPath (t : PlacedTree) : Bool := t.value.path?.isSome

/-- Whether a file is the one at the root of a placed tree. -/
structure IsFileOf (fallback : IndexRenderer) (t : PlacedTree) (f : File) : Prop where
  path : t.value.path? = some f.path
  text : fileText fallback t.value.module f.path t.children = .ok f.content

variable {fallback : IndexRenderer}

/-- Files are made exactly if each module with a path has its text, and no path has an owner or comes
twice. -/
theorem filesOf_eq_ok_iff {owners : Entries String} {ts : List PlacedTree} {files : List File} :
    filesOf fallback owners ts = .ok files ↔
      List.Forall₂ (IsFileOf fallback) (ts.filter hasPath) files ∧
        (files.map File.path).Nodup ∧ ∀ f ∈ files, owners.get? f.path = none := by
  induction ts generalizing owners files with
  | nil =>
    rw [filesOf, List.filter_nil, List.forall₂_nil_left_iff]
    constructor
    · rintro h
      cases h
      simp
    · rintro ⟨rfl, -⟩
      rfl
  | cons t rest ih =>
    obtain ⟨⟨m, path?⟩, children⟩ := t
    rw [filesOf]
    -- a module without a file claims no path
    cases path? with
    | none =>
      rw [List.filter_cons_of_neg (by simp [hasPath, Tree.value])]
      exact ih
    | some path =>
      rw [List.filter_cons_of_pos (by simp [hasPath, Tree.value]), List.forall₂_cons_left_iff]
      dsimp only
      constructor
      · intro h
        split at h
        · cases h
        · next hfree =>
          split at h
          · cases h
          · next text htext =>
            obtain ⟨more, hmore, rfl⟩ := exists_of_map_eq_ok h
            obtain ⟨hfiles, hnodup, howners⟩ := ih.mp hmore
            have hother : ∀ f ∈ more, path ≠ f.path ∧ owners.get? f.path = none := fun f hf =>
              Entries.get?_insert_eq_none_iff.mp (howners f hf)
            refine ⟨⟨⟨path, text⟩, more, ⟨rfl, htext⟩, hfiles, rfl⟩, ?_, ?_⟩
            · rw [List.map_cons, List.nodup_cons]
              refine ⟨?_, hnodup⟩
              intro hmem
              obtain ⟨f, hf, heq⟩ := List.mem_map.mp hmem
              exact (hother f hf).1 heq.symm
            · exact List.forall_mem_cons.mpr ⟨hfree, fun f hf => (hother f hf).2⟩
      · rintro ⟨⟨⟨own, text⟩, more, ⟨hpath, htext⟩, hfiles, rfl⟩, hnodup, howners⟩
        cases hpath
        rw [List.forall_mem_cons] at howners
        rw [List.map_cons, List.nodup_cons] at hnodup
        -- no later file has the path of this one, which therefore may be claimed in front of them
        have hmore : filesOf fallback (owners.insert own m.exportName) rest = .ok more := by
          refine ih.mpr ⟨hfiles, hnodup.2, fun f hf => ?_⟩
          refine Entries.get?_insert_eq_none_iff.mpr ⟨?_, howners.2 f hf⟩
          rintro rfl
          exact hnodup.1 (List.mem_map.mpr ⟨f, hf, rfl⟩)
        have hfree : owners.get? own = none := howners.1
        have hown : fileText fallback m own children = .ok text := htext
        rw [hfree, hown, hmore]
        rfl

/-- A tree is flattened exactly if it can be placed, each module with a path has its text, and no path
comes twice. -/
theorem flatten_eq_ok_iff {t : OutputTree} {fallback? : Option IndexRenderer} {files : List File} :
    t.flatten fallback? = .ok files ↔ ∃ placed, placeTree [""] t = .ok placed ∧
      List.Forall₂ (IsFileOf (fallback?.getD defaultRenderer)) (placed.subtrees.filter hasPath) files ∧
        (files.map File.path).Nodup := by
  rw [OutputTree.flatten]
  cases hplaced : placeTree [""] t with
  | error e => simp
  | ok placed =>
    have hfree : ∀ f ∈ files, (Entries.get? [] f.path : Option String) = none := fun f _ => rfl
    simp only [filesOf_eq_ok_iff, Except.ok.injEq, exists_eq_left']
    exact ⟨fun h => ⟨h.1, h.2.1⟩, fun h => ⟨h.1, h.2, hfree⟩⟩

end SchemaTypings
