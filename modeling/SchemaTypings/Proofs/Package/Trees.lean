/-
  SchemaTypings.Proofs.Package.Trees

  What trees the sections of a definition are.  They are put together in four ways only: a module of
  declarations, the accessor of secrets, an index over such trees, and such a tree in a directory with
  a kebab name.  What each of the four keeps holds of all generated typings.
-/
import SchemaTypings.Proofs.Output.Site
import SchemaTypings.Proofs.Package.Closure
import SchemaTypings.Proofs.Typescript.Pages

namespace SchemaTypings

open Typescript (IsDeclarable IsWholeWord typeName)

namespace Toolkit

variable {t : Toolkit}

/-! ## Declarations -/

/-- Whether a source declares some names, all of them at the beginnings of lines. -/
def IsDeclaring (source : String) : Prop := ∃ names, Typescript.Declares source.toList names

theorem isDeclaring_schemaSource {schema : Json} {name source : String} {doc : List String}
    (h : t.schemaSource schema name doc = .ok source) : IsDeclaring source := by
  rw [schemaSource] at h
  split at h
  · cases h
  · next node hnode =>
    have hregular := Schema.everywhere_isRegular_of_ofDocument (eq_ok_of_mapError_eq_ok hnode)
    split at h
    · cases h
    · next made hmade =>
      cases h
      exact ⟨_, Typescript.declares_nodeSource hregular (Typescript.typeSource_eq_ok_iff.mp hmade).2.2⟩

theorem isDeclaring_joinSources {sources : List String} (h : ∀ s ∈ sources, IsDeclaring s) :
    IsDeclaring (joinSources sources) := by
  choose! names hnames using h
  have hpairs : ∀ pair ∈ sources.map fun s => (s, names s),
      Typescript.Declares pair.1.toList pair.2 := by
    rw [List.forall_mem_map]
    exact hnames
  have hall := Typescript.declares_joinSources hpairs
  rw [List.map_map] at hall
  have hsame : sources.map (Prod.fst ∘ fun s => (s, names s)) = sources := List.map_id sources
  rw [hsame] at hall
  exact ⟨_, hall⟩

/-! ## The trees -/

/-- How trees are put together. -/
inductive Builds (t : Toolkit) : OutputTree → Prop
  | content {exportName name declarations : String} {key? : Option String} {tree : OutputTree} :
      IsWholeWord exportName → IsDeclaring declarations →
      t.contentModule exportName (t.fileName name) declarations key? = .ok tree → t.Builds tree
  | secrets {secrets : List String} {tree : OutputTree} :
      t.secretsTree secrets = .ok tree → t.Builds tree
  | index {exportName : String} {key? aggregate? : Option String} {doc : List String}
      {m : OutputModule} {children : List OutputTree} : IsWholeWord exportName →
      (∀ name ∈ aggregate?, name = exportName ∧ name ≠ "") →
      t.indexModule exportName key? aggregate? doc = .ok m →
      (∀ child ∈ children, t.Builds child) → t.Builds (.node m children)
  | moved {tree : OutputTree} (name : String) :
      t.Builds tree → t.Builds (tree.moveUnder [Naming.kebabCase name])

theorem isWholeWord_typeName (name : String) : IsWholeWord (typeName name) :=
  (Typescript.isDeclarable_typeName name).isWord.isWordPart

theorem typeName_ne_empty (name : String) : typeName name ≠ "" := by
  intro hempty
  have hne := (Typescript.isDeclarable_typeName name).isWord.ne_nil
  rw [hempty] at hne
  exact hne String.toList_empty

theorem isWholeWord_append {front behind : String} (hfront : IsWholeWord front)
    (hbehind : IsWholeWord behind) : IsWholeWord (front ++ behind) := by
  rw [IsWholeWord, String.toList_append, List.forall_mem_append]
  exact ⟨hfront, hbehind⟩

theorem builds_schemaModule {type name : String} (htype : IsWholeWord type) {schema : SchemaObject}
    {doc : List String} {tree : OutputTree} (h : t.schemaModule type name schema doc = .ok tree) :
    t.Builds tree := by
  obtain ⟨declarations, hdeclarations, htree⟩ := exists_of_bind_eq_ok h
  exact .content htype (isDeclaring_schemaSource hdeclarations) htree

theorem builds_actionModule {name : String} {action : ActionDefinition} {tree : OutputTree}
    (h : t.actionModule name action = .ok tree) : t.Builds tree := by
  obtain ⟨input, hinput, h⟩ := exists_of_bind_eq_ok h
  obtain ⟨output, houtput, h⟩ := exists_of_bind_eq_ok h
  obtain ⟨pair, hpair, htree⟩ := exists_of_bind_eq_ok h
  have hends : IsWholeWord "Input" ∧ IsWholeWord "Output" := by decide
  have hmembers : ∀ m ∈ [("input", typeName name ++ "Input"), ("output", typeName name ++ "Output")],
      IsWholeWord m.2 := by
    rw [List.forall_mem_cons, List.forall_mem_singleton]
    exact ⟨isWholeWord_append (isWholeWord_typeName name) hends.1,
      isWholeWord_append (isWholeWord_typeName name) hends.2⟩
  refine .content (isWholeWord_typeName name) (isDeclaring_joinSources ?_) htree
  simp only [List.forall_mem_cons, List.not_mem_nil, false_implies, forall_const, and_true]
  exact ⟨isDeclaring_schemaSource hinput, isDeclaring_schemaSource houtput, _,
    Typescript.declares_objectTypeSource (Typescript.isDeclarable_typeName name) hmembers
      (eq_ok_of_mapError_eq_ok hpair)⟩

theorem builds_aggregateIndex {α : Type} {exportName key : String} {doc : List String}
    {build : String → α → Except Failure OutputTree} {entries : Entries α} {tree : OutputTree}
    (hname : IsWholeWord exportName) (hne : exportName ≠ "")
    (hbuild : ∀ name entry tree, build name entry = .ok tree → t.Builds tree)
    (h : t.aggregateIndex exportName key doc build entries = .ok tree) : t.Builds tree := by
  obtain ⟨m, hm, h⟩ := exists_of_bind_eq_ok h
  obtain ⟨trees, htrees, h⟩ := exists_of_bind_eq_ok h
  cases h
  refine .index hname ?_ hm fun child hchild => ?_
  · rintro _ ⟨rfl⟩
    exact ⟨rfl, hne⟩
  · obtain ⟨e, -, he⟩ := exists_left_of_forall₂ (buildEach_eq_ok_iff.mp htrees) hchild
    exact hbuild _ _ _ he

theorem builds_channelModule {name : String} {channel : ChannelDefinition} {tree : OutputTree}
    (h : t.channelModule name channel = .ok tree) : t.Builds tree := by
  obtain ⟨raw, hraw, h⟩ := exists_of_bind_eq_ok h
  cases h
  refine .moved name (builds_aggregateIndex (isWholeWord_typeName name) (typeName_ne_empty name) ?_
    hraw)
  intro message definition tree htree
  exact builds_schemaModule
    (isWholeWord_append (isWholeWord_typeName name) (isWholeWord_typeName message)) htree

theorem builds_configurationTree {schema : SchemaObject} {tree : OutputTree}
    (h : t.configurationTree schema = .ok tree) : t.Builds tree := by
  obtain ⟨declarations, hdeclarations, h⟩ := exists_of_bind_eq_ok h
  obtain ⟨m, hm, h⟩ := exists_of_bind_eq_ok h
  obtain ⟨content, hcontent, h⟩ := exists_of_bind_eq_ok h
  cases h
  have hname : IsWholeWord "Configuration" := by decide
  have hfile : Naming.kebabCase "configuration" = "configuration" := by decide +kernel
  rw [← hfile] at hcontent
  refine .index hname (fun name hname => by cases hname) hm ?_
  rw [List.forall_mem_singleton]
  exact .content hname (isDeclaring_schemaSource hdeclarations) hcontent

/-- The sections are put together in these ways. -/
theorem builds_sectionTree {kind : SectionKind} {definition : Definition} {tree : OutputTree}
    (h : t.sectionTree kind definition = .ok tree) : t.Builds tree := by
  have haggregate : ∀ {α : Type} {name key : String}
      {build : String → α → Except Failure OutputTree} {entries : Entries α},
      name.toList.all Typescript.isWordPart = true → name ≠ "" →
      (∀ name entry tree, build name entry = .ok tree → t.Builds tree) →
      t.aggregateIndex name key [] build entries = .ok tree → t.Builds tree :=
    fun hname => builds_aggregateIndex (List.all_eq_true.mp hname)
  cases kind with
  | configuration => exact builds_configurationTree h
  | events =>
    exact haggregate (by decide) (by decide)
      (fun name _ _ => builds_schemaModule (isWholeWord_typeName name)) h
  | states =>
    exact haggregate (by decide) (by decide)
      (fun name _ _ => builds_schemaModule (isWholeWord_typeName name)) h
  | actions =>
    rw [sectionTree] at h
    split at h
    · exact haggregate (by decide) (by decide) (fun _ _ _ => builds_actionModule) h
    · cases h
  | channels =>
    rw [sectionTree] at h
    split at h
    · exact haggregate (by decide) (by decide) (fun _ _ _ => builds_channelModule) h
    · cases h
  | secrets =>
    rw [sectionTree] at h
    split at h
    · exact .secrets h
    · cases h

/-! ## What all modules keep -/

/-- What holds of all modules with the paths of these trees, and is kept when one is moved, holds of all
modules in them. -/
theorem forall_toList_of_builds {holds : OutputModule → Prop}
    (hmade : ∀ d m, OutputModule.ofDescription d = .ok m →
      (d.path? = some t.layout.indexFile ∨ ∃ name, d.path? = some (t.fileName name)) → holds m)
    (hmoved : ∀ m name, holds m → holds (m.moveUnder [Naming.kebabCase name])) {tree : OutputTree}
    (h : t.Builds tree) : ∀ m ∈ tree.toList, holds m := by
  induction h with
  | @content exportName name declarations key? tree _ _ htree =>
    rw [contentModule] at htree
    split at htree
    · cases htree
    · split at htree
      · cases htree
      · next m hm =>
        cases htree
        exact List.forall_mem_singleton.mpr (hmade _ m hm (.inr ⟨name, rfl⟩))
  | secrets htree =>
    obtain ⟨environment, -, htree⟩ := exists_of_bind_eq_ok htree
    obtain ⟨text, -, htree⟩ := exists_of_bind_eq_ok htree
    obtain ⟨m, hm, htree⟩ := exists_of_bind_eq_ok htree
    cases htree
    exact List.forall_mem_singleton.mpr (hmade _ _ (eq_ok_of_mapError_eq_ok hm) (.inl rfl))
  | index _ _ hm _ ih =>
    rw [indexModule] at hm
    split at hm
    · cases hm
    · next hmade' =>
      cases hm
      refine List.forall_mem_cons.mpr ⟨hmade _ _ hmade' (.inl rfl), ?_⟩
      exact Tree.forall_mem_toListAll.mpr ih
  | @moved tree name _ ih =>
    obtain ⟨m, children⟩ := tree
    rw [Tree.toList, List.forall_mem_cons] at ih
    exact List.forall_mem_cons.mpr ⟨hmoved m name ih.1, ih.2⟩

theorem isBuilt_of_builds {tree : OutputTree} (h : t.Builds tree) : ∀ m ∈ tree.toList, m.IsBuilt :=
  forall_toList_of_builds (fun _ _ hm _ => OutputModule.isBuilt_of_ofDescription hm)
    (fun m _ (hm : m.IsBuilt) => hm.moveUnder _) h

end Toolkit

/-- So are they under their directories. -/
theorem builds_of_sectionTrees {t : Toolkit} {definition : Definition} {trees : List OutputTree}
    (h : sectionTrees t .standard definition = .ok trees) : ∀ tree ∈ trees, t.Builds tree := by
  intro tree htree
  obtain ⟨kind, -, raw, hraw, rfl⟩ := exists_left_of_forall₂ (sectionTrees_eq_ok_iff.mp h) htree
  have hdirectory : Naming.kebabCase kind.name = kind.name := by
    cases kind with
    | _ => decide +kernel
  rw [← hdirectory]
  exact .moved kind.name (Toolkit.builds_sectionTree hraw)

end SchemaTypings
