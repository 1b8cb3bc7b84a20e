/-
  SchemaTypings.Proofs.Section.Module

  What the builders of a section make.  A builder that succeeds gives one module an entry; the module
  of a schema or of a pair of schemas holds their declarations, and an index aggregates what is below
  it.
-/
import SchemaTypings.Proofs.Output.Flattened
import SchemaTypings.Proofs.Package.Typings

namespace SchemaTypings

open Naming (letters)
open Typescript (DeclarationText IndexView declaredNames typeName)

namespace Toolkit

variable {t : Toolkit}

/-! ## Modules -/

theorem exists_of_indexModule {exportName : String} {key? aggregate? : Option String}
    {doc : List String} {m : OutputModule}
    (h : t.indexModule exportName key? aggregate? doc = .ok m) :
    ∃ path, m =
      { exportName, source := .reexport (some path) aggregate?, key?, doc
        renderer? := some (Typescript.renderer t.generator) } := by
  rw [indexModule] at h
  split at h
  · cases h
  · next made hmade =>
    cases h
    obtain ⟨source, hsource, rfl⟩ := exists_of_map_eq_ok hmade
    obtain ⟨path, -, rfl⟩ := exists_of_map_eq_ok hsource
    exact ⟨path, rfl⟩

theorem exists_of_contentModule {exportName path declarations : String} {key? : Option String}
    {tree : OutputTree} (h : t.contentModule exportName path declarations key? = .ok tree) :
    ∃ normal text, OutputModule.normalPath path = .ok normal ∧
      Typescript.file t.generator declarations = .ok text ∧ tree = .leaf
        { exportName, source := .content normal text, key?
          names := Typescript.exportedNames declarations } := by
  rw [contentModule] at h
  split at h
  · cases h
  · next text htext =>
    split at h
    · cases h
    · next made hmade =>
      cases h
      obtain ⟨source, hsource, rfl⟩ := exists_of_map_eq_ok hmade
      obtain ⟨normal, hnormal, rfl⟩ := exists_of_map_eq_ok hsource
      exact ⟨normal, text, hnormal, htext, rfl⟩

theorem exists_of_schemaSource {schema : Json} {name source : String} {doc : List String}
    (h : t.schemaSource schema name doc = .ok source) :
    ∃ node, Typescript.nodeSource t.generator node name doc = .ok source := by
  rw [schemaSource] at h
  split at h
  · cases h
  · next node hnode =>
    split at h
    · cases h
    · next made hmade =>
      cases h
      exact ⟨node, (Typescript.typeSource_eq_ok_iff.mp hmade).2.2⟩

/-- The builders make one module an entry, in order. -/
theorem buildEach_eq_ok_iff {α : Type} {build : String → α → Except Failure OutputTree}
    {entries : Entries α} {trees : List OutputTree} :
    buildEach build entries = .ok trees ↔
      List.Forall₂ (fun e tree => build e.1 e.2 = .ok tree) entries trees := by
  induction entries generalizing trees with
  | nil =>
    rw [List.forall₂_nil_left_iff, buildEach, Except.ok.injEq]
    exact eq_comm
  | cons e rest ih =>
    rw [buildEach, List.forall₂_cons_left_iff]
    constructor
    · intro h
      split at h
      · cases h
      · next tree htree =>
        obtain ⟨more, hmore, rfl⟩ := exists_of_map_eq_ok h
        exact ⟨tree, more, htree, ih.mp hmore, rfl⟩
    · rintro ⟨tree, more, htree, hmore, rfl⟩
      rw [htree, ih.mpr hmore]
      rfl

end Toolkit

/-! ## Members -/

variable {config : Config} {fallback : IndexRenderer} {files : List File}

/-- Whether a placed module stands for a member of an aggregate type: it has the key, the type's name
and the path of the file, and the member is closed exactly if it is well named. -/
structure IsMember (config : Config) (files : List File) (placed : PlacedTree)
    (m : ImportedMember) : Prop where
  key : placed.value.module.key? = some m.key
  name : placed.value.module.exportName = m.typeName
  path : placed.value.path? = some m.source.file.path
  source : m.source.IsAmong config files
  pair : m.origin = .pair → ∃ doc, pairText doc m.typeName ∈ m.source.body.texts
  closed : m.IsClosed config files ↔ m.IsWellNamed

/-- A content module is written with its own text. -/
theorem exists_file_of_leaf {m : OutputModule} {normal text : String} {placed : PlacedTree}
    (hsource : m.source = .content normal text) (hplaced : IsPlaced (.leaf m) placed)
    (hfiles : HasFiles fallback files placed) :
    ∃ path, placed.value = ⟨m, some path⟩ ∧ ⟨path, text⟩ ∈ files := by
  obtain ⟨base, hplaced⟩ := hplaced
  obtain ⟨path, -, rfl⟩ := exists_of_placeTree_leaf hsource hplaced
  obtain ⟨content, hcontent, hmem⟩ := hfiles.root rfl
  simp only [fileText, hsource] at hcontent
  cases hcontent
  exact ⟨path, rfl, hmem⟩

/-- What is declared under a name with one ending is nothing that the same name is the beginning of
with another. -/
theorem not_mem_declaredNames_append {node : SchemaNode} {start more other : String}
    (hother : letters other.toList ≠ [])
    (hbegins : ¬letters other.toList <+: letters more.toList) :
    start ++ more ∉ declaredNames node (start ++ other) := by
  intro hmem
  have hletters := Typescript.letters_prefix_of_mem_declaredNames hmem
  have hne : letters (start ++ other).toList ≠ [] := by
    rw [String.toList_append, Naming.letters_append]
    exact fun hnil => hother (List.append_eq_nil_iff.mp hnil).2
  rw [Typescript.letters_typeName_of_ne_nil hne, String.toList_append, String.toList_append,
    Naming.letters_append, Naming.letters_append, List.prefix_append_right_inj] at hletters
  exact hbegins hletters

/-- Among the names of a pair's file that of the input is only for its own schema. -/
theorem input_mem_pairNames_iff {input output : SchemaNode} {name : String} :
    name ++ "Input" ∈ declaredNames input (name ++ "Input") ++
        (declaredNames output (name ++ "Output") ++ [name]) ↔
      typeName (name ++ "Input") = name ++ "Input" := by
  have houtput : name ++ "Input" ∉ declaredNames output (name ++ "Output") :=
    not_mem_declaredNames_append (by decide) (by decide)
  have hself : name ++ "Input" ≠ name := by simp
  rw [List.mem_append, List.mem_append, List.mem_singleton]
  simp only [houtput, hself, or_false, Typescript.mem_declaredNames_self_iff]

/-- Among the names of a pair's file that of the output is only for its own schema. -/
theorem output_mem_pairNames_iff {input output : SchemaNode} {name : String} :
    name ++ "Output" ∈ declaredNames input (name ++ "Input") ++
        (declaredNames output (name ++ "Output") ++ [name]) ↔
      typeName (name ++ "Output") = name ++ "Output" := by
  have hinput : name ++ "Output" ∉ declaredNames input (name ++ "Input") :=
    not_mem_declaredNames_append (by decide) (by decide)
  have hself : name ++ "Output" ≠ name := by simp
  rw [List.mem_append, List.mem_append, List.mem_singleton]
  simp only [hinput, hself, false_or, or_false, Typescript.mem_declaredNames_self_iff]

/-- What is exported decides whether a member is closed, since keys are read as names exactly if
those are well formed. -/
theorem isClosed_iff_of_exports {m : ImportedMember}
    (h : (Exports config files m.source m.typeName ∧
        (m.origin = .pair → ∀ name ∈ m.schemaNames, name ∈ m.source.body.names)) ↔
      ∀ name ∈ m.schemaNames, typeName name = name) :
    m.IsClosed config files ↔ m.IsWellNamed := by
  constructor
  · rintro ⟨hkey, htype, hparts⟩
    exact ⟨(readKey_propertyKey_iff m.key).mp hkey, h.mp ⟨htype, hparts⟩⟩
  · rintro ⟨hkey, htypes⟩
    obtain ⟨htype, hparts⟩ := h.mpr htypes
    exact ⟨(readKey_propertyKey_iff m.key).mpr hkey, htype, hparts⟩

/-- The file that holds the declarations for a schema exports the name that they are made under
exactly if sanitising leaves it as it is. -/
theorem exists_file_of_schemaSource {t : Toolkit} {type exportName path declarations : String}
    {schema : Json} {doc : List String} {key? : Option String} {tree : OutputTree}
    {placed : PlacedTree} (hsource : t.schemaSource schema type doc = .ok declarations)
    (htree : t.contentModule exportName path declarations key? = .ok tree)
    (hplaced : IsPlaced tree placed) (hfiles : HasFiles fallback files placed) :
    ∃ source : TypingsFile, placed.value.module.key? = key? ∧
      placed.value.module.exportName = exportName ∧
      placed.value.path? = some source.file.path ∧ source.IsAmong t.generator files ∧
      (Exports t.generator files source type ↔ typeName type = type) := by
  obtain ⟨node, hnode⟩ := Toolkit.exists_of_schemaSource hsource
  obtain ⟨indent, texts, hindent, hnames, rfl⟩ := exists_texts_of_nodeSource hnode
  obtain ⟨normal, text, -, htext, rfl⟩ := Toolkit.exists_of_contentModule htree
  obtain ⟨path, hvalue, hmem⟩ := exists_file_of_leaf rfl hplaced hfiles
  have hwritten : TypingsFile.IsWritten t.generator ⟨⟨path, text⟩, .declarations [texts]⟩ := by
    refine ⟨indent, hindent, ?_⟩
    rw [List.map_singleton, file_joinSources_singleton]
    exact htext
  refine ⟨⟨⟨path, text⟩, .declarations [texts]⟩, ?_, ?_, ?_, ⟨hmem, hwritten⟩, ?_⟩
  · rw [hvalue]
  · rw [hvalue]
  · rw [hvalue]
  · rw [exports_declarations_iff, TypingsBody.names, List.flatten_singleton, hnames]
    exact Typescript.mem_declaredNames_self_iff node type

/-- The module of a schema is a member. -/
theorem exists_member_of_schemaModule {t : Toolkit} {name type : String} {schema : SchemaObject}
    {doc : List String} {tree : OutputTree} {placed : PlacedTree}
    (h : t.schemaModule type name schema doc = .ok tree) (hplaced : IsPlaced tree placed)
    (hfiles : HasFiles fallback files placed) :
    ∃ m : ImportedMember, m.toAggregateMember = ⟨name, type, .schema⟩ ∧
      IsMember t.generator files placed m := by
  obtain ⟨declarations, hdeclarations, htree⟩ := exists_of_bind_eq_ok h
  obtain ⟨source, hkey, hname, hpath, hsource, hexports⟩ :=
    exists_file_of_schemaSource hdeclarations htree hplaced hfiles
  refine ⟨⟨⟨name, type, .schema⟩, source⟩, rfl, hkey, hname, hpath, hsource, ?_, ?_⟩
  · intro hpair
    cases hpair
  · refine isClosed_iff_of_exports ?_
    rw [hexports]
    simp [AggregateMember.schemaNames]

/-- The module of an action is a member. -/
theorem exists_member_of_actionModule {t : Toolkit} {name : String} {action : ActionDefinition}
    {tree : OutputTree} {placed : PlacedTree} (h : t.actionModule name action = .ok tree)
    (hplaced : IsPlaced tree placed) (hfiles : HasFiles fallback files placed) :
    ∃ m : ImportedMember, m.toAggregateMember = ⟨name, typeName name, .pair⟩ ∧
      IsMember t.generator files placed m := by
  obtain ⟨input, hinput, h⟩ := exists_of_bind_eq_ok h
  obtain ⟨output, houtput, h⟩ := exists_of_bind_eq_ok h
  obtain ⟨pair, hpair, htree⟩ := exists_of_bind_eq_ok h
  obtain ⟨inputNode, hinput⟩ := Toolkit.exists_of_schemaSource hinput
  obtain ⟨outputNode, houtput⟩ := Toolkit.exists_of_schemaSource houtput
  obtain ⟨indent, inputTexts, hindent, hinputs, rfl⟩ := exists_texts_of_nodeSource hinput
  obtain ⟨_, outputTexts, hindent', houtputs, rfl⟩ := exists_texts_of_nodeSource houtput
  obtain ⟨_, lines, hindent'', rfl⟩ :=
    exists_pairText_of_objectTypeSource (eq_ok_of_mapError_eq_ok hpair)
  -- All three are printed with one indentation.
  rw [hindent] at hindent' hindent''
  cases hindent'
  cases hindent''
  obtain ⟨normal, text, -, htext, rfl⟩ := Toolkit.exists_of_contentModule htree
  obtain ⟨path, hvalue, hmem⟩ := exists_file_of_leaf rfl hplaced hfiles
  let groups := [inputTexts, outputTexts, [pairText lines (typeName name)]]
  have hwritten : TypingsFile.IsWritten t.generator ⟨⟨path, text⟩, .declarations groups⟩ :=
    ⟨indent, hindent, htext⟩
  have hnames : (TypingsBody.declarations groups).names =
      declaredNames inputNode (typeName name ++ "Input") ++
        (declaredNames outputNode (typeName name ++ "Output") ++ [typeName name]) := by
    simp [TypingsBody.names, groups, ← hinputs, ← houtputs, pairText]
  have hself : typeName name ∈ (TypingsBody.declarations groups).names := by simp [hnames]
  let member : AggregateMember := ⟨name, typeName name, .pair⟩
  have hparts : (∀ part ∈ member.schemaNames, part ∈ (TypingsBody.declarations groups).names) ↔
      ∀ part ∈ member.schemaNames, typeName part = part := by
    simp only [member, AggregateMember.schemaNames, List.forall_mem_cons, hnames,
      input_mem_pairNames_iff, output_mem_pairNames_iff, List.not_mem_nil, false_implies,
      forall_const]
  refine ⟨⟨member, ⟨⟨path, text⟩, .declarations groups⟩⟩, rfl, ?_⟩
  exact {
    key := by rw [hvalue]
    name := by rw [hvalue]
    path := by rw [hvalue]
    source := ⟨hmem, hwritten⟩
    pair := fun _ => ⟨lines, by simp [TypingsBody.texts, groups, member]⟩
    closed := isClosed_iff_of_exports
      ⟨fun h => hparts.mp (h.2 rfl), fun h => ⟨.declared hself, fun _ => hparts.mpr h⟩⟩ }

end SchemaTypings
