/-
  SchemaTypings.Proofs.Package.Typings

  Generated files as modules of a program.  A file holds declarations or is an index; it exports what
  it declares and what its `export *` lines lead to.  An aggregate type maps the names of entries to
  types that its index imports from other files.
-/
import SchemaTypings.Proofs.Typescript.DeclaredName
import SchemaTypings.Proofs.Typescript.RoundTrip
import SchemaTypings.Section.Build

namespace SchemaTypings

open Typescript (DeclarationText IndexView Line declaredNames)

/-! ## Files -/

/-- What a file of typings holds. -/
inductive TypingsBody where
  /-- Groups of declarations. -/
  | declarations (groups : List (List DeclarationText))
  | index (view : IndexView)

namespace TypingsBody

/-- The declarations, without the aggregate type of an index. -/
def texts : TypingsBody → List DeclarationText
  | .declarations groups => groups.flatten
  | .index _ => []

/-- The names that are declared, in an index behind those of its own text. -/
def names : TypingsBody → List String
  | .declarations groups => groups.flatten.map fun d => String.ofList d.name
  | .index view => Typescript.exportedNames (view.content?.getD "") ++ view.aggregate?.toList

/-- The specifiers of the `export *` lines. -/
def passedOn : TypingsBody → List String
  | .declarations _ => []
  | .index view => view.exports

end TypingsBody

/-- A file of typings with what it holds. -/
structure TypingsFile where
  file : File
  body : TypingsBody

variable {config : Config} {files : List File}

/-- Whether the text of a file is that of what it holds. -/
def TypingsFile.IsWritten (config : Config) (f : TypingsFile) : Prop :=
  match f.body with
  | .declarations groups => ∃ indent, config.indent = .ok indent ∧
      Typescript.file config (Toolkit.joinSources (groups.map fun texts =>
        String.ofList (Typescript.declarationSource indent texts))) = .ok f.file.content
  | .index view => view.path = f.file.path ∧ Typescript.indexPage config view = .ok f.file.content

/-- Whether a file of typings is one of some files. -/
structure TypingsFile.IsAmong (config : Config) (files : List File) (f : TypingsFile) : Prop where
  mem : f.file ∈ files
  isWritten : f.IsWritten config

/-- The names that a file exports: those that it declares, and those that a file exports to which
one of its `export *` lines leads. -/
inductive Exports (config : Config) (files : List File) : TypingsFile → String → Prop
  | declared {f : TypingsFile} {name : String} : name ∈ f.body.names → Exports config files f name
  | passedOn {f target : TypingsFile} {name : String} : target.IsAmong config files →
      Path.specifierString f.file.path target.file.path ∈ f.body.passedOn →
      Exports config files target name → Exports config files f name

/-- A file of declarations exports what it declares. -/
theorem exports_declarations_iff {file : File} {groups : List (List DeclarationText)}
    {name : String} :
    Exports config files ⟨file, .declarations groups⟩ name ↔
      name ∈ (TypingsBody.declarations groups).names := by
  constructor
  · intro h
    cases h with
    | declared hname => exact hname
    | passedOn _ hspecifier _ => cases hspecifier
  · intro hname
    exact .declared hname

/-! ## Aggregate types -/

/-- How the type of an entry comes about. -/
inductive TypeOrigin where
  /-- It is declared for a schema. -/
  | schema
  /-- It is the pair of the types for the schemas of an input and an output. -/
  | pair
  /-- It is what an index exports. -/
  | index
deriving DecidableEq

/-- A member that an aggregate type is to have. -/
structure AggregateMember where
  key : String
  typeName : String
  origin : TypeOrigin
deriving DecidableEq

/-- An aggregate type as it is to be. -/
structure AggregateOutline where
  name : String
  members : List AggregateMember
deriving DecidableEq

/-- A member of an aggregate type, with the file that its type is imported from. -/
structure ImportedMember extends AggregateMember where
  source : TypingsFile

/-- An aggregate type in an index. -/
structure Aggregate where
  name : String
  index : TypingsFile
  members : List ImportedMember

/-- The pair of the types of an input and an output. -/
def pairText (doc : List Line) (name : String) : DeclarationText :=
  { doc, name := name.toList
    form := .objectAlias
      [⟨[], "input".toList, false, (name ++ "Input").toList⟩,
        ⟨[], "output".toList, false, (name ++ "Output").toList⟩] none }

/-- The names under which types for schemas are to be declared. -/
def AggregateMember.schemaNames (m : AggregateMember) : List String :=
  match m.origin with
  | .schema => [m.typeName]
  | .pair => [m.typeName ++ "Input", m.typeName ++ "Output"]
  | .index => []

/-- Whether the key of a member is read as its name, and its type is exported by the file that it is
imported from; of a pair, whether both parts are declared there. -/
structure ImportedMember.IsClosed (config : Config) (files : List File) (m : ImportedMember) :
    Prop where
  key : Naming.readKey '\'' (Naming.propertyKey m.key).toList = some m.key.toList
  type : Exports config files m.source m.typeName
  parts : m.origin = .pair → ∀ name ∈ m.schemaNames, name ∈ m.source.body.names

/-- Whether the name of an entry is no identifier with a line feed behind it, and sanitising leaves
the names for its schemas as they are. -/
structure AggregateMember.IsWellNamed (m : AggregateMember) : Prop where
  key : ¬Typescript.IsFedIdentifier m.key
  types : ∀ name ∈ m.schemaNames, Typescript.typeName name = name

/-- Whether an aggregate type is declared by its index, which imports each member's type from its
file; the file of a pair declares it with both parts. -/
structure Aggregate.IsDeclared (config : Config) (files : List File) (a : Aggregate) : Prop where
  index : a.index.IsAmong config files
  sources : ∀ m ∈ a.members, m.source.IsAmong config files
  page : ∃ view, a.index.body = .index view ∧ view.aggregate? = some a.name ∧
    view.entries = a.members.map (fun m => ⟨m.key, m.typeName⟩) ∧
    view.imports = a.members.map fun m =>
      ⟨m.typeName, Path.specifierString a.index.file.path m.source.file.path⟩
  pairs : ∀ m ∈ a.members, m.origin = .pair →
    ∃ doc, pairText doc m.typeName ∈ m.source.body.texts

/-- The aggregate type without its files. -/
def Aggregate.outline (a : Aggregate) : AggregateOutline :=
  ⟨a.name, a.members.map ImportedMember.toAggregateMember⟩

theorem readKey_propertyKey_iff (name : String) :
    Naming.readKey '\'' (Naming.propertyKey name).toList = some name.toList ↔
      ¬Typescript.IsFedIdentifier name := by
  have hread : Naming.readKey '\'' (Naming.propertyKey name).toList =
      some (Naming.nameAsRead name.toList) := by
    rw [Naming.propertyKey, String.toList_ofList]
    exact Naming.readKey_propertyKeyChars (.inl rfl) name.toList
  rw [hread, Option.some.injEq, Naming.nameAsRead_eq_self_iff, Typescript.IsFedIdentifier]

/-! ## Texts of declarations -/

variable {node : SchemaNode} {name source : String} {doc : List String}

/-- The source for a node is that of declarations with the declared names. -/
theorem exists_texts_of_nodeSource (h : Typescript.nodeSource config node name doc = .ok source) :
    ∃ indent texts, config.indent = .ok indent ∧
      texts.map (fun d => String.ofList d.name) = declaredNames node name ∧
      source = String.ofList (Typescript.declarationSource indent texts) := by
  obtain ⟨_, texts, indent, -, htexts, hindent, rfl⟩ := Typescript.exists_of_nodeSource h
  exact ⟨indent, texts, hindent, Typescript.names_declarationTexts htexts, rfl⟩

/-- The source of a pair is that of one declaration. -/
theorem exists_pairText_of_objectTypeSource (h : Typescript.objectTypeSource config name
      [("input", name ++ "Input"), ("output", name ++ "Output")] doc = .ok source) :
    ∃ indent lines, config.indent = .ok indent ∧
      source = String.ofList (Typescript.declarationSource indent [pairText lines name]) := by
  have hinput : (Naming.propertyKey "input").toList = "input".toList := by decide
  have houtput : (Naming.propertyKey "output").toList = "output".toList := by decide
  obtain ⟨indent, hindent, rfl⟩ := exists_of_map_eq_ok h
  refine ⟨indent, Typescript.extraLines config doc, hindent, ?_⟩
  simp only [List.map_cons, List.map_nil, hinput, houtput, pairText]

/-- A single source does not change by being joined, except for line feeds that a file drops. -/
theorem file_joinSources_singleton (s : String) :
    Typescript.file config (Toolkit.joinSources [s]) = Typescript.file config s := by
  have htrim : Text.trimNewlines (Toolkit.joinSources [s]).toList = Text.trimNewlines s.toList := by
    rw [Toolkit.joinSources, String.toList_ofList]
    exact Text.trimBoth_trimBoth _ s.toList
  rw [Typescript.file, Typescript.file, htrim]

end SchemaTypings
