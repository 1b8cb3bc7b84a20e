/-
  SchemaTypings.Package

  The files of a bot or integration: typings of an implementation, of an installed instance, and the
  indexes that tie them together.
-/
import SchemaTypings.Registry

namespace SchemaTypings

/-! ## Names -/

/-- The identifier under which the index of a bot imports an instance. -/
def instanceIdentifier (name : String) : String := Naming.camelCase name

/-- The aggregate type of an instance's typings. -/
def instanceTypeName (name : String) : String := "T" ++ Naming.pascalCase name

/-! ## Sections of a definition -/

/-- The sections that are generated for a definition. -/
def Definition.sections : Definition → List SectionKind
  | .bot _ => [.configuration, .events, .states]
  | .integration _ => [.configuration, .events, .states, .actions, .channels, .secrets]
  | .instance _ => [.configuration, .events, .states, .actions, .channels]

/-- How deep the parts of a section lie.  Of several sections that fail, the one whose parts lie
least deep is reported. -/
def SectionKind.rank : SectionKind → Nat
  | .configuration | .secrets => 0
  | .events | .states => 1
  | .actions | .channels => 2

/-- The failure of the first of the sections, by rank and then by order, that fails. -/
def firstFailure? (built : List (SectionKind × Except Failure OutputTree)) : Option Failure :=
  [0, 1, 2].findSome? fun rank =>
    built.findSome? fun (kind, result) =>
      match result with
      | .error e => if kind.rank = rank then some e else none
      | .ok _ => none

/-- The builders of the sections, in order. -/
def findBuilders (registry : Registry) :
    List SectionKind → Except Failure (List (SectionKind × String))
  | [] => .ok []
  | kind :: rest =>
    match registry.get kind.name with
    | .error e => .error (.registry e)
    | .ok builder =>
      match builder.kind with
      | .error f => .error (.fault f)
      | .ok built => (findBuilders registry rest).map ((built, builder.directory) :: ·)

/-- The trees of the sections of a definition, each under its directory. -/
def sectionTrees (toolkit : Toolkit) (registry : Registry) (definition : Definition) :
    Except Failure (List OutputTree) :=
  match findBuilders registry definition.sections with
  | .error e => .error e
  | .ok builders =>
    let built := builders.map fun (kind, directory) =>
      (kind, (toolkit.sectionTree kind definition).map (OutputTree.moveUnder · [directory]))
    match firstFailure? built with
    | some e => .error e
    | none => .ok (built.filterMap fun (_, result) => result.toOption)

/-- A module over the sections of a definition. -/
def rootTree (toolkit : Toolkit) (registry : Registry) (definition : Definition)
    (root : OutputModule.Description) : Except Failure OutputTree :=
  match OutputModule.ofDescription root with
  | .error e => .error (.generation e)
  | .ok m => (sectionTrees toolkit registry definition).map (.node m ·)

/-! ## Implementations -/

/-- The tree of the typings of a bot or an integration. -/
def implementationTree (toolkit : Toolkit) (registry : Registry) (definition : Definition) :
    Except Failure OutputTree :=
  match definition with
  | .instance _ =>
    .error (.generation (.malformedDefinition (.notImplementable definition.kindName) "kind"))
  | _ =>
    rootTree toolkit registry definition
      { exportName := "Implementation", path? := some toolkit.layout.indexFile
        kind? := some .reexport, renderer? := some (Typescript.renderer toolkit.generator) }

/-- The files of the typings of a bot or an integration, under a directory. -/
def generateTypings (toolkit : Toolkit) (registry : Registry) (definition : Definition)
    (path : String) : Except Failure (List File) :=
  match implementationTree toolkit registry definition with
  | .error e => .error e
  | .ok tree => (OutputTree.moveUnder tree [path]).flatten

/-- The failure for a definition of another kind than the expected one. -/
def expectKind (expected : String) (definition : Definition) : Except Failure Unit :=
  if definition.kindName = expected then .ok ()
  else .error (.generation
    (.malformedDefinition (.unexpectedKind expected definition.kindName) "kind"))

/-- The typings of a definition of the given kind. -/
def generateTypingsOf (kind : String) (toolkit : Toolkit) (registry : Registry)
    (definition : Definition) (path : String) : Except Failure (List File) :=
  match expectKind kind definition with
  | .error e => .error e
  | .ok _ => generateTypings toolkit registry definition path

/-! ## Instances -/

/-- Where the record of an instance's metadata goes. -/
def metadataPath (toolkit : Toolkit) (path directory : String) : Except Failure String :=
  match toolkit.layout.instanceMetadataFile with
  | .str file =>
    .ok (String.ofList (Path.collapse (Path.join [path.toList, directory.toList] file.toList)))
  | _ => .error (.fault .unfitOperand)

/-- The tree of the typings of an installed instance. -/
def instanceTree (toolkit : Toolkit) (registry : Registry) (installed : InstalledIntegration) :
    Except Failure OutputTree :=
  let typeName := instanceTypeName installed.name
  let source := Typescript.metadataSource installed.name installed.version installed.id
  rootTree toolkit registry (.instance installed)
    { exportName := typeName, path? := some toolkit.layout.indexFile, content? := some source
      kind? := some .mixed, aggregate? := some typeName
      renderer? := some (Typescript.renderer toolkit.generator)
      names? := some (Typescript.exportedNames source) }

/-- The files of an installed instance, under a directory of its own, and last the record of its
metadata. -/
def generateInstance (toolkit : Toolkit) (registry : Registry) (installed : InstalledIntegration)
    (path : String) : Except Failure (List File) := do
  let tree ← instanceTree toolkit registry installed
  let directory := Naming.kebabCase installed.name
  let files ← (OutputTree.moveUnder tree [path, directory]).flatten
  let recordPath ← metadataPath toolkit path directory
  if files.any (·.path = recordPath) then
    .error (.generation (.pathCollision recordPath
      [instanceTypeName installed.name, "instance metadata"]))
  else
    return files ++ [⟨recordPath, Json.recordText
      [("name", installed.name), ("version", installed.version), ("id", installed.id)]⟩]

/-! ## Indexes -/

/-- The specifier of the index in a directory as seen from the index of the package. -/
def indexSpecifier (layout : Config) (directories : List String) : Except Failure String :=
  match Path.specifierString? layout.indexFile (Path.joinStrings directories layout.indexFile) with
  | some specifier => .ok specifier
  | none => .error (.fault .emptyTarget)

/-- A module of its own with the given text at the place of the index. -/
def indexFiles (layout : Config) (exportName text : String) : Except Failure (List File) :=
  match OutputModule.ofDescription
      { exportName, path? := some layout.indexFile, content? := some text } with
  | .error e => .error (.generation e)
  | .ok m => (OutputTree.leaf m).flatten

/-- The index of an integration package. -/
def generateIntegrationIndex (toolkit : Toolkit) (path : String) : Except Failure (List File) := do
  let specifier ← indexSpecifier toolkit.layout [path]
  indexFiles toolkit.layout "Index"
    (Typescript.integrationIndexPage toolkit.generator [specifier])

/-- The imports of installed instances, of which no two may share an identifier. -/
def instanceImports (layout : Config) (installPath : String) :
    Entries String → List String → Except Failure (List Typescript.InstanceImport)
  | _, [] => .ok []
  | seen, name :: rest =>
    let identifier := instanceIdentifier name
    match seen.get? identifier with
    | some other => .error (.generation (.nameCollision identifier [other, name]))
    | none =>
      match indexSpecifier layout [installPath, Naming.kebabCase name] with
      | .error e => .error e
      | .ok specifier =>
        (instanceImports layout installPath (seen.insert identifier name) rest).map
          (⟨identifier, specifier, instanceTypeName name⟩ :: ·)

/-- The index of a bot over its implementation and the installed instances. -/
def generateBotIndex (toolkit : Toolkit) (path installPath : String) (instances : List String) :
    Except Failure (List File) := do
  let imports ← instanceImports toolkit.layout installPath [] instances
  let implementation ← indexSpecifier toolkit.layout [path]
  let text ← (Typescript.botIndexPage toolkit.generator implementation imports).mapError
    Failure.fault
  indexFiles toolkit.layout "Bot" text

/-! ## Results -/

/-- The outcome of a run whose failures are reported. -/
structure GenerationResult where
  files : List File := []
  error? : Option GenerationError := none

namespace GenerationResult

/-- Whether the run succeeded. -/
def success (r : GenerationResult) : Bool := r.error?.isNone

/-- What is said about a failed run. -/
def message? (r : GenerationResult) : Option String :=
  r.error?.map fun e => "Code generation failed: " ++ e.message

/-- The outcome of a run.  A failed one has no files; a value that does not fit its use, or a section
without a builder, is no outcome. -/
def ofRun (run : Except Failure (List File)) : Except Failure GenerationResult :=
  match run with
  | .ok files => .ok { files }
  | .error (.generation e) => .ok { error? := some e }
  | .error e => .error e

end GenerationResult

/-- The directory of an implementation's typings by default. -/
def defaultImplementationPath : String := ".botpress/implementation"

end SchemaTypings
