/-
  SchemaTypings.Section.Build

  From the sections of a definition to module trees.  A section is an index over one module an
  entry; a channel is an index of its own over its messages.
-/
import SchemaTypings.Definition.Basic
import SchemaTypings.Definition.Doc
import SchemaTypings.Output.Flatten
import SchemaTypings.Schema.Convert
import SchemaTypings.Section.Secrets
import SchemaTypings.Typescript.Exports

namespace SchemaTypings

/-- The sections that a definition may have. -/
inductive SectionKind where
  | configuration
  | events
  | states
  | actions
  | channels
  | secrets
deriving DecidableEq

/-- The name of a section. -/
def SectionKind.name : SectionKind → String
  | .configuration => "configuration"
  | .events => "events"
  | .states => "states"
  | .actions => "actions"
  | .channels => "channels"
  | .secrets => "secrets"

/-- What sections are built with: the settings of the generator, those of the layout, where external
schema documents come from, and how many nested references there is room for where the settings do
not limit them. -/
structure Toolkit where
  generator : Config := .default
  layout : Config := .default
  external? : Option (Json → Except Fault Json) := none
  room : Nat := 0

namespace Toolkit

/-! ## Modules -/

/-- The structural form of a schema. -/
def node (t : Toolkit) (schema : Json) : Except Failure SchemaNode :=
  (Schema.ofDocument schema t.external? (.ofJson t.room t.layout.maxRefDepth)).mapError
    ConversionError.toFailure

/-- The declarations for a schema, the first of them under the given name. -/
def schemaSource (t : Toolkit) (schema : Json) (name : String) (doc : List String := []) :
    Except Failure String :=
  match t.node schema with
  | .error e => .error e
  | .ok node =>
    match Typescript.typeSource t.generator node name doc with
    | .error f => .error (.fault f)
    | .ok source => .ok source

/-- The file of an entry. -/
def fileName (t : Toolkit) (name : String) : String := Naming.kebabCase name ++ t.layout.fileExtension

/-- An index over the modules that are put below it. -/
def indexModule (t : Toolkit) (exportName : String) (key? aggregate? : Option String := none)
    (doc : List String := []) : Except Failure OutputModule :=
  match OutputModule.ofDescription
      { exportName, path? := some t.layout.indexFile, kind? := some .reexport, key?, aggregate?, doc
        renderer? := some (Typescript.renderer t.generator) } with
  | .error e => .error (.generation e)
  | .ok m => .ok m

/-- A module that holds declarations under the header. -/
def contentModule (t : Toolkit) (exportName path declarations : String)
    (key? : Option String := none) : Except Failure OutputTree :=
  match Typescript.file t.generator declarations with
  | .error f => .error (.fault f)
  | .ok text =>
    match OutputModule.ofDescription
        { exportName, path? := some path, content? := some text, key?
          names? := some (Typescript.exportedNames declarations) } with
    | .error e => .error (.generation e)
    | .ok m => .ok (OutputTree.leaf m)

/-- One module an entry, in order; the first failure is the failure of all. -/
def buildEach {α : Type} (build : String → α → Except Failure OutputTree) :
    Entries α → Except Failure (List OutputTree)
  | [] => .ok []
  | (name, entry) :: rest =>
    match build name entry with
    | .error e => .error e
    | .ok tree => (buildEach build rest).map (tree :: ·)

/-- An index that aggregates one module an entry. -/
def aggregateIndex {α : Type} (t : Toolkit) (exportName key : String) (doc : List String)
    (build : String → α → Except Failure OutputTree) (entries : Entries α) :
    Except Failure OutputTree := do
  let m ← t.indexModule exportName (some key) (some exportName) doc
  return .node m (← buildEach build entries)

/-! ## Entries -/

/-- The module of a named schema. -/
def schemaModule (t : Toolkit) (typeName name : String) (schema : SchemaObject)
    (doc : List String) : Except Failure OutputTree := do
  let declarations ← t.schemaSource (.obj schema) typeName doc
  t.contentModule typeName (t.fileName name) declarations (some name)

/-- The module of an event. -/
def eventModule (t : Toolkit) (name : String) (event : EventDefinition) :
    Except Failure OutputTree :=
  t.schemaModule (Typescript.typeName name) name event.schema event.caption.lines

/-- The module of a state. -/
def stateModule (t : Toolkit) (name : String) (state : StateDefinition) :
    Except Failure OutputTree :=
  t.schemaModule (Typescript.typeName name) name state.schema state.docLines

/-- Sources with an empty line between two. -/
def joinSources (sources : List String) : String :=
  String.ofList (Text.joinWith ['\n', '\n'] (sources.map fun s => Text.trimNewlines s.toList))

/-- The module of an action: the types of its input and output, and the pair of them. -/
def actionModule (t : Toolkit) (name : String) (action : ActionDefinition) :
    Except Failure OutputTree := do
  let typeName := Typescript.typeName name
  let input ← t.schemaSource (.obj action.input) (typeName ++ "Input")
  let output ← t.schemaSource (.obj action.output) (typeName ++ "Output")
  let pair ← (Typescript.objectTypeSource t.generator typeName
    [("input", typeName ++ "Input"), ("output", typeName ++ "Output")]
    action.caption.lines).mapError Failure.fault
  t.contentModule typeName (t.fileName name) (joinSources [input, output, pair]) (some name)

/-- The module of a message; its type has the channel's in front, so that channels do not share
names. -/
def messageModule (t : Toolkit) (channelType name : String) (message : MessageDefinition) :
    Except Failure OutputTree :=
  t.schemaModule (channelType ++ Typescript.typeName name) name message.schema message.caption.lines

/-- The index of a channel, in a directory of its own. -/
def channelModule (t : Toolkit) (name : String) (channel : ChannelDefinition) :
    Except Failure OutputTree := do
  let channelType := Typescript.typeName name
  let tree ← t.aggregateIndex channelType name channel.docLines (t.messageModule channelType)
    channel.messages
  return OutputTree.moveUnder tree [Naming.kebabCase name]

/-! ## Sections -/

/-- The configuration's index over its one module. -/
def configurationTree (t : Toolkit) (schema : SchemaObject) : Except Failure OutputTree := do
  let declarations ← t.schemaSource (.obj schema) "Configuration"
  let m ← t.indexModule "Configuration" (some "configuration")
  let content ← t.contentModule "Configuration" ("configuration" ++ t.layout.fileExtension)
    declarations
  return .node m [content]

/-- The accessor of the secrets. -/
def secretsTree (t : Toolkit) (secrets : List String) : Except Failure OutputTree := do
  let environment ← (Secrets.environment t.layout.secretEnvPrefix.plain secrets).mapError
    Failure.generation
  let text ← (Typescript.secretsPage t.generator environment).mapError Failure.fault
  let m ← (OutputModule.ofDescription
    { exportName := "Secrets", path? := some t.layout.indexFile, content? := some text
      names? := some (Typescript.exportedNames text) }).mapError Failure.generation
  return OutputTree.leaf m

/-- The tree of a section; a definition that has no such section is of no use. -/
def sectionTree (t : Toolkit) (kind : SectionKind) (definition : Definition) :
    Except Failure OutputTree :=
  match kind with
  | .configuration => t.configurationTree definition.base.configuration
  | .events => t.aggregateIndex "Events" "events" [] t.eventModule definition.base.events
  | .states => t.aggregateIndex "States" "states" [] t.stateModule definition.base.states
  | .actions =>
    match definition.interface? with
    | some i => t.aggregateIndex "Actions" "actions" [] t.actionModule i.actions
    | none => .error (.fault .noSuchOperation)
  | .channels =>
    match definition.interface? with
    | some i => t.aggregateIndex "Channels" "channels" [] t.channelModule i.channels
    | none => .error (.fault .noSuchOperation)
  | .secrets =>
    match definition.secrets? with
    | some secrets => t.secretsTree secrets
    | none => .error (.fault .noSuchOperation)

end Toolkit
end SchemaTypings
