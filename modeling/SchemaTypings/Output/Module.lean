/-
  SchemaTypings.Output.Module

  One unit of generated output: what it exports, where its file goes and what the file holds.
-/
import SchemaTypings.Error
import SchemaTypings.Path
import SchemaTypings.Typescript.Page

namespace SchemaTypings

open Typescript (IndexView)

/-- A generated file: a path from the output root and its text. -/
structure File where
  path : String
  content : String
deriving DecidableEq

/-- What writes the computed part of an index.  Renderers are told apart by their tags. -/
structure IndexRenderer where
  tag : String
  render : IndexView → Except Fault String

/-- The renderer of index pages under a configuration. -/
def Typescript.renderer (config : Config) (tag : String := "") : IndexRenderer :=
  ⟨tag, Typescript.indexPage config⟩

/-- Where a module's own file goes and what it holds.  Without a path a module only groups others;
an aggregate is the name of a type that lists the modules below. -/
inductive ModuleSource where
  | content (path text : String)
  | reexport (path? aggregate? : Option String)
  | mixed (path text : String) (aggregate? : Option String)
deriving DecidableEq

/-- A module on its own, without the modules below it. -/
structure OutputModule where
  exportName : String
  source : ModuleSource
  /-- The definition entry that the module stands for. -/
  key? : Option String := none
  /-- Documentation of the aggregate type. -/
  doc : List String := []
  /-- Names that the own text declares. -/
  names : List String := []
  /-- Directories in front of the path of this module and of all below it. -/
  directories : List String := []
  renderer? : Option IndexRenderer := none

namespace OutputModule

/-- How the module's own file comes about. -/
def kind (m : OutputModule) : ModuleKind :=
  match m.source with
  | .content .. => .content
  | .reexport .. => .reexport
  | .mixed .. => .mixed

/-- The path from the parent, without the directories in front. -/
def ownPath? (m : OutputModule) : Option String :=
  match m.source with
  | .content path _ | .mixed path _ _ => some path
  | .reexport path? _ => path?

/-- The supplied text. -/
def text? (m : OutputModule) : Option String :=
  match m.source with
  | .content _ text | .mixed _ text _ => some text
  | .reexport .. => none

/-- The name of the aggregate type. -/
def aggregate? (m : OutputModule) : Option String :=
  match m.source with
  | .content .. => none
  | .reexport _ aggregate? | .mixed _ _ aggregate? => aggregate?

/-- The names that the module's own file declares. -/
def declaredNames (m : OutputModule) : List String := m.names ++ m.aggregate?.toList

/-- A path behind directories, in normal form. -/
def place (directories : List String) (path : String) : Except GenerationError String :=
  let joined := Path.joinStrings directories path
  match Path.normalizeString? joined with
  | some normal => .ok normal
  | none => .error (.moduleMisuse (.pathEscapes joined))

/-- The path of the module's file behind directories; none for a module without a file. -/
def placed? (m : OutputModule) (directories : List String) :
    Except GenerationError (Option String) :=
  match m.ownPath? with
  | none => .ok none
  | some path => (place directories path).map some

/-- The path from the parent, with the directories in front. -/
def path? (m : OutputModule) : Except GenerationError (Option String) := m.placed? m.directories

/-- A path in normal form. -/
def normalPath (path : String) : Except GenerationError String :=
  match Path.normalizeString? path with
  | some normal => .ok normal
  | none => .error (.moduleMisuse (.pathEscapes path))

/-- What a module is made from.  Of text and path each kind takes or needs its own. -/
structure Description where
  exportName : String
  path? : Option String := none
  content? : Option String := none
  kind? : Option ModuleKind := none
  key? : Option String := none
  aggregate? : Option String := none
  doc : List String := []
  renderer? : Option IndexRenderer := none
  names? : Option (List String) := none

namespace Description

/-- The kind asked for; else one with text is content and one without an index. -/
def kind (d : Description) : ModuleKind :=
  d.kind?.getD (if d.content?.isSome then .content else .reexport)

/-- The source of a module whose file has text of its own. -/
def textSource (d : Description) (make : String → String → ModuleSource) :
    Except GenerationError ModuleSource :=
  match d.content?, d.path? with
  | none, _ => .error (.moduleMisuse (.requiresContent d.kind d.exportName))
  | some _, none => .error (.moduleMisuse (.requiresPath d.kind d.exportName))
  | some text, some path =>
    if d.kind = .content ∧ d.aggregate?.isSome then
      .error (.moduleMisuse (.contentWithAggregate d.exportName))
    else (normalPath path).map fun path => make path text

/-- The source of a module. -/
def source (d : Description) : Except GenerationError ModuleSource :=
  match d.kind with
  | .content => d.textSource .content
  | .mixed => d.textSource fun path text => .mixed path text d.aggregate?
  | .reexport =>
    if d.content?.isSome then .error (.moduleMisuse (.reexportWithContent d.exportName))
    else
      match d.path? with
      | none => .ok (.reexport none d.aggregate?)
      | some path => (normalPath path).map fun path => .reexport (some path) d.aggregate?

end Description

/-- The module of a description.  Text declares the exported name unless other names are given. -/
def ofDescription (d : Description) : Except GenerationError OutputModule :=
  d.source.map fun source =>
    { exportName := d.exportName
      source
      key? := d.key?
      doc := d.doc
      names := d.names?.getD (if d.kind = .content then [d.exportName] else [])
      renderer? := d.renderer? }

/-- The directories that segments name: both slashes part them, and empty ones and full stops lead
nowhere. -/
def cleanSegments (segments : List String) : List String :=
  segments.flatMap fun segment =>
    ((Path.components (Path.withSlashes segment.toList)).filter fun c => c ≠ [] ∧ c ≠ Path.here).map
      String.ofList

/-- The module with more directories in front. -/
def moveUnder (m : OutputModule) (segments : List String) : OutputModule :=
  { m with directories := cleanSegments segments ++ m.directories }

/-- A module in one line: its name, path and kind. -/
def summary (m : OutputModule) : Except GenerationError String :=
  m.path?.map fun path? =>
    "Module(" ++ Text.shown m.exportName ++ ", path=" ++ ((path?.map Text.shown).getD "None") ++
      ", kind=" ++ m.kind.name ++ ")"

end OutputModule
end SchemaTypings
