/-
  SchemaTypings.Error

  The causes for which a generation run fails, and what is said about each.
-/
import SchemaTypings.Schema.Unsupported
import SchemaTypings.Text.Split

namespace SchemaTypings

/-- What is wrong with a definition at some location. -/
inductive Malformed where
  | expectedObject
  | expectedString
  | expectedNonEmptyString
  | expectedSchema
  | invalidStateType (found : Json)
  | invalidExpiry
  | expectedSecretList
  | unknownKind (found : Json)
  /-- The definition is of another kind than the operation is for. -/
  | unexpectedKind (expected found : String)
  /-- Definitions of this kind have no implementation typings. -/
  | notImplementable (found : String)

/-- What is said about a malformed definition. -/
def Malformed.message (cause : Malformed) (location : String) : String :=
  match cause with
  | .expectedObject => "Expected an object at " ++ location
  | .expectedString => "Expected a string at " ++ location
  | .expectedNonEmptyString => "Expected a non-empty string at " ++ location
  | .expectedSchema => "Expected a JSON schema at " ++ location
  | .invalidStateType found =>
    "Invalid state type " ++ found.shown ++ " at " ++ location ++
      "; expected one of conversation, user, bot"
  | .invalidExpiry => "State expiry at " ++ location ++ " must be a non-negative integer"
  | .expectedSecretList => "Expected a list of secret names at " ++ location
  | .unknownKind found => "Unknown definition kind " ++ found.shown
  | .unexpectedKind expected found =>
    "Expected a " ++ expected ++ " definition, got " ++ Text.shown found
  | .notImplementable found =>
    "Cannot generate an implementation for kind " ++ Text.shown found

/-- How a module's own file comes about. -/
inductive ModuleKind where
  /-- From supplied text. -/
  | content
  /-- Computed from the modules below it. -/
  | reexport
  /-- Supplied text with what is computed behind it. -/
  | mixed
deriving DecidableEq

/-- The name of a module kind. -/
def ModuleKind.name : ModuleKind → String
  | .content => "content"
  | .reexport => "reexport"
  | .mixed => "mixed"

/-- What is not allowed about a module or its place in a tree. -/
inductive ModuleMisuse where
  | requiresContent (kind : ModuleKind) (module : String)
  | requiresPath (kind : ModuleKind) (module : String)
  | reexportWithContent (module : String)
  | contentWithAggregate (module : String)
  | pathEscapes (path : String)
  | alreadyOwned (module owner : String)
  | cycle (child parent : String)
  | aggregatedWithoutPath (module owner : String)

/-- What is said about a misuse. -/
def ModuleMisuse.message : ModuleMisuse → String
  | .requiresContent kind name => kind.name ++ " module '" ++ name ++ "' requires content"
  | .requiresPath kind name => kind.name ++ " module '" ++ name ++ "' requires a path"
  | .reexportWithContent name => "Re-export module '" ++ name ++ "' cannot carry own content"
  | .contentWithAggregate name => "Content module '" ++ name ++ "' cannot declare an aggregate"
  | .pathEscapes path => "Path '" ++ path ++ "' escapes the output root"
  | .alreadyOwned name owner => "Module '" ++ name ++ "' is already owned by '" ++ owner ++ "'"
  | .cycle child parent =>
    "Attaching '" ++ child ++ "' under '" ++ parent ++ "' would create a cycle"
  | .aggregatedWithoutPath name owner =>
    "Aggregated module '" ++ name ++ "' of '" ++ owner ++ "' has no path"

/-- What cannot be done to a module whose files have been produced. -/
inductive FrozenOperation where
  | push
  | attach
  | move
  | render
deriving DecidableEq

/-- The words for an operation on a module. -/
def FrozenOperation.name : FrozenOperation → String
  | .push => "push a dependency into"
  | .attach => "attach"
  | .move => "unshift"
  | .render => "re-render"

/-- Why a generation run fails. -/
inductive GenerationError where
  | unsupportedSchema (cause : Unsupported) (location : Location)
  | malformedDefinition (cause : Malformed) (location : String)
  | invalidSecret (secret : String)
  | duplicateSecret (secret : String) (count : Nat)
  | nameCollision (identifier : String) (sources : List String)
  | moduleMisuse (cause : ModuleMisuse)
  | moduleFrozen (module : String) (operation : FrozenOperation)
  | pathCollision (path : String) (modules : List String)

namespace GenerationError

/-- Strings as messages show them, with commas between them. -/
def shownList (names : List String) : String := Text.joinStrings ", " (names.map Text.shown)

/-- What is said about a failure. -/
def message : GenerationError → String
  | .unsupportedSchema cause location => cause.message ++ " (at " ++ location.text ++ ")"
  | .malformedDefinition cause location => cause.message location
  | .invalidSecret secret => "Secret " ++ secret ++ " should be in SCREAMING_SNAKE_CASE"
  | .duplicateSecret secret count =>
    "Secret " ++ secret ++ " is duplicated; it appears " ++ natText count ++ " times"
  | .nameCollision identifier sources =>
    "Name collision on identifier '" ++ identifier ++ "' between " ++ shownList sources
  | .moduleMisuse cause => cause.message
  | .moduleFrozen name operation =>
    "Cannot " ++ operation.name ++ " module '" ++ name ++ "': tree already flattened"
  | .pathCollision path modules =>
    "Multiple modules resolve to '" ++ path ++ "': " ++ shownList modules

/-- The data that point at the culprit, by name. -/
def context : GenerationError → Entries Json
  | .unsupportedSchema _ location => [("location", .str location.text)]
  | .malformedDefinition _ location => [("location", .str location)]
  | .invalidSecret secret => [("identifier", .str secret)]
  | .duplicateSecret secret count => [("identifier", .str secret), ("count", .int count)]
  | .nameCollision identifier sources =>
    [("identifier", .str identifier), ("sources", .arr (sources.map .str))]
  | .moduleMisuse _ => []
  | .moduleFrozen name operation => [("module", .str name), ("operation", .str operation.name)]
  | .pathCollision path modules => [("path", .str path), ("modules", .arr (modules.map .str))]

end GenerationError

/-- Why a registry of section builders does not do what is asked. -/
inductive RegistryError where
  | unknownSection (name : String) (available : List String)
  /-- What is to be registered builds no section. -/
  | notABuilder

/-- What is said about a failure of a registry. -/
def RegistryError.message : RegistryError → String
  | .unknownSection name available =>
    "No builder registered for section: " ++ name ++ ". Available: " ++
      Text.joinStrings ", " available
  | .notABuilder => "Builder class must inherit from SectionBuilder"

/-- Everything that can stop a run: a failure of the input's meaning, a section without a builder, or
a value that does not fit its use. -/
inductive Failure where
  | generation (error : GenerationError)
  | registry (error : RegistryError)
  | fault (fault : Fault)

/-- A failed conversion as a failure of the run.  What is unsupported is told in a message, which
there is only if the values that it shows can be written. -/
def ConversionError.toFailure : ConversionError → Failure
  | .unsupported cause location =>
    if cause.shownValues.all Json.isWritable then .generation (.unsupportedSchema cause location)
    else .fault .numeralTooLong
  | .fault f => .fault f

end SchemaTypings
