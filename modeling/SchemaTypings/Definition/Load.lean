/-
  SchemaTypings.Definition.Load

  Definitions out of plain JSON values.  The first thing that does not fit is reported with its
  location.
-/
import SchemaTypings.Definition.Basic
import SchemaTypings.Error

namespace SchemaTypings.Definition

/-- What loading a part gives. -/
abbrev Loaded (α : Type) := Except GenerationError α

/-- The failure for a part that does not fit. -/
def malformed {α : Type} (cause : Malformed) (location : String) : Loaded α :=
  .error (.malformedDefinition cause location)

/-- The location of a part of a part. -/
def dotted (location key : String) : String :=
  if location = "" then key else location ++ "." ++ key

/-! ## Fields -/

/-- The entries of a value that has to be an object. -/
def objectAt (value : Json) (location : String) : Loaded (Entries Json) :=
  match value with
  | .obj entries => .ok entries
  | _ => malformed .expectedObject location

/-- The entries of a value that has to be an object, or empty. -/
def objectOrEmptyAt (value : Json) (location : String) : Loaded (Entries Json) :=
  if value.isTruthy then objectAt value location else .ok []

/-- A text that may be missing. -/
def optionalText (data : Entries Json) (key location : String) : Loaded (Option String) :=
  match data.field key with
  | .null => .ok none
  | .str s => .ok (some s)
  | _ => malformed .expectedString (dotted location key)

/-- A text that must be there and not be empty. -/
def requiredText (data : Entries Json) (key : String) : Loaded String :=
  match data.field key with
  | .str s => if s = "" then malformed .expectedNonEmptyString key else .ok s
  | _ => malformed .expectedNonEmptyString key

/-- A schema that must be there. -/
def schemaField (data : Entries Json) (key location : String) : Loaded SchemaObject :=
  match data.field key with
  | .obj entries => .ok entries
  | _ => malformed .expectedSchema (dotted location key)

/-- The title and description of a part. -/
def captionOf (data : Entries Json) (location : String) : Loaded Caption := do
  let title? ← optionalText data "title" location
  let description? ← optionalText data "description" location
  return { title?, description? }

/-- The entries with each value read at its own location. -/
def readEach {α : Type} (read : Json → String → Loaded α) (location : String) :
    Entries Json → Loaded (Entries α)
  | [] => .ok []
  | (name, value) :: rest =>
    match read value (dotted location name) with
    | .error e => .error e
    | .ok part => (readEach read location rest).map ((name, part) :: ·)

/-- A section of named objects; one that is missing is empty. -/
def sectionEntries {α : Type} (data : Entries Json) (key : String)
    (read : Entries Json → String → Loaded α) : Loaded (Entries α) :=
  match data.field key with
  | .null => .ok []
  | value => do
    let entries ← objectAt value key
    readEach (fun entry location => do read (← objectAt entry location) location) key entries

/-! ## Parts -/

/-- The configuration's schema; without one there is nothing to configure. -/
def readConfiguration (data : Entries Json) : Loaded SchemaObject :=
  match data.field "configuration" with
  | .null => .ok emptyObjectSchema
  | value => do
    let configuration ← objectAt value "configuration"
    if configuration.has "schema" then schemaField configuration "schema" "configuration"
    else return emptyObjectSchema

/-- An event. -/
def readEvent (data : Entries Json) (location : String) : Loaded EventDefinition := do
  let schema ← schemaField data "schema" location
  let caption ← captionOf data location
  return { schema, caption }

/-- A message. -/
def readMessage (data : Entries Json) (location : String) : Loaded MessageDefinition := do
  let schema ← schemaField data "schema" location
  let caption ← captionOf data location
  return { schema, caption }

/-- The scope that a value names. -/
def scopeOf? : Json → Option StateScope
  | .str "conversation" => some .conversation
  | .str "user" => some .user
  | .str "bot" => some .bot
  | _ => none

/-- A scope, written as `type` or as `scope`. -/
def readScope (data : Entries Json) (location : String) : Loaded StateScope :=
  let value := (data.get? "type").getD (data.field "scope")
  match scopeOf? value with
  | some scope => .ok scope
  | none => malformed (.invalidStateType value) (dotted location "type")

/-- An expiry, which may be missing. -/
def readExpiry (data : Entries Json) (location : String) : Loaded (Option Nat) :=
  match data.field "expiry" with
  | .null => .ok none
  | .int n => if n < 0 then malformed .invalidExpiry (dotted location "expiry") else .ok n.toNat
  | _ => malformed .invalidExpiry (dotted location "expiry")

/-- A state. -/
def readState (data : Entries Json) (location : String) : Loaded StateDefinition := do
  let scope ← readScope data location
  let expiry? ← readExpiry data location
  let schema ← schemaField data "schema" location
  let caption ← captionOf data location
  return { schema, scope, expiry?, caption }

/-- A schema inside an object of its own. -/
def nestedSchema (data : Entries Json) (key location : String) : Loaded SchemaObject := do
  let inner ← objectAt (data.field key) (dotted location key)
  schemaField inner "schema" (dotted location key)

/-- An action. -/
def readAction (data : Entries Json) (location : String) : Loaded ActionDefinition := do
  let input ← nestedSchema data "input" location
  let output ← nestedSchema data "output" location
  let caption ← captionOf data location
  return { input, output, caption }

/-- A tag, which may be empty. -/
def readTag (value : Json) (location : String) : Loaded Caption := do
  captionOf (← objectOrEmptyAt value location) location

/-- The tags of a group, which may be missing. -/
def readTags (value : Json) (location : String) : Loaded (Entries Caption) := do
  readEach readTag location (← objectOrEmptyAt value location)

/-- The tags inside a part of their own. -/
def nestedTags (data : Entries Json) (key location : String) : Loaded (Entries Caption) := do
  let inner ← objectOrEmptyAt (data.field key) (dotted location key)
  readTags (inner.field "tags") (dotted (dotted location key) "tags")

/-- A channel. -/
def readChannel (data : Entries Json) (location : String) : Loaded ChannelDefinition := do
  let messagesAt := dotted location "messages"
  let messages ← readEach (fun entry at' => do readMessage (← objectAt entry at') at') messagesAt
    (← objectOrEmptyAt (data.field "messages") messagesAt)
  let tags ← readTags (data.field "tags") (dotted location "tags")
  let conversationTags ← nestedTags data "conversation" location
  let messageTags ← nestedTags data "message" location
  return { messages, tags, conversationTags, messageTags }

/-- The texts of a list, the first of which has the given index. -/
def readSecretNames : Nat → List Json → Loaded (List String)
  | _, [] => .ok []
  | index, .str s :: rest => (readSecretNames (index + 1) rest).map (s :: ·)
  | index, _ :: _ => malformed .expectedString (dotted "secrets" (natText index))

/-- The names of the secrets; without any the list may be missing. -/
def readSecrets (data : Entries Json) : Loaded (List String) :=
  match data.field "secrets" with
  | .null => .ok []
  | .arr names => readSecretNames 0 names
  | _ => malformed .expectedSecretList "secrets"

/-! ## Definitions -/

/-- What every kind of definition exposes. -/
def readBase (data : Entries Json) : Loaded BotDefinition := do
  let configuration ← readConfiguration data
  let events ← sectionEntries data "events" readEvent
  let states ← sectionEntries data "states" readState
  return { configuration, events, states }

/-- What an integration exposes. -/
def readInterface (data : Entries Json) : Loaded IntegrationInterface := do
  let name ← requiredText data "name"
  let version ← requiredText data "version"
  let base ← readBase data
  let actions ← sectionEntries data "actions" readAction
  let channels ← sectionEntries data "channels" readChannel
  return { base with name, version, actions, channels }

/-- The definition of a bot or an integration; without a kind it is a bot's. -/
def load (value : Json) : Loaded Definition := do
  let data ← objectAt value "<root>"
  match (data.get? "kind").getD (.str "bot") with
  | .str "bot" => return .bot (← readBase data)
  | .str "integration" =>
    let interface ← readInterface data
    return .integration { interface with secrets := ← readSecrets data }
  | kind => malformed (.unknownKind kind) "kind"

/-- The definition of an installed integration. -/
def loadInstalled (value : Json) : Loaded InstalledIntegration := do
  let data ← objectAt value "<root>"
  let id ← requiredText data "id"
  let interface ← readInterface data
  return { interface with id }

end SchemaTypings.Definition
