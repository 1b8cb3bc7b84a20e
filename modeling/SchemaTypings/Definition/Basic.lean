/-
  SchemaTypings.Definition.Basic

  What a bot or an integration exposes: its configuration, events and states, and for integrations
  actions, channels and secrets.  Schemas are JSON Schema objects.
-/
import SchemaTypings.Json.Basic

namespace SchemaTypings

/-- A JSON Schema object. -/
abbrev SchemaObject := Entries Json

/-- A title and a description, either of which may be missing. -/
structure Caption where
  title? : Option String := none
  description? : Option String := none
deriving DecidableEq

/-- An event and its payload. -/
structure EventDefinition where
  schema : SchemaObject
  caption : Caption := {}

/-- Where a state is kept. -/
inductive StateScope where
  | conversation
  | user
  | bot
deriving DecidableEq

/-- A state; it expires after so many milliseconds. -/
structure StateDefinition where
  schema : SchemaObject
  scope : StateScope
  expiry? : Option Nat := none
  caption : Caption := {}

/-- An action with what it takes and gives. -/
structure ActionDefinition where
  input : SchemaObject
  output : SchemaObject
  caption : Caption := {}

/-- A message that a channel carries. -/
structure MessageDefinition where
  schema : SchemaObject
  caption : Caption := {}

/-- A channel: its messages, and the tags of itself, its conversations and its messages. -/
structure ChannelDefinition where
  messages : Entries MessageDefinition := []
  tags : Entries Caption := []
  conversationTags : Entries Caption := []
  messageTags : Entries Caption := []

/-- The schema of an object without any key. -/
def emptyObjectSchema : SchemaObject :=
  [("type", .str "object"), ("properties", .obj []), ("additionalProperties", .bool false)]

/-- What a bot exposes; integrations expose the same and more. -/
structure BotDefinition where
  configuration : SchemaObject := emptyObjectSchema
  events : Entries EventDefinition := []
  states : Entries StateDefinition := []

/-- What an integration exposes, wherever it runs. -/
structure IntegrationInterface extends BotDefinition where
  name : String
  version : String
  actions : Entries ActionDefinition := []
  channels : Entries ChannelDefinition := []

/-- An integration in development, with the names of its secrets. -/
structure IntegrationDefinition extends IntegrationInterface where
  secrets : List String := []

/-- A published integration that is installed into a bot; it has no secrets. -/
structure InstalledIntegration extends IntegrationInterface where
  id : String

/-- A definition of any kind. -/
inductive Definition where
  | bot (bot : BotDefinition)
  | integration (integration : IntegrationDefinition)
  | instance (installed : InstalledIntegration)

/-- The name of a state's scope. -/
def StateScope.name : StateScope → String
  | .conversation => "conversation"
  | .user => "user"
  | .bot => "bot"

namespace Definition

/-- The name of a definition's kind. -/
def kindName : Definition → String
  | .bot _ => "bot"
  | .integration _ => "integration"
  | .instance _ => "instance"

/-- What every kind of definition exposes. -/
def base : Definition → BotDefinition
  | .bot b => b
  | .integration i => i.toBotDefinition
  | .instance i => i.toBotDefinition

/-- What integrations expose, developed or installed. -/
def interface? : Definition → Option IntegrationInterface
  | .bot _ => none
  | .integration i => some i.toIntegrationInterface
  | .instance i => some i.toIntegrationInterface

/-- The names of the secrets, for the one kind that has them. -/
def secrets? : Definition → Option (List String)
  | .integration i => some i.secrets
  | _ => none

end Definition
end SchemaTypings
