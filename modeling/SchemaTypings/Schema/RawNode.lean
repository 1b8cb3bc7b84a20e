/-
  SchemaTypings.Schema.RawNode

  The structural form of a schema as one record that has a place for the parts of every kind of node.
  Nothing but the code that fills it keeps an array from having no element, or a text from having
  members.
-/
import SchemaTypings.Schema.Node

namespace SchemaTypings

/-- The kinds of nodes. -/
inductive NodeKind where
  | object
  | array
  | string
  | number
  | boolean
  | null
  | record
  | union
  | literal
  | any
deriving DecidableEq

/-- The name of a kind. -/
def NodeKind.name : NodeKind → String
  | .object => "object"
  | .array => "array"
  | .string => "string"
  | .number => "number"
  | .boolean => "boolean"
  | .null => "null"
  | .record => "record"
  | .union => "union"
  | .literal => "literal"
  | .any => "any"

/-- A node with the parts that nodes of any kind have. -/
structure RawNode where
  kind : NodeKind
  fields : List (Member RawNode) := []
  /-- The element of an array. -/
  items? : Option RawNode := none
  /-- What a record maps its keys to. -/
  values? : Option RawNode := none
  members : List RawNode := []
  literal : Json := .null
  /-- Whether an object accepts keys that are not listed. -/
  isOpen : Bool := false
  note : Note := {}

namespace RawNode

/-- Whether the node accepts null alone. -/
def isNull (n : RawNode) : Bool := n.kind = .null

/-- Whether the node is built from other nodes. -/
def isComposite (n : RawNode) : Bool :=
  n.kind = .object || n.kind = .array || n.kind = .record || n.kind = .union

/-- Whether null can be seen among the accepted values. -/
def isNullable (n : RawNode) : Bool := n.isNull || n.kind = .union && n.members.any isNull

/-- The node with another description and all of its parts. -/
def withDescription (n : RawNode) (description : Json) : RawNode where
  kind := n.kind
  fields := n.fields
  items? := n.items?
  values? := n.values?
  members := n.members
  literal := n.literal
  isOpen := n.isOpen
  note := { description, constraints := n.note.constraints }

/-- The node made to accept null as well.  Its description moves up to the new union. -/
def withNull (n : RawNode) : RawNode :=
  if n.isNullable || n.kind = .any then n
  else
    { kind := .union
      members := [n.withDescription .null, { kind := .null }]
      note := { description := n.note.description } }

end RawNode
end SchemaTypings
