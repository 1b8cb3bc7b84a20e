/-
  SchemaTypings.Schema.Node

  The structural form of a schema: what kind of value it accepts, without the many spellings that
  JSON Schema has for it.
-/
import SchemaTypings.Json.Basic

namespace SchemaTypings

/-- A named member of an object type; `α` is what says its type. -/
structure Member (α : Type) where
  name : String
  optional : Bool
  type : α
deriving DecidableEq

/-- Kinds of values without parts. -/
inductive Primitive where
  | string
  | number
  | boolean
deriving DecidableEq

/-- What a schema says about its values beside their structure.  A missing description is null. -/
structure Note where
  description : Json := .null
  constraints : Entries Json := []

/-- The structure of a schema, with a note at every level. -/
inductive SchemaNode where
  | any (note : Note)
  | null (note : Note)
  | primitive (kind : Primitive) (note : Note)
  | literal (value : Json) (note : Note)
  /-- An open object accepts keys that are not listed. -/
  | object (fields : List (Member SchemaNode)) (isOpen : Bool) (note : Note)
  | array (items : SchemaNode) (note : Note)
  | record (values : SchemaNode) (note : Note)
  | union (members : List SchemaNode) (note : Note)

namespace SchemaNode

/-- The note of a node. -/
def note : SchemaNode → Note
  | .any note | .null note | .primitive _ note | .literal _ note | .object _ _ note
  | .array _ note | .record _ note | .union _ note => note

/-- The node with another note. -/
def withNote (n : SchemaNode) (note : Note) : SchemaNode :=
  match n with
  | .any _ => .any note
  | .null _ => .null note
  | .primitive kind _ => .primitive kind note
  | .literal value _ => .literal value note
  | .object fields isOpen _ => .object fields isOpen note
  | .array items _ => .array items note
  | .record values _ => .record values note
  | .union members _ => .union members note

/-- The description of a node, null if it has none. -/
def description (n : SchemaNode) : Json := n.note.description

/-- The node with another description. -/
def withDescription (n : SchemaNode) (description : Json) : SchemaNode :=
  n.withNote { n.note with description }

/-- The name of a node's kind. -/
def kindName : SchemaNode → String
  | .any _ => "any"
  | .null _ => "null"
  | .primitive .string _ => "string"
  | .primitive .number _ => "number"
  | .primitive .boolean _ => "boolean"
  | .literal .. => "literal"
  | .object .. => "object"
  | .array .. => "array"
  | .record .. => "record"
  | .union .. => "union"

/-- Whether the node accepts null alone. -/
def isNull : SchemaNode → Bool
  | .null _ => true
  | _ => false

/-- Whether the node is built from other nodes. -/
def isComposite : SchemaNode → Bool
  | .object .. | .array .. | .record .. | .union .. => true
  | _ => false

/-- Whether null can be seen among the accepted values: the node is null or lists it as a member. -/
def isNullable : SchemaNode → Bool
  | .null _ => true
  | .union members _ => members.any isNull
  | _ => false

/-- The node made to accept null as well.  Its description moves up to the new union. -/
def withNull (n : SchemaNode) : SchemaNode :=
  match n with
  | .any _ => n
  | _ =>
    if n.isNullable then n
    else .union [n.withDescription .null, .null {}] { description := n.description }

/-- The first field of an object node with this name. -/
def field? : SchemaNode → String → Option (Member SchemaNode)
  | .object fields _ _, name => fields.find? fun f => f.name = name
  | _, _ => none

mutual
/-- The number of nodes on the longest way down. -/
def depth : SchemaNode → Nat
  | .object fields _ _ => 1 + depthOfFields fields
  | .array items _ => 1 + items.depth
  | .record values _ => 1 + values.depth
  | .union members _ => 1 + depthOfMembers members
  | _ => 1

/-- The greatest depth among the fields. -/
def depthOfFields : List (Member SchemaNode) → Nat
  | [] => 0
  | field :: rest => max (depthOfField field) (depthOfFields rest)

/-- The depth of a field's node. -/
def depthOfField : Member SchemaNode → Nat
  | ⟨_, _, node⟩ => node.depth

/-- The greatest depth among the members. -/
def depthOfMembers : List SchemaNode → Nat
  | [] => 0
  | member :: rest => max member.depth (depthOfMembers rest)
end

@[simp] theorem note_withNote (n : SchemaNode) (note : Note) : (n.withNote note).note = note := by
  cases n <;> rfl

@[simp] theorem description_withDescription (n : SchemaNode) (d : Json) :
    (n.withDescription d).description = d := by
  simp [withDescription, description]

@[simp] theorem isNull_withDescription (n : SchemaNode) (d : Json) :
    (n.withDescription d).isNull = n.isNull := by
  cases n <;> rfl

@[simp] theorem isNullable_withDescription (n : SchemaNode) (d : Json) :
    (n.withDescription d).isNullable = n.isNullable := by
  cases n <;> rfl

end SchemaNode
end SchemaTypings
