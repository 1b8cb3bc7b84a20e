/-
  SchemaTypings.Typescript.TypeExpr

  Type expressions and their text.
-/
import SchemaTypings.Json.Printer
import SchemaTypings.Schema.Node
import SchemaTypings.Text.Split

namespace SchemaTypings.Typescript

/-- A type expression. -/
inductive TypeExpr where
  | any
  | null
  | primitive (kind : Primitive)
  | literal (value : Json)
  /-- The object type without members, `{}`. -/
  | emptyObject
  /-- A declared type. -/
  | named (name : String)
  | array (element : TypeExpr)
  /-- An object type that maps every key to the type. -/
  | record (value : TypeExpr)
  | union (parts : List TypeExpr)

/-- The text of a literal type: null and the truth values by their names, any other value as JSON
text. -/
def formatLiteral (value : Json) : Except Fault String :=
  match value with
  | .null => .ok "null"
  | .bool b => .ok (if b then "true" else "false")
  | _ => value.written

namespace TypeExpr

/-- The keyword of a primitive type. -/
def primitiveChars : Primitive → List Char
  | .string => "string".toList
  | .number => "number".toList
  | .boolean => "boolean".toList

/-- An array of elements with this text; a text with a space in it needs brackets. -/
def arrayChars (element : List Char) : List Char :=
  if ' ' ∈ element then "Array<".toList ++ element ++ ['>'] else element ++ ['[', ']']

mutual
/-- The text of a type expression. -/
def chars : TypeExpr → List Char
  | .any => "any".toList
  | .null => "null".toList
  | .primitive kind => primitiveChars kind
  | .literal value => value.chars
  | .emptyObject => ['\x7b', '\x7d']
  | .named name => name.toList
  | .array element => arrayChars element.chars
  | .record value => '\x7b' :: " [k: string]: ".toList ++ value.chars ++ [' ', '\x7d']
  | .union parts => Text.joinWith [' ', '|', ' '] (partChars parts)

/-- The texts of the parts of a union. -/
def partChars : List TypeExpr → List (List Char)
  | [] => []
  | part :: rest => part.chars :: partChars rest
end

/-- The types with each text once, the first of them. -/
def dedupe (types : List TypeExpr) : List TypeExpr :=
  types.foldl (fun kept t => if kept.any (·.chars = t.chars) then kept else kept ++ [t]) []

end TypeExpr
end SchemaTypings.Typescript
