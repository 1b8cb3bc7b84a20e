/-
  SchemaTypings.Schema.Unsupported

  Why a schema has no structural form.
-/
import SchemaTypings.Fault
import SchemaTypings.Json.Display
import SchemaTypings.Schema.Location

namespace SchemaTypings

/-- What about a schema has no structural form. -/
inductive Unsupported where
  /-- `false` accepts no value. -/
  | falseSchema
  /-- A value that is neither a truth value nor an object. -/
  | notASchema (typeName : String)
  /-- A keyword without a mapping. -/
  | keyword (name : String)
  /-- A keyword that needs a list with members and has none. -/
  | emptyList (keyword : String)
  | emptyTypeList
  | unknownType (type : Json)
  /-- A list of type names with a structured one beside another. -/
  | mixedTypes (types : List Json)
  /-- A list of item schemas. -/
  | tupleItems
  /-- A member of an intersection that is no object. -/
  | unmergeable (kindName : String)
  /-- A literal that is a list or an object. -/
  | literalType (typeName : String)
  | referenceTooDeep (reference limit : Json)
  | externalReference (reference : Json)
  | unresolvableReference (pointer : String)

namespace Unsupported

/-- What is said about the cause. -/
def message : Unsupported → String
  | .falseSchema => "Schema 'false' accepts no value"
  | .notASchema typeName => "Expected a schema object, got " ++ typeName
  | .keyword name => "Keyword '" ++ name ++ "' is not supported"
  | .emptyList name => "'" ++ name ++ "' must be a non-empty list"
  | .emptyTypeList => "'type' list is empty"
  | .unknownType type => "Unknown schema type '" ++ type.plain ++ "'"
  | .mixedTypes types =>
    "Type list " ++ (Json.arr types).shown ++ " mixes structured and primitive kinds"
  | .tupleItems => "Tuple arrays are not supported"
  | .unmergeable kindName => "'allOf' member of kind '" ++ kindName ++ "' cannot be merged"
  | .literalType typeName => "Literal of type " ++ typeName ++ " has no mapping"
  | .referenceTooDeep reference limit =>
    "Reference '" ++ reference.plain ++ "' exceeds the maximum depth of " ++ limit.plain ++
      " (recursive schemas are not supported)"
  | .externalReference reference =>
    "Cannot resolve external reference '" ++ reference.plain ++ "'"
  | .unresolvableReference pointer => "Unresolvable reference '" ++ pointer ++ "'"

/-- The values that the message shows. -/
def shownValues : Unsupported → List Json
  | .unknownType type => [type]
  | .mixedTypes types => types
  | .referenceTooDeep reference limit => [reference, limit]
  | .externalReference reference => [reference]
  | _ => []

end Unsupported

/-- Why a conversion fails. -/
inductive ConversionError where
  | unsupported (cause : Unsupported) (location : Location)
  | fault (fault : Fault)

end SchemaTypings
