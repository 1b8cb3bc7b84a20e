/-
  SchemaTypings.Proofs.Schema.Validity

  Which JSON values are valid for a schema, keyword by keyword, with no regard to how schemas are
  converted.

  A schema may refer to itself, so validity is first defined up to a depth of nesting (`validAt`);
  a value is valid if it is so at all great depths.  A keyword whose value has not the form that the
  keyword asks for is met by nothing.
-/
import SchemaTypings.Schema.Convert

namespace SchemaTypings

/-! ## Equality of values -/

namespace Json

/-- Whether two numbers are of one worth, integers and floats alike. -/
def sameNumber : Json → Json → Bool
  | .int m, .int n => m = n
  | .int m, .float y => y.whole? = some m
  | .float x, .int n => x.whole? = some n
  | .float x, .float y => x = y || (x.isZero && y.isZero)
  | _, _ => false

mutual
/-- Whether two values are the same: numbers by their worth, objects without regard to order. -/
def same : Json → Json → Bool
  | .null, .null => true
  | .bool a, .bool b => a = b
  | .str s, .str t => s = t
  | .arr items, .arr others => sameItems items others
  | .obj entries, .obj others =>
    decide (entries.length = others.length) && sameEntries entries others
  | a, b => sameNumber a b

/-- Whether two lists have the same values at the same places. -/
def sameItems : List Json → List Json → Bool
  | [], [] => true
  | item :: rest, other :: others => item.same other && sameItems rest others
  | _, _ => false

/-- Whether all entries are among others. -/
def sameEntries : List (String × Json) → Entries Json → Bool
  | [], _ => true
  | entry :: rest, others => sameEntry entry others && sameEntries rest others

/-- Whether an entry is among others. -/
def sameEntry : String × Json → Entries Json → Bool
  | (key, value), others =>
    match others.get? key with
    | some other => value.same other
    | none => false
end

end Json

namespace Schema

/-! ## Types -/

/-- Whether a value is of a named type; a float without a fraction is an integer. -/
def isOfNamedType (name : Json) (v : Json) : Bool :=
  match name, v with
  | .str "null", .null | .str "boolean", .bool _ | .str "string", .str _ => true
  | .str "number", .int _ | .str "number", .float _ | .str "integer", .int _ => true
  | .str "integer", .float x => x.whole?.isSome
  | .str "array", .arr _ | .str "object", .obj _ => true
  | _, _ => false

/-- Whether a value is of a type, or of one of the types in a list. -/
def isOfType (type : Json) (v : Json) : Bool :=
  match type with
  | .arr names => names.any (isOfNamedType · v)
  | name => isOfNamedType name v

/-- The type that a schema without one is read with, told by the keywords of objects and arrays. -/
def impliedType? (schema : Entries Json) : Option Json :=
  if schema.has "type" then none
  else if schema.has "properties" || schema.has "additionalProperties" then some (.str "object")
  else if schema.has "items" then some (.str "array")
  else none

/-! ## Keywords -/

section
variable (valid : Json → Json → Bool)

/-- Whether the listed properties that an object has are valid. -/
def meetsProperties (properties : Entries Json) (v : Json) : Bool :=
  match v with
  | .obj entries => properties.all fun p => (Entries.get? entries p.1).all (valid p.2)
  | _ => true

/-- Whether an object has the properties that are required. -/
def meetsRequired (required : List Json) (v : Json) : Bool :=
  required.all fun name =>
    match name, v with
    | .str name, .obj entries => Entries.has entries name
    | .str _, _ => true
    | _, _ => false

/-- Whether the properties of an object that are not listed are valid. -/
def meetsAdditional (schema : Entries Json) (additional : Json) (v : Json) : Bool :=
  match v with
  | .obj entries => entries.all fun e =>
    (match schema.get? "properties" with
      | some (.obj properties) => Entries.has properties e.1
      | _ => false) || valid additional e.2
  | _ => true

/-- Whether the members of a list are valid. -/
def meetsItems (items : Json) (v : Json) : Bool :=
  match v with
  | .arr members => members.all (valid items)
  | _ => true

/-- Whether a value meets a keyword that takes a list. -/
def meetsList (keyword : String) (arguments : List Json) (v : Json) : Bool :=
  match keyword with
  | "enum" => arguments.any (·.same v)
  | "anyOf" => arguments.any (valid · v)
  | "oneOf" => decide (arguments.countP (valid · v) = 1)
  | "allOf" => arguments.all (valid · v)
  | _ => meetsRequired arguments v

/-- Whether a value meets one keyword of a schema.  Other keywords say nothing of structure. -/
def meetsKeyword (schema : Entries Json) (v : Json) (keyword : String) (argument : Json) : Bool :=
  match keyword with
  | "const" => argument.same v
  | "type" => isOfType argument v
  | "items" => meetsItems valid argument v
  | "additionalProperties" => meetsAdditional valid schema argument v
  | "properties" =>
    match argument with
    | .obj properties => meetsProperties valid properties v
    | _ => false
  | "enum" | "anyOf" | "oneOf" | "allOf" | "required" =>
    match argument with
    | .arr arguments => meetsList valid keyword arguments v
    | _ => false
  | _ => true

/-- Whether a value meets all keywords of a schema, and the type that they imply. -/
def meetsKeywords (schema : Entries Json) (v : Json) : Bool :=
  (impliedType? schema).all (isOfNamedType · v) &&
    schema.all fun e => meetsKeyword valid schema v e.1 e.2

/-- Whether a value is null and a schema lets null in. -/
def meetsNullable (schema : Entries Json) (v : Json) : Bool :=
  match schema.get? "nullable", v with
  | some (.bool true), .null => true
  | _, _ => false

/-- Whether a value meets a schema, where `target?` tells what a reference stands for.  Beside a
reference no other keyword counts but `nullable`, which lets null in. -/
def meets (target? : Json → Option Json) (schema : Json) (v : Json) : Bool :=
  match schema with
  | .bool b => b
  | .obj entries =>
    meetsNullable entries v ||
      match Entries.get? entries "$ref" with
      | some reference => (target? reference).any (valid · v)
      | none => meetsKeywords valid entries v
  | _ => false

end

/-! ## Validity -/

/-- What a reference into the document itself stands for. -/
def localTarget? (document : Json) (reference : Json) : Option Json :=
  match localFragment? reference with
  | some fragment =>
    match Pointer.resolve document fragment with
    | .ok target? => target?
    | .error _ => none
  | none => none

/-- Whether a value is valid for a schema of the document, as far as so many nested schemas tell. -/
def validAt (document : Json) : Nat → Json → Json → Bool
  | 0, _, _ => false
  | depth + 1, schema, v => meets (validAt document depth) (localTarget? document) schema v

/-- Whether a value is valid for a document. -/
def Valid (document v : Json) : Prop := ∃ depth, ∀ more, validAt document (depth + more) document v

end Schema
end SchemaTypings
