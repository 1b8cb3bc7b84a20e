/-
  SchemaTypings.Schema.Convert

  From a schema document to its structural form.

  `convertWith` goes down a schema and leaves references to the function it is given; `convert` ties
  the knot, with one unit of the budget for each reference on the way.  Keywords are looked at in a
  fixed order: references, literals, unions, intersections, then the type.
-/
import SchemaTypings.Schema.Node
import SchemaTypings.Schema.Pointer
import SchemaTypings.Schema.Unsupported

namespace SchemaTypings.Schema

/-- What a conversion gives. -/
abbrev Result := Except ConversionError SchemaNode

/-- The failure for a construct without a structural form. -/
def refuse {α : Type} (cause : Unsupported) (location : Location) : Except ConversionError α :=
  .error (.unsupported cause location)

/-! ## Keywords -/

/-- Keywords without a mapping. -/
def refusedKeywords : List String := ["not", "if", "then", "else", "prefixItems"]

/-- Keywords that are kept as documentation, in the order in which they are written. -/
def constraintKeywords : List String :=
  ["minLength", "maxLength", "pattern", "format", "minimum", "maximum", "exclusiveMinimum",
    "exclusiveMaximum", "multipleOf", "minItems", "maxItems", "default"]

/-- The constraints that a schema states. -/
def constraints (schema : Entries Json) : Entries Json :=
  constraintKeywords.filterMap fun keyword => (schema.get? keyword).map fun value => (keyword, value)

/-- The primitive kind of a type name; integers are numbers. -/
def primitive? : String → Option (Note → SchemaNode)
  | "string" => some (.primitive .string)
  | "number" | "integer" => some (.primitive .number)
  | "boolean" => some (.primitive .boolean)
  | "null" => some .null
  | _ => none

/-- The names that a `required` value lists.  A text lists its characters and an object its keys; a
list that holds a list or an object is of no use, nor is a number or `true`. -/
def requiredNames (required : Json) : Except Fault (List String) :=
  if !required.isTruthy then .ok []
  else
    match required with
    | .str s => .ok (s.toList.map fun c => String.ofList [c])
    | .obj entries => .ok (entries.map Prod.fst)
    | .arr items =>
      if items.all Json.isScalar then
        .ok (items.filterMap fun item => match item with | .str s => some s | _ => none)
      else .error .unfitOperand
    | _ => .error .unfitOperand

/-! ## Nodes -/

/-- The node of a literal value. -/
def literalNode (value : Json) (location : Location) (description : Json := .null) : Result :=
  match value with
  | .null => .ok (.null { description })
  | .arr _ | .obj _ => refuse (.literalType value.typeName) location
  | _ => .ok (.literal value { description })

/-- The nodes of the values of an enumeration, the first of which has the given index. -/
def literalNodes (location : Location) : Nat → List Json → Except ConversionError (List SchemaNode)
  | _, [] => .ok []
  | index, value :: rest =>
    match literalNode value (location.item index) with
    | .error e => .error e
    | .ok node => (literalNodes location (index + 1) rest).map (node :: ·)

/-- The node of an enumeration.  A sole value is that literal, also where it is null. -/
def enumNode (values : Json) (location : Location) (description : Json) : Result :=
  match values with
  | .arr (first :: rest) =>
    match literalNodes (location.child "enum") 0 (first :: rest) with
    | .error e => .error e
    | .ok [_] => .ok (.literal first { description })
    | .ok nodes => .ok (.union nodes { description })
  | _ => refuse (.emptyList "enum") (location.child "enum")

/-- A node with the description of the schema around it, if that has one. -/
def describedBy (description : Json) (node : SchemaNode) : SchemaNode :=
  match description with
  | .null => node
  | d => node.withDescription d

/-- The members of a union in place of the union itself, unless it has a description of its own. -/
def spliceUnion (node : SchemaNode) : List SchemaNode :=
  match node with
  | .union members { description := .null, .. } => members
  | _ => [node]

/-- The union of alternatives.  A sole member stands for itself. -/
def unionOf (alternatives : List SchemaNode) (description : Json) : SchemaNode :=
  match alternatives.flatMap spliceUnion with
  | [only] => describedBy description only
  | members => .union members { description }

/-- The fields with one more: a field of the same name keeps its place and takes the new type, and
is optional only if both are. -/
def mergeField {α : Type} : List (Member α) → Member α → List (Member α)
  | [], field => [field]
  | previous :: rest, field =>
    if previous.name = field.name then
      { field with optional := field.optional && previous.optional } :: rest
    else previous :: mergeField rest field

/-- The fields and openness of objects taken together, after those before; the first object has the
given index. -/
def mergeObjects (location : Location) :
    Nat → List (Member SchemaNode) → Bool → List SchemaNode →
      Except ConversionError (List (Member SchemaNode) × Bool)
  | _, fields, isOpen, [] => .ok (fields, isOpen)
  | index, fields, isOpen, node :: rest =>
    match node with
    | .object more moreOpen _ =>
      mergeObjects location (index + 1) (more.foldl mergeField fields) (isOpen || moreOpen) rest
    | _ => refuse (.unmergeable node.kindName) (location.item index)

/-- The intersection of nodes.  A sole one stands for itself; of several all must be objects. -/
def intersectionOf (nodes : List SchemaNode) (location : Location) (description : Json) : Result :=
  match nodes with
  | [only] => .ok (describedBy description only)
  | _ =>
    (mergeObjects (location.child "allOf") 0 [] false nodes).map fun (fields, isOpen) =>
      .object fields isOpen { description }

/-- The node of a primitive type name; an integer is marked as such by a constraint. -/
def primitiveNode (type : Json) (note : Note) (location : Location) : Result :=
  match type with
  | .str name =>
    match primitive? name with
    | some make =>
      .ok (make (if name = "integer" then
        { note with constraints := note.constraints.insert "integer" (.bool true) } else note))
    | none => refuse (.unknownType type) (location.child "type")
  | .arr _ | .obj _ => .error (.fault .unfitOperand)
  | _ => refuse (.unknownType type) (location.child "type")

/-- The nodes of primitive type names. -/
def primitiveNodes (note : Note) (location : Location) :
    List Json → Except ConversionError (List SchemaNode)
  | [] => .ok []
  | type :: rest =>
    match primitiveNode type note location with
    | .error e => .error e
    | .ok node => (primitiveNodes note location rest).map (node :: ·)

/-- Whether a type name is that of a structured kind. -/
def isStructured : Json → Bool
  | .str "object" | .str "array" => true
  | _ => false

/-- Whether a type name is `null`. -/
def isNullName : Json → Bool
  | .str "null" => true
  | _ => false

/-! ## Schemas -/

section
variable (follow : Json → Location → Result)

mutual
/-- The structural form of a schema whose references `follow` converts. -/
def convertWith (schema : Json) (location : Location) : Result :=
  match schema with
  | .bool true => .ok (.any {})
  | .bool false => refuse .falseSchema location
  | .obj entries =>
    match refusedKeywords.find? (Entries.has entries) with
    | some keyword => refuse (.keyword keyword) location
    | none =>
      let node :=
        match Entries.get? entries "$ref" with
        | some reference =>
          (follow reference location).map fun node =>
            match Entries.get? entries "description" with
            | some description => node.withDescription description
            | none => node
        | none => convertEntries entries location
      match Entries.get? entries "nullable" with
      | some (.bool true) => node.map SchemaNode.withNull
      | _ => node
  | _ => refuse (.notASchema schema.typeName) location
termination_by (sizeOf schema, 0, 0)

/-- The structural form of a schema object without a reference. -/
def convertEntries (schema : Entries Json) (location : Location) : Result :=
  let description := schema.field "description"
  match schema.get? "const" with
  | some value => literalNode value (location.child "const") description
  | none =>
  match schema.get? "enum" with
  | some values => enumNode values location description
  | none =>
  match _h : schema.get? "anyOf" with
  | some options => convertUnion options "anyOf" location description
  | none =>
  match _h : schema.get? "oneOf" with
  | some options => convertUnion options "oneOf" location description
  | none =>
  match _h : schema.get? "allOf" with
  | some (.arr (first :: rest)) =>
    match convertAll (first :: rest) (location.child "allOf") 0 with
    | .error e => .error e
    | .ok nodes => intersectionOf nodes location description
  | some _ => refuse (.emptyList "allOf") (location.child "allOf")
  | none => convertTyped schema (schema.field "type") description location
termination_by (sizeOf schema, 2, 0)
decreasing_by
  all_goals simp_wf
  · have := Entries.sizeOf_lt_of_get? _h; exact Prod.Lex.left _ _ (by omega)
  · have := Entries.sizeOf_lt_of_get? _h; exact Prod.Lex.left _ _ (by omega)
  · have := Entries.sizeOf_lt_of_get? _h; simp at this; exact Prod.Lex.left _ _ (by omega)
  · exact Prod.Lex.right _ (Prod.Lex.left _ _ (by omega))

/-- The union of the schemas in a list. -/
def convertUnion (options : Json) (keyword : String) (location : Location) (description : Json) :
    Result :=
  match options with
  | .arr (first :: rest) =>
    match convertAll (first :: rest) (location.child keyword) 0 with
    | .error e => .error e
    | .ok nodes => .ok (unionOf nodes description)
  | _ => refuse (.emptyList keyword) (location.child keyword)
termination_by (sizeOf options, 0, 0)

/-- The structural form of a schema object read as of the given type.  Without a type, keywords of
objects or arrays tell it.  Of several types a structured one may stand beside null alone. -/
def convertTyped (schema : Entries Json) (type : Json) (description : Json)
    (location : Location) : Result :=
  let note : Note := { description, constraints := constraints schema }
  match type with
  | .null =>
    if schema.has "properties" || schema.has "additionalProperties" then
      convertObject schema note location
    else if schema.has "items" then convertArray schema note location
    else .ok (.any note)
  | .arr [] => refuse .emptyTypeList (location.child "type")
  | .arr [only] => convertTyped schema only description location
  | .arr types =>
    match types.find? isStructured with
    | some structured =>
      if (types.filter (!isNullName ·)).length > 1 then
        refuse (.mixedTypes types) (location.child "type")
      else
        match structured with
        | .str "object" => (convertObject schema note location).map SchemaNode.withNull
        | _ => (convertArray schema note location).map SchemaNode.withNull
    | none =>
      (primitiveNodes { note with description := .null } location types).map fun members =>
        .union members { description }
  | .str "object" => convertObject schema note location
  | .str "array" => convertArray schema note location
  | _ => primitiveNode type note location
termination_by (sizeOf schema, 1, sizeOf type)

/-- An object with the listed properties, or a record where none are listed. -/
def convertObject (schema : Entries Json) (note : Note) (location : Location) : Result :=
  match requiredNames (schema.field "required") with
  | .error e => .error (.fault e)
  | .ok required =>
    let additional? := schema.get? "additionalProperties"
    if (schema.field "properties").isTruthy then
      match _h : schema.get? "properties" with
      | some (.obj properties) =>
        let isOpen :=
          match additional? with
          | some (.obj _) | some (.bool true) => true
          | _ => false
        (convertFields required properties (location.child "properties")).map fun fields =>
          .object fields isOpen note
      | _ => .error (.fault .noSuchOperation)
    else
      match _h : schema.get? "additionalProperties" with
      | some (.bool false) => .ok (.object [] false note)
      | some (.obj (first :: rest)) =>
        (convertWith (.obj (first :: rest)) (location.child "additionalProperties")).map
          fun values => .record values note
      | _ => .ok (.record (.any {}) note)
termination_by (sizeOf schema, 0, 0)
decreasing_by
  all_goals simp_wf
  · have := Entries.sizeOf_lt_of_get? _h; simp at this; exact Prod.Lex.left _ _ (by omega)
  · have := Entries.sizeOf_lt_of_get? _h; simp at this; exact Prod.Lex.left _ _ (by omega)

/-- An array of what `items` describes, of anything without it. -/
def convertArray (schema : Entries Json) (note : Note) (location : Location) : Result :=
  match _h : schema.get? "items" with
  | none | some .null => .ok (.array (.any {}) note)
  | some (.arr _) => refuse .tupleItems (location.child "items")
  | some items => (convertWith items (location.child "items")).map fun node => .array node note
termination_by (sizeOf schema, 0, 0)
decreasing_by
  have := Entries.sizeOf_lt_of_get? _h
  exact Prod.Lex.left _ _ (by omega)

/-- The structural forms of schemas in a list, the first of which has the given index. -/
def convertAll (schemas : List Json) (location : Location) (index : Nat) :
    Except ConversionError (List SchemaNode) :=
  match schemas with
  | [] => .ok []
  | schema :: rest =>
    match convertWith schema (location.item index) with
    | .error e => .error e
    | .ok node => (convertAll rest location (index + 1)).map (node :: ·)
termination_by (sizeOf schemas, 0, 0)

/-- The fields of the listed properties; those that are not required are optional. -/
def convertFields (required : List String) (properties : List (String × Json))
    (location : Location) : Except ConversionError (List (Member SchemaNode)) :=
  match properties with
  | [] => .ok []
  | (name, schema) :: rest =>
    match convertWith schema (location.child name) with
    | .error e => .error e
    | .ok node =>
      (convertFields required rest location).map (⟨name, !required.contains name, node⟩ :: ·)
termination_by (sizeOf properties, 0, 0)
end

end

/-! ## References -/

/-- Where references lead: into the document itself, or to what `external?` supplies. -/
structure Sources where
  root : Json
  external? : Option (Json → Except Fault Json)

/-- Whether a reference leads into the document itself. -/
def localFragment? : Json → Option String
  | .str s => if s.toList.head? = some '#' then some s else none
  | _ => none

/-- The schema that a reference leads to. -/
def Sources.target (sources : Sources) (reference : Json) (location : Location) :
    Except ConversionError Json :=
  match localFragment? reference with
  | some fragment =>
    match Pointer.resolve sources.root fragment with
    | .ok (some target) => .ok target
    | .ok none => refuse (.unresolvableReference fragment) location
    | .error e => .error (.fault e)
  | none =>
    match sources.external? with
    | some resolver =>
      match resolver reference with
      | .ok target => .ok target
      | .error e => .error (.fault e)
    | none => refuse (.externalReference reference) location

/-- How many references may be nested, and the limit as messages show it.  A limit that no number
reaches is replaced by `room`, the number that can be followed at all.  A limit that cannot be
compared with a number admits no reference. -/
inductive ReferenceLimit where
  | atMost (budget : Nat) (shown : Json)
  | unlimited (room : Nat)
  | incomparable

namespace ReferenceLimit

/-- The limit that an integer sets; a negative one is like zero. -/
def ofInt (n : Int) : ReferenceLimit := .atMost n.toNat (.int n)

/-- The limit that a configured value sets. -/
def ofJson (room : Nat) (limit : Json) : ReferenceLimit :=
  match limit with
  | .int n => ofInt n
  | .bool b => .atMost b.toNat limit
  | .float x =>
    match x.naturalsBelow with
    | some budget => .atMost budget limit
    | none => .unlimited room
  | _ => .incomparable

/-- How many nested references are followed under a limit. -/
def budget : ReferenceLimit → Nat
  | .atMost budget _ => budget
  | .unlimited room => room
  | .incomparable => 0

/-- The failure at a reference past the budget. -/
def failure (limit : ReferenceLimit) (reference : Json) (location : Location) : ConversionError :=
  match limit with
  | .atMost _ shown => .unsupported (.referenceTooDeep reference shown) location
  | .unlimited _ => .fault .outOfReach
  | .incomparable => .fault .unfitOperand

end ReferenceLimit

/-- The structural form of a schema, with at most `budget` references nested; `stop` is the failure
at one reference more. -/
def convert (sources : Sources) (stop : Json → Location → ConversionError) :
    Nat → Json → Location → Result
  | 0 => convertWith fun reference location => .error (stop reference location)
  | budget + 1 =>
    convertWith fun reference location =>
      match sources.target reference location with
      | .error e => .error e
      | .ok target => convert sources stop budget target location

/-- The structural form of a schema document. -/
def ofDocument (document : Json) (external? : Option (Json → Except Fault Json))
    (limit : ReferenceLimit) : Result :=
  convert ⟨document, external?⟩ limit.failure limit.budget document .root

end SchemaTypings.Schema
