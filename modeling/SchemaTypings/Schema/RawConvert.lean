/-
  SchemaTypings.Schema.RawConvert

  From a schema document to its structural form as raw nodes.  The keywords are looked at in the same
  order; each node is put together from a kind and the parts that are at hand.
-/
import SchemaTypings.Schema.Convert
import SchemaTypings.Schema.RawNode

namespace SchemaTypings.Schema.Raw

/-- What a conversion gives. -/
abbrev Result := Except ConversionError RawNode

/-! ## Nodes -/

/-- The node of a literal value. -/
def literalNode (value : Json) (location : Location) (description : Json := .null) : Result :=
  match value with
  | .null => .ok { kind := .null, note := { description } }
  | .arr _ | .obj _ => refuse (.literalType value.typeName) location
  | _ => .ok { kind := .literal, literal := value, note := { description } }

/-- The nodes of the values of an enumeration, the first of which has the given index. -/
def literalNodes (location : Location) : Nat → List Json → Except ConversionError (List RawNode)
  | _, [] => .ok []
  | index, value :: rest =>
    match literalNode value (location.item index) with
    | .error e => .error e
    | .ok node => (literalNodes location (index + 1) rest).map (node :: ·)

/-- The node of an enumeration.  A sole value is taken from its node, whatever kind that is. -/
def enumNode (values : Json) (location : Location) (description : Json) : Result :=
  match values with
  | .arr (first :: rest) =>
    match literalNodes (location.child "enum") 0 (first :: rest) with
    | .error e => .error e
    | .ok [only] => .ok { kind := .literal, literal := only.literal, note := { description } }
    | .ok nodes => .ok { kind := .union, members := nodes, note := { description } }
  | _ => refuse (.emptyList "enum") (location.child "enum")

/-- A node with the description of the schema around it, if that has one. -/
def describedBy (description : Json) (node : RawNode) : RawNode :=
  match description with
  | .null => node
  | d => node.withDescription d

/-- The members of a union in place of the union itself, unless it has a description of its own. -/
def spliceUnion (node : RawNode) : List RawNode :=
  match node.kind, node.note.description with
  | .union, .null => node.members
  | _, _ => [node]

/-- The union of alternatives.  A sole member stands for itself. -/
def unionOf (alternatives : List RawNode) (description : Json) : RawNode :=
  match alternatives.flatMap spliceUnion with
  | [only] => describedBy description only
  | members => { kind := .union, members, note := { description } }

/-- The fields and openness of objects taken together, after those before; the first object has the
given index. -/
def mergeObjects (location : Location) :
    Nat → List (Member RawNode) → Bool → List RawNode →
      Except ConversionError (List (Member RawNode) × Bool)
  | _, fields, isOpen, [] => .ok (fields, isOpen)
  | index, fields, isOpen, node :: rest =>
    if node.kind = .object then
      mergeObjects location (index + 1) (node.fields.foldl mergeField fields)
        (isOpen || node.isOpen) rest
    else refuse (.unmergeable node.kind.name) (location.item index)

/-- The intersection of nodes.  A sole one stands for itself; of several all must be objects. -/
def intersectionOf (nodes : List RawNode) (location : Location) (description : Json) : Result :=
  match nodes with
  | [only] => .ok (describedBy description only)
  | _ =>
    (mergeObjects (location.child "allOf") 0 [] false nodes).map fun (fields, isOpen) =>
      { kind := .object, fields, isOpen, note := { description } }

/-- The kind of a primitive type name; integers are numbers. -/
def primitiveKind? : String → Option NodeKind
  | "string" => some .string
  | "number" | "integer" => some .number
  | "boolean" => some .boolean
  | "null" => some .null
  | _ => none

/-- The node of a primitive type name; an integer is marked as such by a constraint. -/
def primitiveNode (type : Json) (note : Note) (location : Location) : Result :=
  match type with
  | .str name =>
    match primitiveKind? name with
    | some kind =>
      .ok { kind, note := if name = "integer" then
        { note with constraints := note.constraints.insert "integer" (.bool true) } else note }
    | none => refuse (.unknownType type) (location.child "type")
  | .arr _ | .obj _ => .error (.fault .unfitOperand)
  | _ => refuse (.unknownType type) (location.child "type")

/-- The nodes of primitive type names. -/
def primitiveNodes (note : Note) (location : Location) :
    List Json → Except ConversionError (List RawNode)
  | [] => .ok []
  | type :: rest =>
    match primitiveNode type note location with
    | .error e => .error e
    | .ok node => (primitiveNodes note location rest).map (node :: ·)

/-! ## Schemas -/

section
variable (follow : Json → Location → Result)

mutual
/-- The raw node of a schema whose references `follow` converts. -/
def convertWith (schema : Json) (location : Location) : Result :=
  match schema with
  | .bool true => .ok { kind := .any }
  | .bool false => refuse .falseSchema location
  | .obj entries =>
    match refusedKeywords.find? (Entries.has entries) with
    | some keyword => refuse (.keyword keyword) location
    | none =>
      let node :=
        match Entries.get? entries "$ref" with
        | some reference =>
          (follow reference location).map fun node =>
            match Entries.get? entries "description" with
            | some description => node.withDescription description
            | none => node
        | none => convertEntries entries location
      match Entries.get? entries "nullable" with
      | some (.bool true) => node.map RawNode.withNull
      | _ => node
  | _ => refuse (.notASchema schema.typeName) location
termination_by (sizeOf schema, 0, 0)

/-- The raw node of a schema object without a reference. -/
def convertEntries (schema : Entries Json) (location : Location) : Result :=
  let description := schema.field "description"
  match schema.get? "const" with
  | some value => literalNode value (location.child "const") description
  | none =>
  match schema.get? "enum" with
  | some values => enumNode values location description
  | none =>
  match _h : schema.get? "anyOf" with
  | some options => convertUnion options "anyOf" location description
  | none =>
  match _h : schema.get? "oneOf" with
  | some options => convertUnion options "oneOf" location description
  | none =>
  match _h : schema.get? "allOf" with
  | some (.arr (first :: rest)) =>
    match convertAll (first :: rest) (location.child "allOf") 0 with
    | .error e => .error e
    | .ok nodes => intersectionOf nodes location description
  | some _ => refuse (.emptyList "allOf") (location.child "allOf")
  | none => convertTyped schema (schema.field "type") description location
termination_by (sizeOf schema, 2, 0)
decreasing_by
  all_goals simp_wf
  · have := Entries.sizeOf_lt_of_get? _h; exact Prod.Lex.left _ _ (by omega)
  · have := Entries.sizeOf_lt_of_get? _h; exact Prod.Lex.left _ _ (by omega)
  · have := Entries.sizeOf_lt_of_get? _h; simp at this; exact Prod.Lex.left _ _ (by omega)
  · exact Prod.Lex.right _ (Prod.Lex.left _ _ (by omega))

/-- The union of the schemas in a list. -/
def convertUnion (options : Json) (keyword : String) (location : Location) (description : Json) :
    Result :=
  match options with
  | .arr (first :: rest) =>
    match convertAll (first :: rest) (location.child keyword) 0 with
    | .error e => .error e
    | .ok nodes => .ok (unionOf nodes description)
  | _ => refuse (.emptyList keyword) (location.child keyword)
termination_by (sizeOf options, 0, 0)

/-- The raw node of a schema object read as of the given type.  Without a type, keywords of
objects or arrays tell it.  Of several types a structured one may stand beside null alone. -/
def convertTyped (schema : Entries Json) (type : Json) (description : Json)
    (location : Location) : Result :=
  let note : Note := { description, constraints := constraints schema }
  match type with
  | .null =>
    if schema.has "properties" || schema.has "additionalProperties" then
      convertObject schema note location
    else if schema.has "items" then convertArray schema note location
    else .ok { kind := .any, note }
  | .arr [] => refuse .emptyTypeList (location.child "type")
  | .arr [only] => convertTyped schema only description location
  | .arr types =>
    match types.find? isStructured with
    | some structured =>
      if (types.filter (!isNullName ·)).length > 1 then
        refuse (.mixedTypes types) (location.child "type")
      else
        match structured with
        | .str "object" => (convertObject schema note location).map RawNode.withNull
        | _ => (convertArray schema note location).map RawNode.withNull
    | none =>
      (primitiveNodes { note with description := .null } location types).map fun members =>
        { kind := .union, members, note := { description } }
  | .str "object" => convertObject schema note location
  | .str "array" => convertArray schema note location
  | _ => primitiveNode type note location
termination_by (sizeOf schema, 1, sizeOf type)

/-- An object with the listed properties, or a record where none are listed. -/
def convertObject (schema : Entries Json) (note : Note) (location : Location) : Result :=
  match requiredNames (schema.field "required") with
  | .error e => .error (.fault e)
  | .ok required =>
    let additional? := schema.get? "additionalProperties"
    if (schema.field "properties").isTruthy then
      match _h : schema.get? "properties" with
      | some (.obj properties) =>
        let isOpen :=
          match additional? with
          | some (.obj _) | some (.bool true) => true
          | _ => false
        (convertFields required properties (location.child "properties")).map fun fields =>
          { kind := .object, fields, isOpen, note }
      | _ => .error (.fault .noSuchOperation)
    else
      match _h : schema.get? "additionalProperties" with
      | some (.bool false) => .ok { kind := .object, note }
      | some (.obj (first :: rest)) =>
        (convertWith (.obj (first :: rest)) (location.child "additionalProperties")).map
          fun values => { kind := .record, values? := some values, note }
      | _ => .ok { kind := .record, values? := some { kind := .any }, note }
termination_by (sizeOf schema, 0, 0)
decreasing_by
  all_goals simp_wf
  · have := Entries.sizeOf_lt_of_get? _h; simp at this; exact Prod.Lex.left _ _ (by omega)
  · have := Entries.sizeOf_lt_of_get? _h; simp at this; exact Prod.Lex.left _ _ (by omega)

/-- An array of what `items` describes, of anything without it. -/
def convertArray (schema : Entries Json) (note : Note) (location : Location) : Result :=
  match _h : schema.get? "items" with
  | none | some .null => .ok { kind := .array, items? := some { kind := .any }, note }
  | some (.arr _) => refuse .tupleItems (location.child "items")
  | some items => (convertWith items (location.child "items")).map fun node =>
      { kind := .array, items? := some node, note }
termination_by (sizeOf schema, 0, 0)
decreasing_by
  have := Entries.sizeOf_lt_of_get? _h
  exact Prod.Lex.left _ _ (by omega)

/-- The raw nodes of schemas in a list, the first of which has the given index. -/
def convertAll (schemas : List Json) (location : Location) (index : Nat) :
    Except ConversionError (List RawNode) :=
  match schemas with
  | [] => .ok []
  | schema :: rest =>
    match convertWith schema (location.item index) with
    | .error e => .error e
    | .ok node => (convertAll rest location (index + 1)).map (node :: ·)
termination_by (sizeOf schemas, 0, 0)

/-- The fields of the listed properties; those that are not required are optional. -/
def convertFields (required : List String) (properties : List (String × Json))
    (location : Location) : Except ConversionError (List (Member RawNode)) :=
  match properties with
  | [] => .ok []
  | (name, schema) :: rest =>
    match convertWith schema (location.child name) with
    | .error e => .error e
    | .ok node =>
      (convertFields required rest location).map (⟨name, !required.contains name, node⟩ :: ·)
termination_by (sizeOf properties, 0, 0)
end

end

/-! ## References -/

/-- The raw node of a schema, with at most `budget` references nested; `stop` is the failure at one
reference more. -/
def convert (sources : Sources) (stop : Json → Location → ConversionError) :
    Nat → Json → Location → Result
  | 0 => convertWith fun reference location => .error (stop reference location)
  | budget + 1 =>
    convertWith fun reference location =>
      match sources.target reference location with
      | .error e => .error e
      | .ok target => convert sources stop budget target location

/-- The raw node of a schema document. -/
def ofDocument (document : Json) (external? : Option (Json → Except Fault Json))
    (limit : ReferenceLimit) : Result :=
  convert ⟨document, external?⟩ limit.failure limit.budget document .root

end SchemaTypings.Schema.Raw
