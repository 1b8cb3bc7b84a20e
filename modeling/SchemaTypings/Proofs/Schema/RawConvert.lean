/-
  SchemaTypings.Proofs.Schema.RawConvert

  The conversion to raw nodes beside the one to nodes.  It goes the same ways, and what it puts
  together is in each case the raw node with the parts of what the other gives.
-/
import SchemaTypings.Proofs.Schema.Leaves
import SchemaTypings.Proofs.Schema.Plan
import SchemaTypings.Schema.RawConvert

namespace SchemaTypings

/-- The member with another type. -/
def Member.map {α β : Type} (f : α → β) (m : Member α) : Member β := ⟨m.name, m.optional, f m.type⟩

/-- The kind of a primitive type. -/
def Primitive.nodeKind : Primitive → NodeKind
  | .string => .string
  | .number => .number
  | .boolean => .boolean

namespace SchemaNode

mutual
/-- The raw node with the parts of a node. -/
def toRaw : SchemaNode → RawNode
  | .any note => { kind := .any, note }
  | .null note => { kind := .null, note }
  | .primitive kind note => { kind := kind.nodeKind, note }
  | .literal value note => { kind := .literal, literal := value, note }
  | .object fields isOpen note => { kind := .object, fields := toRawFields fields, isOpen, note }
  | .array items note => { kind := .array, items? := some items.toRaw, note }
  | .record values note => { kind := .record, values? := some values.toRaw, note }
  | .union members note => { kind := .union, members := toRawMembers members, note }

/-- The fields with raw nodes. -/
def toRawFields : List (Member SchemaNode) → List (Member RawNode)
  | [] => []
  | field :: rest => toRawField field :: toRawFields rest

/-- The field with a raw node. -/
def toRawField : Member SchemaNode → Member RawNode
  | ⟨name, optional, node⟩ => ⟨name, optional, node.toRaw⟩

/-- The raw nodes of the members of a union. -/
def toRawMembers : List SchemaNode → List RawNode
  | [] => []
  | member :: rest => member.toRaw :: toRawMembers rest
end

theorem toRawFields_eq_map (fields : List (Member SchemaNode)) :
    toRawFields fields = fields.map (Member.map toRaw) := by
  induction fields with
  | nil => rfl
  | cons field rest ih =>
    obtain ⟨name, optional, node⟩ := field
    rw [toRawFields, ih]
    rfl

theorem toRawMembers_eq_map (members : List SchemaNode) :
    toRawMembers members = members.map toRaw := by
  induction members with
  | nil => rfl
  | cons member rest ih => rw [toRawMembers, ih, List.map_cons]

theorem toRaw_object (fields : List (Member SchemaNode)) (isOpen : Bool) (note : Note) :
    (SchemaNode.object fields isOpen note).toRaw =
      { kind := .object, fields := fields.map (Member.map toRaw), isOpen, note } := by
  rw [toRaw, toRawFields_eq_map]

theorem toRaw_union (members : List SchemaNode) (note : Note) :
    (SchemaNode.union members note).toRaw =
      { kind := .union, members := members.map toRaw, note } := by
  rw [toRaw, toRawMembers_eq_map]

section
variable (n : SchemaNode)

@[simp] theorem note_toRaw : n.toRaw.note = n.note := by
  cases n <;> rfl

theorem toRaw_withDescription (description : Json) :
    (n.withDescription description).toRaw = n.toRaw.withDescription description := by
  cases n <;> rfl

@[simp] theorem name_kind_toRaw : n.toRaw.kind.name = n.kindName := by
  cases n with
  | primitive kind note => cases kind <;> rfl
  | _ => rfl

@[simp] theorem isNull_toRaw : n.toRaw.isNull = n.isNull := by
  cases n with
  | primitive kind note => cases kind <;> rfl
  | _ => rfl

@[simp] theorem isNullable_toRaw : n.toRaw.isNullable = n.isNullable := by
  cases n with
  | primitive kind note => cases kind <;> rfl
  | union members note =>
    have hany : (members.map toRaw).any RawNode.isNull = members.any isNull := by
      rw [List.any_map]
      exact congrArg members.any (funext isNull_toRaw)
    rw [toRaw_union]
    exact hany
  | _ => rfl

theorem toRaw_withNull : n.withNull.toRaw = n.toRaw.withNull := by
  -- Only the node of anything stays as it is; what else has no null yet becomes a member.
  have hwrapped (h : ∀ note, n ≠ .any note) : n.withNull.toRaw = n.toRaw.withNull := by
    have hkind : ¬n.toRaw.kind = .any := by
      cases n with
      | any note => exact absurd rfl (h note)
      | primitive kind note => cases kind <;> nofun
      | _ => nofun
    rw [withNull.eq_2 n h, RawNode.withNull, isNullable_toRaw]
    cases n.isNullable with
    | true => rfl
    | false =>
      rw [Bool.false_or, if_neg Bool.false_ne_true, if_neg (by simpa using hkind), toRaw_union,
        List.map_cons, List.map_cons, toRaw_withDescription, note_toRaw]
      rfl
  cases n with
  | any note => rfl
  | _ => exact hwrapped nofun

end

end SchemaNode

namespace Schema.Raw

open SchemaNode (toRaw)

/-! ## Nodes -/

section
variable {location : Location} {description : Json}

theorem literalNode_eq (value : Json) :
    literalNode value location description =
      (Schema.literalNode value location description).map toRaw := by
  cases value <;> rfl

theorem literalNodes_eq (index : Nat) (values : List Json) :
    literalNodes location index values =
      (Schema.literalNodes location index values).map (·.map toRaw) := by
  induction values generalizing index with
  | nil => rfl
  | cons value rest ih =>
    rw [literalNodes, Schema.literalNodes, literalNode_eq, ih]
    cases Schema.literalNode value (location.item index) with
    | error e => rfl
    | ok node => cases Schema.literalNodes location (index + 1) rest <;> rfl

/-- The value of a sole literal is in its node, as null is in a node that has no literal. -/
theorem literal_of_literalNode {value : Json} {node : SchemaNode}
    (h : Schema.literalNode value location description = .ok node) :
    node.toRaw.literal = value := by
  rcases literalNode_cases h with ⟨rfl, rfl⟩ | ⟨-, rfl⟩
  · rfl
  · rfl

theorem enumNode_eq (values : Json) :
    enumNode values location description =
      (Schema.enumNode values location description).map toRaw := by
  cases values with
  | arr items =>
    cases items with
    | nil => rfl
    | cons first rest =>
      rw [enumNode, Schema.enumNode, literalNodes_eq]
      cases hnodes : Schema.literalNodes (location.child "enum") 0 (first :: rest) with
      | error e => rfl
      | ok nodes =>
        cases nodes with
        | nil => rfl
        | cons one more =>
          cases more with
          | nil =>
            -- A sole value is read back from its node.
            have hvalue : one.toRaw.literal = first := by
              rw [Schema.literalNodes] at hnodes
              split at hnodes
              · cases hnodes
              · next node hfirst =>
                obtain ⟨more, -, heq⟩ := exists_of_map_eq_ok hnodes
                cases heq
                exact literal_of_literalNode hfirst
            show (.ok { kind := .literal, literal := one.toRaw.literal, note := _ } : Result) = _
            rw [hvalue]
            rfl
          | cons two more =>
            dsimp only [Except.map, List.map_cons]
            rw [SchemaNode.toRaw_union]
            rfl
  | _ => rfl

theorem describedBy_eq (node : SchemaNode) :
    describedBy description node.toRaw = (Schema.describedBy description node).toRaw := by
  cases description with
  | null => rfl
  | _ => exact (SchemaNode.toRaw_withDescription _ _).symm

theorem spliceUnion_eq (node : SchemaNode) :
    spliceUnion node.toRaw = (Schema.spliceUnion node).map toRaw := by
  cases node with
  | primitive kind note => cases kind <;> rfl
  | union members note =>
    obtain ⟨description, constraints⟩ := note
    rw [SchemaNode.toRaw_union]
    cases description with
    | null => rfl
    | _ =>
      rw [Schema.spliceUnion.eq_2 _ (by simp), List.map_singleton, SchemaNode.toRaw_union]
      rfl
  | _ => rfl

theorem unionOf_eq (alternatives : List SchemaNode) :
    unionOf (alternatives.map toRaw) description =
      (Schema.unionOf alternatives description).toRaw := by
  have hmembers : (alternatives.map toRaw).flatMap spliceUnion =
      (alternatives.flatMap Schema.spliceUnion).map toRaw := by
    rw [List.flatMap_map, List.map_flatMap]
    exact List.flatMap_congr fun node _ => spliceUnion_eq node
  rw [unionOf, Schema.unionOf, hmembers]
  match alternatives.flatMap Schema.spliceUnion with
  | [] => rfl
  | [only] => exact describedBy_eq only
  | one :: two :: more =>
    dsimp only [List.map_cons]
    rw [SchemaNode.toRaw_union]
    rfl

theorem map_mergeField (fields : List (Member SchemaNode)) (field : Member SchemaNode) :
    (mergeField fields field).map (Member.map toRaw) =
      mergeField (fields.map (Member.map toRaw)) (field.map toRaw) := by
  induction fields with
  | nil => rfl
  | cons previous rest ih =>
    rw [mergeField, List.map_cons, mergeField, ← ih]
    split
    · next hname => exact (if_pos hname).symm
    · next hname => exact (if_neg hname).symm

theorem map_foldl_mergeField (fields more : List (Member SchemaNode)) :
    (more.foldl mergeField fields).map (Member.map toRaw) =
      (more.map (Member.map toRaw)).foldl mergeField (fields.map (Member.map toRaw)) := by
  induction more generalizing fields with
  | nil => rfl
  | cons field rest ih => rw [List.foldl_cons, ih, map_mergeField, List.map_cons, List.foldl_cons]

theorem mergeObjects_eq (index : Nat) (fields : List (Member SchemaNode)) (isOpen : Bool)
    (nodes : List SchemaNode) :
    mergeObjects location index (fields.map (Member.map toRaw)) isOpen (nodes.map toRaw) =
      (Schema.mergeObjects location index fields isOpen nodes).map fun merged =>
        (merged.1.map (Member.map toRaw), merged.2) := by
  induction nodes generalizing index fields isOpen with
  | nil => rfl
  | cons node rest ih =>
    cases node with
    | object more moreOpen note =>
      rw [List.map_cons, SchemaNode.toRaw_object, mergeObjects, if_pos rfl, Schema.mergeObjects,
        ← ih, map_foldl_mergeField]
    | primitive kind note => cases kind <;> rfl
    | _ => rfl

theorem intersectionOf_eq (nodes : List SchemaNode) :
    intersectionOf (nodes.map toRaw) location description =
      (Schema.intersectionOf nodes location description).map toRaw := by
  have hmerge : mergeObjects (location.child "allOf") 0 [] false (nodes.map toRaw) =
      (Schema.mergeObjects (location.child "allOf") 0 [] false nodes).map fun merged =>
        (merged.1.map (Member.map toRaw), merged.2) := mergeObjects_eq 0 [] false nodes
  match nodes with
  | [only] => exact congrArg Except.ok (describedBy_eq only)
  | [] => rfl
  | one :: two :: more =>
    rw [intersectionOf.eq_2 _ _ _ (by simp), Schema.intersectionOf.eq_2 _ _ _ (by simp), hmerge]
    cases Schema.mergeObjects (location.child "allOf") 0 [] false (one :: two :: more) with
    | error e => rfl
    | ok merged =>
      dsimp only [Except.map]
      rw [SchemaNode.toRaw_object]

/-- Both conversions know the same primitive types. -/
theorem primitiveKind?_cases (name : String) :
    primitiveKind? name = none ∧ primitive? name = none ∨
      ∃ kind make, primitiveKind? name = some kind ∧ primitive? name = some make ∧
        ∀ note, (make note).toRaw = { kind, note } := by
  unfold primitiveKind?
  split
  · exact .inr ⟨_, _, rfl, rfl, fun _ => rfl⟩
  · exact .inr ⟨_, _, rfl, rfl, fun _ => rfl⟩
  · exact .inr ⟨_, _, rfl, rfl, fun _ => rfl⟩
  · exact .inr ⟨_, _, rfl, rfl, fun _ => rfl⟩
  · exact .inr ⟨_, _, rfl, rfl, fun _ => rfl⟩
  · next hstring hnumber hinteger hboolean hnull =>
    exact .inl ⟨rfl, primitive?.eq_6 name hstring hnumber hinteger hboolean hnull⟩

theorem primitiveNode_eq (type : Json) (note : Note) :
    primitiveNode type note location = (Schema.primitiveNode type note location).map toRaw := by
  cases type with
  | str name =>
    rw [primitiveNode, Schema.primitiveNode]
    rcases primitiveKind?_cases name with ⟨hkind, hmake⟩ | ⟨kind, make, hkind, hmake, hnode⟩
    · rw [hkind, hmake]
      rfl
    · rw [hkind, hmake]
      exact congrArg Except.ok (hnode _).symm
  | _ => rfl

theorem primitiveNodes_eq (note : Note) (types : List Json) :
    primitiveNodes note location types =
      (Schema.primitiveNodes note location types).map (·.map toRaw) := by
  induction types with
  | nil => rfl
  | cons type rest ih =>
    rw [primitiveNodes, Schema.primitiveNodes, primitiveNode_eq, ih]
    cases Schema.primitiveNode type note location with
    | error e => rfl
    | ok node => cases Schema.primitiveNodes note location rest <;> rfl

end

/-! ## Schemas -/

section
variable (follow : Json → Location → Schema.Result)

/-- What references give, as raw nodes. -/
def rawFollow (reference : Json) (location : Location) : Result :=
  (follow reference location).map toRaw

/-- Letting null in is the same before and after the raw node is made. -/
theorem map_withNull_eq {raw : Result} {result : Schema.Result} (h : raw = result.map toRaw) :
    raw.map RawNode.withNull = (result.map SchemaNode.withNull).map toRaw := by
  subst h
  cases result with
  | error e => rfl
  | ok node => exact congrArg Except.ok (SchemaNode.toRaw_withNull node).symm

-- The measures are those of the conversion itself.
mutual
theorem convertWith_eq (schema : Json) (location : Location) :
    convertWith (rawFollow follow) schema location =
      (Schema.convertWith follow schema location).map toRaw := by
  match schema with
  | .obj entries =>
    have hnull {raw : Result} {result : Schema.Result} (h : raw = result.map toRaw) :
        (match Entries.get? entries "nullable" with
        | some (.bool true) => raw.map RawNode.withNull
        | _ => raw) =
          (match Entries.get? entries "nullable" with
          | some (.bool true) => result.map SchemaNode.withNull
          | _ => result).map toRaw := by
      split
      · exact map_withNull_eq h
      · exact h
    have hdescribed (reference : Json) :
        ((rawFollow follow reference location).map fun node =>
          match Entries.get? entries "description" with
          | some description => node.withDescription description
          | none => node) =
          ((follow reference location).map fun node =>
            match Entries.get? entries "description" with
            | some description => node.withDescription description
            | none => node).map toRaw := by
      rw [rawFollow]
      cases follow reference location with
      | error e => rfl
      | ok node =>
        cases Entries.get? entries "description" with
        | none => rfl
        | some description =>
          exact congrArg Except.ok (SchemaNode.toRaw_withDescription node description).symm
    rw [convertWith, Schema.convertWith, convertEntries_eq entries location]
    cases refusedKeywords.find? (Entries.has entries) with
    | some keyword => rfl
    | none =>
      cases Entries.get? entries "$ref" with
      | none => exact hnull rfl
      | some reference => exact hnull (hdescribed reference)
  | .bool b => cases b <;> rw [convertWith, Schema.convertWith] <;> rfl
  | .null | .int _ | .float _ | .str _ | .arr _ =>
    rw [convertWith, Schema.convertWith] <;> simp
    rfl
termination_by (sizeOf schema, 0, 0)

theorem convertEntries_eq (schema : Entries Json) (location : Location) :
    convertEntries (rawFollow follow) schema location =
      (Schema.convertEntries follow schema location).map toRaw := by
  rw [convertEntries, Schema.convertEntries]
  cases schema.get? "const" with
  | some value => exact literalNode_eq value
  | none =>
  cases schema.get? "enum" with
  | some values => exact enumNode_eq values
  | none =>
  cases hany : schema.get? "anyOf" with
  | some options =>
    have := Entries.sizeOf_lt_of_get? hany
    exact convertUnion_eq options "anyOf" location _
  | none =>
  cases hone : schema.get? "oneOf" with
  | some options =>
    have := Entries.sizeOf_lt_of_get? hone
    exact convertUnion_eq options "oneOf" location _
  | none =>
  cases hall : schema.get? "allOf" with
  | some parts =>
    have hlt := Entries.sizeOf_lt_of_get? hall
    match parts with
    | .arr (first :: rest) =>
      have hitems : sizeOf (first :: rest) < sizeOf schema := by
        rw [Json.arr.sizeOf_spec] at hlt
        omega
      dsimp only
      rw [convertAll_eq (first :: rest)]
      cases Schema.convertAll follow (first :: rest) (location.child "allOf") 0 with
      | error e => rfl
      | ok nodes => exact intersectionOf_eq nodes
    | .arr [] | .null | .bool _ | .int _ | .float _ | .str _ | .obj _ => rfl
  | none => exact convertTyped_eq schema _ _ location
termination_by (sizeOf schema, 2, 0)

theorem convertUnion_eq (options : Json) (keyword : String) (location : Location)
    (description : Json) :
    convertUnion (rawFollow follow) options keyword location description =
      (Schema.convertUnion follow options keyword location description).map toRaw := by
  match options with
  | .arr (first :: rest) =>
    rw [convertUnion, Schema.convertUnion, convertAll_eq (first :: rest)]
    cases Schema.convertAll follow (first :: rest) (location.child keyword) 0 with
    | error e => rfl
    | ok nodes => exact congrArg Except.ok (unionOf_eq nodes)
  | .arr [] | .null | .bool _ | .int _ | .float _ | .str _ | .obj _ =>
    rw [convertUnion, Schema.convertUnion] <;> first | rfl | simp
termination_by (sizeOf options, 0, 0)

theorem convertTyped_eq (schema : Entries Json) (type description : Json) (location : Location) :
    convertTyped (rawFollow follow) schema type description location =
      (Schema.convertTyped follow schema type description location).map toRaw := by
  rw [convertTyped.eq_def]
  dsimp only
  split
  · rw [Schema.convertTyped, convertObject_eq, convertArray_eq]
    split
    · rfl
    · split <;> rfl
  · rw [Schema.convertTyped]
    rfl
  · next only =>
    rw [Schema.convertTyped]
    exact convertTyped_eq schema only description location
  · next types hnil hone =>
    rw [Schema.convertTyped.eq_4 _ _ _ _ _ hnil hone]
    cases hfind : types.find? isStructured with
    | none =>
      dsimp only
      rw [primitiveNodes_eq]
      cases Schema.primitiveNodes _ location types with
      | error e => rfl
      | ok members => exact congrArg Except.ok (SchemaNode.toRaw_union members _).symm
    | some structured =>
      dsimp only
      split
      · rfl
      · rcases eq_of_isStructured (List.find?_some hfind) with rfl | rfl
        · exact map_withNull_eq (convertObject_eq schema _ location)
        · exact map_withNull_eq (convertArray_eq schema _ location)
  · rw [Schema.convertTyped]
    exact convertObject_eq schema _ location
  · rw [Schema.convertTyped]
    exact convertArray_eq schema _ location
  · next hnull hnil hone hmany hobject harray =>
    rw [Schema.convertTyped.eq_7 _ _ _ _ _ hnull hnil hone hmany hobject harray]
    exact primitiveNode_eq type _
termination_by (sizeOf schema, 1, sizeOf type)

theorem convertObject_eq (schema : Entries Json) (note : Note) (location : Location) :
    convertObject (rawFollow follow) schema note location =
      (Schema.convertObject follow schema note location).map toRaw := by
  rw [convertObject, Schema.convertObject]
  cases requiredNames (schema.field "required") with
  | error e => rfl
  | ok required =>
  dsimp only
  by_cases hlisted : (schema.field "properties").isTruthy = true
  · rw [if_pos hlisted, if_pos hlisted]
    cases hproperties : schema.get? "properties" with
    | none => rfl
    | some properties =>
      have hlt := Entries.sizeOf_lt_of_get? hproperties
      match properties with
      | .obj properties =>
        have hvalues : sizeOf properties < sizeOf schema := by
          rw [Json.obj.sizeOf_spec] at hlt
          omega
        dsimp only
        rw [convertFields_eq required properties]
        cases Schema.convertFields follow required properties (location.child "properties") with
        | error e => rfl
        | ok fields => exact congrArg Except.ok (SchemaNode.toRaw_object fields _ note).symm
      | .null | .bool _ | .int _ | .float _ | .str _ | .arr _ => rfl
  · rw [if_neg hlisted, if_neg hlisted]
    cases hadditional : schema.get? "additionalProperties" with
    | none => rfl
    | some additional =>
      have hlt := Entries.sizeOf_lt_of_get? hadditional
      have hvalues := convertWith_eq additional (location.child "additionalProperties")
      match additional with
      | .obj (first :: rest) =>
        dsimp only
        rw [hvalues]
        cases Schema.convertWith follow (.obj (first :: rest))
          (location.child "additionalProperties") <;> rfl
      | .bool lets => cases lets <;> rfl
      | .obj [] | .null | .int _ | .float _ | .str _ | .arr _ => rfl
termination_by (sizeOf schema, 0, 0)

theorem convertArray_eq (schema : Entries Json) (note : Note) (location : Location) :
    convertArray (rawFollow follow) schema note location =
      (Schema.convertArray follow schema note location).map toRaw := by
  rw [convertArray, Schema.convertArray]
  cases hitems : schema.get? "items" with
  | none => rfl
  | some items =>
    have hlt := Entries.sizeOf_lt_of_get? hitems
    have hitems := convertWith_eq items (location.child "items")
    match items with
    | .null | .arr _ => rfl
    | .bool _ | .int _ | .float _ | .str _ | .obj _ =>
      dsimp only
      rw [hitems]
      cases Schema.convertWith follow _ (location.child "items") <;> rfl
termination_by (sizeOf schema, 0, 0)

theorem convertAll_eq (schemas : List Json) (location : Location) (index : Nat) :
    convertAll (rawFollow follow) schemas location index =
      (Schema.convertAll follow schemas location index).map (·.map toRaw) := by
  match schemas with
  | [] => rw [convertAll, Schema.convertAll]; rfl
  | schema :: rest =>
    rw [convertAll, Schema.convertAll, convertWith_eq schema, convertAll_eq rest]
    cases Schema.convertWith follow schema (location.item index) with
    | error e => rfl
    | ok node => cases Schema.convertAll follow rest location (index + 1) <;> rfl
termination_by (sizeOf schemas, 0, 0)

theorem convertFields_eq (required : List String) (properties : Entries Json)
    (location : Location) :
    convertFields (rawFollow follow) required properties location =
      (Schema.convertFields follow required properties location).map
        (·.map (Member.map toRaw)) := by
  match properties with
  | [] => rw [convertFields, Schema.convertFields]; rfl
  | (name, schema) :: rest =>
    rw [convertFields, Schema.convertFields, convertWith_eq schema, convertFields_eq required rest]
    cases Schema.convertWith follow schema (location.child name) with
    | error e => rfl
    | ok node => cases Schema.convertFields follow required rest location <;> rfl
termination_by (sizeOf properties, 0, 0)
end

end

/-- A conversion to raw nodes gives the raw node of what the conversion gives. -/
theorem convert_eq (sources : Sources) (stop : Json → Location → ConversionError) (budget : Nat)
    (schema : Json) (location : Location) :
    convert sources stop budget schema location =
      (Schema.convert sources stop budget schema location).map toRaw := by
  induction budget generalizing schema location with
  | zero => exact convertWith_eq (fun reference l => .error (stop reference l)) schema location
  | succ budget ih =>
    rw [convert, Schema.convert, ← convertWith_eq]
    refine congrArg (convertWith · schema location) (funext fun reference => funext fun l => ?_)
    rw [rawFollow]
    cases sources.target reference l with
    | error e => rfl
    | ok target => exact ih target l

theorem ofDocument_eq (document : Json) (external? : Option (Json → Except Fault Json))
    (limit : ReferenceLimit) :
    ofDocument document external? limit =
      (Schema.ofDocument document external? limit).map toRaw :=
  convert_eq _ _ _ _ _

end Schema.Raw
end SchemaTypings
