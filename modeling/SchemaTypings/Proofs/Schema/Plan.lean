/-
  SchemaTypings.Proofs.Schema.Plan

  The conversion of one schema at a time.  What the keywords of a schema ask for is told without
  converting anything: a failure, a reference to follow, or parts to convert first and then to build
  a node from.  A conversion carries out the plan of each schema that it comes to.
-/
import SchemaTypings.Proofs.Schema.Form

namespace SchemaTypings

/-- The location at the end of more steps. -/
def Location.below (l : Location) (steps : List String) : Location := ⟨l.steps ++ steps⟩

@[simp] theorem Location.below_nil (l : Location) : l.below [] = l := by simp [Location.below]

theorem Location.child_eq_below (l : Location) (step : String) :
    l.child step = l.below [step] := rfl

theorem Location.child_below (l : Location) (step : String) (steps : List String) :
    (l.child step).below steps = l.below (step :: steps) := by
  simp [Location.child, Location.below]

/-- The location of a member of a list under a keyword. -/
theorem Location.item_child (l : Location) (keyword : String) (index : Nat) :
    (l.child keyword).item index = l.below [keyword, natText index] := by
  rw [item, child_eq_below (l.child keyword), child_below]

namespace Schema

/-! ## Plans -/

/-- What the conversion of a schema comes to.  Parts have the steps that lead to them; how failures
are told depends on where the schema is. -/
inductive Plan where
  | failure (error : Location → ConversionError)
  | reference (reference : Json) (finish : SchemaNode → SchemaNode)
  | parts (parts : List (Json × List String)) (build : Location → List SchemaNode → Result)

namespace Plan

/-- The plan for a construct without a structural form. -/
def refusal (cause : Unsupported) (steps : List String := []) : Plan :=
  .failure fun l => .unsupported cause (l.below steps)

/-- The plan for a schema that has no parts. -/
def plain (result : Location → Result) : Plan := .parts [] fun l _ => result l

/-- The plan for a schema with one part. -/
def sole (schema : Json) (steps : List String) (make : SchemaNode → SchemaNode) : Plan :=
  .parts [(schema, steps)] fun _ nodes => .ok (make (nodes.headD (.any {})))

/-- The plan with something done to the node in the end. -/
def map (f : SchemaNode → SchemaNode) : Plan → Plan
  | failure error => failure error
  | reference r finish => reference r fun node => f (finish node)
  | parts ps build => parts ps fun l nodes => (build l nodes).map f

end Plan

/-- The schemas of a list below a keyword, the first of which has the given index. -/
def listed (keyword : String) : Nat → List Json → List (Json × List String)
  | _, [] => []
  | index, schema :: rest =>
    (schema, [keyword, natText index]) :: listed keyword (index + 1) rest

theorem map_fst_listed (keyword : String) (index : Nat) (schemas : List Json) :
    (listed keyword index schemas).map Prod.fst = schemas := by
  induction schemas generalizing index with
  | nil => rfl
  | cons schema rest ih => rw [listed, List.map_cons, ih]

/-- The plan for the schemas in a list that must have members. -/
def planOfList (keyword : String) (schemas : Json)
    (build : Location → List SchemaNode → Result) : Plan :=
  match schemas with
  | .arr (first :: rest) => .parts (listed keyword 0 (first :: rest)) build
  | _ => .refusal (.emptyList keyword) [keyword]

/-- The fields of the listed properties with the given types. -/
def fieldsOf (required : List String) (properties : Entries Json) (types : List SchemaNode) :
    List (Member SchemaNode) :=
  (properties.zip types).map fun (property, type) =>
    ⟨property.1, !required.contains property.1, type⟩

/-- The plan for a schema of objects. -/
def planOfObject (schema : Entries Json) (note : Note) : Plan :=
  match requiredNames (schema.field "required") with
  | .error e => .failure fun _ => .fault e
  | .ok required =>
    if (schema.field "properties").isTruthy then
      match schema.get? "properties" with
      | some (.obj properties) =>
        let isOpen :=
          match schema.get? "additionalProperties" with
          | some (.obj _) | some (.bool true) => true
          | _ => false
        .parts (properties.map fun property => (property.2, ["properties", property.1]))
          fun _ types => .ok (.object (fieldsOf required properties types) isOpen note)
      | _ => .failure fun _ => .fault .noSuchOperation
    else
      match schema.get? "additionalProperties" with
      | some (.bool false) => .plain fun _ => .ok (.object [] false note)
      | some (.obj (first :: rest)) =>
        .sole (.obj (first :: rest)) ["additionalProperties"] (.record · note)
      | _ => .plain fun _ => .ok (.record (.any {}) note)

/-- The plan for a schema of lists. -/
def planOfArray (schema : Entries Json) (note : Note) : Plan :=
  match schema.get? "items" with
  | none | some .null => .plain fun _ => .ok (.array (.any {}) note)
  | some (.arr _) => .refusal .tupleItems ["items"]
  | some items => .sole items ["items"] (.array · note)

/-- The plan for a schema read as of a type. -/
def planOfTyped (schema : Entries Json) (type : Json) (description : Json) : Plan :=
  let note : Note := { description, constraints := constraints schema }
  match type with
  | .null =>
    if schema.has "properties" || schema.has "additionalProperties" then planOfObject schema note
    else if schema.has "items" then planOfArray schema note
    else .plain fun _ => .ok (.any note)
  | .arr [] => .refusal .emptyTypeList ["type"]
  | .arr [only] => planOfTyped schema only description
  | .arr types =>
    match types.find? isStructured with
    | some structured =>
      if (types.filter (!isNullName ·)).length > 1 then .refusal (.mixedTypes types) ["type"]
      else
        match structured with
        | .str "object" => (planOfObject schema note).map SchemaNode.withNull
        | _ => (planOfArray schema note).map SchemaNode.withNull
    | none =>
      .plain fun l =>
        (primitiveNodes { note with description := .null } l types).map fun members =>
          .union members { description }
  | .str "object" => planOfObject schema note
  | .str "array" => planOfArray schema note
  | _ => .plain (primitiveNode type note)
termination_by sizeOf type

/-- The plan for a schema object without a reference. -/
def planOfEntries (schema : Entries Json) : Plan :=
  let description := schema.field "description"
  match schema.get? "const" with
  | some value => .plain fun l => literalNode value (l.child "const") description
  | none =>
  match schema.get? "enum" with
  | some values => .plain fun l => enumNode values l description
  | none =>
  match schema.get? "anyOf" with
  | some options => planOfList "anyOf" options fun _ nodes => .ok (unionOf nodes description)
  | none =>
  match schema.get? "oneOf" with
  | some options => planOfList "oneOf" options fun _ nodes => .ok (unionOf nodes description)
  | none =>
  match schema.get? "allOf" with
  | some schemas => planOfList "allOf" schemas fun l nodes => intersectionOf nodes l description
  | none => planOfTyped schema (schema.field "type") description

/-- The plan for a schema object, before null is let in. -/
def planOfReference (schema : Entries Json) : Plan :=
  match schema.get? "$ref" with
  | some reference =>
    .reference reference fun node =>
      match schema.get? "description" with
      | some description => node.withDescription description
      | none => node
  | none => planOfEntries schema

/-- The plan for a schema. -/
def planOf (schema : Json) : Plan :=
  match schema with
  | .bool true => .plain fun _ => .ok (.any {})
  | .bool false => .refusal .falseSchema
  | .obj entries =>
    match refusedKeywords.find? (Entries.has entries) with
    | some keyword => .refusal (.keyword keyword)
    | none => (planOfReference entries).map (withNullable entries)
  | _ => .refusal (.notASchema schema.typeName)

/-! ## Carrying out a plan -/

section
variable (follow : Json → Location → Result)

/-- The nodes of parts, in order. -/
def convertParts (location : Location) :
    List (Json × List String) → Except ConversionError (List SchemaNode)
  | [] => .ok []
  | (schema, steps) :: rest =>
    match convertWith follow schema (location.below steps) with
    | .error e => .error e
    | .ok node => (convertParts location rest).map (node :: ·)

/-- What a plan gives where `follow` converts references.  Parts come first: what is wrong with one
of them is told before what is wrong with the whole. -/
def Plan.run (location : Location) : Plan → Result
  | failure error => .error (error location)
  | reference r finish => (follow r location).map finish
  | parts ps build => (convertParts follow location ps).bind (build location)

end

section
variable {follow : Json → Location → Result} {location : Location}

theorem run_refusal_nil (cause : Unsupported) :
    (Plan.refusal cause).run follow location = refuse cause location := by
  rw [Plan.refusal, Plan.run, Location.below_nil]
  rfl

theorem run_sole (schema : Json) (steps : List String) (make : SchemaNode → SchemaNode) :
    (Plan.sole schema steps make).run follow location =
      (convertWith follow schema (location.below steps)).map make := by
  rw [Plan.sole, Plan.run, convertParts]
  cases convertWith follow schema (location.below steps) <;> rfl

theorem run_map (f : SchemaNode → SchemaNode) (plan : Plan) :
    (plan.map f).run follow location = (plan.run follow location).map f := by
  cases plan with
  | failure error => rfl
  | reference r finish =>
    rw [Plan.map, Plan.run, Plan.run]
    cases follow r location <;> rfl
  | parts ps build =>
    rw [Plan.map, Plan.run, Plan.run]
    cases convertParts follow location ps <;> rfl

theorem convertAll_eq (keyword : String) (schemas : List Json) (index : Nat) :
    convertAll follow schemas (location.child keyword) index =
      convertParts follow location (listed keyword index schemas) := by
  induction schemas generalizing index with
  | nil => rw [convertAll, listed, convertParts]
  | cons schema rest ih =>
    rewrite [convertAll, listed, convertParts, ih, Location.item_child]
    cases convertWith follow schema (location.below [keyword, natText index]) <;> rfl

theorem run_planOfList_cons (keyword : String) (first : Json) (rest : List Json)
    (build : Location → List SchemaNode → Result) :
    (planOfList keyword (.arr (first :: rest)) build).run follow location =
      (convertAll follow (first :: rest) (location.child keyword) 0).bind (build location) := by
  rw [planOfList, Plan.run, convertAll_eq]

theorem run_planOfList_of_ne {keyword : String} {schemas : Json}
    (h : ∀ first rest, schemas ≠ .arr (first :: rest))
    (build : Location → List SchemaNode → Result) :
    (planOfList keyword schemas build).run follow location =
      refuse (.emptyList keyword) (location.child keyword) := by
  rw [planOfList.eq_def]
  split
  · next first rest => exact absurd rfl (h first rest)
  · rfl

theorem convertUnion_eq (options : Json) (keyword : String) (description : Json) :
    convertUnion follow options keyword location description =
      (planOfList keyword options fun _ nodes => .ok (unionOf nodes description)).run follow
        location := by
  rw [convertUnion.eq_def]
  split
  · rw [run_planOfList_cons]
    cases convertAll follow _ (location.child keyword) 0 <;> rfl
  · next hnot => exact (run_planOfList_of_ne (fun first rest h => hnot first rest h) _).symm

theorem convertFields_eq (required : List String) (properties : Entries Json) :
    convertFields follow required properties (location.child "properties") =
      (convertParts follow location
        (properties.map fun property => (property.2, ["properties", property.1]))).map
          (fieldsOf required properties) := by
  induction properties with
  | nil =>
    rw [convertFields, List.map_nil, convertParts]
    rfl
  | cons property rest ih =>
    obtain ⟨name, schema⟩ := property
    rw [convertFields, List.map_cons, convertParts, ih, Location.child_eq_below (location.child _),
      Location.child_below]
    cases convertWith follow schema (location.below ["properties", name]) with
    | error e => rfl
    | ok node => cases convertParts follow location _ <;> rfl

theorem convertObject_eq (schema : Entries Json) (note : Note) :
    convertObject follow schema note location = (planOfObject schema note).run follow location := by
  rw [convertObject, planOfObject]
  -- `required` is read first, and additional properties count only where none are listed
  cases requiredNames (schema.field "required") with
  | error e => rfl
  | ok required =>
    dsimp only
    by_cases hlisted : (schema.field "properties").isTruthy = true
    · rw [if_pos hlisted, if_pos hlisted]
      cases schema.get? "properties" with
      | none => rfl
      | some listed =>
        cases listed with
        | obj properties =>
          dsimp only [Plan.run]
          rw [convertFields_eq]
          cases convertParts follow location _ <;> rfl
        | _ => rfl
    · rw [if_neg hlisted, if_neg hlisted]
      cases schema.get? "additionalProperties" with
      | none => rfl
      | some additional =>
        cases additional with
        | bool lets => cases lets <;> rfl
        | obj values =>
          cases values with
          | nil => rfl
          | cons first rest => exact (run_sole _ _ _).symm
        | _ => rfl

theorem convertArray_eq (schema : Entries Json) (note : Note) :
    convertArray follow schema note location = (planOfArray schema note).run follow location := by
  rw [convertArray, planOfArray]
  cases schema.get? "items" with
  | none => rfl
  | some items =>
    cases items with
    | null => rfl
    | arr members => rfl
    | _ => exact (run_sole _ _ _).symm

theorem convertTyped_eq (schema : Entries Json) (type description : Json) :
    convertTyped follow schema type description location =
      (planOfTyped schema type description).run follow location := by
  -- Along the lists of one type; every other case is settled at once.
  induction hsize : sizeOf type using Nat.strongRecOn generalizing type with
  | ind size ih =>
    rw [convertTyped.eq_def]
    dsimp only
    split
    · rw [planOfTyped]
      split
      · exact convertObject_eq _ _
      · split
        · exact convertArray_eq _ _
        · rfl
    · rw [planOfTyped]
      rfl
    · next only =>
      rw [planOfTyped]
      refine ih (sizeOf only) ?_ only rfl
      rw [← hsize]
      simp
      omega
    · next types hnil hone =>
      rw [planOfTyped.eq_4 _ _ _ hnil hone]
      cases hfind : types.find? isStructured with
      | none => rfl
      | some structured =>
        dsimp only
        split
        · rfl
        · rcases eq_of_isStructured (List.find?_some hfind) with rfl | rfl
          · rw [convertObject_eq]
            exact (run_map _ _).symm
          · rw [convertArray_eq]
            exact (run_map _ _).symm
    · rw [planOfTyped]
      exact convertObject_eq _ _
    · rw [planOfTyped]
      exact convertArray_eq _ _
    · next hnull hnil hone hmany hobject harray =>
      rw [planOfTyped.eq_7 _ _ _ hnull hnil hone hmany hobject harray]
      rfl

theorem convertEntries_eq (schema : Entries Json) :
    convertEntries follow schema location = (planOfEntries schema).run follow location := by
  rw [convertEntries, planOfEntries]
  cases schema.get? "const" with
  | some value => rfl
  | none =>
    cases schema.get? "enum" with
    | some values => rfl
    | none =>
      cases schema.get? "anyOf" with
      | some options => exact convertUnion_eq _ _ _
      | none =>
        cases schema.get? "oneOf" with
        | some options => exact convertUnion_eq _ _ _
        | none =>
          cases schema.get? "allOf" with
          | some schemas =>
            cases schemas with
            | arr members =>
              cases members with
              | nil => rfl
              | cons first rest =>
                dsimp only
                rw [run_planOfList_cons]
                cases convertAll follow (first :: rest) (location.child "allOf") 0 <;> rfl
            | _ => rfl
          | none => exact convertTyped_eq _ _ _

theorem run_planOfReference (schema : Entries Json) :
    (planOfReference schema).run follow location =
      match schema.get? "$ref" with
      | some reference =>
        (follow reference location).map fun node =>
          match schema.get? "description" with
          | some description => node.withDescription description
          | none => node
      | none => convertEntries follow schema location := by
  rw [planOfReference]
  cases schema.get? "$ref" with
  | some reference => rfl
  | none => exact (convertEntries_eq schema).symm

/-- A conversion carries out the plan of the schema. -/
theorem convertWith_eq (schema : Json) :
    convertWith follow schema location = (planOf schema).run follow location := by
  rw [convertWith.eq_def]
  split
  · rfl
  · exact (run_refusal_nil _).symm
  · next entries =>
    rw [planOf]
    cases refusedKeywords.find? (Entries.has entries) with
    | some keyword => exact (run_refusal_nil _).symm
    | none =>
      dsimp only
      rw [run_map, run_planOfReference]
      exact (map_withNullable _).symm
  · next htrue hfalse hobj =>
    rw [planOf.eq_def]
    split
    · exact absurd rfl htrue
    · exact absurd rfl hfalse
    · next entries => exact absurd rfl (hobj entries)
    · exact (run_refusal_nil _).symm

end

end Schema
end SchemaTypings
