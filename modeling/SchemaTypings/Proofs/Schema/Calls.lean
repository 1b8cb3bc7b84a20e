/-
  SchemaTypings.Proofs.Schema.Calls

  The calls that a conversion makes.  A schema is converted by converting others first: its parts,
  what its reference leads to, or copies of itself that have one type in place of a list of types.
  What these give is all that is needed of them.
-/
import SchemaTypings.Proofs.Schema.NullKeyword

namespace SchemaTypings

theorem Entries.agreeBut_erase (key : String) (es : Entries Json) :
    AgreeBut key (es.erase key) es :=
  fun other h => by rw [get?_erase, if_neg h]

namespace Schema

/-! ## Tasks -/

/-- What is converted: a schema, or the keywords that tell the structure of one. -/
inductive Task where
  | schema (value : Json)
  | keywords (entries : Entries Json)

/-- The value that a task is about. -/
def Task.value : Task → Json
  | schema value => value
  | keywords entries => .obj entries

/-- What a task gives where `follow` converts references. -/
def convertTask (follow : Json → Location → Result) : Task → Location → Result
  | .schema value => convertWith follow value
  | .keywords entries => convertEntries follow entries

/-- What a task comes to, with the tasks that are called in between left open. -/
inductive Outline where
  | failure (error : Location → ConversionError)
  | reference (reference : Json) (finish : SchemaNode → SchemaNode)
  | calls (calls : List (Task × List String)) (build : Location → List SchemaNode → Result)

/-- The nodes that calls give, in order. -/
def runCalls (run : Task → Location → Result) (location : Location) :
    List (Task × List String) → Except ConversionError (List SchemaNode)
  | [] => .ok []
  | (task, steps) :: rest =>
    match run task (location.below steps) with
    | .error e => .error e
    | .ok node => (runCalls run location rest).map (node :: ·)

namespace Outline

/-- The outline for a construct without a structural form. -/
def refusal (cause : Unsupported) (steps : List String) : Outline :=
  .failure fun l => .unsupported cause (l.below steps)

/-- The outline of a sole call at the same location. -/
def sole (task : Task) (make : SchemaNode → SchemaNode) : Outline :=
  .calls [(task, [])] fun _ nodes => .ok (make (nodes.headD (.any {})))

/-- The outline with something done to the node in the end. -/
def map (f : SchemaNode → SchemaNode) : Outline → Outline
  | failure error => failure error
  | reference r finish => reference r fun node => f (finish node)
  | calls cs build => calls cs fun l nodes => (build l nodes).map f

/-- The tasks that are called. -/
def tasks : Outline → List Task
  | calls cs _ => cs.map Prod.fst
  | _ => []

/-- The reference that is followed. -/
def reference? : Outline → Option Json
  | reference r _ => some r
  | _ => none

/-- What an outline gives where `run` carries out the calls and `follow` converts references. -/
def run (run : Task → Location → Result) (follow : Json → Location → Result)
    (location : Location) : Outline → Result
  | failure error => .error (error location)
  | reference r finish => (follow r location).map finish
  | calls cs build => (runCalls run location cs).bind (build location)

@[simp] theorem tasks_map (f : SchemaNode → SchemaNode) (outline : Outline) :
    (outline.map f).tasks = outline.tasks := by
  cases outline <;> rfl

@[simp] theorem reference?_map (f : SchemaNode → SchemaNode) (outline : Outline) :
    (outline.map f).reference? = outline.reference? := by
  cases outline <;> rfl

end Outline

/-- The outline of a plan, which calls for the parts. -/
def Plan.outline : Plan → Outline
  | failure error => .failure error
  | reference r finish => .reference r finish
  | parts ps build => .calls (ps.map fun part => (.schema part.1, part.2)) build

/-- Whether a type name is that of a primitive kind. -/
def isPrimitiveName : Json → Bool
  | .str name => (primitive? name).isSome
  | _ => false

/-- The copy of a schema with one type in place of its list. -/
def retyped (schema : Entries Json) (type : Json) : Entries Json := schema.insert "type" type

/-- The copy of a schema with one type in place of its list, and no description. -/
def retypedPlain (schema : Entries Json) (type : Json) : Entries Json :=
  (retyped schema type).erase "description"

/-- The outline for a list of types.  A sole type is read as if there were no list, and so is a
structured one beside null.  Primitive types are called one by one, up to the first type that is
none. -/
def outlineOfTypes (schema : Entries Json) (types : List Json) : Outline :=
  match types with
  | [] => .refusal .emptyTypeList ["type"]
  | [only] => .sole (.keywords (retyped schema only)) fun node => node
  | types =>
    match types.find? isStructured with
    | some structured =>
      if (types.filter (!isNullName ·)).length > 1 then .refusal (.mixedTypes types) ["type"]
      else .sole (.keywords (retyped schema structured)) SchemaNode.withNull
    | none =>
      .calls
        ((types.takeWhile isPrimitiveName).map fun type =>
          (.keywords (retypedPlain schema type), []))
        fun l members =>
          match types.find? (!isPrimitiveName ·) with
          | some other => primitiveNode other {} l
          | none => .ok (.union members { description := schema.field "description" })

/-- Keywords that are looked at before the type. -/
def shapeKeywords : List String := ["const", "enum", "anyOf", "oneOf", "allOf"]

/-- The list of types that decides the structure of a schema. -/
def typeList? (schema : Entries Json) : Option (List Json) :=
  if shapeKeywords.any schema.has then none
  else
    match schema.get? "type" with
    | some (.arr types) => some types
    | _ => none

/-- The outline for the keywords of a schema. -/
def outlineOfKeywords (schema : Entries Json) : Outline :=
  match typeList? schema with
  | some types => outlineOfTypes schema types
  | none => (planOfEntries schema).outline

/-- The outline for a task. -/
def outlineOf : Task → Outline
  | .keywords entries => outlineOfKeywords entries
  | .schema (.obj entries) =>
    match refusedKeywords.find? (Entries.has entries) with
    | some keyword => .refusal (.keyword keyword) []
    | none =>
      let outline :=
        match Entries.get? entries "$ref" with
        | some _ => (planOfReference entries).outline
        | none => outlineOfKeywords entries
      outline.map (withNullable entries)
  | .schema value => (planOf value).outline

/-! ## Carrying out the calls -/

section
variable {follow : Json → Location → Result} {location : Location}

theorem runCalls_schemas (ps : List (Json × List String)) :
    runCalls (convertTask follow) location (ps.map fun part => (.schema part.1, part.2)) =
      convertParts follow location ps := by
  induction ps with
  | nil => rfl
  | cons part rest ih =>
    rw [List.map_cons, runCalls, ih]
    rfl

theorem run_outline (plan : Plan) :
    plan.outline.run (convertTask follow) follow location = plan.run follow location := by
  cases plan with
  | failure error => rfl
  | reference r finish => rfl
  | parts ps build => rw [Plan.outline, Outline.run, runCalls_schemas, Plan.run]

theorem Outline.run_sole (task : Task) (make : SchemaNode → SchemaNode) :
    (Outline.sole task make).run (convertTask follow) follow location =
      (convertTask follow task location).map make := by
  rw [sole, run, runCalls, runCalls, Location.below_nil]
  cases convertTask follow task location <;> rfl

theorem Outline.run_map (run : Task → Location → Result) (f : SchemaNode → SchemaNode)
    (outline : Outline) :
    (outline.map f).run run follow location = (outline.run run follow location).map f := by
  cases outline with
  | failure error => rfl
  | reference r finish =>
    rw [map, Outline.run, Outline.run]
    cases follow r location <;> rfl
  | calls cs build =>
    rw [map, Outline.run, Outline.run]
    cases runCalls run location cs <;> rfl

/-! ## Lists of types -/

theorem planOfEntries_of_none {schema : Entries Json}
    (h : ∀ keyword ∈ shapeKeywords, schema.get? keyword = none) :
    planOfEntries schema =
      planOfTyped schema (schema.field "type") (schema.field "description") := by
  rw [planOfEntries, h "const" (by decide), h "enum" (by decide), h "anyOf" (by decide),
    h "oneOf" (by decide), h "allOf" (by decide)]

theorem of_typeList? {schema : Entries Json} {types : List Json}
    (h : typeList? schema = some types) :
    (∀ keyword ∈ shapeKeywords, schema.get? keyword = none) ∧
      schema.get? "type" = some (.arr types) := by
  unfold typeList? at h
  split at h
  · cases h
  · next hno =>
    have hnone : ∀ keyword ∈ shapeKeywords, schema.get? keyword = none := by
      intro keyword hkeyword
      have hhas : schema.has keyword = false := by
        simpa using fun hhas => hno (List.any_eq_true.mpr ⟨keyword, hkeyword, hhas⟩)
      simpa [Entries.has_eq_isSome] using hhas
    split at h
    · next types' htype =>
      cases h
      exact ⟨hnone, htype⟩
    · cases h

section
variable {schema : Entries Json} (hnone : ∀ keyword ∈ shapeKeywords, schema.get? keyword = none)
include hnone

theorem planOfEntries_retyped (type : Json) :
    planOfEntries (retyped schema type) = planOfTyped schema type (schema.field "description") := by
  have hagree : Entries.AgreeBut "type" (retyped schema type) schema :=
    Entries.agreeBut_insert "type" schema type
  rw [planOfEntries_of_none, planOfTyped_of_agreeBut hagree (by decide), Entries.field,
    Entries.field, hagree "description" (by decide), retyped, Entries.get?_insert_self]
  · rfl
  · intro keyword hkeyword
    have hne : "type" ≠ keyword := by
      rintro rfl
      revert hkeyword
      decide
    rw [hagree keyword hne, hnone keyword hkeyword]

theorem planOfEntries_retypedPlain (type : Json) :
    planOfEntries (retypedPlain schema type) = planOfTyped schema type .null := by
  have hagree : Entries.AgreeBut "description" (retypedPlain schema type) (retyped schema type) :=
    Entries.agreeBut_erase "description" (retyped schema type)
  have htyped : Entries.AgreeBut "type" (retyped schema type) schema :=
    Entries.agreeBut_insert "type" schema type
  have hdescription : (retypedPlain schema type).get? "description" = none := by
    rw [retypedPlain, Entries.get?_erase, if_pos rfl]
  rw [planOfEntries_of_none, planOfTyped_of_agreeBut hagree (by decide),
    planOfTyped_of_agreeBut htyped (by decide), Entries.field, Entries.field, hdescription,
    hagree "type" (by decide), retyped, Entries.get?_insert_self]
  · rfl
  · intro keyword hkeyword
    have hne : "type" ≠ keyword ∧ "description" ≠ keyword := by
      constructor <;>
      · rintro rfl
        revert hkeyword
        decide
    rw [hagree keyword hne.2, htyped keyword hne.1, hnone keyword hkeyword]

theorem convertTask_retyped (type : Json) :
    convertTask follow (.keywords (retyped schema type)) location =
      (planOfTyped schema type (schema.field "description")).run follow location := by
  rw [convertTask, convertEntries_eq, planOfEntries_retyped hnone]

end

theorem planOfTyped_of_isPrimitiveName {schema : Entries Json} {type : Json}
    (h : isPrimitiveName type = true) (description : Json) :
    planOfTyped schema type description =
      .plain (primitiveNode type { description, constraints := constraints schema }) := by
  unfold isPrimitiveName at h
  split at h
  · next name =>
    unfold primitive? at h
    split at h
    · rw [planOfTyped] <;> simp
    · rw [planOfTyped] <;> simp
    · rw [planOfTyped] <;> simp
    · rw [planOfTyped] <;> simp
    · rw [planOfTyped] <;> simp
    · cases h
  · cases h

theorem exists_primitiveNode {type : Json} (h : isPrimitiveName type = true) (note : Note)
    (location : Location) : ∃ node, primitiveNode type note location = .ok node := by
  unfold isPrimitiveName at h
  split at h
  · next name =>
    obtain ⟨make, hmake⟩ := Option.isSome_iff_exists.mp h
    rw [primitiveNode, hmake]
    exact ⟨_, rfl⟩
  · cases h

/-- The failure for a type that is not primitive is the same whatever else the schema says. -/
theorem exists_primitiveNode_error {type : Json} (h : isPrimitiveName type = false)
    (location : Location) : ∃ e, ∀ note, primitiveNode type note location = .error e := by
  unfold isPrimitiveName at h
  split at h
  · next name =>
    have hnone : primitive? name = none := by simpa using h
    exact ⟨_, fun note => by rw [primitiveNode, hnone]; rfl⟩
  · next hnot =>
    cases type with
    | str name => exact absurd rfl (hnot name)
    | _ => exact ⟨_, fun _ => rfl⟩

/-- To call for primitive types one by one gives their nodes, up to the first that is none. -/
theorem bind_runCalls_primitives {schema : Entries Json}
    (hnone : ∀ keyword ∈ shapeKeywords, schema.get? keyword = none) (types : List Json)
    (build : List SchemaNode → SchemaNode) :
    ((runCalls (convertTask follow) location
        ((types.takeWhile isPrimitiveName).map fun type =>
          (.keywords (retypedPlain schema type), []))).bind fun members =>
        match types.find? (!isPrimitiveName ·) with
        | some other => primitiveNode other {} location
        | none => .ok (build members)) =
      (primitiveNodes { description := .null, constraints := constraints schema } location
        types).map build := by
  induction types generalizing build with
  | nil => rfl
  | cons type rest ih =>
    cases hprimitive : isPrimitiveName type with
    | true =>
      obtain ⟨node, hnode⟩ := exists_primitiveNode hprimitive
        { description := .null, constraints := constraints schema } location
      have hcall : convertTask follow (.keywords (retypedPlain schema type)) location =
          .ok node := by
        rw [convertTask, convertEntries_eq, planOfEntries_retypedPlain hnone,
          planOfTyped_of_isPrimitiveName hprimitive]
        exact hnode
      -- The node goes in front of what the calls for the other types give.
      have hrest := ih fun members => build (node :: members)
      rw [List.takeWhile_cons_of_pos hprimitive, List.map_cons, runCalls, Location.below_nil,
        hcall, List.find?_cons_of_neg (by simp [hprimitive]), primitiveNodes, hnode]
      dsimp only
      generalize runCalls (convertTask follow) location _ = called at hrest ⊢
      generalize primitiveNodes _ location rest = nodes at hrest ⊢
      cases called with
      | error e => cases nodes <;> exact hrest
      | ok members => cases nodes <;> exact hrest
    | false =>
      obtain ⟨e, he⟩ := exists_primitiveNode_error hprimitive location
      rw [List.takeWhile_cons_of_neg (by simp [hprimitive]),
        List.find?_cons_of_pos (by simp [hprimitive]), primitiveNodes, he]
      exact he {}

theorem run_outlineOfTypes {schema : Entries Json}
    (hnone : ∀ keyword ∈ shapeKeywords, schema.get? keyword = none) (types : List Json) :
    (outlineOfTypes schema types).run (convertTask follow) follow location =
      (planOfTyped schema (.arr types) (schema.field "description")).run follow location := by
  unfold outlineOfTypes
  split
  · rw [planOfTyped]
    rfl
  · next only =>
    rw [Outline.run_sole, convertTask_retyped hnone, planOfTyped]
    cases (planOfTyped schema only (schema.field "description")).run follow location <;> rfl
  · next hnil hone =>
    rw [planOfTyped.eq_4 _ _ _ hnil hone]
    cases hfind : types.find? isStructured with
    | some structured =>
      dsimp only
      split
      · rfl
      · rw [Outline.run_sole, convertTask_retyped hnone]
        rcases eq_of_isStructured (List.find?_some hfind) with rfl | rfl
        · rw [planOfTyped]
          exact (run_map _ _).symm
        · rw [planOfTyped]
          exact (run_map _ _).symm
    | none => exact bind_runCalls_primitives hnone types _

/-! ## Tasks are carried out by their calls -/

theorem run_outlineOfKeywords (schema : Entries Json) :
    (outlineOfKeywords schema).run (convertTask follow) follow location =
      convertEntries follow schema location := by
  rw [outlineOfKeywords, convertEntries_eq]
  cases htypes : typeList? schema with
  | none => exact run_outline _
  | some types =>
    obtain ⟨hnone, htype⟩ := of_typeList? htypes
    rw [planOfEntries_of_none hnone, Entries.field, htype]
    exact run_outlineOfTypes hnone types

/-- A task gives what its outline makes of the tasks that are called. -/
theorem convertTask_eq_run (task : Task) :
    convertTask follow task location =
      (outlineOf task).run (convertTask follow) follow location := by
  cases task with
  | keywords entries => exact (run_outlineOfKeywords entries).symm
  | schema value =>
    rw [convertTask, convertWith_eq]
    cases value with
    | obj entries =>
      rw [planOf, outlineOf]
      cases refusedKeywords.find? (Entries.has entries) with
      | some keyword => rfl
      | none =>
        dsimp only
        rw [run_map, Outline.run_map]
        cases href : Entries.get? entries "$ref" with
        | some reference => rw [run_outline]
        | none => rw [run_outlineOfKeywords, planOfReference, href, convertEntries_eq]
    | _ => exact (run_outline _).symm

end

end Schema
end SchemaTypings
