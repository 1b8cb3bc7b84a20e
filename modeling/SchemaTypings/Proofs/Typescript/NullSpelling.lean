/-
  SchemaTypings.Proofs.Typescript.NullSpelling

  The three spellings of a type or null where they are a property of an object.  A primitive type
  comes to unions that differ in order and in notes of their members, which is lost where a field
  is written.
-/
import SchemaTypings.Proofs.Schema.NullSpelling
import SchemaTypings.Proofs.Typescript.NullableField

namespace SchemaTypings.Typescript

open Naming (Sanitizer)
open Schema

/-! ## Fields -/

/-- A primitive type or null is written as such, whatever the order of the two is. -/
theorem refer_of_isNullablePrimitive {kind : Primitive} {description : Json} {node : SchemaNode}
    (h : IsNullablePrimitive kind description node) (hint : String) (names : Sanitizer) :
    refer node hint names = .plain (.union [.primitive kind, .null]) names := by
  have hmember : ∀ note note', nullableMember? [.primitive kind note, .null note'] =
        some (.primitive kind note) ∧
      nullableMember? [.null note', .primitive kind note] = some (.primitive kind note) :=
    fun _ _ => ⟨rfl, rfl⟩
  cases h with
  | behind note note' =>
    rw [refer, (hmember note note').1]
    dsimp only
    rw [refer]
    rfl
  | before note note' =>
    rw [refer, (hmember note note').2]
    dsimp only
    rw [refer]
    rfl

/-- Nothing is in the way of writing a primitive type or null. -/
theorem checkNode_of_isNullablePrimitive {kind : Primitive} {description : Json} {node : SchemaNode}
    (h : IsNullablePrimitive kind description node) (config : Config) :
    checkNode config node = .ok () := by
  cases h with
  | _ => rfl

/-- Whether two nodes are written alike as the type of a field, with the same declarations, and
documented alike. -/
structure FieldsAlike (node node' : SchemaNode) : Prop where
  refer_eq (hint : String) (names : Sanitizer) : refer node hint names = refer node' hint names
  note_eq : node.note = node'.note
  checkNode_eq (config : Config) : checkNode config node = checkNode config node'

theorem FieldsAlike.refl (node : SchemaNode) : FieldsAlike node node :=
  ⟨fun _ _ => rfl, rfl, fun _ => rfl⟩

section
variable {node node' : SchemaNode} (h : FieldsAlike node node')
include h

theorem FieldsAlike.referFields_eq (before after : List (Member SchemaNode)) (key : String)
    (optional : Bool) (parent : String) (names : Sanitizer) :
    referFields (before ++ ⟨key, optional, node⟩ :: after) parent names =
      referFields (before ++ ⟨key, optional, node'⟩ :: after) parent names := by
  induction before generalizing names with
  | nil => rw [List.nil_append, List.nil_append, referFields, referFields, h.refer_eq, h.note_eq]
  | cons field rest ih =>
    rw [List.cons_append, List.cons_append, referFields, referFields]
    simp only [ih]

theorem FieldsAlike.checkFields_eq (config : Config) (before after : List (Member SchemaNode))
    (key : String) (optional : Bool) :
    checkFields config (before ++ ⟨key, optional, node⟩ :: after) =
      checkFields config (before ++ ⟨key, optional, node'⟩ :: after) := by
  induction before with
  | nil =>
    rw [List.nil_append, List.nil_append, checkFields, checkFields, checkField, checkField,
      h.checkNode_eq, h.note_eq]
  | cons field rest ih => rw [List.cons_append, List.cons_append, checkFields, checkFields, ih]

/-- An object is written alike where one of its fields is. -/
theorem FieldsAlike.typeSource_eq (config : Config) (before after : List (Member SchemaNode))
    (key : String) (optional isOpen : Bool) (note : Note) (name : String) (doc : List String) :
    typeSource config (.object (before ++ ⟨key, optional, node⟩ :: after) isOpen note) name doc =
      typeSource config (.object (before ++ ⟨key, optional, node'⟩ :: after) isOpen note) name
        doc := by
  -- A body is read with names that are claimed already, whatever they are.
  have hbody : ∀ claimed names,
      bodyOf (.object (before ++ ⟨key, optional, node⟩ :: after) isOpen note) claimed names =
        bodyOf (.object (before ++ ⟨key, optional, node'⟩ :: after) isOpen note) claimed names := by
    intro claimed names
    rw [bodyOf, bodyOf, h.referFields_eq]
  rw [typeSource, typeSource, checkNode, checkNode, h.checkFields_eq, nodeSource, nodeSource,
    declarations, declarations]
  simp only [hbody]
  rfl

end

theorem cases_of_typeNames {type : String} (h : type ∈ typeNames) :
    (type = "object" ∨ type = "array") ∨ ∃ kind, primitive? type = some (.primitive kind) := by
  simp only [typeNames, List.mem_cons, List.not_mem_nil, or_false] at h
  rcases h with rfl | rfl | rfl | rfl | rfl | rfl
  · exact .inr ⟨.string, rfl⟩
  · exact .inr ⟨.number, rfl⟩
  · exact .inr ⟨.number, rfl⟩
  · exact .inr ⟨.boolean, rfl⟩
  · exact .inl (.inl rfl)
  · exact .inl (.inr rfl)

section
variable {schema : Entries Json} {type : String} {spelling spelling' : Entries Json}

/-- Where one spelling has a node, another has one that is written alike as a field, if the
references lead to the same schemas. -/
theorem exists_fieldsAlike (h : IsOfType schema type)
    (hspelling : spelling ∈ nullSpellings schema type)
    (hspelling' : spelling' ∈ nullSpellings schema type) {sources sources' : Sources}
    (hkeeps : KeepsTargets sources sources' (.obj spelling))
    {stop : Json → Location → ConversionError} {budget : Nat} {location : Location}
    {node : SchemaNode} (hnode : convert sources stop budget (.obj spelling) location = .ok node) :
    ∃ node', convert sources' stop budget (.obj spelling') location = .ok node' ∧
      FieldsAlike node node' := by
  have hnone := find?_refusedKeywords_of_convert hspelling hnode
  rcases cases_of_typeNames h.known with hstructured | ⟨kind, hkind⟩
  · exact ⟨node, convert_spelling_of_structured h hnone hstructured hspelling hspelling' hkeeps
      hnode, .refl node⟩
  · obtain ⟨n, hn, hconvert⟩ := exists_node_of_primitive h hnone hkind hspelling
    obtain ⟨node', hnode', hconvert'⟩ := exists_node_of_primitive h hnone hkind hspelling'
    cases (hconvert sources stop budget location).symm.trans hnode
    refine ⟨node', hconvert' _ _ _ _, fun hint names => ?_, ?_, fun config => ?_⟩
    · rw [refer_of_isNullablePrimitive hn, refer_of_isNullablePrimitive hnode']
    · rw [hn.note_eq, hnode'.note_eq]
    · rw [checkNode_of_isNullablePrimitive hn, checkNode_of_isNullablePrimitive hnode']

/-- Spellings of null agree.  In a document that holds a spelling of a type or null, at a property
of an object or elsewhere, its references are read from the root of that document.  If they lead to
the same schemas whichever spelling is there, all spellings have nodes or none has, and as a field
of any object all nodes have the same type expression, the same declarations and the same
documentation.  So an object with the schema for a property is written alike in all spellings, if
the references of its other properties, too, lead to the same schemas. -/
theorem nullSpellings_agree (h : IsOfType schema type) (document : Entries Json → Json)
    (external? : Option (Json → Except Fault Json))
    (hsame : ∀ s ∈ nullSpellings schema type, ∀ s' ∈ nullSpellings schema type,
      KeepsTargets ⟨document s, external?⟩ ⟨document s', external?⟩ (.obj s))
    (stop : Json → Location → ConversionError) (budget : Nat) (location : Location)
    (hspelling : spelling ∈ nullSpellings schema type)
    (hspelling' : spelling' ∈ nullSpellings schema type) :
    (∀ node,
      convert ⟨document spelling, external?⟩ stop budget (.obj spelling) location = .ok node →
      ∃ node',
        convert ⟨document spelling', external?⟩ stop budget (.obj spelling') location =
          .ok node' ∧
        (∀ hint names, refer node hint names = refer node' hint names) ∧
        (∀ config, noteLines config node.note = noteLines config node'.note) ∧
        ∀ config before after key optional isOpen note name doc,
          typeSource config (.object (before ++ ⟨key, optional, node⟩ :: after) isOpen note) name
              doc =
            typeSource config (.object (before ++ ⟨key, optional, node'⟩ :: after) isOpen note)
              name doc) ∧
    ∀ object before key after root, IsOfType object "object" →
      (∀ sibling ∈ before ++ after, KeepsTargets ⟨document spelling, external?⟩
        ⟨document spelling', external?⟩ sibling.2) →
      convert ⟨document spelling, external?⟩ stop budget
        (withProperty object before key (.obj spelling) after) location = .ok root →
      ∃ root',
        convert ⟨document spelling', external?⟩ stop budget
          (withProperty object before key (.obj spelling') after) location = .ok root' ∧
        ∀ config name doc, typeSource config root name doc = typeSource config root' name doc := by
  have hkeeps := hsame spelling hspelling spelling' hspelling'
  refine ⟨fun node hnode => ?_, fun object before key after root hobject hsiblings hroot => ?_⟩
  · obtain ⟨node', hnode', halike⟩ := exists_fieldsAlike h hspelling hspelling' hkeeps hnode
    refine ⟨node', hnode', halike.refer_eq, fun config => by rw [halike.note_eq], ?_⟩
    intro config before after key optional isOpen note name doc
    exact halike.typeSource_eq config before after key optional isOpen note name doc
  · obtain ⟨front, node, back, optional, isOpen, note, rfl, hnode, hother⟩ :=
      exists_of_convert_withProperty hobject hroot
    obtain ⟨node', hnode', halike⟩ := exists_fieldsAlike h hspelling hspelling' hkeeps hnode
    exact ⟨_, hother _ _ node' hsiblings hnode', fun config name doc =>
      halike.typeSource_eq config front back key optional isOpen note name doc⟩

end

/-- An object whose only property is what a pointer leads to. -/
def pointingSchema (pointer : String) : Entries Json :=
  [("type", .str "object"), ("properties", .obj [("limit", .obj [("$ref", .str pointer)])])]

/-- The definition of a limit, beside an object. -/
def limitDefinition : Json :=
  .obj [("limit", .obj [("type", .str "integer"), ("minimum", .int 1)])]

theorem isOfType_pointingSchema (pointer : String) :
    IsOfType (pointingSchema pointer) "object" := by
  refine ⟨by simp [pointingSchema, Entries.get?_cons], by decide, ?_⟩
  simp [shapeKeywords, pointingSchema, Entries.get?_cons]

/-- An object with definitions. -/
def definingObject : Entries Json := [("type", .str "object"), ("$defs", limitDefinition)]

/-- A document with a schema for the property `first`, beside a pointer to a definition. -/
def definingDocument (schema : Entries Json) : Json :=
  withProperty definingObject [] "first" (.obj schema)
    [("second", .obj [("$ref", .str "#/$defs/limit")])]

/-- Pointers to a definition of the document around a schema lead there in all spellings. -/
theorem nullSpellings_agree_definition :
    let schema := pointingSchema "#/$defs/limit"
    (∀ s ∈ nullSpellings schema "object", ∀ s' ∈ nullSpellings schema "object",
      KeepsTargets ⟨definingDocument s, none⟩ ⟨definingDocument s', none⟩ (.obj s)) ∧
      ∃ root, ofDocument (definingDocument (schema.insert "nullable" (.bool true))) none
          (.ofInt 16) = .ok root ∧
        ∃ root', ofDocument (definingDocument
            (schema.insert "type" (.arr [.str "null", .str "object"]))) none (.ofInt 16) =
              .ok root' ∧
          typeSource .default root "Foo" [] = typeSource .default root' "Foo" [] := by
  intro schema
  let pointer : Json := .obj [("$ref", .str "#/$defs/limit")]
  let limit : Json := .obj [("type", .str "integer"), ("minimum", .int 1)]
  have hmem : ∀ s ∈ nullSpellings schema "object",
      (Sources.mk (definingDocument s) none).LeadsTo (.str "#/$defs/limit") limit ∧
        (planOf (.obj s)).schemas = [pointer] ∧ (planOf (.obj s)).reference? = none := by
    simp only [nullSpellings, nullLists, List.map_cons, List.map_nil, List.forall_mem_cons]
    exact ⟨⟨⟨.root, by cbv⟩, by cbv, by cbv⟩, ⟨⟨.root, by cbv⟩, by cbv, by cbv⟩,
      ⟨⟨.root, by cbv⟩, by cbv, by cbv⟩, List.forall_mem_nil _⟩
  have hpointer : (planOf pointer).schemas = [] ∧
      (planOf pointer).reference? = some (.str "#/$defs/limit") := ⟨by cbv, by cbv⟩
  have hlimit : (planOf limit).schemas = [] ∧ (planOf limit).reference? = none :=
    ⟨by cbv, by cbv⟩
  have hkeeps : ∀ s ∈ nullSpellings schema "object", ∀ s' ∈ nullSpellings schema "object",
      ∀ start ∈ [.obj s, pointer, limit],
        KeepsTargets ⟨definingDocument s, none⟩ ⟨definingDocument s', none⟩ start := by
    intro s hs s' hs' start hstart
    obtain ⟨hlead, hparts, hnone⟩ := hmem s hs
    obtain ⟨hlead', -, -⟩ := hmem s' hs'
    -- The schema, the pointer in it and what that leads to are all that is come to.
    refine .of_closed (· ∈ [.obj s, pointer, limit]) hstart ?_ ?_
    · intro reached part hreached hpart
      simp only [List.mem_cons, List.not_mem_nil, or_false] at hreached
      rcases hreached with rfl | rfl | rfl
      · rw [hparts] at hpart
        rw [List.mem_singleton.mp hpart]
        simp
      · rw [hpointer.1] at hpart
        cases hpart
      · rw [hlimit.1] at hpart
        cases hpart
    · intro reached reference target hreached hreference htarget
      simp only [List.mem_cons, List.not_mem_nil, or_false] at hreached
      rcases hreached with rfl | rfl | rfl
      · rw [hnone] at hreference
        cases hreference
      · cases hpointer.2.symm.trans hreference
        rw [hlead.eq htarget]
        exact ⟨by simp, hlead'⟩
      · rw [hlimit.2] at hreference
        cases hreference
  have hsame := fun s hs s' hs' => hkeeps s hs s' hs' (.obj s) List.mem_cons_self
  have hfirst : schema.insert "nullable" (.bool true) ∈ nullSpellings schema "object" :=
    List.mem_cons_self
  have hlast : schema.insert "type" (.arr [.str "null", .str "object"]) ∈
      nullSpellings schema "object" := by simp [nullSpellings, nullLists]
  have hroot : ∃ root, ofDocument (definingDocument (schema.insert "nullable" (.bool true))) none
      (.ofInt 16) = .ok root := ⟨_, by cbv⟩
  have hobject : IsOfType definingObject "object" := by
    refine ⟨by simp [definingObject, Entries.get?_cons], by decide, ?_⟩
    simp [shapeKeywords, definingObject, Entries.get?_cons]
  obtain ⟨root, hroot⟩ := hroot
  obtain ⟨-, hproperty⟩ := nullSpellings_agree (isOfType_pointingSchema _) definingDocument none
    hsame (ReferenceLimit.ofInt 16).failure 16 .root hfirst hlast
  obtain ⟨root', hroot', hsource⟩ := hproperty definingObject [] "first" _ root hobject
    (List.forall_mem_singleton.mpr (hkeeps _ hfirst _ hlast pointer (by simp))) hroot
  exact ⟨hsame, root, hroot, root', hroot', hsource .default "Foo" []⟩

/-- A pointer at the keyword `nullable` leads to a schema in one spelling, and nowhere in the
others. -/
theorem not_nullSpellings_agree :
    let schema := pointingSchema "#/nullable"
    IsOfType schema "object" ∧
      (∃ node, ofDocument (.obj (schema.insert "nullable" (.bool true))) none (.ofInt 16) =
        .ok node) ∧
      ∀ types ∈ nullLists "object", ∀ node,
        ofDocument (.obj (schema.insert "type" (.arr types))) none (.ofInt 16) ≠ .ok node := by
  intro schema
  -- With the keyword the pointer leads to the value true, a schema that anything meets.
  refine ⟨isOfType_pointingSchema _, ⟨.union [.object [⟨"limit", true, .any {}⟩] false {},
    .null {}] {}, by cbv⟩, ?_⟩
  intro types htypes node hnode
  have hfails : ofDocument (.obj (schema.insert "type" (.arr types))) none (.ofInt 16) =
      .error (.unsupported (.unresolvableReference "#/nullable") ⟨["properties", "limit"]⟩) := by
    rcases List.mem_pair.mp htypes with rfl | rfl
    · cbv
    · cbv
  cases hnode.symm.trans hfails

/-- A schema that is a document of its own has the same spellings of null if none of its references
points at the keyword `nullable`. -/
theorem exists_fieldsAlike_of_not_pointsAtKeyword {schema : Entries Json} {type : String}
    (h : IsOfType schema type) {external? : Option (Json → Except Fault Json)}
    (hpoints : ¬PointsAtKeyword (.obj (schema.insert "nullable" (.bool true))) external?
      "nullable") (limit : ReferenceLimit) {spelling spelling' : Entries Json}
    (hspelling : spelling ∈ nullSpellings schema type)
    (hspelling' : spelling' ∈ nullSpellings schema type) {node : SchemaNode}
    (hnode : ofDocument (.obj spelling) external? limit = .ok node) :
    ∃ node', ofDocument (.obj spelling') external? limit = .ok node' ∧ FieldsAlike node node' :=
  exists_fieldsAlike h hspelling hspelling'
    (keepsTargets_of_mem_nullSpellings h hspelling hspelling' hpoints) hnode

end SchemaTypings.Typescript
