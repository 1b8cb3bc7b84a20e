/-
  SchemaTypings.Proofs.Schema.NullSpelling

  Three spellings of a type or null: the keyword `nullable`, and null behind or before the type in
  a list of types.  An object or a list comes to the same node from all of them, a primitive type to
  unions that differ in order and in the notes of their members.  This is so wherever the schema is,
  as long as its references lead to the same schemas.
-/
import SchemaTypings.Proofs.Rows
import SchemaTypings.Proofs.Schema.Alike
import SchemaTypings.Proofs.Schema.Calls
import SchemaTypings.Proofs.Schema.NullKeyword
import SchemaTypings.Proofs.Schema.Pointer

namespace SchemaTypings

namespace Schema

/-- The names of the types beside null. -/
def typeNames : List String := ["string", "number", "integer", "boolean", "object", "array"]

/-- Whether a schema is of one type, without a keyword that goes before the type or lets null
in. -/
structure IsOfType (schema : Entries Json) (type : String) : Prop where
  stated : schema.get? "type" = some (.str type)
  known : type ∈ typeNames
  plain : ∀ keyword ∈ "$ref" :: "nullable" :: shapeKeywords, schema.get? keyword = none

/-- The lists of a type and null. -/
def nullLists (type : String) : List (List Json) :=
  [[.str type, .str "null"], [.str "null", .str type]]

/-- The spellings of a schema of a type made to accept null as well. -/
def nullSpellings (schema : Entries Json) (type : String) : List (Entries Json) :=
  schema.insert "nullable" (.bool true) ::
    (nullLists type).map fun types => schema.insert "type" (.arr types)

/-! ## Plans of the spellings -/

theorem Plan.map_id (plan : Plan) : plan.map (fun node => node) = plan := by
  cases plan with
  | failure error => rfl
  | reference r finish => rfl
  | parts ps build =>
    refine congrArg (Plan.parts ps) (funext fun l => funext fun nodes => ?_)
    cases build l nodes <;> rfl

theorem run_plain (result : Location → Result) (follow : Json → Location → Result)
    (location : Location) : (Plan.plain result).run follow location = result location := rfl

section
variable {schema : Entries Json} {type : String} (h : IsOfType schema type)
include h

theorem IsOfType.field_type : schema.field "type" = .str type := by
  rw [Entries.field, h.stated]
  rfl

/-- No keyword is there that goes before the type. -/
theorem IsOfType.get?_shape : ∀ keyword ∈ shapeKeywords, schema.get? keyword = none :=
  fun keyword hkeyword =>
    h.plain keyword (List.mem_cons_of_mem _ (List.mem_cons_of_mem _ hkeyword))

/-- With the keyword `nullable` null is let into what the type gives. -/
theorem planOf_nullable (hnone : refusedKeywords.find? schema.has = none) :
    planOf (.obj (schema.insert "nullable" (.bool true))) =
      (planOfTyped schema (.str type) (schema.field "description")).map SchemaNode.withNull := by
  have hagree := Entries.agreeBut_insert "nullable" schema (.bool true)
  have hwith : withNullable (schema.insert "nullable" (.bool true)) = SchemaNode.withNull := by
    funext node
    rw [withNullable, Entries.get?_insert_self]
  rw [planOf, find?_refusedKeywords_of_agreeBut hagree (by decide), hnone]
  dsimp only
  rw [hwith, planOfReference_of_agreeBut hagree, planOfReference, h.plain "$ref" (by decide)]
  dsimp only
  rw [planOfEntries_of_none h.get?_shape, h.field_type]

/-- A list of types is read as such. -/
theorem planOf_typeList (hnone : refusedKeywords.find? schema.has = none) (types : List Json) :
    planOf (.obj (schema.insert "type" (.arr types))) =
      planOfTyped schema (.arr types) (schema.field "description") := by
  have hagree := Entries.agreeBut_insert "type" schema (.arr types)
  have hwith : withNullable (schema.insert "type" (.arr types)) = fun node => node := by
    funext node
    rw [withNullable, hagree "nullable" (by decide), h.plain "nullable" (by decide)]
  have hreference : (schema.insert "type" (.arr types)).get? "$ref" = none :=
    (hagree "$ref" (by decide)).trans (h.plain "$ref" (by decide))
  rw [planOf, find?_refusedKeywords_of_agreeBut hagree (by decide), hnone]
  dsimp only
  rw [hwith, Plan.map_id, planOfReference, hreference]
  exact planOfEntries_retyped h.get?_shape _

/-- The one type is read as such. -/
theorem planOf_of_isOfType (hnone : refusedKeywords.find? schema.has = none) :
    planOf (.obj schema) = planOfTyped schema (.str type) (schema.field "description") := by
  have hwith : withNullable schema = fun node => node := by
    funext node
    rw [withNullable, h.plain "nullable" (by decide)]
  rw [planOf, hnone]
  dsimp only
  rw [hwith, Plan.map_id, planOfReference, h.plain "$ref" (by decide)]
  dsimp only
  rw [planOfEntries_of_none h.get?_shape, h.field_type]

/-- A keyword that does not tell the type may be put in. -/
theorem isOfType_insert {key : String} (hkey : key ∉ "type" :: "$ref" :: "nullable" :: shapeKeywords)
    (value : Json) : IsOfType (schema.insert key value) type := by
  have hget : ∀ keyword ∈ "type" :: "$ref" :: "nullable" :: shapeKeywords,
      (schema.insert key value).get? keyword = schema.get? keyword := fun keyword hkeyword =>
    Entries.get?_insert_of_ne schema value fun heq => hkey (heq ▸ hkeyword)
  refine ⟨(hget "type" List.mem_cons_self).trans h.stated, h.known, fun keyword hkeyword => ?_⟩
  rw [hget keyword (List.mem_cons_of_mem _ hkeyword), h.plain keyword hkeyword]

end

/-- Null in a list beside a structured type is let into what that type gives. -/
theorem planOfTyped_nullList {type : String} (htype : type = "object" ∨ type = "array")
    {types : List Json} (htypes : types ∈ nullLists type) (schema : Entries Json)
    (description : Json) : planOfTyped schema (.arr types) description =
      (planOfTyped schema (.str type) description).map SchemaNode.withNull := by
  rcases htype with rfl | rfl <;> rcases List.mem_pair.mp htypes with rfl | rfl
  all_goals
    rw [planOfTyped.eq_4 _ _ _ (by simp) (by simp), planOfTyped]
    rfl

/-! ## References -/

/-- Whether a conversion of a document comes to a reference that points at a keyword of the document
itself. -/
def PointsAtKeyword (document : Json) (external? : Option (Json → Except Fault Json))
    (keyword : String) : Prop :=
  ∃ reached reference fragment,
    Reached (Sources.mk document external?).LeadsTo document reached ∧
      (planOf reached).reference? = some reference ∧
      localFragment? reference = some fragment ∧
      Pointer.tokens fragment.toList = [keyword.toList]

/-- Whether a value is a text or a list of texts, as types are. -/
def IsTexts (value : Json) : Prop :=
  (∃ s, value = .str s) ∨ ∃ ss : List String, value = .arr (ss.map .str)

/-- What is inside texts is a text. -/
theorem isTexts_of_walk {value target : Json} {tokens : List (List Char)}
    (h : Pointer.walk value tokens = .ok (some target)) (hvalue : IsTexts value) :
    IsTexts target := by
  refine Pointer.walk_induction (fun items item hitems hitem => ?_) (fun _ _ _ hentries _ => ?_) h
    hvalue
  · obtain ⟨s, hs⟩ | ⟨ss, hss⟩ := hitems
    · cases hs
    · cases hss
      obtain ⟨s, -, rfl⟩ := List.mem_map.mp hitem
      exact .inl ⟨s, rfl⟩
  · obtain ⟨s, hs⟩ | ⟨ss, hss⟩ := hentries
    · cases hs
    · cases hss

/-- Texts have no structural form. -/
theorem not_hasForm_of_isTexts {sources : Sources} {value : Json} (hvalue : IsTexts value) :
    ¬sources.HasForm value := by
  rintro ⟨stop, budget, location, node, h⟩
  rw [convert_eq_run] at h
  rcases hvalue with ⟨s, rfl⟩ | ⟨ss, rfl⟩
  · cases h
  · cases h

section
variable {schema : Entries Json} {type : String} {external? : Option (Json → Except Fault Json)}

theorem get?_of_mem_nullSpellings {spelling : Entries Json}
    (hspelling : spelling ∈ nullSpellings schema type) {key : String} (htype : "type" ≠ key)
    (hnullable : "nullable" ≠ key) : spelling.get? key = schema.get? key := by
  rcases List.mem_cons.mp hspelling with rfl | hlist
  · exact Entries.get?_insert_of_ne schema _ hnullable
  · obtain ⟨types, -, rfl⟩ := List.mem_map.mp hlist
    exact Entries.get?_insert_of_ne schema _ htype

theorem isTexts_of_mem_nullSpellings (h : IsOfType schema type) {spelling : Entries Json}
    (hspelling : spelling ∈ nullSpellings schema type) {value : Json}
    (hvalue : spelling.get? "type" = some value) : IsTexts value := by
  rcases List.mem_cons.mp hspelling with rfl | hlist
  · rw [Entries.get?_insert_of_ne schema _ (by decide), h.stated] at hvalue
    exact .inl ⟨type, (Option.some.inj hvalue).symm⟩
  · obtain ⟨types, htypes, rfl⟩ := List.mem_map.mp hlist
    rw [Entries.get?_insert_self] at hvalue
    cases hvalue
    rcases List.mem_pair.mp htypes with rfl | rfl
    · exact .inr ⟨[type, "null"], rfl⟩
    · exact .inr ⟨["null", type], rfl⟩

/-- A pointer at a keyword that the spellings agree about leads to the same value in all of them, at
the type there are texts alone, and `nullable` is a keyword of one spelling only. -/
theorem keepsTargets_of_mem_nullSpellings (h : IsOfType schema type)
    {spelling spelling' : Entries Json} (hspelling : spelling ∈ nullSpellings schema type)
    (hspelling' : spelling' ∈ nullSpellings schema type)
    (hpoints : ¬PointsAtKeyword (.obj (schema.insert "nullable" (.bool true))) external?
      "nullable") :
    KeepsTargets ⟨.obj spelling, external?⟩ ⟨.obj spelling', external?⟩ (.obj spelling) := by
  intro reached reference target hreached hreference hlead hform
  have hstart : target ≠ .obj spelling := by
    rintro rfl
    exact hreached.not_leadsTo_start hreference hform hlead
  refine ⟨.root, target_eq_ok_iff.mpr ?_⟩
  refine (target_eq_ok_iff.mp (hlead.target_eq .root)).imp_left fun ⟨fragment, hlocal, hresolve⟩ =>
    ⟨fragment, hlocal, ?_⟩
  rw [Pointer.resolve] at hresolve ⊢
  cases htokens : Pointer.tokens fragment.toList with
  | nil =>
    rw [htokens] at hresolve
    cases hresolve
    exact absurd rfl hstart
  | cons token rest =>
    rw [htokens, Pointer.walk, Pointer.step] at hresolve
    rw [Pointer.walk, Pointer.step]
    -- Only the first step of a pointer sees which spelling it is in.
    by_cases htype : "type" = String.ofList token
    · cases hvalue : spelling.get? (String.ofList token) with
      | none => rw [hvalue] at hresolve; cases hresolve
      | some value =>
        rw [hvalue] at hresolve
        rw [← htype] at hvalue
        have htexts := isTexts_of_mem_nullSpellings h hspelling hvalue
        exact absurd hform (not_hasForm_of_isTexts (isTexts_of_walk hresolve htexts))
    · by_cases hnullable : "nullable" = String.ofList token
      · have htoken : token = "nullable".toList := by rw [hnullable, String.toList_ofList]
        rw [← hnullable] at hresolve
        rcases List.mem_cons.mp hspelling with rfl | hlist
        · rw [Entries.get?_insert_self] at hresolve
          cases rest with
          | nil =>
            -- The target would be the value `true`, which is a schema.
            rw [htoken] at htokens
            exact absurd ⟨reached, reference, fragment, hreached, hreference, hlocal, htokens⟩
              hpoints
          | cons next rest => cases hresolve
        · obtain ⟨types, -, rfl⟩ := List.mem_map.mp hlist
          rw [Entries.get?_insert_of_ne schema _ (by decide),
            h.plain "nullable" (by decide)] at hresolve
          cases hresolve
      · rw [get?_of_mem_nullSpellings hspelling' htype hnullable,
          ← get?_of_mem_nullSpellings hspelling htype hnullable]
        exact hresolve

end

/-! ## Conversions -/

section
variable {schema : Entries Json} {type : String} {sources sources' : Sources}
  {stop : Json → Location → ConversionError} {budget : Nat} {location : Location}

/-- Where one spelling is converted, no keyword without a mapping is in the schema. -/
theorem find?_refusedKeywords_of_convert {spelling : Entries Json}
    (hspelling : spelling ∈ nullSpellings schema type) {node : SchemaNode}
    (h : convert sources stop budget (.obj spelling) location = .ok node) :
    refusedKeywords.find? schema.has = none := by
  have hsame : refusedKeywords.find? spelling.has = refusedKeywords.find? schema.has := by
    rcases List.mem_cons.mp hspelling with rfl | hlist
    · exact find?_refusedKeywords_of_agreeBut (Entries.agreeBut_insert _ _ _) (by decide)
    · obtain ⟨types, -, rfl⟩ := List.mem_map.mp hlist
      exact find?_refusedKeywords_of_agreeBut (Entries.agreeBut_insert _ _ _) (by decide)
  rw [← hsame]
  cases hrefused : refusedKeywords.find? spelling.has with
  | none => rfl
  | some keyword =>
    rw [convert_eq_run, planOf, hrefused] at h
    cases h

/-- A spelling of a structured type has the same node as every other. -/
theorem convert_spelling_of_structured (h : IsOfType schema type)
    (hnone : refusedKeywords.find? schema.has = none) (htype : type = "object" ∨ type = "array")
    {spelling spelling' : Entries Json} (hspelling : spelling ∈ nullSpellings schema type)
    (hspelling' : spelling' ∈ nullSpellings schema type)
    (hkeeps : KeepsTargets sources sources' (.obj spelling)) {node : SchemaNode}
    (hnode : convert sources stop budget (.obj spelling) location = .ok node) :
    convert sources' stop budget (.obj spelling') location = .ok node := by
  have hplan : ∀ s ∈ nullSpellings schema type, planOf (.obj s) =
      (planOfTyped schema (.str type) (schema.field "description")).map SchemaNode.withNull := by
    intro s hs
    rcases List.mem_cons.mp hs with rfl | hlist
    · exact planOf_nullable h hnone
    · obtain ⟨types, htypes, rfl⟩ := List.mem_map.mp hlist
      rw [planOf_typeList h hnone, planOfTyped_nullList htype htypes]
  rw [← convert_congr ((hplan spelling hspelling).trans (hplan spelling' hspelling').symm)]
  exact convert_of_keepsTargets hkeeps hnode stop location

/-- A union of a primitive type and null, in either order. -/
inductive IsNullablePrimitive (kind : Primitive) (description : Json) : SchemaNode → Prop where
  | behind (note note' : Note) : IsNullablePrimitive kind description
      (.union [.primitive kind note, .null note'] { description })
  | before (note note' : Note) : IsNullablePrimitive kind description
      (.union [.null note', .primitive kind note] { description })

theorem IsNullablePrimitive.note_eq {kind : Primitive} {description : Json} {node : SchemaNode}
    (h : IsNullablePrimitive kind description node) : node.note = { description } := by
  cases h with
  | _ => rfl

/-- Null in a list beside a primitive type stands there as one more member. -/
theorem planOfTyped_primitiveList {kind : Primitive}
    (hkind : primitive? type = some (.primitive kind)) {types : List Json}
    (htypes : types ∈ nullLists type) (schema : Entries Json) (description : Json) :
    planOfTyped schema (.arr types) description =
      .plain fun l => (primitiveNodes { constraints := constraints schema } l types).map
        fun members => .union members { description } := by
  have hstructured : isStructured (.str type) = false := by
    by_contra hne
    rcases eq_of_isStructured (by simpa using hne) with heq | heq
    · cases heq
      cases hkind
    · cases heq
      cases hkind
  have hnull : isStructured (.str "null") = false := rfl
  have hfind : types.find? isStructured = none := by
    rcases List.mem_pair.mp htypes with rfl | rfl <;> simp [hstructured, hnull]
  rcases List.mem_pair.mp htypes with rfl | rfl
  all_goals
    rw [planOfTyped.eq_4 _ _ _ (by simp) (by simp), hfind]

/-- A spelling of a primitive type has a node of that type and null, wherever it is. -/
theorem exists_node_of_primitive (h : IsOfType schema type)
    (hnone : refusedKeywords.find? schema.has = none) {kind : Primitive}
    (hkind : primitive? type = some (.primitive kind)) {spelling : Entries Json}
    (hspelling : spelling ∈ nullSpellings schema type) :
    ∃ node, IsNullablePrimitive kind (schema.field "description") node ∧
      ∀ sources stop budget location,
        convert sources stop budget (.obj spelling) location = .ok node := by
  -- For integers the note says so as well, which leaves the description as it is.
  have hsole : ∀ note : Note, ∃ note' : Note, note'.description = note.description ∧
      ∀ l, primitiveNode (.str type) note l = .ok (.primitive kind note') := by
    intro note
    refine ⟨_, ?_, fun l => by rw [primitiveNode, hkind]⟩
    split <;> rfl
  rcases List.mem_cons.mp hspelling with rfl | hlist
  · have hprimitive : isPrimitiveName (.str type) = true := by
      rw [isPrimitiveName, hkind]
      rfl
    obtain ⟨note, hnote, hnode⟩ := hsole
      { description := schema.field "description", constraints := constraints schema }
    dsimp only at hnote
    refine ⟨(SchemaNode.primitive kind note).withNull, ?_, fun sources stop budget location => ?_⟩
    · rw [← hnote]
      exact .behind { note with description := .null } {}
    · rw [convert_eq_run, planOf_nullable h hnone, planOfTyped_of_isPrimitiveName hprimitive,
        run_map, run_plain, hnode]
      rfl
  · obtain ⟨types, htypes, rfl⟩ := List.mem_map.mp hlist
    obtain ⟨note, -, hnode⟩ := hsole { constraints := constraints schema }
    have hrun : ∀ sources stop budget location,
        convert sources stop budget (.obj (schema.insert "type" (.arr types))) location =
          (primitiveNodes { constraints := constraints schema } location types).map
            fun members => .union members { description := schema.field "description" } := by
      intro sources stop budget location
      rw [convert_eq_run, planOf_typeList h hnone, planOfTyped_primitiveList hkind htypes, run_plain]
    rcases List.mem_pair.mp htypes with rfl | rfl
    · refine ⟨_, .behind note { constraints := constraints schema }, fun _ _ _ location => ?_⟩
      rw [hrun, primitiveNodes, hnode]
      rfl
    · refine ⟨_, .before note { constraints := constraints schema }, fun _ _ _ location => ?_⟩
      rw [hrun, primitiveNodes]
      show (((primitiveNodes _ _ [.str type]).map _).map _ : Result) = _
      rw [primitiveNodes, hnode]
      rfl

end

/-! ## A property of an object -/

/-- A schema of objects with a property between others. -/
def withProperty (object before : Entries Json) (key : String) (property : Json)
    (after : Entries Json) : Json :=
  .obj (object.insert "properties" (.obj (before ++ (key, property) :: after)))

theorem fieldsOf_append_cons {required : List String} {before : Entries Json}
    {front : List SchemaNode} (h : before.length = front.length) (key : String) (property : Json)
    (after : Entries Json) (node : SchemaNode) (back : List SchemaNode) :
    fieldsOf required (before ++ (key, property) :: after) (front ++ node :: back) =
      fieldsOf required before front ++
        ⟨key, !required.contains key, node⟩ :: fieldsOf required after back := by
  rw [fieldsOf, List.zip_append h, List.zip_cons_cons, List.map_append, List.map_cons]
  rfl

/-- Whether a schema of objects with properties lets other keys in. -/
def letsOthersIn (object : Entries Json) : Bool :=
  match object.get? "additionalProperties" with
  | some (.obj _) | some (.bool true) => true
  | _ => false

/-- What a schema of objects asks for is the same whatever the schema of a property is. -/
theorem planOf_withProperty {object : Entries Json} (h : IsOfType object "object")
    (before : Entries Json) (key : String) (after : Entries Json) :
    (∃ error, ∀ property,
      planOf (withProperty object before key property after) = .failure error) ∨
    ∃ required isOpen note, ∀ property,
      planOf (withProperty object before key property after) =
        .parts ((before ++ (key, property) :: after).map fun p => (p.2, ["properties", p.1]))
          fun _ nodes => .ok (.object
            (fieldsOf required (before ++ (key, property) :: after) nodes) isOpen note) := by
  -- All other keywords are read as they are without the property.
  have hget (property : Json) {keyword : String} (hne : "properties" ≠ keyword) :
      (object.insert "properties" (.obj (before ++ (key, property) :: after))).get? keyword =
        object.get? keyword := Entries.get?_insert_of_ne object _ hne
  have hrefused (property : Json) : refusedKeywords.find?
      (object.insert "properties" (.obj (before ++ (key, property) :: after))).has =
        refusedKeywords.find? object.has :=
    find?_refusedKeywords_of_agreeBut (fun _ => hget property) (by decide)
  cases hobject : refusedKeywords.find? object.has with
  | some keyword =>
    refine .inl ⟨fun l => .unsupported (.keyword keyword) (l.below []), fun property => ?_⟩
    rw [withProperty, planOf, hrefused, hobject]
    rfl
  | none =>
    have hplan (property : Json) : planOf (withProperty object before key property after) =
        planOfObject (object.insert "properties" (.obj (before ++ (key, property) :: after)))
          { description := object.field "description", constraints := constraints object } := by
      have hconstraints : constraints
          (object.insert "properties" (.obj (before ++ (key, property) :: after))) =
            constraints object := by
        refine List.filterMap_congr fun keyword hkeyword => ?_
        rw [hget property (by rintro rfl; revert hkeyword; decide)]
      rw [withProperty, planOf_of_isOfType (isOfType_insert h (by decide) _)
        ((hrefused property).trans hobject), planOfTyped, hconstraints, Entries.field,
        hget property (by decide)]
      rfl
    have hlisted (property : Json) :
        (object.insert "properties" (.obj (before ++ (key, property) :: after))).get?
          "properties" = some (.obj (before ++ (key, property) :: after)) :=
      Entries.get?_insert_self object "properties" _
    cases hrequired : requiredNames (object.field "required") with
    | error e =>
      refine .inl ⟨fun _ => .fault e, fun property => ?_⟩
      rw [hplan, planOfObject, Entries.field, hget property (by decide), ← Entries.field,
        hrequired]
    | ok required =>
      refine .inr ⟨required, letsOthersIn object,
        { description := object.field "description", constraints := constraints object },
        fun property => ?_⟩
      have htruthy : (Json.obj (before ++ (key, property) :: after)).isTruthy = true := by
        cases before <;> rfl
      rw [hplan, planOfObject, Entries.field, hget property (by decide), ← Entries.field,
        hrequired]
      dsimp only
      rw [Entries.field, hlisted, Option.getD_some, if_pos htruthy]
      dsimp only
      rewrite [hget property (by decide)]
      rfl

/-- An object is converted with another schema for a property if that is, and if the references of
the other properties lead to the same schemas. -/
theorem exists_of_convert_withProperty {object before after : Entries Json} {key : String}
    (h : IsOfType object "object") {sources : Sources} {stop : Json → Location → ConversionError}
    {budget : Nat} {location : Location} {property : Json} {root : SchemaNode}
    (hroot : convert sources stop budget (withProperty object before key property after) location =
      .ok root) :
    ∃ front node back optional isOpen note,
      root = .object (front ++ ⟨key, optional, node⟩ :: back) isOpen note ∧
      convert sources stop budget property location = .ok node ∧
      ∀ sources' property' node',
        (∀ sibling ∈ before ++ after, KeepsTargets sources sources' sibling.2) →
        convert sources' stop budget property' location = .ok node' →
        convert sources' stop budget (withProperty object before key property' after) location =
          .ok (.object (front ++ ⟨key, optional, node'⟩ :: back) isOpen note) := by
  rcases planOf_withProperty h before key after with ⟨error, hplan⟩ | ⟨required, isOpen, note, hplan⟩
  · rw [convert_eq_run, hplan] at hroot
    cases hroot
  · have hparts (property : Json) : ((before ++ (key, property) :: after).map
        fun p => (p.2, ["properties", p.1])).map Prod.fst =
          before.map Prod.snd ++ property :: after.map Prod.snd := by
      rw [List.map_map, List.map_append, List.map_cons]
      rfl
    obtain ⟨nodes, hnodes, hbuilt⟩ := (convert_eq_ok_iff_of_parts (hplan property)).mp hroot
    rw [hparts] at hnodes
    obtain ⟨front, rest, hfront, hrest, rfl⟩ := exists_of_forall₂_append hnodes
    obtain ⟨node, back, hnode, hback, rfl⟩ := List.forall₂_cons_left_iff.mp hrest
    have hlength : before.length = front.length := by
      rw [← hfront.length_eq, List.length_map]
    rw [fieldsOf_append_cons hlength] at hbuilt
    refine ⟨_, node, _, _, isOpen, note, (Except.ok.inj hbuilt).symm, hnode, ?_⟩
    intro sources' property' node' hkeeps hnode'
    -- The other properties have the nodes they had, before the new one and after it.
    have hsibling : ∀ {siblings : Entries Json} {nodes : List SchemaNode},
        (∀ sibling ∈ siblings, sibling ∈ before ++ after) →
        List.Forall₂ (fun part n => convert sources stop budget part location = .ok n)
          (siblings.map Prod.snd) nodes →
        List.Forall₂ (fun part n => convert sources' stop budget part location = .ok n)
          (siblings.map Prod.snd) nodes := by
      intro siblings nodes hmem hrow
      refine ((List.forall₂_and_left _ _).mpr ⟨?_, hrow⟩).imp fun part n hpart =>
        convert_of_keepsTargets hpart.1 hpart.2 stop location
      rw [List.forall_mem_map]
      exact fun sibling hsibling => hkeeps sibling (hmem sibling hsibling)
    refine (convert_eq_ok_iff_of_parts (hplan property')).mpr ⟨front ++ node' :: back, ?_, ?_⟩
    · rw [hparts]
      refine List.rel_append (hsibling (fun _ => List.mem_append_left _) hfront) ?_
      exact .cons hnode' (hsibling (fun _ => List.mem_append_right _) hback)
    · rw [fieldsOf_append_cons hlength]

end Schema
end SchemaTypings
