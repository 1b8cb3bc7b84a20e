/-
  SchemaTypings.Proofs.Schema.Blame

  Where a conversion says that it fails.  The steps of the location lead to what is to blame in the
  document, also where the failure comes up only when the parts are put together.  As a pointer the
  location leads there too, unless a step has to be escaped: steps are written as they are.
-/
import SchemaTypings.Proofs.Schema.Pointer
import SchemaTypings.Proofs.Schema.Reached

namespace SchemaTypings.Schema

/-! ## What is to blame -/

/-- The types that a `type` value names: itself, and what is in its lists at any depth. -/
inductive Names (whole : Json) : Json → Prop where
  | here : Names whole whole
  | member {types : List Json} {type : Json} (h : Names whole (.arr types)) (htype : type ∈ types) :
      Names whole type

/-- Whether a value is to blame for a failure: it is the construct without a structural form, or
what holds it.  `converts` relates schemas and their nodes. -/
inductive Blames (converts : Json → SchemaNode → Prop) : Unsupported → Json → Prop where
  | falseSchema : Blames converts .falseSchema (.bool false)
  | notASchema {value : Json} (hbool : ∀ b, value ≠ .bool b) (hobj : ∀ entries, value ≠ .obj entries) :
      Blames converts (.notASchema value.typeName) value
  | keyword {entries : Entries Json} {name : String} (hrefused : name ∈ refusedKeywords)
      (hname : entries.has name = true) : Blames converts (.keyword name) (.obj entries)
  | emptyList {keyword : String} {value : Json} (h : ∀ first rest, value ≠ .arr (first :: rest)) :
      Blames converts (.emptyList keyword) value
  | emptyTypeList {type : Json} (h : Names type (.arr [])) : Blames converts .emptyTypeList type
  | unknownType {whole type : Json} (h : Names whole type)
      (hunknown : ∀ name, type = .str name → primitive? name = none) :
      Blames converts (.unknownType type) whole
  | mixedTypes {whole : Json} {types : List Json} (h : Names whole (.arr types))
      (hstructured : ∃ type ∈ types, isStructured type = true)
      (hmany : (types.filter (!isNullName ·)).length > 1) : Blames converts (.mixedTypes types) whole
  | tupleItems (items : List Json) : Blames converts .tupleItems (.arr items)
  | unmergeable {member : Json} {node : SchemaNode} (hnode : converts member node)
      (hkind : node.kindName ≠ "object") : Blames converts (.unmergeable node.kindName) member
  | literalType {value : Json} (h : value.isScalar = false) :
      Blames converts (.literalType value.typeName) value

section
variable (converts : Json → SchemaNode → Prop)

/-- Whether a failure in a schema at a location is told with steps that lead to what is to blame. -/
def Told (schema : Json) (location : Location) (e : ConversionError) : Prop :=
  ∀ cause l, e = .unsupported cause l → ∃ steps value, l = location.below steps ∧
    Leads schema steps value ∧ Blames converts cause value

/-- A plan for a schema that tells its failures: steps lead to the parts, and what goes wrong when
they are put together is told as well. -/
inductive Plan.Tells (schema : Json) : Plan → Prop where
  | failure {error : Location → ConversionError} (h : ∀ l, Told converts schema l (error l)) :
      Tells schema (.failure error)
  | reference {entries : Entries Json} {r : Json} {finish : SchemaNode → SchemaNode}
      (hschema : schema = .obj entries) (h : entries.get? "$ref" = some r) :
      Tells schema (.reference r finish)
  | parts {ps : List (Json × List String)} {build : Location → List SchemaNode → Result}
      (hleads : ∀ part ∈ ps, Leads schema part.2 part.1)
      (hbuild : ∀ nodes, List.Forall₂ (fun part n => converts part.1 n) ps nodes →
        ∀ l e, build l nodes = .error e → Told converts schema l e) :
      Tells schema (.parts ps build)

end

variable {converts : Json → SchemaNode → Prop}

theorem told_fault (schema : Json) (location : Location) (f : Fault) :
    Told converts schema location (.fault f) :=
  fun _ _ h => by cases h

theorem told_unsupported {schema value : Json} {cause : Unsupported} {steps : List String}
    (hleads : Leads schema steps value) (hblames : Blames converts cause value)
    (location : Location) : Told converts schema location (.unsupported cause (location.below steps)) :=
  fun _ _ h => by cases h; exact ⟨steps, value, rfl, hleads, hblames⟩

/-- A failure of a part is told for the whole. -/
theorem Told.of_part {schema part : Json} {location : Location} {steps : List String}
    {e : ConversionError} (hleads : Leads schema steps part)
    (h : Told converts part (location.below steps) e) : Told converts schema location e := by
  intro cause l he
  obtain ⟨more, value, rfl, hmore, hblames⟩ := h cause l he
  refine ⟨steps ++ more, value, ?_, hleads.trans hmore, hblames⟩
  simp only [Location.below, List.append_assoc]

namespace Plan.Tells

variable {schema : Json}

theorem refusal {value : Json} {cause : Unsupported} {steps : List String}
    (hleads : Leads schema steps value) (hblames : Blames converts cause value) :
    (Plan.refusal cause steps).Tells converts schema :=
  .failure (told_unsupported hleads hblames)

theorem fault (f : Fault) : (Plan.failure fun _ => .fault f).Tells converts schema :=
  .failure fun l => told_fault schema l f

theorem plain {result : Location → Result}
    (h : ∀ l e, result l = .error e → Told converts schema l e) :
    (Plan.plain result).Tells converts schema :=
  .parts (by simp) fun _ _ => h

theorem ok (node : SchemaNode) : (Plan.plain fun _ => .ok node).Tells converts schema :=
  .plain fun _ _ h => by cases h

theorem sole {part : Json} {steps : List String} (make : SchemaNode → SchemaNode)
    (hleads : Leads schema steps part) : (Plan.sole part steps make).Tells converts schema :=
  .parts (by simpa using hleads) fun _ _ _ _ h => by cases h

theorem map {plan : Plan} (h : plan.Tells converts schema) (f : SchemaNode → SchemaNode) :
    (plan.map f).Tells converts schema := by
  cases h with
  | failure h => exact .failure h
  | reference hschema h => exact .reference hschema h
  | parts hleads hbuild =>
    exact .parts hleads fun nodes hnodes l e he =>
      hbuild nodes hnodes l e (eq_error_of_map_eq_error he)

end Plan.Tells

/-! ## Literals and types -/

section
variable {location : Location} {e : ConversionError}

/-- What goes wrong about a literal is its type. -/
theorem eq_of_literalNode_error {value description : Json}
    (h : literalNode value location description = .error e) :
    value.isScalar = false ∧ e = .unsupported (.literalType value.typeName) location := by
  unfold literalNode at h
  split at h
  · cases h
  · cases h
    exact ⟨rfl, rfl⟩
  · cases h
    exact ⟨rfl, rfl⟩
  · cases h

theorem exists_of_literalNodes_error {values : List Json} {index : Nat}
    (h : literalNodes location index values = .error e) :
    ∃ i value, values[i]? = some value ∧ value.isScalar = false ∧
      e = .unsupported (.literalType value.typeName) (location.item (index + i)) := by
  induction values generalizing index with
  | nil => cases h
  | cons value rest ih =>
    rw [literalNodes] at h
    cases hvalue : literalNode value (location.item index) with
    | error e' =>
      rw [hvalue] at h
      cases h
      exact ⟨0, value, rfl, eq_of_literalNode_error hvalue⟩
    | ok node =>
      rw [hvalue] at h
      obtain ⟨i, other, hother, hscalar, heq⟩ := ih (eq_error_of_map_eq_error h)
      refine ⟨i + 1, other, hother, hscalar, ?_⟩
      rw [heq, Nat.add_right_comm, Nat.add_assoc]

theorem told_enumNode {schema : Entries Json} {values description : Json}
    (hvalues : schema.get? "enum" = some values)
    (h : enumNode values location description = .error e) :
    Told converts (.obj schema) location e := by
  unfold enumNode at h
  split at h
  · next first rest =>
    cases hliterals : literalNodes (location.child "enum") 0 (first :: rest) with
    | error e' =>
      rw [hliterals] at h
      cases h
      obtain ⟨i, value, hvalue, hscalar, rfl⟩ := exists_of_literalNodes_error hliterals
      rw [Nat.zero_add, Location.item_child]
      exact told_unsupported (.key hvalues (.of_getElem? hvalue)) (.literalType hscalar) location
    | ok nodes =>
      rw [hliterals] at h
      split at h
      · next heq => cases heq
      · cases h
      · cases h
  · next hnot =>
    cases h
    exact told_unsupported (.of_get? hvalues) (.emptyList hnot) location

theorem told_primitiveNode {schema : Entries Json} {whole type : Json} {note : Note}
    (hwhole : schema.get? "type" = some whole) (htype : Names whole type)
    (h : primitiveNode type note location = .error e) : Told converts (.obj schema) location e := by
  unfold primitiveNode at h
  split at h
  · next name =>
    split at h
    · cases h
    · next hname =>
      cases h
      refine told_unsupported (.of_get? hwhole) (.unknownType htype ?_) location
      rintro other heq
      cases heq
      exact hname
  · cases h
    exact told_fault _ _ _
  · cases h
    exact told_fault _ _ _
  · next hname _ _ =>
    cases h
    exact told_unsupported (.of_get? hwhole)
      (.unknownType htype fun name heq => absurd heq (hname name)) location

theorem exists_of_primitiveNodes_error {types : List Json} {note : Note}
    (h : primitiveNodes note location types = .error e) :
    ∃ type ∈ types, primitiveNode type note location = .error e := by
  induction types with
  | nil => cases h
  | cons type rest ih =>
    rw [primitiveNodes] at h
    cases htype : primitiveNode type note location with
    | error e' =>
      rw [htype] at h
      cases h
      exact ⟨type, List.mem_cons_self, htype⟩
    | ok node =>
      rw [htype] at h
      obtain ⟨other, hother, he⟩ := ih (eq_error_of_map_eq_error h)
      exact ⟨other, List.mem_cons_of_mem _ hother, he⟩

/-! ## Intersections -/

/-- What goes wrong when nodes are merged is one that is no object. -/
theorem exists_of_mergeObjects_error {nodes : List SchemaNode} {index : Nat}
    {fields : List (Member SchemaNode)} {isOpen : Bool}
    (h : mergeObjects location index fields isOpen nodes = .error e) :
    ∃ i node, nodes[i]? = some node ∧ node.kindName ≠ "object" ∧
      e = .unsupported (.unmergeable node.kindName) (location.item (index + i)) := by
  induction nodes generalizing index fields isOpen with
  | nil => cases h
  | cons node rest ih =>
    rw [mergeObjects.eq_def] at h
    cases node with
    | object more moreOpen note =>
      obtain ⟨i, other, hother, hkind, heq⟩ := ih h
      refine ⟨i + 1, other, hother, hkind, ?_⟩
      rw [heq, Nat.add_right_comm, Nat.add_assoc]
    | primitive kind note =>
      cases h
      exact ⟨0, _, rfl, by cases kind <;> simp [SchemaNode.kindName], rfl⟩
    | _ =>
      cases h
      exact ⟨0, _, rfl, by simp [SchemaNode.kindName], rfl⟩

theorem told_intersectionOf {schema : Entries Json} {members : List Json}
    {nodes : List SchemaNode} {description : Json}
    (hmembers : schema.get? "allOf" = some (.arr members))
    (hnodes : List.Forall₂ converts members nodes)
    (h : intersectionOf nodes location description = .error e) :
    Told converts (.obj schema) location e := by
  unfold intersectionOf at h
  split at h
  · cases h
  · obtain ⟨i, node, hnode, hkind, rfl⟩ :=
      exists_of_mergeObjects_error (eq_error_of_map_eq_error h)
    obtain ⟨member, hmember, hconverts⟩ := exists_getElem?_left_of_forall₂ hnodes hnode
    rw [Nat.zero_add, Location.item_child]
    exact told_unsupported (.key hmembers (.of_getElem? hmember)) (.unmergeable hconverts hkind)
      location

end

/-! ## Plans -/

section
variable {schema : Entries Json} {note : Note}

theorem leads_of_mem_listed {keyword : String} {members : List Json}
    (hmembers : schema.get? keyword = some (.arr members)) {part : Json × List String}
    (hpart : part ∈ listed keyword 0 members) : Leads (.obj schema) part.2 part.1 := by
  have hindexed : ∀ (front rest : List Json), members = front ++ rest →
      ∀ part ∈ listed keyword front.length rest, Leads (.obj schema) part.2 part.1 := by
    intro front rest hfront
    induction rest generalizing front with
    | nil => simp [listed]
    | cons member rest ih =>
      rw [listed, List.forall_mem_cons]
      constructor
      · refine .key hmembers (.of_getElem? ?_)
        rw [hfront, List.getElem?_append_right (Nat.le_refl _), Nat.sub_self]
        rfl
      · have := ih (front ++ [member]) (by rw [hfront, List.append_assoc]; rfl)
        rwa [List.length_append, List.length_singleton] at this
  exact hindexed [] members rfl part hpart

theorem forall₂_of_listed {keyword : String} {members : List Json} {nodes : List SchemaNode}
    (h : List.Forall₂ (fun part n => converts part.1 n) (listed keyword 0 members) nodes) :
    List.Forall₂ converts members nodes := by
  rw [← map_fst_listed keyword 0 members, List.forall₂_map_left_iff]
  exact h

theorem tells_planOfList {keyword : String} {schemas : Json}
    (hschemas : schema.get? keyword = some schemas)
    {build : Location → List SchemaNode → Result}
    (hbuild : ∀ members nodes, schemas = .arr members → List.Forall₂ converts members nodes →
      ∀ l e, build l nodes = .error e → Told converts (.obj schema) l e) :
    (planOfList keyword schemas build).Tells converts (.obj schema) := by
  unfold planOfList
  split
  · exact .parts (fun part hpart => leads_of_mem_listed hschemas hpart)
      fun nodes hnodes => hbuild _ nodes rfl (forall₂_of_listed hnodes)
  · next hnot => exact .refusal (.of_get? hschemas) (.emptyList hnot)

theorem tells_planOfObject (hkeys : (Json.obj schema).HasDistinctKeys) :
    (planOfObject schema note).Tells converts (.obj schema) := by
  unfold planOfObject
  split
  · exact .fault _
  · split
    · split
      · next properties hproperties =>
        refine .parts (fun part hpart => ?_) fun _ _ _ _ h => by cases h
        obtain ⟨⟨name, type⟩, hproperty, rfl⟩ := List.mem_map.mp hpart
        have hdistinct := (Leads.of_get? hproperties).hasDistinctKeys hkeys
        rw [Json.HasDistinctKeys] at hdistinct
        exact .key hproperties (.of_get? (Entries.get?_of_mem hdistinct.1 hproperty))
      · exact .fault _
    · split
      · exact .ok _
      · next hadditional => exact .sole _ (.of_get? hadditional)
      · exact .ok _

theorem tells_planOfArray : (planOfArray schema note).Tells converts (.obj schema) := by
  unfold planOfArray
  split
  · exact .ok _
  · exact .ok _
  · next items hitems => exact .refusal (.of_get? hitems) (.tupleItems items)
  · next hitems => exact .sole _ (.of_get? hitems)

theorem tells_planOfTyped {type description : Json} (hkeys : (Json.obj schema).HasDistinctKeys)
    (htype : type = .null ∨ ∃ whole, schema.get? "type" = some whole ∧ Names whole type) :
    (planOfTyped schema type description).Tells converts (.obj schema) := by
  -- Along the lists of one type, like the plan itself.
  induction hsize : sizeOf type using Nat.strongRecOn generalizing type with
  | ind size ih =>
    -- Without a type, the keywords that are there decide.
    have huntyped : (planOfTyped schema .null description).Tells converts (.obj schema) := by
      rw [planOfTyped]
      split
      · exact tells_planOfObject hkeys
      · split
        · exact tells_planOfArray
        · exact .ok _
    rcases htype with rfl | ⟨whole, hwhole, hnames⟩
    · exact huntyped
    rw [planOfTyped.eq_def] at huntyped ⊢
    dsimp only at huntyped ⊢
    split
    · exact huntyped
    · exact .refusal (.of_get? hwhole) (.emptyTypeList hnames)
    · next only =>
      refine ih (sizeOf only) ?_ (.inr ⟨whole, hwhole, hnames.member List.mem_cons_self⟩) rfl
      rw [← hsize]
      simp
      omega
    · next types _ _ =>
      split
      · next structured hfind =>
        split
        · next hmany =>
          refine .refusal (.of_get? hwhole) (.mixedTypes hnames ?_ hmany)
          exact ⟨structured, List.mem_of_find?_eq_some hfind, List.find?_some hfind⟩
        · split
          · exact (tells_planOfObject hkeys).map _
          · exact tells_planOfArray.map _
      · refine .plain fun l e he => ?_
        obtain ⟨other, hother, hfails⟩ :=
          exists_of_primitiveNodes_error (eq_error_of_map_eq_error he)
        exact told_primitiveNode hwhole (hnames.member hother) hfails
    · exact tells_planOfObject hkeys
    · exact tells_planOfArray
    · exact .plain fun l e he => told_primitiveNode hwhole hnames he

theorem tells_planOfEntries (hkeys : (Json.obj schema).HasDistinctKeys) :
    (planOfEntries schema).Tells converts (.obj schema) := by
  unfold planOfEntries
  dsimp only
  split
  · next value hvalue =>
    refine .plain fun l e he => ?_
    obtain ⟨hscalar, rfl⟩ := eq_of_literalNode_error he
    exact told_unsupported (.of_get? hvalue) (.literalType hscalar) l
  · split
    · next values hvalues => exact .plain fun l e he => told_enumNode hvalues he
    · split
      · next hoptions => exact tells_planOfList hoptions fun _ _ _ _ _ _ h => by cases h
      · split
        · next hoptions => exact tells_planOfList hoptions fun _ _ _ _ _ _ h => by cases h
        · split
          · next hschemas =>
            refine tells_planOfList hschemas fun members nodes heq hnodes l e he => ?_
            exact told_intersectionOf (heq ▸ hschemas) hnodes he
          · refine tells_planOfTyped hkeys ?_
            rw [Entries.field]
            cases htype : schema.get? "type" with
            | none => exact .inl rfl
            | some type => exact .inr ⟨type, rfl, .here⟩

/-- Every plan of a schema tells its failures. -/
theorem tells_planOf {schema : Json} (hkeys : schema.HasDistinctKeys) :
    (planOf schema).Tells converts schema := by
  unfold planOf
  split
  · exact .ok _
  · exact .refusal (.here _) .falseSchema
  · next entries =>
    split
    · next keyword hfind =>
      exact .refusal (.here _)
        (.keyword (List.mem_of_find?_eq_some hfind) (List.find?_some hfind))
    · refine Plan.Tells.map ?_ _
      unfold planOfReference
      split
      · next hreference => exact .reference rfl hreference
      · exact tells_planOfEntries hkeys
  · next htrue hfalse hobj =>
    refine .refusal (.here _) (.notASchema (fun b heq => ?_) hobj)
    cases b with
    | true => exact htrue heq
    | false => exact hfalse heq

end

/-! ## Documents -/

/-- Whether there is no reference anywhere in a value. -/
def HasNoReference (value : Json) : Prop :=
  ∀ steps entries, Leads value steps (.obj entries) → Entries.get? entries "$ref" = none

theorem HasNoReference.of_leads {value part : Json} {steps : List String}
    (h : HasNoReference value) (hleads : Leads value steps part) : HasNoReference part :=
  fun _ entries hpart => h _ entries (hleads.trans hpart)

theorem hasNoReference_of_isScalar {value : Json} (h : value.isScalar = true) :
    HasNoReference value := by
  intro steps entries hleads
  cases hleads with
  | here => cases h
  | key => cases h
  | item => cases h

theorem hasNoReference_obj {entries : Entries Json} (hown : entries.get? "$ref" = none)
    (hvalues : ∀ entry ∈ entries, HasNoReference entry.2) : HasNoReference (.obj entries) := by
  intro steps other hleads
  cases hleads with
  | here => exact hown
  | key hvalue hrest => exact hvalues _ (Entries.mem_of_get? hvalue) _ other hrest

/-- Whether a schema has this structural form at some location. -/
def Converts (sources : Sources) (stop : Json → Location → ConversionError) (budget : Nat)
    (schema : Json) (node : SchemaNode) : Prop :=
  ∃ location, convert sources stop budget schema location = .ok node

/-- A conversion without references tells its failures. -/
theorem told_of_convert {sources : Sources} {stop : Json → Location → ConversionError}
    {budget : Nat} {schema : Json} {location : Location} {e : ConversionError}
    (hkeys : schema.HasDistinctKeys) (hno : HasNoReference schema)
    (h : convert sources stop budget schema location = .error e) :
    Told (Converts sources stop budget) schema location e := by
  induction budget, schema using visit_induction generalizing location with
  | step budget schema ihpart _ =>
    have htells : (planOf schema).Tells (Converts sources stop budget) schema := tells_planOf hkeys
    -- with no reference on the way every failure is that of the schema itself or of a part of it
    rcases cases_of_convert_eq_error h with ⟨error, hplan, rfl⟩ | ⟨r, finish, hplan, -⟩ |
      ⟨ps, build, part, hplan, hpart, hfails⟩ | ⟨ps, build, nodes, hplan, hnodes, hbuilt⟩
    · rw [hplan] at htells
      cases htells with
      | failure htold => exact htold location
    · rw [hplan] at htells
      cases htells with
      | reference hschema hreference =>
        subst hschema
        rw [hno [] _ (.here _)] at hreference
        cases hreference
    · have hmem := mem_schemas_of_planOf hplan hpart
      rw [hplan] at htells
      cases htells with
      | parts hleads _ =>
        have hlead := hleads part hpart
        exact .of_part hlead
          (ihpart part.1 hmem (hlead.hasDistinctKeys hkeys) (hno.of_leads hlead) hfails)
    · rw [hplan] at htells
      cases htells with
      | parts _ hbuild =>
        exact hbuild nodes (hnodes.imp fun part n hn => ⟨_, hn⟩) location e hbuilt

/-- A document without references that has no structural form: the steps of the location lead to
what is to blame.  The location is read back as these steps exactly if all of them are tokens, and
then it is a pointer to that value. -/
theorem exists_blamed_of_ofDocument {document : Json}
    {external? : Option (Json → Except Fault Json)} {limit : ReferenceLimit} {cause : Unsupported}
    {location : Location} (hkeys : document.HasDistinctKeys) (hno : HasNoReference document)
    (h : ofDocument document external? limit = .error (.unsupported cause location)) :
    ∃ value, Leads document location.steps value ∧
      Blames (Converts ⟨document, external?⟩ limit.failure limit.budget) cause value ∧
      (Pointer.tokens location.chars = location.steps.map String.toList ↔
        ∀ step ∈ location.steps, Pointer.IsToken step.toList) ∧
      ((∀ step ∈ location.steps, Pointer.IsToken step.toList) →
        (∀ front items, Leads document front (.arr items) →
          items.length ≤ 10 ^ Json.maxIntegerDigits) →
        Pointer.resolve document location.text = .ok (some value)) := by
  obtain ⟨steps, value, hsteps, hleads, hblames⟩ := told_of_convert hkeys hno h cause location rfl
  have hroot : location.steps = steps := by
    rw [hsteps]
    rfl
  rw [← hroot] at hleads
  exact ⟨value, hleads, hblames, Pointer.tokens_chars_eq_iff location,
    fun htokens hsize => Pointer.resolve_text_of_leads hleads htokens hsize⟩

/-- A property with a slash in its name that accepts no value. -/
def slashDocument : Json :=
  .obj [("type", .str "object"), ("properties", .obj [("a/b", .bool false)])]

/-- The location is read back as other steps than those to the property, and they lead nowhere. -/
theorem exists_blamed_of_ofDocument_slashDocument :
    ∃ location value,
      ofDocument slashDocument none (.ofInt 16) = .error (.unsupported .falseSchema location) ∧
      Leads slashDocument location.steps value ∧
      Pointer.tokens location.chars ≠ location.steps.map String.toList ∧
      Pointer.resolve slashDocument location.text = .ok none := by
  have hdocument : ofDocument slashDocument none (.ofInt 16) =
      .error (.unsupported .falseSchema ⟨["properties", "a/b"]⟩) := by cbv
  have hkeys : slashDocument.HasDistinctKeys := by
    simp [slashDocument, Json.HasDistinctKeys, Json.EntriesHaveDistinctKeys,
      Json.EntryHasDistinctKeys]
  have hno : HasNoReference slashDocument := by
    refine hasNoReference_obj rfl ?_
    simp only [List.forall_mem_cons]
    refine ⟨hasNoReference_of_isScalar rfl, hasNoReference_obj rfl ?_, by simp⟩
    simpa using hasNoReference_of_isScalar rfl
  obtain ⟨value, hleads, -, htokens, -⟩ := exists_blamed_of_ofDocument hkeys hno hdocument
  refine ⟨_, value, hdocument, hleads, fun heq => ?_, by cbv⟩
  -- A step with a slash in it is no token.
  have hstep := htokens.mp heq "a/b" (by decide)
  exact hstep.2.1 (by decide)

end SchemaTypings.Schema
