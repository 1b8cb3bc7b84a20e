/-
  SchemaTypings.Proofs.Schema.Intersection

  The fields of an intersection.  Objects are taken together field by field: a field stands where
  its name came first, and one object that has it as a required field is enough for it to stay
  required.  An object only has fields for the properties that it lists, so what a member requires
  without listing it as a property is lost.
-/
import Mathlib.Data.List.Nodup
import SchemaTypings.Proofs.Schema.Reached

namespace SchemaTypings.Schema

/-! ## Merged fields -/

/-- Whether there is a field of this name that is not optional. -/
def RequiredIn (fields : List (Member SchemaNode)) (name : String) : Prop :=
  ∃ field ∈ fields, field.name = name ∧ field.optional = false

theorem requiredIn_cons {field : Member SchemaNode} {rest : List (Member SchemaNode)}
    {name : String} : RequiredIn (field :: rest) name ↔
      (field.name = name ∧ field.optional = false) ∨ RequiredIn rest name := by
  simp [RequiredIn]

theorem requiredIn_flatten {lists : List (List (Member SchemaNode))} {name : String} :
    RequiredIn lists.flatten name ↔ ∃ fields ∈ lists, RequiredIn fields name := by
  constructor
  · rintro ⟨field, hfield, hrequired⟩
    obtain ⟨fields, hfields, hmem⟩ := List.mem_flatten.mp hfield
    exact ⟨fields, hfields, field, hmem, hrequired⟩
  · rintro ⟨fields, hfields, field, hmem, hrequired⟩
    exact ⟨field, List.mem_flatten.mpr ⟨fields, hfields, hmem⟩, hrequired⟩

/-- A name that is there keeps its place; a new one comes last. -/
theorem names_mergeField (fields : List (Member SchemaNode)) (field : Member SchemaNode) :
    (mergeField fields field).map Member.name =
      if field.name ∈ fields.map Member.name then fields.map Member.name
      else fields.map Member.name ++ [field.name] := by
  induction fields with
  | nil => rfl
  | cons previous rest ih =>
    rw [mergeField]
    by_cases hname : previous.name = field.name
    · rw [if_pos hname]
      simp [hname]
    · have hne : ¬field.name = previous.name := fun heq => hname heq.symm
      rw [if_neg hname]
      by_cases hmem : field.name ∈ rest.map Member.name
      · simp [ih, hne, hmem]
      · simp [ih, hne, hmem]

theorem requiredIn_mergeField {fields : List (Member SchemaNode)} {field : Member SchemaNode}
    {name : String} : RequiredIn (mergeField fields field) name ↔
      RequiredIn fields name ∨ (field.name = name ∧ field.optional = false) := by
  induction fields with
  | nil =>
    rw [mergeField, requiredIn_cons]
    exact or_comm
  | cons previous rest ih =>
    rw [mergeField]
    split
    · next hname =>
      -- The field takes the place of the previous one and is required if either is.
      rw [requiredIn_cons, requiredIn_cons, Bool.and_eq_false_iff, hname]
      tauto
    · rw [requiredIn_cons, requiredIn_cons, ih, or_assoc]

/-- One more name after those that have been seen. -/
theorem eraseDups_concat (before : List String) (name : String) :
    (before ++ [name]).eraseDups =
      if name ∈ before.eraseDups then before.eraseDups else before.eraseDups ++ [name] := by
  rw [List.eraseDups_append]
  by_cases hmem : name ∈ before
  · simp [List.removeAll, hmem]
  · simp [List.removeAll, hmem, List.eraseDups_cons]

theorem nodup_eraseDups (names : List String) : names.eraseDups.Nodup := by
  induction hlength : names.length using Nat.strongRecOn generalizing names with
  | ind length ih =>
    cases names with
    | nil => simp
    | cons name rest =>
      have hle := List.length_filter_le (fun other => !other == name) rest
      rw [List.length_cons] at hlength
      rw [List.eraseDups_cons, List.nodup_cons, List.mem_eraseDups]
      exact ⟨by simp, ih _ (by omega) _ rfl⟩

/-- Merged fields are named in the order in which the names came first. -/
theorem names_foldl_mergeField {fields : List (Member SchemaNode)} {before : List String}
    (hfields : fields.map Member.name = before.eraseDups) (more : List (Member SchemaNode)) :
    (more.foldl mergeField fields).map Member.name =
      (before ++ more.map Member.name).eraseDups := by
  induction more generalizing fields before with
  | nil => rw [List.foldl_nil, List.map_nil, List.append_nil, hfields]
  | cons field rest ih =>
    have hnext : (mergeField fields field).map Member.name =
        (before ++ [field.name]).eraseDups := by
      rw [names_mergeField, eraseDups_concat, hfields]
    rw [List.foldl_cons, ih hnext, List.append_assoc, List.map_cons, List.singleton_append]

theorem requiredIn_foldl_mergeField {fields : List (Member SchemaNode)} {name : String}
    (more : List (Member SchemaNode)) : RequiredIn (more.foldl mergeField fields) name ↔
      RequiredIn fields name ∨ RequiredIn more name := by
  induction more generalizing fields with
  | nil => simp [RequiredIn]
  | cons field rest ih =>
    rw [List.foldl_cons, ih, requiredIn_mergeField, requiredIn_cons, or_assoc]

/-- Whether a node is an object with these fields. -/
def HasFields (node : SchemaNode) (fields : List (Member SchemaNode)) : Prop :=
  ∃ isOpen note, node = .object fields isOpen note

/-- Objects taken together have all their fields merged into those before, one after the other. -/
theorem exists_fields_of_mergeObjects {location : Location} {index : Nat}
    {fields merged : List (Member SchemaNode)} {isOpen mergedOpen : Bool} {nodes : List SchemaNode}
    (h : mergeObjects location index fields isOpen nodes = .ok (merged, mergedOpen)) :
    ∃ lists, List.Forall₂ HasFields nodes lists ∧
      merged = lists.flatten.foldl mergeField fields := by
  induction nodes generalizing index fields isOpen with
  | nil =>
    cases h
    exact ⟨[], .nil, rfl⟩
  | cons node rest ih =>
    rw [mergeObjects.eq_def] at h
    cases node with
    | object more moreOpen note =>
      obtain ⟨lists, hlists, rfl⟩ := ih h
      refine ⟨more :: lists, .cons ⟨moreOpen, note, rfl⟩ hlists, ?_⟩
      rw [List.flatten_cons, List.foldl_append]
    | _ => cases h

/-! ## Objects written in place -/

/-- Keywords that decide about a schema before the list of an intersection is looked at. -/
def keywordsBeforeAllOf : List String := ["$ref", "const", "enum", "anyOf", "oneOf"]

/-- Whether a schema itself says which properties its objects have. -/
def IsInlineObject (schema : Entries Json) : Prop :=
  (∀ keyword ∈ "allOf" :: keywordsBeforeAllOf, schema.get? keyword = none) ∧
    ∃ properties, schema.get? "properties" = some (.obj properties)

/-- The names of the properties that a schema declares, in order. -/
def propertyNames (schema : Entries Json) : List String :=
  match schema.get? "properties" with
  | some (.obj properties) => Entries.keys properties
  | _ => []

/-- Whether a value lists a name: a list does by its texts, a text by its characters, an object by
its keys. -/
def Lists : Json → String → Prop
  | .arr items, name => .str name ∈ items
  | .str s, name => ∃ c ∈ s.toList, name = String.ofList [c]
  | .obj entries, name => name ∈ Entries.keys entries
  | _, _ => False

/-- Whether a schema requires the property of a name, declared or not. -/
def Requires (schema : Entries Json) (name : String) : Prop :=
  Lists (schema.field "required") name

theorem mem_requiredNames_iff {required : Json} {names : List String}
    (h : requiredNames required = .ok names) (name : String) :
    name ∈ names ↔ Lists required name := by
  unfold requiredNames at h
  split at h
  · next hempty =>
    -- Nothing is listed by a value that counts as false.
    cases h
    cases required with
    | arr items => simp_all [Json.isTruthy, Lists]
    | str s => simp_all [Json.isTruthy, Lists]
    | obj entries => simp_all [Json.isTruthy, Lists, Entries.keys]
    | _ => simp [Lists]
  · split at h
    · cases h
      simp [Lists, eq_comm]
    · cases h
      rfl
    · split at h
      · next items _ _ =>
        cases h
        rw [Lists, List.mem_filterMap]
        constructor
        · rintro ⟨item, hitem, hname⟩
          cases item with
          | str s =>
            cases hname
            exact hitem
          | _ => cases hname
        · intro hmem
          exact ⟨.str name, hmem, rfl⟩
      · cases h
    · cases h

/-- The fields that come from the properties of a schema: one for each, required if the schema
requires it. -/
structure FieldsOf (schema : Entries Json) (fields : List (Member SchemaNode)) : Prop where
  names : fields.map Member.name = propertyNames schema
  required : ∀ name, RequiredIn fields name ↔ name ∈ propertyNames schema ∧ Requires schema name

theorem names_of_fieldForm {part : Json → SchemaNode → Prop} {required : List String}
    {properties : Entries Json} {fields : List (Member SchemaNode)}
    (h : List.Forall₂ (FieldForm part required) properties fields) :
    fields.map Member.name = properties.keys := by
  induction h with
  | nil => rfl
  | cons hfield _ ih =>
    rw [List.map_cons, ih, hfield.1]
    rfl

theorem requiredIn_of_fieldForm {part : Json → SchemaNode → Prop} {required : List String}
    {properties : Entries Json} {fields : List (Member SchemaNode)}
    (h : List.Forall₂ (FieldForm part required) properties fields) (name : String) :
    RequiredIn fields name ↔ name ∈ properties.keys ∧ name ∈ required := by
  induction h with
  | nil => simp [RequiredIn, Entries.keys]
  | @cons property field properties fields hfield _ ih =>
    obtain ⟨hname, hoptional, -⟩ := hfield
    have hkeys : Entries.keys (property :: properties) =
        property.1 :: Entries.keys properties := rfl
    have hiff : field.optional = false ↔ property.1 ∈ required := by simp [hoptional]
    rw [requiredIn_cons, ih, hname, hiff, hkeys, List.mem_cons]
    constructor
    · rintro (⟨rfl, hmem⟩ | ⟨hmem, hrequired⟩)
      · exact ⟨.inl rfl, hmem⟩
      · exact ⟨.inr hmem, hrequired⟩
    · rintro ⟨rfl | hmem, hrequired⟩
      · exact .inl ⟨rfl, hrequired⟩
      · exact .inr ⟨hmem, hrequired⟩

theorem fieldsOf_of_objectForm {part : Json → SchemaNode → Prop} {schema : Entries Json}
    {note : Note} {node : SchemaNode} (h : ObjectForm part schema note node)
    (hinline : IsInlineObject schema) {fields : List (Member SchemaNode)}
    (hnode : HasFields node fields) : FieldsOf schema fields := by
  obtain ⟨-, properties, hproperties⟩ := hinline
  have hnames : propertyNames schema = Entries.keys properties := by
    rw [propertyNames, hproperties]
  obtain ⟨isOpen, note', rfl⟩ := hnode
  cases h with
  | listed hrequired hlisted hfields =>
    rw [hproperties] at hlisted
    cases hlisted
    refine ⟨by rw [names_of_fieldForm hfields, hnames], fun name => ?_⟩
    rw [requiredIn_of_fieldForm hfields, hnames, mem_requiredNames_iff hrequired]
    rfl
  | closed hempty =>
    -- An object without fields says that there are no properties.
    have hnil : properties = [] := by
      simpa [Entries.field, hproperties, Json.isTruthy] using hempty
    subst hnil
    exact ⟨hnames.symm, by simp [RequiredIn, hnames, Entries.keys]⟩

/-- A node that null is let into is no object. -/
theorem not_hasFields_withNull (node : SchemaNode) (fields : List (Member SchemaNode)) :
    ¬HasFields node.withNull fields := by
  rintro ⟨isOpen, note, h⟩
  cases node with
  | union members _ =>
    unfold SchemaNode.withNull at h
    split at h
    · cases h
    · split at h <;> cases h
  | _ => cases h

theorem hasFields_of_withNullable {schema : Entries Json} {node : SchemaNode}
    {fields : List (Member SchemaNode)} (h : HasFields (withNullable schema node) fields) :
    HasFields node fields := by
  unfold withNullable at h
  split at h
  · exact absurd h (not_hasFields_withNull node fields)
  · exact h

theorem not_hasFields_of_primitiveNode {type : Json} {note : Note} {location : Location}
    {node : SchemaNode} (h : primitiveNode type note location = .ok node)
    (fields : List (Member SchemaNode)) : ¬HasFields node fields := by
  rintro ⟨isOpen, note', hfields⟩
  obtain ⟨name, make, -, hmake, rfl⟩ := primitiveNode_eq_ok_iff.mp h
  rcases primitive?_cases hmake with ⟨kind, rfl⟩ | rfl
  · cases hfields
  · cases hfields

theorem fieldsOf_of_typedForm {part : Json → SchemaNode → Prop} {schema : Entries Json}
    {type : Json} {node : SchemaNode} (h : TypedForm part schema type node)
    (hinline : IsInlineObject schema) {fields : List (Member SchemaNode)}
    (hnode : HasFields node fields) : FieldsOf schema fields := by
  induction h with
  | impliedObject _ hobject _ => exact fieldsOf_of_objectForm hobject hinline hnode
  | object hobject _ => exact fieldsOf_of_objectForm hobject hinline hnode
  | sole _ ih => exact ih hnode
  | primitive hprimitive _ => exact absurd hnode (not_hasFields_of_primitiveNode hprimitive fields)
  | objectOrNull _ _ _ => exact absurd hnode (not_hasFields_withNull _ fields)
  | arrayOrNull _ _ _ => exact absurd hnode (not_hasFields_withNull _ fields)
  | impliedArray _ _ harray _ =>
    obtain ⟨isOpen, note, rfl⟩ := hnode
    cases harray
  | array harray _ =>
    obtain ⟨isOpen, note, rfl⟩ := hnode
    cases harray
  | untyped _ =>
    obtain ⟨isOpen, note, h⟩ := hnode
    cases h
  | primitives _ _ _ =>
    obtain ⟨isOpen, note, h⟩ := hnode
    cases h

/-- The fields of an object that is written in place come from its own properties. -/
theorem fieldsOf_of_convertWith {follow : Json → Location → Result} {schema : Entries Json}
    {location : Location} {node : SchemaNode}
    (h : convertWith follow (.obj schema) location = .ok node) (hinline : IsInlineObject schema)
    {fields : List (Member SchemaNode)} (hnode : HasFields node fields) :
    FieldsOf schema fields := by
  have hnone : ∀ keyword ∈ "allOf" :: keywordsBeforeAllOf, ∀ value,
      schema.get? keyword ≠ some value := by
    intro keyword hkeyword value heq
    rw [hinline.1 keyword hkeyword] at heq
    cases heq
  cases form_of_convertWith h with
  | reference hreference => exact absurd hreference (hnone _ (by decide) _)
  | entries _ hentries =>
    cases hentries with
    | const hvalue _ => exact absurd hvalue (hnone _ (by decide) _)
    | enum hvalues _ => exact absurd hvalues (hnone _ (by decide) _)
    | intersection hparts _ _ _ => exact absurd hparts (hnone _ (by decide) _)
    | union hkeyword hoptions _ _ =>
      rcases hkeyword with rfl | rfl
      · exact absurd hoptions (hnone _ (by decide) _)
      · exact absurd hoptions (hnone _ (by decide) _)
    | typed htyped => exact fieldsOf_of_typedForm htyped hinline (hasFields_of_withNullable hnode)

/-! ## Intersections of objects -/

/-- A schema whose first keyword is the list of an intersection takes its members apart. -/
theorem planOf_allOf {schema : Entries Json} {first : Json} {rest : List Json}
    (hfirst : ∀ keyword ∈ keywordsBeforeAllOf, schema.get? keyword = none)
    (hallOf : schema.get? "allOf" = some (.arr (first :: rest))) :
    (∃ keyword, planOf (.obj schema) = .refusal (.keyword keyword)) ∨
      planOf (.obj schema) = .parts (listed "allOf" 0 (first :: rest)) fun location nodes =>
        (intersectionOf nodes location (schema.field "description")).map
          (withNullable schema) := by
  have hnone : ∀ keyword ∈ keywordsBeforeAllOf, Entries.get? schema keyword = none := hfirst
  rw [planOf]
  cases refusedKeywords.find? (Entries.has schema) with
  | some keyword => exact .inl ⟨keyword, rfl⟩
  | none =>
    right
    dsimp only
    rw [planOfReference, hnone "$ref" (by decide)]
    dsimp only
    rw [planOfEntries, hnone "const" (by decide), hnone "enum" (by decide),
      hnone "anyOf" (by decide), hnone "oneOf" (by decide), hallOf]
    rfl

/-- The fields of objects that are taken together, in terms of the schemas that they come from. -/
theorem merged_of_fieldsOf {members : List (Entries Json)}
    {lists : List (List (Member SchemaNode))} (h : List.Forall₂ FieldsOf members lists) :
    (lists.flatten.foldl mergeField []).map Member.name =
        (members.flatMap propertyNames).eraseDups ∧
      ∀ name, RequiredIn (lists.flatten.foldl mergeField []) name ↔
        ∃ member ∈ members, name ∈ propertyNames member ∧ Requires member name := by
  have hnames : lists.flatten.map Member.name = members.flatMap propertyNames := by
    induction h with
    | nil => rfl
    | cons hfields _ ih =>
      rw [List.flatten_cons, List.map_append, List.flatMap_cons, hfields.names, ih]
  refine ⟨?_, fun name => ?_⟩
  · have hnone : List.map Member.name ([] : List (Member SchemaNode)) = [].eraseDups := rfl
    rw [names_foldl_mergeField hnone, hnames, List.nil_append]
  · rw [requiredIn_foldl_mergeField, requiredIn_flatten]
    have hnil : ¬RequiredIn [] name := by simp [RequiredIn]
    constructor
    · rintro (hrequired | ⟨fields, hfields, hrequired⟩)
      · exact absurd hrequired hnil
      · obtain ⟨member, hmember, hof⟩ := exists_left_of_forall₂ h hfields
        exact ⟨member, hmember, (hof.required name).mp hrequired⟩
    · rintro ⟨member, hmember, hrequired⟩
      obtain ⟨fields, hfields, hof⟩ := exists_right_of_forall₂ h hmember
      exact .inr ⟨fields, hfields, (hof.required name).mpr hrequired⟩

section
variable {sources : Sources} {stop : Json → Location → ConversionError} {budget : Nat}
  {location : Location} {node : SchemaNode} {schema : Entries Json} {members : List (Entries Json)}

/-- The members of an intersection have fields that come from their own properties, and all of these
are merged. -/
theorem exists_merged_of_parts {nodes : List SchemaNode} {description : Json}
    (htwo : 2 ≤ members.length) (hinline : ∀ member ∈ members, IsInlineObject member)
    (hnodes : List.Forall₂ (fun part n =>
      convert sources stop budget part.1 (location.below part.2) = .ok n)
      (listed "allOf" 0 (members.map Json.obj)) nodes)
    (h : intersectionOf nodes location description = .ok node) :
    ∃ lists isOpen, List.Forall₂ FieldsOf members lists ∧
      node = .object (lists.flatten.foldl mergeField []) isOpen { description } := by
  have hconverted : List.Forall₂ (fun member n => ∃ l,
      convertWith (follower sources stop budget) (.obj member) l = .ok n) members nodes := by
    rw [← List.forall₂_map_left_iff (f := Json.obj)
      (R := fun part n => ∃ l, convertWith (follower sources stop budget) part l = .ok n),
      ← map_fst_listed "allOf" 0 (members.map Json.obj), List.forall₂_map_left_iff]
    refine hnodes.imp fun part n hn => ⟨location.below part.2, ?_⟩
    rw [← convert_eq_convertWith]
    exact hn
  have hmany : 2 ≤ nodes.length := hconverted.length_eq ▸ htwo
  unfold intersectionOf at h
  split at h
  · simp at hmany
  · obtain ⟨⟨merged, isOpen⟩, hmerged, rfl⟩ := exists_of_map_eq_ok h
    obtain ⟨lists, hlists, rfl⟩ := exists_fields_of_mergeObjects hmerged
    refine ⟨lists, isOpen, ?_, rfl⟩
    have hboth := (List.forall₂_and_left _ _).mpr ⟨hinline, forall₂_comp hconverted hlists⟩
    refine hboth.imp fun member fields hmember => ?_
    obtain ⟨hobject, n, ⟨l, hn⟩, hfields⟩ := hmember
    exact fieldsOf_of_convertWith hn hobject hfields

theorem exists_merged_of_convert
    (hfirst : ∀ keyword ∈ keywordsBeforeAllOf, schema.get? keyword = none)
    (hallOf : schema.get? "allOf" = some (.arr (members.map Json.obj)))
    (htwo : 2 ≤ members.length) (hinline : ∀ member ∈ members, IsInlineObject member)
    (h : convert sources stop budget (.obj schema) location = .ok node) :
    ∃ fields isOpen note, node = withNullable schema (.object fields isOpen note) ∧
      fields.map Member.name = (members.flatMap propertyNames).eraseDups ∧
      ∀ name, RequiredIn fields name ↔
        ∃ member ∈ members, name ∈ propertyNames member ∧ Requires member name := by
  have hnonempty : ∃ first rest, members.map Json.obj = first :: rest := by
    cases members with
    | nil => simp at htwo
    | cons first rest => exact ⟨_, _, rfl⟩
  obtain ⟨first, rest, hcons⟩ := hnonempty
  rw [hcons] at hallOf
  have hplan := planOf_allOf hfirst hallOf
  rcases cases_of_convert_eq_ok h with
    ⟨_, _, _, _, _, hreference, -⟩ | ⟨ps, build, nodes, hparts, hnodes, hbuilt⟩
  · rcases hplan with ⟨keyword, hplan⟩ | hplan
    · exact absurd (hplan.symm.trans hreference) (by simp [Plan.refusal])
    · exact absurd (hplan.symm.trans hreference) (by simp)
  · rcases hplan with ⟨keyword, hplan⟩ | hplan
    · exact absurd (hplan.symm.trans hparts) (by simp [Plan.refusal])
    · cases hplan.symm.trans hparts
      obtain ⟨merged, hmerged, rfl⟩ := exists_of_map_eq_ok hbuilt
      rw [← hcons] at hnodes
      obtain ⟨lists, isOpen, hlists, rfl⟩ := exists_merged_of_parts htwo hinline hnodes hmerged
      exact ⟨_, isOpen, _, rfl, merged_of_fieldsOf hlists⟩

end

/-- A field is required exactly if there is a required field of its name, where names are unique. -/
theorem optional_eq_false_iff {fields : List (Member SchemaNode)}
    (hnodup : (fields.map Member.name).Nodup) {field : Member SchemaNode} (hfield : field ∈ fields) :
    field.optional = false ↔ RequiredIn fields field.name := by
  constructor
  · exact fun hrequired => ⟨field, hfield, rfl, hrequired⟩
  · rintro ⟨other, hother, hname, hrequired⟩
    rw [← List.inj_on_of_nodup_map hnodup hother hfield hname]
    exact hrequired

/-- Several objects written in place, taken together: there is one field for each property that a
member declares, in the order in which the names came first, and it is required exactly if a member
that declares the property requires it.  So requiring is enough wherever a name that one member
requires and any declares is also required by a member that declares it, and only there. -/
theorem fields_of_allOf {entries : Entries Json} {members : List (Entries Json)}
    {external? : Option (Json → Except Fault Json)} {limit : ReferenceLimit} {node : SchemaNode}
    (hfirst : ∀ keyword ∈ keywordsBeforeAllOf, entries.get? keyword = none)
    (hallOf : entries.get? "allOf" = some (.arr (members.map Json.obj)))
    (htwo : 2 ≤ members.length) (hinline : ∀ member ∈ members, IsInlineObject member)
    (h : ofDocument (.obj entries) external? limit = .ok node) :
    ∃ fields isOpen note, node = withNullable entries (.object fields isOpen note) ∧
      fields.map Member.name = (members.flatMap propertyNames).eraseDups ∧
      (∀ field ∈ fields, field.optional = false ↔
        ∃ member ∈ members, field.name ∈ propertyNames member ∧ Requires member field.name) ∧
      ((∀ field ∈ fields, field.optional = false ↔
          ∃ member ∈ members, Requires member field.name) ↔
        ∀ name, (∃ member ∈ members, name ∈ propertyNames member) →
          (∃ member ∈ members, Requires member name) →
          ∃ member ∈ members, name ∈ propertyNames member ∧ Requires member name) := by
  obtain ⟨fields, isOpen, note, rfl, hnames, hrequired⟩ :=
    exists_merged_of_convert hfirst hallOf htwo hinline h
  have hnodup : (fields.map Member.name).Nodup := hnames ▸ nodup_eraseDups _
  have hexact : ∀ field ∈ fields, field.optional = false ↔
      ∃ member ∈ members, field.name ∈ propertyNames member ∧ Requires member field.name :=
    fun field hfield => (optional_eq_false_iff hnodup hfield).trans (hrequired field.name)
  -- the two readings differ where one member requires what only another one declares
  refine ⟨fields, isOpen, note, rfl, hnames, hexact, ?_⟩
  constructor
  · rintro hall name ⟨member, hmember, hdeclares⟩ hrequires
    have hmem : name ∈ fields.map Member.name := by
      rw [hnames, List.mem_eraseDups]
      exact List.mem_flatMap.mpr ⟨member, hmember, hdeclares⟩
    obtain ⟨field, hfield, rfl⟩ := List.mem_map.mp hmem
    exact (hexact field hfield).mp ((hall field hfield).mpr hrequires)
  · intro hall field hfield
    have hdeclared : ∃ member ∈ members, field.name ∈ propertyNames member := by
      have hmem := List.mem_map_of_mem (f := Member.name) hfield
      rw [hnames, List.mem_eraseDups] at hmem
      exact List.mem_flatMap.mp hmem
    rw [hexact field hfield]
    constructor
    · rintro ⟨member, hmember, -, hrequires⟩
      exact ⟨member, hmember, hrequires⟩
    · exact hall field.name hdeclared

/-- Two objects, the second of which requires a property that only the first declares. -/
def requiringMembers : List (Entries Json) :=
  [[("type", .str "object"), ("properties", .obj [("a", .obj [("type", .str "string")])])],
    [("type", .str "object"), ("properties", .obj [("b", .obj [("type", .str "string")])]),
      ("required", .arr [.str "a"])]]

/-- What a member requires stays optional where only another member declares it. -/
theorem fields_of_allOf_requiringMembers :
    ∃ fields isOpen note,
      ofDocument (.obj [("allOf", .arr (requiringMembers.map Json.obj))]) none (.ofInt 16) =
        .ok (.object fields isOpen note) ∧
      fields.map Member.name = ["a", "b"] ∧ (∃ member ∈ requiringMembers, Requires member "a") ∧
      ¬∀ field ∈ fields, field.optional = false ↔
        ∃ member ∈ requiringMembers, Requires member field.name := by
  have hdocument :
      ofDocument (.obj [("allOf", .arr (requiringMembers.map Json.obj))]) none (.ofInt 16) =
        .ok (.object [⟨"a", true, .primitive .string {}⟩, ⟨"b", true, .primitive .string {}⟩] false
          {}) := by cbv
  have hinline : ∀ member ∈ requiringMembers, IsInlineObject member := by
    simp [requiringMembers, IsInlineObject, keywordsBeforeAllOf, Entries.get?_cons]
  have hrequires : ∃ member ∈ requiringMembers, Requires member "a" :=
    ⟨_, List.mem_cons_of_mem _ List.mem_cons_self, List.mem_singleton_self _⟩
  have hallOf : Entries.get? [("allOf", Json.arr (requiringMembers.map Json.obj))] "allOf" =
      some (Json.arr (requiringMembers.map Json.obj)) := rfl
  obtain ⟨fields, isOpen, note, hnode, hnames, -, hiff⟩ :=
    fields_of_allOf (by decide) hallOf (by decide) hinline hdocument
  cases hnode
  refine ⟨_, _, _, hdocument, hnames, hrequires, fun hall => ?_⟩
  -- The member that declares the name does not require it, the one that requires it declares another.
  obtain ⟨member, hmember, hdeclares, hlists⟩ := hiff.mp hall "a" (by decide) hrequires
  rcases List.mem_pair.mp hmember with rfl | rfl
  · exact hlists
  · exact absurd hdeclares (by decide)

end SchemaTypings.Schema
