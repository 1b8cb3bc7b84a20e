/-
  SchemaTypings.Proofs.Schema.Form

  How a node comes from a schema, one step at a time: all ways in which a conversion can succeed,
  with the parts of the schema and the nodes that have come from them.

  The forms take the relations between parts and their nodes as parameters.  `form_of_convertWith`
  is the one place where the conversion is opened; what holds of converted nodes is shown by cases
  on the forms, with `ofDocument_induction` for what is passed on from the parts to the whole.
-/
import SchemaTypings.Schema.Convert
import SchemaTypings.Proofs.Rows

namespace SchemaTypings.Schema

/-! ## Forms -/

section
variable (part : Json → SchemaNode → Prop)

/-- A field that comes from a listed property. -/
def FieldForm (required : List String) (property : String × Json) (field : Member SchemaNode) :
    Prop :=
  field.name = property.1 ∧ field.optional = !required.contains property.1 ∧
    part property.2 field.type

/-- A node that comes from a schema of objects. -/
inductive ObjectForm (schema : Entries Json) (note : Note) : SchemaNode → Prop where
  | listed {required : List String} {properties : Entries Json} {fields : List (Member SchemaNode)}
      {isOpen : Bool} (hrequired : requiredNames (schema.field "required") = .ok required)
      (hproperties : schema.get? "properties" = some (.obj properties))
      (hfields : List.Forall₂ (FieldForm part required) properties fields) :
      ObjectForm schema note (.object fields isOpen note)
  | closed (hproperties : (schema.field "properties").isTruthy = false) :
      ObjectForm schema note (.object [] false note)
  | values {additional : Json} {node : SchemaNode}
      (hproperties : (schema.field "properties").isTruthy = false)
      (hadditional : schema.get? "additionalProperties" = some additional)
      (hnode : part additional node) : ObjectForm schema note (.record node note)
  | anyValues : ObjectForm schema note (.record (.any {}) note)

/-- A node that comes from a schema of lists. -/
inductive ArrayForm (schema : Entries Json) (note : Note) : SchemaNode → Prop where
  | items {items : Json} {node : SchemaNode} (hitems : schema.get? "items" = some items)
      (hnode : part items node) : ArrayForm schema note (.array node note)
  | anyItems : ArrayForm schema note (.array (.any {}) note)

/-- A node that comes from a schema read as of a type.  What the schema states as constraints is
noted. -/
inductive TypedForm (schema : Entries Json) : Json → SchemaNode → Prop where
  | untyped {note : Note} (hnote : note.constraints = constraints schema) :
      TypedForm schema .null (.any note)
  | impliedObject {note : Note} {node : SchemaNode}
      (himplied : (schema.has "properties" || schema.has "additionalProperties") = true)
      (hnode : ObjectForm part schema note node) (hnote : note.constraints = constraints schema) :
      TypedForm schema .null node
  | impliedArray {note : Note} {node : SchemaNode}
      (hother : (schema.has "properties" || schema.has "additionalProperties") = false)
      (himplied : schema.has "items" = true) (hnode : ArrayForm part schema note node)
      (hnote : note.constraints = constraints schema) : TypedForm schema .null node
  | object {note : Note} {node : SchemaNode} (hnode : ObjectForm part schema note node)
      (hnote : note.constraints = constraints schema) : TypedForm schema (.str "object") node
  | array {note : Note} {node : SchemaNode} (hnode : ArrayForm part schema note node)
      (hnote : note.constraints = constraints schema) : TypedForm schema (.str "array") node
  | primitive {type : Json} {note : Note} {location : Location} {node : SchemaNode}
      (hnode : primitiveNode type note location = .ok node)
      (hnote : note.constraints = constraints schema) : TypedForm schema type node
  | sole {only : Json} {node : SchemaNode} (hnode : TypedForm schema only node) :
      TypedForm schema (.arr [only]) node
  /-- All other names in the list are `null`. -/
  | objectOrNull {types : List Json} {note : Note} {node : SchemaNode}
      (htypes : ∀ type ∈ types, isNullName type = true ∨ type = .str "object")
      (hnode : ObjectForm part schema note node) (hnote : note.constraints = constraints schema) :
      TypedForm schema (.arr types) node.withNull
  | arrayOrNull {types : List Json} {note : Note} {node : SchemaNode}
      (htypes : ∀ type ∈ types, isNullName type = true ∨ type = .str "array")
      (hnode : ArrayForm part schema note node) (hnote : note.constraints = constraints schema) :
      TypedForm schema (.arr types) node.withNull
  | primitives {types : List Json} {note : Note} {location : Location} {nodes : List SchemaNode}
      {description : Json} (hlength : 2 ≤ types.length)
      (hnodes : primitiveNodes note location types = .ok nodes)
      (hnote : note.constraints = constraints schema) :
      TypedForm schema (.arr types) (.union nodes { description })

/-- A node that comes from a schema object without a reference. -/
inductive EntriesForm (schema : Entries Json) : SchemaNode → Prop where
  | const {value description : Json} {location : Location} {node : SchemaNode}
      (hvalue : schema.get? "const" = some value)
      (hnode : literalNode value location description = .ok node) : EntriesForm schema node
  | enum {values description : Json} {location : Location} {node : SchemaNode}
      (hvalues : schema.get? "enum" = some values)
      (hnode : enumNode values location description = .ok node) : EntriesForm schema node
  | union {keyword : String} {options : List Json} {nodes : List SchemaNode} {description : Json}
      (hkeyword : keyword = "anyOf" ∨ keyword = "oneOf")
      (hoptions : schema.get? keyword = some (.arr options)) (hnonempty : options ≠ [])
      (hnodes : List.Forall₂ part options nodes) : EntriesForm schema (unionOf nodes description)
  | intersection {parts : List Json} {nodes : List SchemaNode} {description : Json}
      {location : Location} {node : SchemaNode}
      (hparts : schema.get? "allOf" = some (.arr parts)) (hnonempty : parts ≠ [])
      (hnodes : List.Forall₂ part parts nodes)
      (hnode : intersectionOf nodes location description = .ok node) : EntriesForm schema node
  | typed {node : SchemaNode} (hnode : TypedForm part schema (schema.field "type") node) :
      EntriesForm schema node

/-- The node with null let in, if the schema has that keyword. -/
def withNullable (schema : Entries Json) (node : SchemaNode) : SchemaNode :=
  match schema.get? "nullable" with
  | some (.bool true) => node.withNull
  | _ => node

/-- Letting null in may be settled before the outcome is looked at. -/
theorem map_withNullable {schema : Entries Json} (outcome : Result) :
    outcome.map (withNullable schema) =
      match schema.get? "nullable" with
      | some (.bool true) => outcome.map SchemaNode.withNull
      | _ => outcome := by
  unfold withNullable
  split <;> cases outcome <;> rfl

/-- A node that comes from a schema, where `target` relates references and nodes. -/
inductive Form (target : Json → SchemaNode → Prop) : Json → SchemaNode → Prop where
  | everything : Form target (.bool true) (.any {})
  | reference {schema : Entries Json} {reference : Json} {node described : SchemaNode}
      (hreference : schema.get? "$ref" = some reference) (hnode : target reference node)
      (hdescribed : described = node ∨ ∃ description, described = node.withDescription description) :
      Form target (.obj schema) (withNullable schema described)
  | entries {schema : Entries Json} {node : SchemaNode} (hreference : schema.get? "$ref" = none)
      (hnode : EntriesForm part schema node) : Form target (.obj schema) (withNullable schema node)

end

/-! ## Weaker relations -/

section
variable {part part' target target' : Json → SchemaNode → Prop}

theorem ObjectForm.imp (hpart : ∀ s n, part s n → part' s n) {schema : Entries Json} {note : Note}
    {node : SchemaNode} (h : ObjectForm part schema note node) :
    ObjectForm part' schema note node := by
  cases h with
  | listed hrequired hproperties hfields =>
    exact .listed hrequired hproperties
      (hfields.imp fun _ _ hfield => ⟨hfield.1, hfield.2.1, hpart _ _ hfield.2.2⟩)
  | closed hproperties => exact .closed hproperties
  | values hproperties hadditional hnode =>
    exact .values hproperties hadditional (hpart _ _ hnode)
  | anyValues => exact .anyValues

theorem ArrayForm.imp (hpart : ∀ s n, part s n → part' s n) {schema : Entries Json} {note : Note}
    {node : SchemaNode} (h : ArrayForm part schema note node) :
    ArrayForm part' schema note node := by
  cases h with
  | items hitems hnode => exact .items hitems (hpart _ _ hnode)
  | anyItems => exact .anyItems

theorem TypedForm.imp (hpart : ∀ s n, part s n → part' s n) {schema : Entries Json} {type : Json}
    {node : SchemaNode} (h : TypedForm part schema type node) :
    TypedForm part' schema type node := by
  induction h with
  | untyped hnote => exact .untyped hnote
  | impliedObject himplied hnode hnote => exact .impliedObject himplied (hnode.imp hpart) hnote
  | impliedArray hother himplied hnode hnote =>
    exact .impliedArray hother himplied (hnode.imp hpart) hnote
  | object hnode hnote => exact .object (hnode.imp hpart) hnote
  | array hnode hnote => exact .array (hnode.imp hpart) hnote
  | primitive hnode hnote => exact .primitive hnode hnote
  | sole _ ih => exact .sole ih
  | objectOrNull htypes hnode hnote => exact .objectOrNull htypes (hnode.imp hpart) hnote
  | arrayOrNull htypes hnode hnote => exact .arrayOrNull htypes (hnode.imp hpart) hnote
  | primitives hlength hnodes hnote => exact .primitives hlength hnodes hnote

theorem EntriesForm.imp (hpart : ∀ s n, part s n → part' s n) {schema : Entries Json}
    {node : SchemaNode} (h : EntriesForm part schema node) : EntriesForm part' schema node := by
  cases h with
  | const hvalue hnode => exact .const hvalue hnode
  | enum hvalues hnode => exact .enum hvalues hnode
  | union hkeyword hoptions hnonempty hnodes =>
    exact .union hkeyword hoptions hnonempty (hnodes.imp hpart)
  | intersection hparts hnonempty hnodes hnode =>
    exact .intersection hparts hnonempty (hnodes.imp hpart) hnode
  | typed hnode => exact .typed (hnode.imp hpart)

theorem Form.imp (hpart : ∀ s n, part s n → part' s n) (htarget : ∀ r n, target r n → target' r n)
    {schema : Json} {node : SchemaNode} (h : Form part target schema node) :
    Form part' target' schema node := by
  cases h with
  | everything => exact .everything
  | reference hreference hnode hdescribed =>
    exact .reference hreference (htarget _ _ hnode) hdescribed
  | entries hreference hnode => exact .entries hreference (hnode.imp hpart)

end

/-! ## Conversions have a form -/

section
variable {follow : Json → Location → Result} {location : Location} {node : SchemaNode}

/-- The relation between a schema below a size and what it is converted to. -/
def ConvertsBelow (follow : Json → Location → Result) (bound : Nat) (schema : Json)
    (node : SchemaNode) : Prop :=
  sizeOf schema < bound ∧ ∃ location, convertWith follow schema location = .ok node

theorem ConvertsBelow.mono {bound bound' : Nat} (hle : bound ≤ bound') (schema : Json)
    (node : SchemaNode) (h : ConvertsBelow follow bound schema node) :
    ConvertsBelow follow bound' schema node :=
  ⟨Nat.lt_of_lt_of_le h.1 hle, h.2⟩

theorem forall₂_convertAll {schemas : List Json} {index : Nat} {nodes : List SchemaNode}
    (h : convertAll follow schemas location index = .ok nodes) :
    List.Forall₂ (ConvertsBelow follow (sizeOf schemas)) schemas nodes := by
  induction schemas generalizing index nodes with
  | nil =>
    rw [convertAll] at h
    cases h
    exact .nil
  | cons schema rest ih =>
    rw [convertAll] at h
    cases hnode : convertWith follow schema (location.item index) with
    | error e => rw [hnode] at h; cases h
    | ok node =>
      rw [hnode] at h
      obtain ⟨more, hrest, rfl⟩ := exists_of_map_eq_ok h
      have hsize : sizeOf (schema :: rest) = 1 + sizeOf schema + sizeOf rest := rfl
      refine .cons ⟨by omega, _, hnode⟩ ((ih hrest).imp fun _ _ => ConvertsBelow.mono ?_ _ _)
      omega

theorem forall₂_convertFields {required : List String} {properties : Entries Json}
    {fields : List (Member SchemaNode)}
    (h : convertFields follow required properties location = .ok fields) :
    List.Forall₂ (FieldForm (ConvertsBelow follow (sizeOf properties)) required) properties
      fields := by
  induction properties generalizing fields with
  | nil =>
    rw [convertFields] at h
    cases h
    exact .nil
  | cons property rest ih =>
    obtain ⟨name, schema⟩ := property
    rw [convertFields] at h
    cases hnode : convertWith follow schema (location.child name) with
    | error e => rw [hnode] at h; cases h
    | ok node =>
      rw [hnode] at h
      obtain ⟨more, hrest, rfl⟩ := exists_of_map_eq_ok h
      have hsize : sizeOf ((name, schema) :: rest) =
          1 + (1 + sizeOf name + sizeOf schema) + sizeOf rest := rfl
      have hlt : sizeOf schema < sizeOf ((name, schema) :: rest) := by omega
      refine .cons ⟨rfl, rfl, hlt, _, hnode⟩ ((ih hrest).imp fun _ _ hfield =>
        ⟨hfield.1, hfield.2.1, hfield.2.2.mono ?_ _ _⟩)
      omega

theorem objectForm_of_convertObject {schema : Entries Json} {note : Note}
    (h : convertObject follow schema note location = .ok node) :
    ObjectForm (ConvertsBelow follow (sizeOf schema)) schema note node := by
  rw [convertObject] at h
  split at h
  · cases h
  · next required hrequired =>
    dsimp only at h
    split at h
    · split at h
      · next properties hproperties =>
        obtain ⟨fields, hfields, rfl⟩ := exists_of_map_eq_ok h
        have hsize := Entries.sizeOf_lt_of_get? hproperties
        simp only [Json.obj.sizeOf_spec] at hsize
        refine .listed hrequired hproperties ((forall₂_convertFields hfields).imp ?_)
        exact fun _ _ hfield => ⟨hfield.1, hfield.2.1, hfield.2.2.mono (by omega) _ _⟩
      · cases h
    · next hproperties =>
      rw [Bool.not_eq_true] at hproperties
      split at h
      · cases h
        exact .closed hproperties
      · next first rest hadditional =>
        obtain ⟨values, hnode, rfl⟩ := exists_of_map_eq_ok h
        exact .values hproperties hadditional
          ⟨Entries.sizeOf_lt_of_get? hadditional, _, hnode⟩
      · cases h
        exact .anyValues

theorem arrayForm_of_convertArray {schema : Entries Json} {note : Note}
    (h : convertArray follow schema note location = .ok node) :
    ArrayForm (ConvertsBelow follow (sizeOf schema)) schema note node := by
  rw [convertArray] at h
  split at h
  · cases h
    exact .anyItems
  · cases h
    exact .anyItems
  · cases h
  · next items _ _ hitems =>
    obtain ⟨node, hnode, rfl⟩ := exists_of_map_eq_ok h
    exact .items hitems ⟨Entries.sizeOf_lt_of_get? hitems, _, hnode⟩

theorem eq_of_isStructured {type : Json} (h : isStructured type = true) :
    type = .str "object" ∨ type = .str "array" := by
  unfold isStructured at h
  split at h
  · exact .inl rfl
  · exact .inr rfl
  · cases h

/-- In a list of type names with one that is not `null` at most, a structured one is the only one
that is not `null`. -/
theorem isNullName_or_eq_of_structured {types : List Json} {structured : Json}
    (hfind : types.find? isStructured = some structured)
    (hfew : ¬(types.filter (!isNullName ·)).length > 1) :
    ∀ type ∈ types, isNullName type = true ∨ type = structured := by
  have hnot : isNullName structured = false := by
    rcases eq_of_isStructured (List.find?_some hfind) with rfl | rfl <;> rfl
  intro type htype
  by_cases hnull : isNullName type = true
  · exact .inl hnull
  · have hmem : type ∈ types.filter (!isNullName ·) :=
      List.mem_filter.mpr ⟨htype, by simpa using hnull⟩
    have hmem' : structured ∈ types.filter (!isNullName ·) :=
      List.mem_filter.mpr ⟨List.mem_of_find?_eq_some hfind, by simpa using hnot⟩
    obtain ⟨only, honly⟩ := List.length_eq_one_iff.mp
      (Nat.le_antisymm (Nat.le_of_not_lt hfew) (List.length_pos_of_mem hmem))
    rw [honly, List.mem_singleton] at hmem hmem'
    exact .inr (hmem.trans hmem'.symm)

theorem typedForm_of_convertTyped {schema : Entries Json} {type description : Json}
    (h : convertTyped follow schema type description location = .ok node) :
    TypedForm (ConvertsBelow follow (sizeOf schema)) schema type node := by
  -- Along the lists of one type; every other case is settled at once.
  induction hsize : sizeOf type using Nat.strongRecOn generalizing type with
  | ind size ih =>
    rw [convertTyped.eq_def] at h
    dsimp only at h
    split at h
    · split at h
      · next himplied => exact .impliedObject himplied (objectForm_of_convertObject h) rfl
      · next hother =>
        split at h
        · next himplied =>
          exact .impliedArray (by simpa using hother) himplied (arrayForm_of_convertArray h) rfl
        · cases h
          exact .untyped rfl
    · cases h
    · next only =>
      refine .sole (ih (sizeOf only) ?_ h rfl)
      rw [← hsize]
      simp
      omega
    · next types hnil hone =>
      split at h
      · next structured hfind =>
        split at h
        · cases h
        · next hfew =>
          have htypes := isNullName_or_eq_of_structured hfind hfew
          split at h
          · obtain ⟨object, hnode, rfl⟩ := exists_of_map_eq_ok h
            exact .objectOrNull htypes (objectForm_of_convertObject hnode) rfl
          · next hother =>
            have harray : structured = .str "array" :=
              (eq_of_isStructured (List.find?_some hfind)).resolve_left hother
            obtain ⟨array, hnode, rfl⟩ := exists_of_map_eq_ok h
            exact .arrayOrNull (harray ▸ htypes) (arrayForm_of_convertArray hnode) rfl
      · obtain ⟨nodes, hnodes, rfl⟩ := exists_of_map_eq_ok h
        refine .primitives ?_ hnodes rfl
        rcases types with _ | ⟨only, _ | _⟩
        · exact absurd rfl hnil
        · exact absurd rfl (hone only)
        · simp
    · exact .object (objectForm_of_convertObject h) rfl
    · exact .array (arrayForm_of_convertArray h) rfl
    · exact .primitive h rfl

theorem exists_convertAll_of_convertUnion {options : Json} {keyword : String} {description : Json}
    (h : convertUnion follow options keyword location description = .ok node) :
    ∃ schemas nodes, options = .arr schemas ∧ schemas ≠ [] ∧
      List.Forall₂ (ConvertsBelow follow (sizeOf options)) schemas nodes ∧
        node = unionOf nodes description := by
  rw [convertUnion.eq_def] at h
  split at h
  · next first rest =>
    cases hnodes : convertAll follow (first :: rest) (location.child keyword) 0 with
    | error e => rw [hnodes] at h; cases h
    | ok nodes =>
      rw [hnodes] at h
      cases h
      refine ⟨_, nodes, rfl, List.cons_ne_nil _ _, (forall₂_convertAll hnodes).imp ?_, rfl⟩
      exact fun _ _ => ConvertsBelow.mono (by simp only [Json.arr.sizeOf_spec]; omega) _ _
  · cases h

theorem entriesForm_of_convertEntries {schema : Entries Json}
    (h : convertEntries follow schema location = .ok node) :
    EntriesForm (ConvertsBelow follow (sizeOf schema)) schema node := by
  have hunion : ∀ keyword options, (keyword = "anyOf" ∨ keyword = "oneOf") →
      schema.get? keyword = some options →
      convertUnion follow options keyword location (schema.field "description") = .ok node →
      EntriesForm (ConvertsBelow follow (sizeOf schema)) schema node := by
    intro keyword options hkeyword hoptions h
    obtain ⟨schemas, nodes, rfl, hnonempty, hnodes, rfl⟩ := exists_convertAll_of_convertUnion h
    have hsize := Entries.sizeOf_lt_of_get? hoptions
    exact .union hkeyword hoptions hnonempty
      (hnodes.imp fun _ _ => ConvertsBelow.mono (by omega) _ _)
  -- the keywords are asked in their order, and the first one that is there decides
  rw [convertEntries] at h
  split at h
  · next value hvalue => exact .const hvalue h
  · split at h
    · next values hvalues => exact .enum hvalues h
    · split at h
      · next options hoptions => exact hunion _ _ (.inl rfl) hoptions h
      · split at h
        · next options hoptions => exact hunion _ _ (.inr rfl) hoptions h
        · split at h
          · next first rest hparts =>
            cases hnodes : convertAll follow (first :: rest) (location.child "allOf") 0 with
            | error e => rw [hnodes] at h; cases h
            | ok nodes =>
              rw [hnodes] at h
              have hsize := Entries.sizeOf_lt_of_get? hparts
              simp only [Json.arr.sizeOf_spec] at hsize
              refine .intersection hparts (List.cons_ne_nil _ _)
                ((forall₂_convertAll hnodes).imp ?_) h
              exact fun _ _ => ConvertsBelow.mono (by omega) _ _
          · cases h
          · exact .typed (typedForm_of_convertTyped h)

/-- Every conversion that succeeds has one of the forms. -/
theorem form_of_convertWith {schema : Json} (h : convertWith follow schema location = .ok node) :
    Form (ConvertsBelow follow (sizeOf schema))
      (fun reference node => ∃ location, follow reference location = .ok node) schema node := by
  rw [convertWith.eq_def] at h
  split at h
  · cases h
    exact .everything
  · cases h
  · next entries =>
    have hsize : sizeOf entries ≤ sizeOf (Json.obj entries) := by
      simp only [Json.obj.sizeOf_spec]
      omega
    split at h
    · cases h
    · -- The node before null is let in.
      dsimp only at h
      obtain ⟨plain, hplain, rfl⟩ := exists_of_map_eq_ok ((map_withNullable _).trans h)
      split at hplain
      · next reference hreference =>
        obtain ⟨target, hnode, rfl⟩ := exists_of_map_eq_ok hplain
        refine .reference hreference ⟨location, hnode⟩ ?_
        split
        · next description _ => exact .inr ⟨description, rfl⟩
        · exact .inl rfl
      · next hreference =>
        refine .entries hreference ((entriesForm_of_convertEntries hplain).imp ?_)
        exact fun _ _ => ConvertsBelow.mono hsize _ _
  · cases h

/-! ## Induction along a conversion -/

/-- What every form passes on from the parts to the whole holds of all that is converted, if it does
of what references are followed to. -/
theorem convertWith_induction {P : SchemaNode → Prop}
    (hform : ∀ schema node, Form (fun _ n => P n) (fun _ n => P n) schema node → P node)
    (hfollow : ∀ reference location node, follow reference location = .ok node → P node)
    {schema : Json} (h : convertWith follow schema location = .ok node) : P node := by
  induction hsize : sizeOf schema using Nat.strongRecOn generalizing schema location node with
  | ind size ih =>
    refine hform schema node ((form_of_convertWith h).imp ?_ ?_)
    · rintro part n ⟨hlt, _, hn⟩
      exact ih (sizeOf part) (by omega) hn rfl
    · rintro reference n ⟨_, hn⟩
      exact hfollow _ _ _ hn

end

theorem convert_induction {P : SchemaNode → Prop}
    (hform : ∀ schema node, Form (fun _ n => P n) (fun _ n => P n) schema node → P node)
    {sources : Sources} {stop : Json → Location → ConversionError} {budget : Nat} {schema : Json}
    {location : Location} {node : SchemaNode}
    (h : convert sources stop budget schema location = .ok node) : P node := by
  induction budget generalizing schema location node with
  | zero =>
    refine convertWith_induction hform ?_ h
    intro _ _ _ hfollow
    cases hfollow
  | succ budget ih =>
    refine convertWith_induction hform ?_ h
    intro reference location node hfollow
    split at hfollow
    · cases hfollow
    · exact ih hfollow

/-- What every form passes on from the parts to the whole holds of every converted document. -/
theorem ofDocument_induction {P : SchemaNode → Prop}
    (hform : ∀ schema node, Form (fun _ n => P n) (fun _ n => P n) schema node → P node)
    {document : Json} {external? : Option (Json → Except Fault Json)} {limit : ReferenceLimit}
    {node : SchemaNode} (h : ofDocument document external? limit = .ok node) : P node :=
  convert_induction hform h

end SchemaTypings.Schema
