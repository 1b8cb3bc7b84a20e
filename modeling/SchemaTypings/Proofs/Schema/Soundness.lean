/-
  SchemaTypings.Proofs.Schema.Soundness

  Conversion loses no values: what is valid for a schema document is among the values of the node
  that it is converted to.

  `accepts_of_form` takes one step of a conversion, given that no part loses a value; the steps are
  put together by induction on the depth to which a value has been found valid.
-/
import SchemaTypings.Proofs.Schema.Denotation
import SchemaTypings.Proofs.Schema.Form
import Mathlib.Tactic

namespace SchemaTypings.Schema

open SchemaNode

section
variable {valid : Json → Json → Bool} {part : Json → SchemaNode → Prop} {schema : Entries Json}
  {node : SchemaNode} {v : Json}

/-! ## Keywords -/

/-- A value meets each keyword of a schema that it meets. -/
theorem meetsKeyword_of_get? (h : meetsKeywords valid schema v = true) {keyword : String}
    {argument : Json} (hget : schema.get? keyword = some argument) :
    meetsKeyword valid schema v keyword argument = true := by
  rw [meetsKeywords, Bool.and_eq_true, List.all_eq_true] at h
  exact h.2 _ (Entries.mem_of_get? hget)

theorem impliedType_of_meetsKeywords (h : meetsKeywords valid schema v = true) :
    (impliedType? schema).all (isOfNamedType · v) = true := by
  rw [meetsKeywords, Bool.and_eq_true] at h
  exact h.1

/-! ## Types -/

theorem isOfType_of_isOfNamedType {type : Json} (h : isOfNamedType type v = true) :
    isOfType type v = true := by
  cases type with
  | arr _ => simp [isOfNamedType] at h
  | _ => exact h

theorem eq_null_of_isNullName {type : Json} (hnull : isNullName type = true)
    (h : isOfNamedType type v = true) : v = .null := by
  unfold isNullName at hnull
  split at hnull
  · cases v <;> simp [isOfNamedType] at h ⊢
  · cases hnull

theorem exists_obj_of_isOfNamedType (h : isOfNamedType (.str "object") v = true) :
    ∃ entries, v = .obj entries := by
  cases v <;> simp [isOfNamedType] at h ⊢

theorem exists_arr_of_isOfNamedType (h : isOfNamedType (.str "array") v = true) :
    ∃ members, v = .arr members := by
  cases v <;> simp [isOfNamedType] at h ⊢

/-! ## Objects and lists -/

/-- A property that is required by name is there. -/
theorem has_of_mem_requiredNames {required : List String} {entries : Entries Json}
    (h : meetsKeywords valid schema (.obj entries) = true)
    (hrequired : requiredNames (schema.field "required") = .ok required) {name : String}
    (hname : name ∈ required) : entries.has name = true := by
  rw [Entries.field] at hrequired
  cases hget : schema.get? "required" with
  | none =>
    rw [hget] at hrequired
    cases hrequired
    cases hname
  | some argument =>
    have hmeets := meetsKeyword_of_get? h hget
    rw [hget, Option.getD_some] at hrequired
    cases argument with
    | arr items =>
      have hall : meetsRequired items (.obj entries) = true := hmeets
      rw [meetsRequired, List.all_eq_true] at hall
      unfold requiredNames at hrequired
      split at hrequired
      · cases hrequired
        cases hname
      · dsimp only at hrequired
        split at hrequired
        · cases hrequired
          obtain ⟨item, hitem, heq⟩ := List.mem_filterMap.mp hname
          have hthere := hall item hitem
          split at heq
          · cases heq
            exact hthere
          · cases heq
        · cases hrequired
    | _ => cases hmeets

/-! ## Null and alternatives -/

/-- One of several alternatives is met where exactly one is. -/
theorem exists_valid_of_union {keyword : String} {options : List Json}
    (hkeyword : keyword = "anyOf" ∨ keyword = "oneOf")
    (hv : meetsKeyword valid schema v keyword (.arr options) = true) :
    ∃ option ∈ options, valid option v = true := by
  rcases hkeyword with rfl | rfl
  · have hany : options.any (valid · v) = true := hv
    exact List.any_eq_true.mp hany
  · have hone : decide (options.countP (valid · v) = 1) = true := hv
    have hpos : 0 < options.countP (valid · v) := by
      rw [of_decide_eq_true hone]
      exact Nat.one_pos
    exact List.countP_pos_iff.mp hpos

theorem eq_null_of_meetsNullable (h : meetsNullable schema v = true) :
    v = .null ∧ schema.get? "nullable" = some (.bool true) := by
  unfold meetsNullable at h
  split at h
  · next hnullable => exact ⟨rfl, hnullable⟩
  · cases h

theorem accepts_withNullable (h : meetsNullable schema v = true ∨ node.accepts v = true) :
    (withNullable schema node).accepts v = true := by
  unfold withNullable
  split
  · exact accepts_withNull (h.imp_left fun hnull => (eq_null_of_meetsNullable hnull).1)
  · next hnot =>
    rcases h with hnull | h
    · exact absurd (eq_null_of_meetsNullable hnull).2 hnot
    · exact h

/-! ## Parts -/

variable (hpart : ∀ s n, part s n → ∀ v, valid s v = true → n.accepts v = true)
include hpart

/-- A field finds its value among entries that have what is required and are valid. -/
theorem acceptsField_of_fieldForm {required : List String} {property : String × Json}
    {field : Member SchemaNode} {entries : Entries Json}
    (hfield : FieldForm part required property field)
    (hrequired : ∀ name ∈ required, entries.has name = true)
    (hvalid : (entries.get? property.1).all (valid property.2) = true) :
    acceptsField field entries = true := by
  obtain ⟨hname, hoptional, hnode⟩ := hfield
  rw [acceptsField_eq, hname]
  split
  · next value hvalue =>
    rw [hvalue, Option.all_some] at hvalid
    exact hpart _ _ hnode _ hvalid
  · next hnone =>
    rw [hoptional, Bool.not_eq_true']
    by_contra hcontains
    have hhas := hrequired _ (by simpa using hcontains)
    rw [Entries.has_eq_isSome, hnone] at hhas
    cases hhas

theorem accepts_of_objectForm {note : Note} (h : ObjectForm part schema note node)
    (hmeets : meetsKeywords valid schema v = true) (hv : isOfNamedType (.str "object") v = true) :
    node.accepts v = true := by
  obtain ⟨entries, rfl⟩ := exists_obj_of_isOfNamedType hv
  cases h with
  | listed hrequired hproperties hfields =>
    refine accepts_object.mpr ⟨entries, rfl, ?_⟩
    intro field hfield
    obtain ⟨property, hproperty, hform⟩ := exists_left_of_forall₂ hfields hfield
    have hvalid : meetsProperties valid _ (.obj entries) = true :=
      meetsKeyword_of_get? hmeets hproperties
    rw [meetsProperties, List.all_eq_true] at hvalid
    exact acceptsField_of_fieldForm hpart hform
      (fun name hname => has_of_mem_requiredNames hmeets hrequired hname) (hvalid _ hproperty)
  | closed => exact accepts_object.mpr ⟨entries, rfl, by simp⟩
  | @values additional values hproperties hadditional hnode =>
    have hvalid : meetsAdditional valid schema additional (.obj entries) = true :=
      meetsKeyword_of_get? hmeets hadditional
    rw [meetsAdditional, List.all_eq_true] at hvalid
    rw [accepts, List.all_eq_true]
    intro e he
    refine hpart _ _ hnode _ ?_
    have hentry := hvalid e he
    -- No property is listed, so every one is additional.
    split at hentry
    · next properties hget =>
      rw [Entries.field, hget, Option.getD_some, Json.isTruthy] at hproperties
      have hnil : properties = [] := by simpa using hproperties
      simpa [hnil, Entries.has] using hentry
    · simpa using hentry
  | anyValues => simp [accepts]

theorem accepts_of_arrayForm {note : Note} (h : ArrayForm part schema note node)
    (hmeets : meetsKeywords valid schema v = true) (hv : isOfNamedType (.str "array") v = true) :
    node.accepts v = true := by
  obtain ⟨members, rfl⟩ := exists_arr_of_isOfNamedType hv
  cases h with
  | @items items values hitems hnode =>
    have hvalid : meetsItems valid items (.arr members) = true := meetsKeyword_of_get? hmeets hitems
    rw [meetsItems, List.all_eq_true] at hvalid
    rw [accepts, List.all_eq_true]
    exact fun member hmember => hpart _ _ hnode _ (hvalid member hmember)
  | anyItems => simp [accepts]

theorem accepts_of_typedForm {type : Json} (h : TypedForm part schema type node)
    (hmeets : meetsKeywords valid schema v = true)
    (hv : (type = .null ∧ schema.has "type" = false) ∨ isOfType type v = true) :
    node.accepts v = true := by
  have himplied := impliedType_of_meetsKeywords hmeets
  -- without a `type` the schema is read as of `null`, which only the forms that imply a type allow
  induction h with
  | untyped => rfl
  | impliedObject hkeywords hnode =>
    rcases hv with ⟨-, hno⟩ | hv
    · refine accepts_of_objectForm hpart hnode hmeets ?_
      simpa [impliedType?, hno, hkeywords] using himplied
    · simp [isOfType, isOfNamedType] at hv
  | impliedArray hother hkeyword hnode =>
    rcases hv with ⟨-, hno⟩ | hv
    · refine accepts_of_arrayForm hpart hnode hmeets ?_
      simpa [impliedType?, hno, hother, hkeyword] using himplied
    · simp [isOfType, isOfNamedType] at hv
  | object hnode =>
    rcases hv with ⟨hnull, -⟩ | hv
    · cases hnull
    · exact accepts_of_objectForm hpart hnode hmeets hv
  | array hnode =>
    rcases hv with ⟨hnull, -⟩ | hv
    · cases hnull
    · exact accepts_of_arrayForm hpart hnode hmeets hv
  | @primitive type _ _ _ hnode =>
    rcases hv with ⟨rfl, -⟩ | hv
    · cases hnode
    · cases type with
      | arr _ => cases hnode
      | _ => exact accepts_primitiveNode hnode hv
  | sole _ ih =>
    rcases hv with ⟨hnull, -⟩ | hv
    · cases hnull
    · refine ih (.inr (isOfType_of_isOfNamedType ?_))
      simpa [isOfType] using hv
  | objectOrNull htypes hnode =>
    rcases hv with ⟨hnull, -⟩ | hv
    · cases hnull
    · obtain ⟨type, htype, hv⟩ := List.any_eq_true.mp hv
      refine accepts_withNull ?_
      rcases htypes type htype with hnull | rfl
      · exact .inl (eq_null_of_isNullName hnull hv)
      · exact .inr (accepts_of_objectForm hpart hnode hmeets hv)
  | arrayOrNull htypes hnode =>
    rcases hv with ⟨hnull, -⟩ | hv
    · cases hnull
    · obtain ⟨type, htype, hv⟩ := List.any_eq_true.mp hv
      refine accepts_withNull ?_
      rcases htypes type htype with hnull | rfl
      · exact .inl (eq_null_of_isNullName hnull hv)
      · exact .inr (accepts_of_arrayForm hpart hnode hmeets hv)
  | primitives _ hnodes =>
    rcases hv with ⟨hnull, -⟩ | hv
    · cases hnull
    · exact accepts_union.mpr
        (exists_accepts_primitiveNodes hnodes (List.any_eq_true.mp hv))

/-! ## Schemas -/

theorem accepts_of_entriesForm (h : EntriesForm part schema node)
    (hmeets : meetsKeywords valid schema v = true) : node.accepts v = true := by
  cases h with
  | const hvalue hnode => exact accepts_literalNode hnode (meetsKeyword_of_get? hmeets hvalue)
  | @enum values _ _ _ hvalues hnode =>
    have hv := meetsKeyword_of_get? hmeets hvalues
    cases values with
    | arr values => exact accepts_enumNode hnode (List.any_eq_true.mp hv)
    | _ => cases hnode
  | union hkeyword hoptions _ hnodes =>
    obtain ⟨option, hoption, hv⟩ :=
      exists_valid_of_union hkeyword (meetsKeyword_of_get? hmeets hoptions)
    obtain ⟨node, hnode, hform⟩ := exists_right_of_forall₂ hnodes hoption
    exact accepts_unionOf _ ⟨node, hnode, hpart _ _ hform _ hv⟩
  | @intersection parts nodes _ _ _ hparts hnonempty hnodes hnode =>
    have hall : parts.all (valid · v) = true := meetsKeyword_of_get? hmeets hparts
    have hne : nodes ≠ [] := by
      rintro rfl
      cases hnodes
      exact hnonempty rfl
    refine accepts_intersectionOf hne hnode ?_
    intro n hn
    obtain ⟨p, hp, hform⟩ := exists_left_of_forall₂ hnodes hn
    exact hpart _ _ hform _ (List.all_eq_true.mp hall p hp)
  | typed hnode =>
    refine accepts_of_typedForm hpart hnode hmeets ?_
    rw [Entries.field]
    cases hget : schema.get? "type" with
    | none =>
      refine .inl ⟨rfl, ?_⟩
      rw [Entries.has_eq_isSome, hget]
      rfl
    | some type => exact .inr (meetsKeyword_of_get? hmeets hget)

/-- One step of a conversion loses no value, if none is lost in the parts. -/
theorem accepts_of_form {target : Json → SchemaNode → Prop} {target? : Json → Option Json}
    (htarget : ∀ r n, target r n → ∀ t v, target? r = some t → valid t v = true →
      n.accepts v = true)
    {schema : Json} (h : Form part target schema node)
    (hv : meets valid target? schema v = true) : node.accepts v = true := by
  cases h with
  | everything => rfl
  | reference hreference hnode hdescribed =>
    rw [meets, Bool.or_eq_true] at hv
    refine accepts_withNullable (hv.imp_right fun hv => ?_)
    rw [hreference, Option.any_eq_true] at hv
    obtain ⟨t, ht, hv⟩ := hv
    have haccepts := htarget _ _ hnode t v ht hv
    rcases hdescribed with rfl | ⟨description, rfl⟩
    · exact haccepts
    · rw [accepts_withDescription]
      exact haccepts
  | entries hreference hnode =>
    rw [meets, Bool.or_eq_true] at hv
    refine accepts_withNullable (hv.imp_right fun hv => ?_)
    rw [hreference] at hv
    exact accepts_of_entriesForm hpart hnode hv

end

/-! ## Documents -/

/-- A local reference is followed to what it stands for. -/
theorem target_of_localTarget? {sources : Sources} {reference target : Json} (location : Location)
    (h : localTarget? sources.root reference = some target) :
    sources.target reference location = .ok target := by
  unfold localTarget? at h
  split at h
  · next fragment hlocal =>
    split at h
    · next hresolve =>
      subst h
      simp only [Sources.target, hlocal, hresolve]
    · cases h
  · cases h

/-- Conversion loses no value, whatever the depth to which it has been found valid. -/
theorem accepts_of_validAt {sources : Sources} {stop : Json → Location → ConversionError}
    {depth budget : Nat} {schema v : Json} {location : Location} {node : SchemaNode}
    (h : convert sources stop budget schema location = .ok node)
    (hv : validAt sources.root depth schema v = true) : node.accepts v = true := by
  induction depth generalizing budget schema v location node with
  | zero => cases hv
  | succ depth ih =>
    cases budget with
    | zero =>
      refine accepts_of_form ?_ ?_ (form_of_convertWith h) hv
      · rintro s n ⟨-, l, hn⟩ w hw
        have hpart : convert sources stop 0 s l = .ok n := hn
        exact ih hpart hw
      · rintro r n ⟨l, hn⟩
        cases hn
    | succ budget =>
      refine accepts_of_form ?_ ?_ (form_of_convertWith h) hv
      · rintro s n ⟨-, l, hn⟩ w hw
        have hpart : convert sources stop (budget + 1) s l = .ok n := hn
        exact ih hpart hw
      · rintro r n ⟨l, hn⟩ t w ht hw
        rw [target_of_localTarget? l ht] at hn
        exact ih hn hw

/-- Every value that is valid for a document is among the values of its node. -/
theorem ofDocument_sound {document v : Json} {external? : Option (Json → Except Fault Json)}
    {limit : ReferenceLimit} {node : SchemaNode}
    (h : ofDocument document external? limit = .ok node) (hv : Valid document v) :
    node.accepts v = true := by
  obtain ⟨depth, hdepth⟩ := hv
  exact accepts_of_validAt h (hdepth 0)

/-- A document with a reference beside which null is let in. -/
def kindDocument : Json :=
  .obj [("properties", .obj [("kind", .obj [("$ref", .str "#/kinds/0"), ("nullable", .bool true)])]),
    ("required", .arr [.str "kind"]),
    ("kinds", .arr [.obj [("oneOf", .arr [.obj [("const", .str "plain")],
      .obj [("type", .arr [.str "integer"])]])]])]

/-- The node of `kindDocument`. -/
def kindNode : SchemaNode :=
  .object [⟨"kind", false, .union [.union [.literal (.str "plain") {},
    .primitive .number { constraints := [("integer", .bool true)] }] {}, .null {}] {}⟩] false {}

theorem ofDocument_kindDocument : ofDocument kindDocument none (.ofInt 16) = .ok kindNode ∧
    Valid kindDocument (.obj [("kind", .null)]) ∧
      kindNode.accepts (.obj [("kind", .null)]) = true := by
  have hnode : ofDocument kindDocument none (.ofInt 16) = .ok kindNode := by cbv
  have hvalid : Valid kindDocument (.obj [("kind", .null)]) := by
    refine ⟨4, fun more => ?_⟩
    rw [Nat.add_comm]
    with_unfolding_all rfl
  exact ⟨hnode, hvalid, ofDocument_sound hnode hvalid⟩

end SchemaTypings.Schema
