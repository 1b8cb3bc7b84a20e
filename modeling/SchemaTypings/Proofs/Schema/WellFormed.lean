/-
  SchemaTypings.Proofs.Schema.WellFormed

  Converted nodes are well formed: a union has several members, and an object has no two fields of
  one name.  The first holds of every conversion.  The second rests on the keys of the schemas, so
  it is shown for those whose objects have distinct keys.
-/
import SchemaTypings.Proofs.Schema.Descent
import SchemaTypings.Proofs.Schema.Intersection
import SchemaTypings.Proofs.Schema.Pointer

namespace SchemaTypings

theorem Inside.hasDistinctKeys {a b : Json} (h : Inside a b) (hkeys : a.HasDistinctKeys) :
    b.HasDistinctKeys := by
  induction h with
  | item hitem =>
    rw [Json.HasDistinctKeys] at hkeys
    exact hasDistinctKeys_of_mem_items hkeys hitem
  | value hvalue =>
    rw [Json.HasDistinctKeys] at hkeys
    exact hasDistinctKeys_of_mem_entries hkeys.2 hvalue
  | trans _ _ ihab ihbc => exact ihbc (ihab hkeys)

namespace SchemaNode

/-- Whether a union has several members and, where keys are distinct, the fields of an object have
distinct names. -/
def IsWellFormed (keyed : Prop) : SchemaNode → Prop
  | .object fields _ _ => keyed → (fields.map Member.name).Nodup
  | .union members _ => 2 ≤ members.length
  | _ => True

variable {keyed : Prop} {node : SchemaNode}

theorem wellFormed_withDescription (description : Json)
    (h : node.Everywhere (IsWellFormed keyed)) :
    (node.withDescription description).Everywhere (IsWellFormed keyed) := by
  apply (everywhere_withDescription _).mpr h
  cases node with
  | _ => exact Iff.rfl

theorem wellFormed_withNull (h : node.Everywhere (IsWellFormed keyed)) :
    node.withNull.Everywhere (IsWellFormed keyed) := by
  unfold withNull
  split
  · exact h
  · split
    · exact h
    · refine everywhere_union.mpr ⟨Nat.le_refl 2, ?_⟩
      rw [List.forall_mem_cons, List.forall_mem_singleton]
      exact ⟨wellFormed_withDescription _ h, everywhere_null.mpr trivial⟩

/-- There is nothing to ask of a node that is not built from others. -/
theorem wellFormed_of_not_isComposite (h : node.isComposite = false) :
    node.Everywhere (IsWellFormed keyed) := by
  cases node with
  | any => exact everywhere_any.mpr trivial
  | null => exact everywhere_null.mpr trivial
  | primitive => exact everywhere_primitive.mpr trivial
  | literal => exact everywhere_literal.mpr trivial
  | object => cases h
  | array => cases h
  | record => cases h
  | union => cases h

end SchemaNode

namespace Schema

open SchemaNode

section
variable {keyed : Prop} {node : SchemaNode} {location : Location} {description : Json}

/-! ## Literals and primitive types -/

theorem not_isComposite_of_literalNode {value : Json}
    (h : literalNode value location description = .ok node) : node.isComposite = false := by
  rcases literalNode_cases h with ⟨-, rfl⟩ | ⟨-, rfl⟩
  · rfl
  · rfl

theorem not_isComposite_of_primitiveNode {type : Json} {note : Note}
    (h : primitiveNode type note location = .ok node) : node.isComposite = false := by
  obtain ⟨name, make, -, hmake, rfl⟩ := primitiveNode_eq_ok_iff.mp h
  rcases primitive?_cases hmake with ⟨kind, rfl⟩ | rfl
  · rfl
  · rfl

theorem wellFormed_enumNode {values : Json}
    (h : enumNode values location description = .ok node) :
    node.Everywhere (IsWellFormed keyed) := by
  rcases enumNode_cases h with ⟨value, -, rfl⟩ | ⟨items, nodes, -, hmany, hnodes, rfl⟩
  · exact everywhere_literal.mpr trivial
  · refine everywhere_union.mpr ⟨hmany.trans (Nat.le_of_eq hnodes.length_eq), fun n hn => ?_⟩
    obtain ⟨value, -, l, hvalue⟩ := exists_left_of_forall₂ hnodes hn
    exact wellFormed_of_not_isComposite (not_isComposite_of_literalNode hvalue)

/-! ## Unions and intersections -/

theorem wellFormed_describedBy (h : node.Everywhere (IsWellFormed keyed)) :
    (describedBy description node).Everywhere (IsWellFormed keyed) := by
  unfold describedBy
  split
  · exact h
  · exact wellFormed_withDescription _ h

theorem wellFormed_spliceUnion (h : node.Everywhere (IsWellFormed keyed)) :
    spliceUnion node ≠ [] ∧
      ∀ member ∈ spliceUnion node, member.Everywhere (IsWellFormed keyed) := by
  unfold spliceUnion
  split
  · next members _ =>
    obtain ⟨hmany, hmembers⟩ := everywhere_union.mp h
    refine ⟨?_, hmembers⟩
    rintro rfl
    cases hmany
  · exact ⟨List.cons_ne_nil _ _, List.forall_mem_singleton.mpr h⟩

theorem wellFormed_unionOf {alternatives : List SchemaNode} (hnonempty : alternatives ≠ [])
    (h : ∀ node ∈ alternatives, node.Everywhere (IsWellFormed keyed)) :
    (unionOf alternatives description).Everywhere (IsWellFormed keyed) := by
  have hall : ∀ member ∈ alternatives.flatMap spliceUnion,
      member.Everywhere (IsWellFormed keyed) := by
    rw [List.forall_mem_flatMap]
    exact fun node hnode => (wellFormed_spliceUnion (h node hnode)).2
  have hsome : alternatives.flatMap spliceUnion ≠ [] := by
    obtain ⟨first, hfirst⟩ := List.exists_mem_of_ne_nil _ hnonempty
    intro hnil
    exact (wellFormed_spliceUnion (h first hfirst)).1 (List.flatMap_eq_nil_iff.mp hnil first hfirst)
  unfold unionOf
  generalize alternatives.flatMap spliceUnion = members at hall hsome
  split
  · exact wellFormed_describedBy (List.forall_mem_singleton.mp hall)
  · next hmany =>
    refine everywhere_union.mpr ⟨?_, hall⟩
    rcases members with _ | ⟨only, _ | _⟩
    · exact absurd rfl hsome
    · exact absurd rfl (hmany only)
    · show 2 ≤ _ + 1 + 1
      omega

theorem wellFormed_intersectionOf {nodes : List SchemaNode}
    (h : intersectionOf nodes location description = .ok node)
    (hnodes : ∀ node ∈ nodes, node.Everywhere (IsWellFormed keyed)) :
    node.Everywhere (IsWellFormed keyed) := by
  unfold intersectionOf at h
  split at h
  · cases h
    exact wellFormed_describedBy (List.forall_mem_singleton.mp hnodes)
  · obtain ⟨⟨merged, isOpen⟩, hmerge, rfl⟩ := exists_of_map_eq_ok h
    refine everywhere_object.mpr ⟨fun _ => ?_, forall_type_mergeObjects hmerge (by simp) ?_⟩
    · -- Merged fields are named once each, whatever the fields of the parts are.
      obtain ⟨lists, -, rfl⟩ := exists_fields_of_mergeObjects hmerge
      rw [names_foldl_mergeField (by rfl : [].map Member.name = [].eraseDups)]
      exact nodup_eraseDups _
    · exact fun _ _ _ hmem => (everywhere_object.mp (hnodes _ hmem)).2

/-! ## Forms -/

/-- What is shown of a schema and its node: the node is well formed if the keys of the schema are as
they are asked to be. -/
def KeepsForm (keyed : Prop) (schema : Json) (node : SchemaNode) : Prop :=
  (keyed → schema.HasDistinctKeys) → node.Everywhere (IsWellFormed keyed)

variable {schema : Entries Json} {note : Note}

theorem wellFormed_of_objectForm (hkeys : keyed → (Json.obj schema).HasDistinctKeys)
    (h : ObjectForm (KeepsForm keyed) schema note node) :
    node.Everywhere (IsWellFormed keyed) := by
  cases h with
  | @listed required properties fields isOpen _ hproperties hfields =>
    have hinside : Inside (.obj schema) (.obj properties) := .of_get? hproperties
    refine everywhere_object.mpr ⟨fun hk => ?_, fun field hfield => ?_⟩
    · have hdistinct := hinside.hasDistinctKeys (hkeys hk)
      rw [Json.HasDistinctKeys] at hdistinct
      rw [names_of_fieldForm hfields]
      exact hdistinct.1
    · obtain ⟨property, hproperty, hform⟩ := exists_left_of_forall₂ hfields hfield
      exact hform.2.2 fun hk => (hinside.trans (.value hproperty)).hasDistinctKeys (hkeys hk)
  | closed => exact everywhere_object.mpr ⟨fun _ => List.nodup_nil, by simp⟩
  | values _ hadditional hnode =>
    exact everywhere_record.mpr
      ⟨trivial, hnode fun hk => (Inside.of_get? hadditional).hasDistinctKeys (hkeys hk)⟩
  | anyValues => exact everywhere_record.mpr ⟨trivial, everywhere_any.mpr trivial⟩

theorem wellFormed_of_arrayForm (hkeys : keyed → (Json.obj schema).HasDistinctKeys)
    (h : ArrayForm (KeepsForm keyed) schema note node) : node.Everywhere (IsWellFormed keyed) := by
  cases h with
  | items hitems hnode =>
    exact everywhere_array.mpr
      ⟨trivial, hnode fun hk => (Inside.of_get? hitems).hasDistinctKeys (hkeys hk)⟩
  | anyItems => exact everywhere_array.mpr ⟨trivial, everywhere_any.mpr trivial⟩

theorem wellFormed_of_typedForm {type : Json} (hkeys : keyed → (Json.obj schema).HasDistinctKeys)
    (h : TypedForm (KeepsForm keyed) schema type node) : node.Everywhere (IsWellFormed keyed) := by
  induction h with
  | untyped _ => exact everywhere_any.mpr trivial
  | impliedObject _ hnode _ => exact wellFormed_of_objectForm hkeys hnode
  | impliedArray _ _ hnode _ => exact wellFormed_of_arrayForm hkeys hnode
  | object hnode _ => exact wellFormed_of_objectForm hkeys hnode
  | array hnode _ => exact wellFormed_of_arrayForm hkeys hnode
  | primitive hnode _ =>
    exact wellFormed_of_not_isComposite (not_isComposite_of_primitiveNode hnode)
  | sole _ ih => exact ih
  | objectOrNull _ hnode _ => exact wellFormed_withNull (wellFormed_of_objectForm hkeys hnode)
  | arrayOrNull _ hnode _ => exact wellFormed_withNull (wellFormed_of_arrayForm hkeys hnode)
  | primitives hlength hnodes _ =>
    have hrow := forall₂_primitiveNodes hnodes
    refine everywhere_union.mpr ⟨hlength.trans (Nat.le_of_eq hrow.length_eq), fun n hn => ?_⟩
    obtain ⟨type, -, hnode⟩ := exists_left_of_forall₂ hrow hn
    exact wellFormed_of_not_isComposite (not_isComposite_of_primitiveNode hnode)

theorem wellFormed_of_entriesForm (hkeys : keyed → (Json.obj schema).HasDistinctKeys)
    (h : EntriesForm (KeepsForm keyed) schema node) : node.Everywhere (IsWellFormed keyed) := by
  -- The schemas of a list are inside the schema that has the list.
  have hlist : ∀ {keyword : String} {schemas : List Json} {nodes : List SchemaNode},
      schema.get? keyword = some (.arr schemas) → List.Forall₂ (KeepsForm keyed) schemas nodes →
      ∀ n ∈ nodes, n.Everywhere (IsWellFormed keyed) := by
    intro keyword schemas nodes hget hnodes n hn
    obtain ⟨part, hpart, hform⟩ := exists_left_of_forall₂ hnodes hn
    exact hform fun hk =>
      ((Inside.of_get? hget).trans (.item hpart)).hasDistinctKeys (hkeys hk)
  cases h with
  | const _ hnode => exact wellFormed_of_not_isComposite (not_isComposite_of_literalNode hnode)
  | enum _ hnode => exact wellFormed_enumNode hnode
  | union _ hoptions hnonempty hnodes =>
    refine wellFormed_unionOf ?_ (hlist hoptions hnodes)
    rintro rfl
    cases hnodes
    exact hnonempty rfl
  | intersection hparts _ hnodes hnode =>
    exact wellFormed_intersectionOf hnode (hlist hparts hnodes)
  | typed hnode => exact wellFormed_of_typedForm hkeys hnode

theorem wellFormed_withNullable (h : node.Everywhere (IsWellFormed keyed)) :
    (withNullable schema node).Everywhere (IsWellFormed keyed) := by
  unfold withNullable
  split
  · exact wellFormed_withNull h
  · exact h

theorem keepsForm_of_form {schema : Json}
    (h : Form (KeepsForm keyed) (fun _ n => n.Everywhere (IsWellFormed keyed)) schema node) :
    KeepsForm keyed schema node := by
  intro hkeys
  cases h with
  | everything => exact everywhere_any.mpr trivial
  | reference _ hnode hdescribed =>
    apply wellFormed_withNullable
    rcases hdescribed with rfl | ⟨description, rfl⟩
    · exact hnode
    · exact wellFormed_withDescription _ hnode
  | entries _ hnode => exact wellFormed_withNullable (wellFormed_of_entriesForm hkeys hnode)

/-! ## Conversions -/

theorem keepsForm_of_convertWith {follow : Json → Location → Result}
    (hfollow : ∀ reference l n, follow reference l = .ok n → n.Everywhere (IsWellFormed keyed))
    {schema : Json} (h : convertWith follow schema location = .ok node) :
    KeepsForm keyed schema node := by
  induction hsize : sizeOf schema using Nat.strongRecOn generalizing schema location node with
  | ind size ih =>
    refine keepsForm_of_form ((form_of_convertWith h).imp ?_ ?_)
    · rintro part n ⟨hlt, _, hn⟩
      exact ih (sizeOf part) (by omega) hn rfl
    · rintro reference n ⟨_, hn⟩
      exact hfollow _ _ _ hn

/-- All nodes in a converted node are well formed, with distinct names of fields where the schema
and all that references lead to have distinct keys. -/
theorem wellFormed_of_convert {sources : Sources} {stop : Json → Location → ConversionError}
    {budget : Nat} {schema : Json}
    (htargets : keyed → ∀ reference target, sources.LeadsTo reference target →
      target.HasDistinctKeys)
    (hkeys : keyed → schema.HasDistinctKeys)
    (h : convert sources stop budget schema location = .ok node) :
    node.Everywhere (IsWellFormed keyed) := by
  -- Along the budget, each of the conversions by the size of the schema.
  induction budget generalizing schema location node with
  | zero =>
    rw [convert_eq_convertWith] at h
    refine keepsForm_of_convertWith (fun _ _ _ hn => ?_) h hkeys
    cases hn
  | succ budget ih =>
    rw [convert_eq_convertWith] at h
    refine keepsForm_of_convertWith (fun reference l n hn => ?_) h hkeys
    obtain ⟨rest, target, hbudget, htarget, hconvert⟩ := exists_of_follower_eq_ok hn
    cases hbudget
    exact ih (fun hk => htargets hk reference target ⟨l, htarget⟩) hconvert

end

end Schema
end SchemaTypings
