/-
  SchemaTypings.Proofs.Schema.Subnode

  What holds of all nodes inside a node, and that in a converted node no union is without members and
  no constraint has a keyword that is not kept as documentation.
-/
import SchemaTypings.Proofs.Schema.Form
import SchemaTypings.Proofs.Schema.Leaves

namespace SchemaTypings

namespace SchemaNode

mutual
/-- The node itself and the nodes inside it. -/
def subnodes : SchemaNode → List SchemaNode
  | .any note => [.any note]
  | .null note => [.null note]
  | .primitive kind note => [.primitive kind note]
  | .literal value note => [.literal value note]
  | .object fields isOpen note => .object fields isOpen note :: subnodesOfFields fields
  | .array items note => .array items note :: items.subnodes
  | .record values note => .record values note :: values.subnodes
  | .union members note => .union members note :: subnodesOfMembers members

/-- The nodes of the fields and inside them. -/
def subnodesOfFields : List (Member SchemaNode) → List SchemaNode
  | [] => []
  | field :: rest => subnodesOfField field ++ subnodesOfFields rest

/-- The node of the field and those inside it. -/
def subnodesOfField : Member SchemaNode → List SchemaNode
  | ⟨_, _, node⟩ => node.subnodes

/-- The members and the nodes inside them. -/
def subnodesOfMembers : List SchemaNode → List SchemaNode
  | [] => []
  | member :: rest => member.subnodes ++ subnodesOfMembers rest
end

theorem self_mem_subnodes (node : SchemaNode) : node ∈ node.subnodes := by
  cases node with
  | _ => exact List.mem_cons_self

/-- Whether something holds of the node and of all nodes inside it. -/
def Everywhere (p : SchemaNode → Prop) (node : SchemaNode) : Prop := ∀ n ∈ node.subnodes, p n

theorem subnodesOfFields_eq_flatMap (fields : List (Member SchemaNode)) :
    subnodesOfFields fields = fields.flatMap (·.type.subnodes) := by
  induction fields with
  | nil => rfl
  | cons field rest ih => rw [subnodesOfFields, ih, subnodesOfField, List.flatMap_cons]

theorem subnodesOfMembers_eq_flatMap (members : List SchemaNode) :
    subnodesOfMembers members = members.flatMap subnodes := by
  induction members with
  | nil => rfl
  | cons member rest ih => rw [subnodesOfMembers, ih, List.flatMap_cons]

section
variable {p : SchemaNode → Prop} {note : Note}

@[simp] theorem everywhere_any : Everywhere p (.any note) ↔ p (.any note) :=
  List.forall_mem_singleton

@[simp] theorem everywhere_null : Everywhere p (.null note) ↔ p (.null note) :=
  List.forall_mem_singleton

@[simp] theorem everywhere_primitive {kind : Primitive} :
    Everywhere p (.primitive kind note) ↔ p (.primitive kind note) :=
  List.forall_mem_singleton

@[simp] theorem everywhere_literal {value : Json} :
    Everywhere p (.literal value note) ↔ p (.literal value note) :=
  List.forall_mem_singleton

theorem everywhere_object {fields : List (Member SchemaNode)} {isOpen : Bool} :
    Everywhere p (.object fields isOpen note) ↔
      p (.object fields isOpen note) ∧ ∀ field ∈ fields, Everywhere p field.type := by
  refine List.forall_mem_cons.trans (and_congr_right' ?_)
  rw [subnodesOfFields_eq_flatMap]
  exact List.forall_mem_flatMap

theorem everywhere_array {items : SchemaNode} :
    Everywhere p (.array items note) ↔ p (.array items note) ∧ Everywhere p items :=
  List.forall_mem_cons

theorem everywhere_record {values : SchemaNode} :
    Everywhere p (.record values note) ↔ p (.record values note) ∧ Everywhere p values :=
  List.forall_mem_cons

theorem everywhere_union {members : List SchemaNode} :
    Everywhere p (.union members note) ↔
      p (.union members note) ∧ ∀ member ∈ members, Everywhere p member := by
  refine List.forall_mem_cons.trans (and_congr_right' ?_)
  rw [subnodesOfMembers_eq_flatMap]
  exact List.forall_mem_flatMap

/-- Another description changes nothing below the node itself. -/
theorem everywhere_withDescription {node : SchemaNode} {description : Json}
    (hroot : p (node.withDescription description) ↔ p node) :
    Everywhere p (node.withDescription description) ↔ Everywhere p node := by
  cases node with
  | object => exact everywhere_object.trans ((and_congr_left' hroot).trans everywhere_object.symm)
  | array => exact everywhere_array.trans ((and_congr_left' hroot).trans everywhere_array.symm)
  | record => exact everywhere_record.trans ((and_congr_left' hroot).trans everywhere_record.symm)
  | union => exact everywhere_union.trans ((and_congr_left' hroot).trans everywhere_union.symm)
  | any => exact everywhere_any.trans (hroot.trans everywhere_any.symm)
  | null => exact everywhere_null.trans (hroot.trans everywhere_null.symm)
  | primitive => exact everywhere_primitive.trans (hroot.trans everywhere_primitive.symm)
  | literal => exact everywhere_literal.trans (hroot.trans everywhere_literal.symm)

end

/-! ## Regular nodes -/

/-- Whether a node is no union, or one with members. -/
def HasMembers : SchemaNode → Prop
  | .union members _ => members ≠ []
  | _ => True

/-- Whether a node has members if it is a union, and no other constraints than are kept as
documentation. -/
structure IsRegular (node : SchemaNode) : Prop where
  hasMembers : node.HasMembers
  keyword : ∀ keyword ∈ node.note.constraints.keys,
    keyword = "integer" ∨ keyword ∈ Schema.constraintKeywords

theorem isRegular_of_constraints_eq_nil {node : SchemaNode} (hmembers : node.HasMembers)
    (h : node.note.constraints = []) : node.IsRegular :=
  ⟨hmembers, by simp [h, Entries.keys]⟩

theorem isRegular_withDescription (node : SchemaNode) (description : Json) :
    (node.withDescription description).IsRegular ↔ node.IsRegular := by
  have hmembers : (node.withDescription description).HasMembers ↔ node.HasMembers := by
    cases node with
    | _ => exact Iff.rfl
  have hconstraints :
      (node.withDescription description).note.constraints = node.note.constraints := by
    rw [withDescription, note_withNote]
  constructor
  · rintro ⟨h, hkeyword⟩
    exact ⟨hmembers.mp h, hconstraints ▸ hkeyword⟩
  · rintro ⟨h, hkeyword⟩
    exact ⟨hmembers.mpr h, hconstraints.symm ▸ hkeyword⟩

theorem everywhere_isRegular_withDescription (node : SchemaNode) (description : Json) :
    Everywhere IsRegular (node.withDescription description) ↔ Everywhere IsRegular node :=
  everywhere_withDescription (isRegular_withDescription node description)

theorem everywhere_isRegular_withNull {node : SchemaNode} (h : Everywhere IsRegular node) :
    Everywhere IsRegular node.withNull := by
  unfold withNull
  split
  · exact h
  · split
    · exact h
    · rw [everywhere_union]
      refine ⟨isRegular_of_constraints_eq_nil (List.cons_ne_nil _ _) rfl, ?_⟩
      rw [List.forall_mem_cons, List.forall_mem_singleton]
      exact ⟨(everywhere_isRegular_withDescription node _).mpr h,
        everywhere_null.mpr (isRegular_of_constraints_eq_nil trivial rfl)⟩

end SchemaNode

namespace Schema

open SchemaNode

variable {node : SchemaNode} {location : Location} {description : Json}

theorem everywhere_describedBy (h : Everywhere IsRegular node) :
    Everywhere IsRegular (describedBy description node) := by
  unfold describedBy
  split
  · exact h
  · exact (everywhere_isRegular_withDescription node _).mpr h

/-- The alternatives that stand for a node with members are some, with members themselves. -/
theorem everywhere_spliceUnion (h : Everywhere IsRegular node) :
    spliceUnion node ≠ [] ∧ ∀ member ∈ spliceUnion node, Everywhere IsRegular member := by
  unfold spliceUnion
  split
  · next members _ =>
    rw [everywhere_union] at h
    exact ⟨h.1.hasMembers, h.2⟩
  · exact ⟨List.cons_ne_nil _ _, by simpa using h⟩

theorem everywhere_unionOf {alternatives : List SchemaNode} (hnonempty : alternatives ≠ [])
    (h : ∀ node ∈ alternatives, Everywhere IsRegular node) :
    Everywhere IsRegular (unionOf alternatives description) := by
  have hall : ∀ member ∈ alternatives.flatMap spliceUnion, Everywhere IsRegular member := by
    rw [List.forall_mem_flatMap]
    exact fun node hnode => (everywhere_spliceUnion (h node hnode)).2
  have hne : alternatives.flatMap spliceUnion ≠ [] := by
    obtain ⟨first, hfirst⟩ := List.exists_mem_of_ne_nil _ hnonempty
    intro hnil
    exact (everywhere_spliceUnion (h first hfirst)).1 (List.flatMap_eq_nil_iff.mp hnil first hfirst)
  unfold unionOf
  split
  · next only heq => exact everywhere_describedBy (hall only (by simp [heq]))
  · exact everywhere_union.mpr ⟨isRegular_of_constraints_eq_nil hne rfl, hall⟩

/-! ## Intersections -/

/-- A merged field has the type of a field before. -/
theorem forall_type_mergeField {q : SchemaNode → Prop} {fields : List (Member SchemaNode)}
    {field : Member SchemaNode} (hfields : ∀ f ∈ fields, q f.type) (hfield : q field.type) :
    ∀ f ∈ mergeField fields field, q f.type := by
  induction fields with
  | nil => simpa [mergeField] using hfield
  | cons previous rest ih =>
    rw [List.forall_mem_cons] at hfields
    rw [mergeField]
    split
    · exact List.forall_mem_cons.mpr ⟨hfield, hfields.2⟩
    · exact List.forall_mem_cons.mpr ⟨hfields.1, ih hfields.2⟩

theorem forall_type_foldl_mergeField {q : SchemaNode → Prop} {fields more : List (Member SchemaNode)}
    (hfields : ∀ f ∈ fields, q f.type) (hmore : ∀ f ∈ more, q f.type) :
    ∀ f ∈ more.foldl mergeField fields, q f.type := by
  induction more generalizing fields with
  | nil => exact hfields
  | cons field rest ih =>
    rw [List.forall_mem_cons] at hmore
    exact ih (forall_type_mergeField hfields hmore.1) hmore.2

theorem forall_type_mergeObjects {q : SchemaNode → Prop} {index : Nat}
    {fields : List (Member SchemaNode)} {isOpen : Bool} {nodes : List SchemaNode}
    {merged : List (Member SchemaNode) × Bool}
    (h : mergeObjects location index fields isOpen nodes = .ok merged)
    (hfields : ∀ f ∈ fields, q f.type)
    (hnodes : ∀ more moreOpen note, .object more moreOpen note ∈ nodes → ∀ f ∈ more, q f.type) :
    ∀ f ∈ merged.1, q f.type := by
  induction nodes generalizing index fields isOpen with
  | nil =>
    cases h
    exact hfields
  | cons node rest ih =>
    rw [mergeObjects.eq_def] at h
    cases node with
    | object more moreOpen note =>
      exact ih h (forall_type_foldl_mergeField hfields (hnodes _ _ _ List.mem_cons_self))
        fun _ _ _ hmem => hnodes _ _ _ (List.mem_cons_of_mem _ hmem)
    | _ => cases h

theorem everywhere_intersectionOf {nodes : List SchemaNode}
    (h : intersectionOf nodes location description = .ok node)
    (hnodes : ∀ node ∈ nodes, Everywhere IsRegular node) : Everywhere IsRegular node := by
  unfold intersectionOf at h
  split at h
  · cases h
    exact everywhere_describedBy (hnodes _ (List.mem_singleton_self _))
  · obtain ⟨merged, hmerge, rfl⟩ := exists_of_map_eq_ok h
    refine everywhere_object.mpr ⟨isRegular_of_constraints_eq_nil trivial rfl,
      forall_type_mergeObjects hmerge (by simp) ?_⟩
    exact fun _ _ _ hmem => (everywhere_object.mp (hnodes _ hmem)).2

/-! ## Literals and primitive types -/

theorem everywhere_literalNode {value : Json}
    (h : literalNode value location description = .ok node) : Everywhere IsRegular node := by
  rcases literalNode_cases h with ⟨-, rfl⟩ | ⟨-, rfl⟩
  · exact everywhere_null.mpr (isRegular_of_constraints_eq_nil trivial rfl)
  · exact everywhere_literal.mpr (isRegular_of_constraints_eq_nil trivial rfl)

theorem everywhere_enumNode {values : Json}
    (h : enumNode values location description = .ok node) : Everywhere IsRegular node := by
  rcases enumNode_cases h with ⟨value, -, rfl⟩ | ⟨items, nodes, -, hmany, hnodes, rfl⟩
  · exact everywhere_literal.mpr (isRegular_of_constraints_eq_nil trivial rfl)
  · refine everywhere_union.mpr ⟨isRegular_of_constraints_eq_nil ?_ rfl, fun n hn => ?_⟩
    · rintro rfl
      cases hnodes
      cases hmany
    · obtain ⟨value, -, l, hvalue⟩ := exists_left_of_forall₂ hnodes hn
      exact everywhere_literalNode hvalue

/-- The keywords of the constraints that a schema states are kept. -/
theorem keys_constraints_subset (schema : Entries Json) :
    (constraints schema).keys ⊆ constraintKeywords := by
  intro key hkey
  obtain ⟨constraint, hconstraint, rfl⟩ := List.mem_map.mp hkey
  obtain ⟨keyword, hkeyword, hsome⟩ := List.mem_filterMap.mp hconstraint
  obtain ⟨value, -, rfl⟩ := Option.map_eq_some_iff.mp hsome
  exact hkeyword

section
variable {schema : Entries Json} {note : Note}

theorem isRegular_of_constraints_eq (hmembers : node.HasMembers)
    (h : node.note.constraints = constraints schema) : node.IsRegular :=
  ⟨hmembers, fun _ hkey => .inr (keys_constraints_subset schema (h ▸ hkey))⟩

theorem everywhere_primitiveNode {type : Json} (hnote : note.constraints = constraints schema)
    (h : primitiveNode type note location = .ok node) : Everywhere IsRegular node := by
  obtain ⟨name, make, -, hmake, rfl⟩ := primitiveNode_eq_ok_iff.mp h
  have hkeyword : ∀ keyword ∈ (markedNote name note).constraints.keys,
      keyword = "integer" ∨ keyword ∈ constraintKeywords := fun keyword hmem =>
    (mem_keys_markedNote hmem).imp_right fun hkey => keys_constraints_subset schema (hnote ▸ hkey)
  rcases primitive?_cases hmake with ⟨kind, rfl⟩ | rfl
  · exact everywhere_primitive.mpr ⟨trivial, hkeyword⟩
  · exact everywhere_null.mpr ⟨trivial, hkeyword⟩

/-! ## Conversions -/

theorem everywhere_of_objectForm (hnote : note.constraints = constraints schema)
    (h : ObjectForm (fun _ n => Everywhere IsRegular n) schema note node) :
    Everywhere IsRegular node := by
  cases h with
  | listed _ _ hfields =>
    refine everywhere_object.mpr ⟨isRegular_of_constraints_eq trivial hnote, fun field hfield => ?_⟩
    obtain ⟨_, _, hform⟩ := exists_left_of_forall₂ hfields hfield
    exact hform.2.2
  | closed => exact everywhere_object.mpr ⟨isRegular_of_constraints_eq trivial hnote, by simp⟩
  | values _ _ hnode =>
    exact everywhere_record.mpr ⟨isRegular_of_constraints_eq trivial hnote, hnode⟩
  | anyValues =>
    exact everywhere_record.mpr ⟨isRegular_of_constraints_eq trivial hnote,
      everywhere_any.mpr (isRegular_of_constraints_eq_nil trivial rfl)⟩

theorem everywhere_of_arrayForm (hnote : note.constraints = constraints schema)
    (h : ArrayForm (fun _ n => Everywhere IsRegular n) schema note node) :
    Everywhere IsRegular node := by
  cases h with
  | items _ hnode => exact everywhere_array.mpr ⟨isRegular_of_constraints_eq trivial hnote, hnode⟩
  | anyItems =>
    exact everywhere_array.mpr ⟨isRegular_of_constraints_eq trivial hnote,
      everywhere_any.mpr (isRegular_of_constraints_eq_nil trivial rfl)⟩

theorem everywhere_of_typedForm {type : Json}
    (h : TypedForm (fun _ n => Everywhere IsRegular n) schema type node) :
    Everywhere IsRegular node := by
  induction h with
  | untyped hnote => exact everywhere_any.mpr (isRegular_of_constraints_eq trivial hnote)
  | impliedObject _ hnode hnote => exact everywhere_of_objectForm hnote hnode
  | impliedArray _ _ hnode hnote => exact everywhere_of_arrayForm hnote hnode
  | object hnode hnote => exact everywhere_of_objectForm hnote hnode
  | array hnode hnote => exact everywhere_of_arrayForm hnote hnode
  | primitive hnode hnote => exact everywhere_primitiveNode hnote hnode
  | sole _ ih => exact ih
  | objectOrNull _ hnode hnote =>
    exact everywhere_isRegular_withNull (everywhere_of_objectForm hnote hnode)
  | arrayOrNull _ hnode hnote =>
    exact everywhere_isRegular_withNull (everywhere_of_arrayForm hnote hnode)
  | primitives hlength hnodes hnote =>
    have hrow := forall₂_primitiveNodes hnodes
    refine everywhere_union.mpr ⟨isRegular_of_constraints_eq_nil ?_ rfl, fun n hn => ?_⟩
    · rintro rfl
      cases hrow
      cases hlength
    · obtain ⟨type, -, hnode⟩ := exists_left_of_forall₂ hrow hn
      exact everywhere_primitiveNode hnote hnode

theorem everywhere_of_entriesForm
    (h : EntriesForm (fun _ n => Everywhere IsRegular n) schema node) :
    Everywhere IsRegular node := by
  cases h with
  | const _ hnode => exact everywhere_literalNode hnode
  | enum _ hnode => exact everywhere_enumNode hnode
  | union _ _ hnonempty hnodes =>
    refine everywhere_unionOf ?_ fun node hnode => ?_
    · rintro rfl
      cases hnodes
      exact hnonempty rfl
    · obtain ⟨_, _, h⟩ := exists_left_of_forall₂ hnodes hnode
      exact h
  | intersection _ _ hnodes hnode =>
    refine everywhere_intersectionOf hnode fun node hnode => ?_
    obtain ⟨_, _, h⟩ := exists_left_of_forall₂ hnodes hnode
    exact h
  | typed hnode => exact everywhere_of_typedForm hnode

theorem everywhere_withNullable (h : Everywhere IsRegular node) :
    Everywhere IsRegular (withNullable schema node) := by
  unfold withNullable
  split
  · exact everywhere_isRegular_withNull h
  · exact h

end

/-- All nodes in a converted node are regular. -/
theorem everywhere_isRegular_of_ofDocument {document : Json}
    {external? : Option (Json → Except Fault Json)} {limit : ReferenceLimit}
    (h : ofDocument document external? limit = .ok node) : Everywhere IsRegular node := by
  refine ofDocument_induction (fun schema node hform => ?_) h
  cases hform with
  | everything => exact everywhere_any.mpr (isRegular_of_constraints_eq_nil trivial rfl)
  | reference _ hnode hdescribed =>
    refine everywhere_withNullable ?_
    rcases hdescribed with rfl | ⟨description, rfl⟩
    · exact hnode
    · exact (everywhere_isRegular_withDescription _ _).mpr hnode
  | entries _ hnode => exact everywhere_withNullable (everywhere_of_entriesForm hnode)

/-- No union in a converted node is without members. -/
theorem everywhere_hasMembers_of_ofDocument {document : Json}
    {external? : Option (Json → Except Fault Json)} {limit : ReferenceLimit}
    (h : ofDocument document external? limit = .ok node) : Everywhere HasMembers node :=
  fun n hn => (everywhere_isRegular_of_ofDocument h n hn).hasMembers

end Schema
end SchemaTypings
