/-
  SchemaTypings.Proofs.Schema.Denotation

  The set of values that a node stands for, and what the steps of a conversion make of it: null is
  added, alternatives are joined, objects are merged.
-/
import SchemaTypings.Proofs.Schema.Leaves
import SchemaTypings.Proofs.Schema.Validity
import Mathlib.Data.List.Basic

namespace SchemaTypings

namespace SchemaNode

/-- Whether a value is of a kind without parts. -/
def isOfPrimitive (kind : Primitive) (v : Json) : Bool :=
  match kind, v with
  | .string, .str _ | .number, .int _ | .number, .float _ | .boolean, .bool _ => true
  | _, _ => false

mutual
/-- Whether a value is among those that a node stands for.  An object may have keys that are not
listed; of a record every value counts. -/
def accepts : SchemaNode → Json → Bool
  | .any _, _ => true
  | .null _, v =>
    match v with
    | .null => true
    | _ => false
  | .primitive kind _, v => isOfPrimitive kind v
  | .literal value _, v => value.same v
  | .object fields _ _, v =>
    match v with
    | .obj entries => acceptsFields fields entries
    | _ => false
  | .array items _, v =>
    match v with
    | .arr members => members.all fun member => items.accepts member
    | _ => false
  | .record values _, v =>
    match v with
    | .obj entries => entries.all fun e => values.accepts e.2
    | _ => false
  | .union members _, v => acceptsSome members v

/-- Whether all fields find their values among the entries. -/
def acceptsFields : List (Member SchemaNode) → Entries Json → Bool
  | [], _ => true
  | field :: rest, entries => acceptsField field entries && acceptsFields rest entries

/-- Whether a field finds its value among the entries, or none where it is optional. -/
def acceptsField : Member SchemaNode → Entries Json → Bool
  | ⟨name, optional, node⟩, entries =>
    match entries.get? name with
    | some value => node.accepts value
    | none => optional

/-- Whether a value is among those of one of the nodes. -/
def acceptsSome : List SchemaNode → Json → Bool
  | [], _ => false
  | node :: rest, v => node.accepts v || acceptsSome rest v
end

theorem acceptsField_eq (field : Member SchemaNode) (entries : Entries Json) :
    acceptsField field entries =
      match entries.get? field.name with
      | some value => field.type.accepts value
      | none => field.optional := by
  cases field
  rfl

theorem acceptsFields_eq_all (fields : List (Member SchemaNode)) (entries : Entries Json) :
    acceptsFields fields entries = fields.all (acceptsField · entries) := by
  induction fields with
  | nil => rfl
  | cons field rest ih => exact congrArg (acceptsField field entries && ·) ih

theorem acceptsSome_eq_any (nodes : List SchemaNode) (v : Json) :
    acceptsSome nodes v = nodes.any (·.accepts v) := by
  induction nodes with
  | nil => rfl
  | cons node rest ih => exact congrArg (node.accepts v || ·) ih

/-- A union accepts what one of its members accepts. -/
@[simp] theorem accepts_union {members : List SchemaNode} {note : Note} {v : Json} :
    (union members note).accepts v = true ↔ ∃ node ∈ members, node.accepts v = true := by
  show acceptsSome members v = true ↔ _
  rw [acceptsSome_eq_any, List.any_eq_true]

/-- An object accepts objects in which every field finds its value. -/
theorem accepts_object {fields : List (Member SchemaNode)} {isOpen : Bool} {note : Note} {v : Json} :
    (object fields isOpen note).accepts v = true ↔
      ∃ entries, v = .obj entries ∧ ∀ field ∈ fields, acceptsField field entries = true := by
  cases v with
  | obj entries =>
    show acceptsFields fields entries = true ↔ _
    rw [acceptsFields_eq_all, List.all_eq_true]
    constructor
    · exact fun h => ⟨entries, rfl, h⟩
    · rintro ⟨_, ⟨⟩, h⟩
      exact h
  | _ =>
    refine iff_of_false Bool.false_ne_true ?_
    rintro ⟨_, ⟨⟩, -⟩

/-- Notes say nothing of the values. -/
@[simp] theorem accepts_withNote (n : SchemaNode) (note : Note) (v : Json) :
    (n.withNote note).accepts v = n.accepts v := by
  cases n <;> rfl

@[simp] theorem accepts_withDescription (n : SchemaNode) (description : Json) (v : Json) :
    (n.withDescription description).accepts v = n.accepts v :=
  accepts_withNote n _ v

/-- A nullable node accepts null. -/
theorem accepts_null_of_isNullable {n : SchemaNode} (h : n.isNullable = true) :
    n.accepts .null = true := by
  cases n with
  | null _ => rfl
  | union members note =>
    obtain ⟨node, hnode, hnull⟩ := List.any_eq_true.mp h
    refine accepts_union.mpr ⟨node, hnode, ?_⟩
    cases node with
    | null _ => rfl
    | _ => cases hnull
  | _ => cases h

/-- Adding null adds null and takes nothing away. -/
theorem accepts_withNull {n : SchemaNode} {v : Json} (h : v = .null ∨ n.accepts v = true) :
    n.withNull.accepts v = true := by
  unfold withNull
  split
  · rfl
  · split
    · next hnullable =>
      rcases h with rfl | h
      · exact accepts_null_of_isNullable hnullable
      · exact h
    · rw [accepts_union]
      rcases h with rfl | h
      · exact ⟨.null {}, by simp, rfl⟩
      · exact ⟨n.withDescription .null, by simp, by rw [accepts_withDescription]; exact h⟩

end SchemaNode

namespace Schema

open SchemaNode

variable {v : Json} {node : SchemaNode}

/-! ## Unions -/

theorem accepts_describedBy (description : Json) (node : SchemaNode) (v : Json) :
    (describedBy description node).accepts v = node.accepts v := by
  unfold describedBy
  split
  · rfl
  · exact accepts_withDescription _ _ _

theorem exists_accepts_spliceUnion (h : node.accepts v = true) :
    ∃ member ∈ spliceUnion node, member.accepts v = true := by
  unfold spliceUnion
  split
  · exact accepts_union.mp h
  · exact ⟨node, List.mem_singleton_self _, h⟩

/-- A union of alternatives accepts what one of them accepts. -/
theorem accepts_unionOf {alternatives : List SchemaNode} (description : Json)
    (h : ∃ node ∈ alternatives, node.accepts v = true) :
    (unionOf alternatives description).accepts v = true := by
  obtain ⟨node, hnode, hv⟩ := h
  obtain ⟨member, hmember, hv⟩ := exists_accepts_spliceUnion hv
  have hmem : member ∈ alternatives.flatMap spliceUnion :=
    List.mem_flatMap.mpr ⟨node, hnode, hmember⟩
  unfold unionOf
  split
  · next only heq =>
    rw [heq, List.mem_singleton] at hmem
    rw [accepts_describedBy, ← hmem]
    exact hv
  · exact accepts_union.mpr ⟨member, hmem, hv⟩

/-! ## Intersections -/

/-- Merging in a field keeps what the entries fit. -/
theorem acceptsField_mergeField {fields : List (Member SchemaNode)} {field : Member SchemaNode}
    {entries : Entries Json} (hfields : ∀ f ∈ fields, acceptsField f entries = true)
    (hfield : acceptsField field entries = true) :
    ∀ f ∈ mergeField fields field, acceptsField f entries = true := by
  induction fields with
  | nil => simpa [mergeField] using hfield
  | cons previous rest ih =>
    rw [List.forall_mem_cons] at hfields
    rw [mergeField]
    split
    · next hname =>
      rw [List.forall_mem_cons]
      refine ⟨?_, hfields.2⟩
      have hprevious := hfields.1
      rw [acceptsField_eq] at hfield hprevious ⊢
      rw [hname] at hprevious
      split
      · next value hvalue =>
        rw [hvalue] at hfield
        exact hfield
      · next hnone =>
        rw [hnone] at hfield hprevious
        simp [hfield, hprevious]
    · rw [List.forall_mem_cons]
      exact ⟨hfields.1, ih hfields.2⟩

theorem acceptsField_foldl_mergeField {fields more : List (Member SchemaNode)}
    {entries : Entries Json} (hfields : ∀ f ∈ fields, acceptsField f entries = true)
    (hmore : ∀ f ∈ more, acceptsField f entries = true) :
    ∀ f ∈ more.foldl mergeField fields, acceptsField f entries = true := by
  induction more generalizing fields with
  | nil => exact hfields
  | cons field rest ih =>
    rw [List.forall_mem_cons] at hmore
    exact ih (acceptsField_mergeField hfields hmore.1) hmore.2

/-- Objects that all accept an object have only fields that it fits when they are merged. -/
theorem acceptsField_mergeObjects {location : Location} {index : Nat}
    {fields merged : List (Member SchemaNode)} {isOpen mergedOpen : Bool} {nodes : List SchemaNode}
    {entries : Entries Json}
    (h : mergeObjects location index fields isOpen nodes = .ok (merged, mergedOpen))
    (hfields : ∀ f ∈ fields, acceptsField f entries = true)
    (hnodes : ∀ node ∈ nodes, node.accepts (.obj entries) = true) :
    ∀ f ∈ merged, acceptsField f entries = true := by
  induction nodes generalizing index fields isOpen with
  | nil =>
    cases h
    exact hfields
  | cons node rest ih =>
    rw [List.forall_mem_cons] at hnodes
    rw [mergeObjects.eq_def] at h
    cases node with
    | object more moreOpen note =>
      obtain ⟨_, heq, hmore⟩ := accepts_object.mp hnodes.1
      cases heq
      exact ih h (acceptsField_foldl_mergeField hfields hmore) hnodes.2
    | _ => cases h

/-- Several nodes that can be merged are objects. -/
theorem exists_obj_of_mergeObjects {location : Location} {index : Nat}
    {fields : List (Member SchemaNode)} {isOpen : Bool} {nodes : List SchemaNode}
    {result : List (Member SchemaNode) × Bool} (hnonempty : nodes ≠ [])
    (h : mergeObjects location index fields isOpen nodes = .ok result)
    (hnodes : ∀ node ∈ nodes, node.accepts v = true) : ∃ entries, v = .obj entries := by
  cases nodes with
  | nil => exact absurd rfl hnonempty
  | cons node rest =>
    rw [mergeObjects.eq_def] at h
    cases node with
    | object more moreOpen note =>
      obtain ⟨entries, hv, -⟩ := accepts_object.mp (hnodes _ List.mem_cons_self)
      exact ⟨entries, hv⟩
    | _ => cases h

/-- An intersection accepts what all its nodes accept. -/
theorem accepts_intersectionOf {nodes : List SchemaNode} {location : Location} {description : Json}
    (hnonempty : nodes ≠ []) (h : intersectionOf nodes location description = .ok node)
    (hnodes : ∀ node ∈ nodes, node.accepts v = true) : node.accepts v = true := by
  unfold intersectionOf at h
  split at h
  · cases h
    rw [accepts_describedBy]
    exact hnodes _ (List.mem_singleton_self _)
  · obtain ⟨merged, hmerge, rfl⟩ := exists_of_map_eq_ok h
    obtain ⟨entries, rfl⟩ := exists_obj_of_mergeObjects hnonempty hmerge hnodes
    exact accepts_object.mpr ⟨entries, rfl, acceptsField_mergeObjects hmerge (by simp) hnodes⟩

/-! ## Literals -/

/-- The node of a literal accepts its value. -/
theorem accepts_literalNode {value description : Json} {location : Location}
    (h : literalNode value location description = .ok node) (hv : value.same v = true) :
    node.accepts v = true := by
  rcases literalNode_cases h with ⟨rfl, rfl⟩ | ⟨-, rfl⟩
  · cases v with
    | null => rfl
    | _ => simp [Json.same, Json.sameNumber] at hv
  · exact hv

/-- An enumeration accepts its values. -/
theorem accepts_enumNode {values : List Json} {location : Location} {description : Json}
    (h : enumNode (.arr values) location description = .ok node)
    (hv : ∃ value ∈ values, value.same v = true) : node.accepts v = true := by
  obtain ⟨value, hvalue, hv⟩ := hv
  rcases enumNode_cases h with ⟨sole, heq, rfl⟩ | ⟨items, nodes, heq, -, hnodes, rfl⟩
  · cases heq
    rw [List.mem_singleton.mp hvalue] at hv
    exact hv
  · cases heq
    obtain ⟨n, hn, l, hliteral⟩ := exists_right_of_forall₂ hnodes hvalue
    exact accepts_union.mpr ⟨n, hn, accepts_literalNode hliteral hv⟩

/-! ## Primitive types -/

/-- The node of a primitive type accepts the values of that type. -/
theorem accepts_primitiveNode {type : Json} {note : Note} {location : Location}
    (h : primitiveNode type note location = .ok node) (hv : isOfNamedType type v = true) :
    node.accepts v = true := by
  obtain ⟨name, make, rfl, hmake, rfl⟩ := primitiveNode_eq_ok_iff.mp h
  unfold primitive? at hmake
  unfold isOfNamedType at hv
  split at hmake <;> cases hmake <;> split at hv <;> simp_all [accepts, isOfPrimitive]

theorem exists_accepts_primitiveNodes {types : List Json} {note : Note} {location : Location}
    {nodes : List SchemaNode} (h : primitiveNodes note location types = .ok nodes)
    (hv : ∃ type ∈ types, isOfNamedType type v = true) :
    ∃ node ∈ nodes, node.accepts v = true := by
  obtain ⟨type, htype, hv⟩ := hv
  obtain ⟨n, hn, hnode⟩ := exists_right_of_forall₂ (forall₂_primitiveNodes h) htype
  exact ⟨n, hn, accepts_primitiveNode hnode hv⟩

end Schema
end SchemaTypings
