/-
  SchemaTypings.Proofs.Schema.RawParts

  Raw nodes that have exactly the parts that their kinds call for.  A conversion gives such a node,
  and all nodes inside it, at whatever place of whatever node, are such nodes too.
-/
import SchemaTypings.Proofs.Schema.Nesting
import SchemaTypings.Proofs.Schema.NullKeyword
import SchemaTypings.Proofs.Schema.RawConvert
import SchemaTypings.Proofs.Schema.WellFormed

namespace SchemaTypings

namespace RawNode

/-- Whether there are exactly the parts that the kind calls for. -/
structure IsWellFormed (n : RawNode) : Prop where
  items : n.items?.isSome = true ↔ n.kind = .array
  values : n.values?.isSome = true ↔ n.kind = .record
  fields : n.fields ≠ [] → n.kind = .object
  names : (n.fields.map Member.name).Nodup
  isOpen : n.isOpen = true → n.kind = .object
  members : if n.kind = .union then 2 ≤ n.members.length else n.members = []
  literal : n.literal ≠ .null → n.kind = .literal

/-- Whether a node is another one or inside it, at any place that a node has for nodes. -/
inductive Contains : RawNode → RawNode → Prop where
  | self (n : RawNode) : Contains n n
  | field {n inner : RawNode} {field : Member RawNode} (hfield : field ∈ n.fields)
      (h : Contains field.type inner) : Contains n inner
  | items {n items inner : RawNode} (hitems : n.items? = some items) (h : Contains items inner) :
      Contains n inner
  | values {n values inner : RawNode} (hvalues : n.values? = some values)
      (h : Contains values inner) : Contains n inner
  | member {n member inner : RawNode} (hmember : member ∈ n.members) (h : Contains member inner) :
      Contains n inner

end RawNode

namespace SchemaNode

variable {p : SchemaNode → Prop} {node : SchemaNode}

/-- The raw node of a well-formed node has exactly the parts that its kind calls for. -/
theorem isWellFormed_toRaw (h : node.IsWellFormed True) : node.toRaw.IsWellFormed := by
  cases node with
  | primitive kind note =>
    cases kind <;> exact ⟨by simp [toRaw, Primitive.nodeKind], by simp [toRaw, Primitive.nodeKind],
      by simp [toRaw], List.nodup_nil, by simp [toRaw], rfl, by simp [toRaw]⟩
  | object fields isOpen note =>
    rw [toRaw_object]
    refine ⟨by simp, by simp, fun _ => rfl, ?_, fun _ => rfl, rfl, by simp⟩
    rw [List.map_map]
    exact h trivial
  | union members note =>
    rw [toRaw_union]
    refine ⟨by simp, by simp, by simp, List.nodup_nil, by simp, ?_, by simp⟩
    rw [if_pos rfl, List.length_map]
    exact h
  | literal value note =>
    exact ⟨by simp [toRaw], by simp [toRaw], by simp [toRaw], List.nodup_nil,
      by simp [toRaw], rfl, fun _ => rfl⟩
  | _ =>
    exact ⟨by simp [toRaw], by simp [toRaw], by simp [toRaw], List.nodup_nil,
      by simp [toRaw], rfl, by simp [toRaw]⟩

/-- What is inside the raw node of a node is the raw node of one inside it. -/
theorem exists_of_contains_toRaw (hnode : node.Everywhere p) {inner : RawNode}
    (h : node.toRaw.Contains inner) : ∃ n, p n ∧ inner = n.toRaw := by
  -- By induction on the way in: a raw node has a part only where its node has one.
  generalize hraw : node.toRaw = raw at h
  induction h generalizing node with
  | self n => exact ⟨node, hnode node (self_mem_subnodes node), hraw.symm⟩
  | @field n inner field hfield _ ih =>
    subst hraw
    cases node with
    | object fields isOpen note =>
      rw [toRaw_object] at hfield
      obtain ⟨f, hf, rfl⟩ := List.mem_map.mp hfield
      exact ih ((everywhere_object.mp hnode).2 f hf) rfl
    | _ => cases hfield
  | @items n items inner hitems _ ih =>
    subst hraw
    cases node with
    | array items note =>
      cases hitems
      exact ih (everywhere_array.mp hnode).2 rfl
    | _ => cases hitems
  | @values n values inner hvalues _ ih =>
    subst hraw
    cases node with
    | record values note =>
      cases hvalues
      exact ih (everywhere_record.mp hnode).2 rfl
    | _ => cases hvalues
  | @member n member inner hmember _ ih =>
    subst hraw
    cases node with
    | union members note =>
      rw [toRaw_union] at hmember
      obtain ⟨m, hm, rfl⟩ := List.mem_map.mp hmember
      exact ih ((everywhere_union.mp hnode).2 m hm) rfl
    | _ => cases hmember

/-- What holds of all nodes inside the raw node holds of the raw nodes of all nodes inside. -/
theorem everywhere_of_contains {q : RawNode → Prop} (node : SchemaNode)
    (h : ∀ inner, node.toRaw.Contains inner → q inner) : node.Everywhere fun n => q n.toRaw := by
  have hself : q node.toRaw := h _ (.self _)
  match node with
  | .object fields isOpen note =>
    refine everywhere_object.mpr ⟨hself, fun field hfield => ?_⟩
    have hlt : sizeOf field.type < sizeOf fields := by
      have hmem := List.sizeOf_lt_of_mem hfield
      cases field
      simp at hmem ⊢
      omega
    have hraw : field.map toRaw ∈ (SchemaNode.object fields isOpen note).toRaw.fields := by
      rw [toRaw_object]
      exact List.mem_map_of_mem hfield
    exact everywhere_of_contains field.type fun inner hinner => h inner (.field hraw hinner)
  | .array items note =>
    exact everywhere_array.mpr ⟨hself, everywhere_of_contains items fun inner hinner =>
      h inner (.items rfl hinner)⟩
  | .record values note =>
    exact everywhere_record.mpr ⟨hself, everywhere_of_contains values fun inner hinner =>
      h inner (.values rfl hinner)⟩
  | .union members note =>
    refine everywhere_union.mpr ⟨hself, fun member hmember => ?_⟩
    have hlt := List.sizeOf_lt_of_mem hmember
    have hraw : member.toRaw ∈ (SchemaNode.union members note).toRaw.members := by
      rw [toRaw_union]
      exact List.mem_map_of_mem hmember
    exact everywhere_of_contains member fun inner hinner => h inner (.member hraw hinner)
  | .any _ => exact everywhere_any.mpr hself
  | .null _ => exact everywhere_null.mpr hself
  | .primitive _ _ => exact everywhere_primitive.mpr hself
  | .literal _ _ => exact everywhere_literal.mpr hself
termination_by sizeOf node

end SchemaNode

namespace Schema.Raw

/-- All nodes in the raw node of a document with distinct keys have exactly the parts that their
kinds call for. -/
theorem isWellFormed_of_contains {document : Json}
    {external? : Option (Json → Except Fault Json)} {limit : ReferenceLimit} {raw inner : RawNode}
    (hkeys : document.HasDistinctKeys)
    (htargets : ∀ resolver ∈ external?, ∀ reference target,
      resolver reference = .ok target → target.HasDistinctKeys)
    (h : ofDocument document external? limit = .ok raw) (hinner : raw.Contains inner) :
    inner.IsWellFormed := by
  rw [ofDocument_eq] at h
  obtain ⟨node, hnode, rfl⟩ := exists_of_map_eq_ok h
  -- What references lead to is inside the document or comes from a resolver with distinct keys.
  have hwell : node.Everywhere (SchemaNode.IsWellFormed True) := by
    refine wellFormed_of_convert (fun _ reference target hlead => ?_) (fun _ => hkeys) hnode
    rcases target_eq_ok_iff.mp (hlead.target_eq .root) with
      ⟨fragment, -, hresolve⟩ | ⟨-, resolver, hresolver, htarget⟩
    · exact Pointer.hasDistinctKeys_of_walk hresolve hkeys
    · exact htargets resolver hresolver reference target htarget
  obtain ⟨n, hn, rfl⟩ := SchemaNode.exists_of_contains_toRaw hwell hinner
  exact SchemaNode.isWellFormed_toRaw hn

end Schema.Raw
end SchemaTypings
