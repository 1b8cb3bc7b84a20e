/-
  SchemaTypings.Proofs.Schema.Values

  Where the values come from that are written for a document: the literals and constraints in a
  converted node are found inside the schemas that it comes from.
-/
import SchemaTypings.Proofs.Json.Writable
import SchemaTypings.Proofs.Schema.NullKeyword
import SchemaTypings.Proofs.Schema.WellFormed

namespace SchemaTypings

theorem Entries.mem_insert {α : Type} {es : Entries α} {key : String} {value : α} {e : String × α}
    (h : e ∈ es.insert key value) : e = (key, value) ∨ e ∈ es := by
  induction es with
  | nil => exact .inl (List.mem_singleton.mp h)
  | cons first rest ih =>
    obtain ⟨k, v⟩ := first
    rw [insert] at h
    split at h
    · next hk => exact hk ▸ (List.mem_cons.mp h).imp_right (List.mem_cons_of_mem _)
    · rcases List.mem_cons.mp h with rfl | h
      · exact .inr List.mem_cons_self
      · exact (ih h).imp_right (List.mem_cons_of_mem _)

theorem Inside.isWritable {a b : Json} (h : Inside a b) (ha : a.isWritable = true) :
    b.isWritable = true := by
  induction h with
  | item hitem => exact Json.isWritable_arr_iff.mp ha _ hitem
  | value hvalue => exact Json.isWritable_obj_iff.mp ha _ hvalue
  | trans _ _ ihab ihbc => exact ihbc (ihab ha)

/-- What holds of all that is inside a value holds of all that is inside its parts. -/
theorem Inside.forall_inside {q : Json → Prop} {a b : Json} (h : Inside a b)
    (ha : ∀ v, Inside a v → q v) : ∀ v, Inside b v → q v :=
  fun v hv => ha v (h.trans hv)

theorem Pointer.isWritable_of_walk {root target : Json} {tokens : List (List Char)}
    (h : walk root tokens = .ok (some target)) (hroot : root.isWritable = true) :
    target.isWritable = true :=
  walk_induction (p := fun v => v.isWritable = true)
    (fun _ _ hitems hmem => Json.isWritable_arr_iff.mp hitems _ hmem)
    (fun _ _ _ hentries hmem => Json.isWritable_obj_iff.mp hentries _ hmem) h hroot

/-- References lead to values without integers of too many digits, if there are none in the document
and none in what is supplied from outside. -/
theorem Schema.isWritable_of_target {sources : Sources} (hroot : sources.root.isWritable = true)
    (hexternal : ∀ resolver ∈ sources.external?, ∀ reference target,
      resolver reference = .ok target → target.isWritable = true)
    {reference target : Json} {location : Location}
    (h : sources.target reference location = .ok target) : target.isWritable = true := by
  rcases target_eq_ok_iff.mp h with
    ⟨fragment, -, hresolve⟩ | ⟨-, resolver, hresolver, htarget⟩
  · exact Pointer.isWritable_of_walk hresolve hroot
  · exact hexternal resolver hresolver reference target htarget

namespace SchemaNode

/-- The values that are written for the node itself: its literal and its constraints. -/
def values : SchemaNode → List Json
  | .literal value note => value :: note.constraints.map Prod.snd
  | node => node.note.constraints.map Prod.snd

/-- Whether something holds of all values that are written for a node. -/
def Writes (q : Json → Prop) : SchemaNode → Prop := Everywhere fun n => ∀ v ∈ n.values, q v

variable {q : Json → Prop} {node : SchemaNode}

theorem values_withDescription (node : SchemaNode) (description : Json) :
    (node.withDescription description).values = node.values := by
  cases node <;> rfl

theorem writes_withDescription (description : Json) (h : node.Writes q) :
    (node.withDescription description).Writes q :=
  (everywhere_withDescription (by rw [values_withDescription])).mpr h

theorem writes_withNull (h : node.Writes q) : node.withNull.Writes q := by
  unfold withNull
  split
  · exact h
  · split
    · exact h
    · refine everywhere_union.mpr ⟨List.forall_mem_nil _, ?_⟩
      rw [List.forall_mem_cons, List.forall_mem_singleton]
      exact ⟨writes_withDescription _ h, everywhere_null.mpr (List.forall_mem_nil _)⟩

end SchemaNode

namespace Schema

open SchemaNode

section
variable {q : Json → Prop} {node : SchemaNode} {location : Location} {description : Json}

/-! ## Nodes -/

theorem writes_literalNode {value : Json} (hvalue : q value)
    (h : literalNode value location description = .ok node) : node.Writes q := by
  rcases literalNode_cases h with ⟨-, rfl⟩ | ⟨-, rfl⟩
  · exact everywhere_null.mpr (List.forall_mem_nil _)
  · exact everywhere_literal.mpr (List.forall_mem_singleton.mpr hvalue)

theorem writes_enumNode {values : Json} (hvalues : ∀ items, values = .arr items → ∀ v ∈ items, q v)
    (h : enumNode values location description = .ok node) : node.Writes q := by
  rcases enumNode_cases h with ⟨value, rfl, rfl⟩ | ⟨items, nodes, rfl, -, hnodes, rfl⟩
  · exact everywhere_literal.mpr (hvalues _ rfl)
  · refine everywhere_union.mpr ⟨List.forall_mem_nil _, fun n hn => ?_⟩
    obtain ⟨value, hmem, l, hvalue⟩ := exists_left_of_forall₂ hnodes hn
    exact writes_literalNode (hvalues _ rfl value hmem) hvalue

theorem writes_primitiveNode {type : Json} {note : Note} (htrue : q (.bool true))
    (hnote : ∀ v ∈ note.constraints.map Prod.snd, q v)
    (h : primitiveNode type note location = .ok node) : node.Writes q := by
  obtain ⟨name, make, -, hmake, rfl⟩ := primitiveNode_eq_ok_iff.mp h
  have hmarked : ∀ v ∈ (markedNote name note).constraints.map Prod.snd, q v := by
    rw [List.forall_mem_map] at hnote ⊢
    unfold markedNote
    split
    · -- an integer is marked by a constraint of its own
      intro constraint hmem
      rcases Entries.mem_insert hmem with rfl | hmem
      · exact htrue
      · exact hnote _ hmem
    · exact hnote
  rcases primitive?_cases hmake with ⟨kind, rfl⟩ | rfl
  · exact everywhere_primitive.mpr hmarked
  · exact everywhere_null.mpr hmarked

theorem writes_describedBy (h : node.Writes q) : (describedBy description node).Writes q := by
  unfold describedBy
  split
  · exact h
  · exact writes_withDescription _ h

theorem writes_unionOf {alternatives : List SchemaNode} (h : ∀ node ∈ alternatives, node.Writes q) :
    (unionOf alternatives description).Writes q := by
  have hall : ∀ member ∈ alternatives.flatMap spliceUnion, member.Writes q := by
    rw [List.forall_mem_flatMap]
    intro node hnode
    unfold spliceUnion
    split
    · exact (everywhere_union.mp (h _ hnode)).2
    · exact List.forall_mem_singleton.mpr (h _ hnode)
  unfold unionOf
  split
  · next only heq => exact writes_describedBy (hall only (by simp [heq]))
  · exact everywhere_union.mpr ⟨List.forall_mem_nil _, hall⟩

theorem writes_intersectionOf {nodes : List SchemaNode}
    (h : intersectionOf nodes location description = .ok node)
    (hnodes : ∀ node ∈ nodes, node.Writes q) : node.Writes q := by
  unfold intersectionOf at h
  split at h
  · cases h
    exact writes_describedBy (List.forall_mem_singleton.mp hnodes)
  · obtain ⟨merged, hmerge, rfl⟩ := exists_of_map_eq_ok h
    refine everywhere_object.mpr ⟨List.forall_mem_nil _,
      forall_type_mergeObjects hmerge (by simp) fun _ _ _ hmem => ?_⟩
    exact (everywhere_object.mp (hnodes _ hmem)).2

/-! ## Forms -/

/-- What is shown of a schema and its node: what holds inside the schema holds of the values that are
written for the node. -/
def KeepsValues (q : Json → Prop) (schema : Json) (node : SchemaNode) : Prop :=
  (∀ v, Inside schema v → q v) → node.Writes q

variable {schema : Entries Json} {note : Note}

/-- The constraints that a schema states are inside it. -/
theorem forall_constraints (hinside : ∀ v, Inside (.obj schema) v → q v) :
    ∀ v ∈ (constraints schema).map Prod.snd, q v := by
  rw [List.forall_mem_map]
  intro constraint hmem
  obtain ⟨keyword, -, hsome⟩ := List.mem_filterMap.mp hmem
  obtain ⟨value, hvalue, rfl⟩ := Option.map_eq_some_iff.mp hsome
  exact hinside value (.of_get? hvalue)

theorem writes_of_objectForm (hinside : ∀ v, Inside (.obj schema) v → q v)
    (hnote : note.constraints = constraints schema)
    (h : ObjectForm (KeepsValues q) schema note node) : node.Writes q := by
  have hvalues : ∀ v ∈ note.constraints.map Prod.snd, q v := hnote ▸ forall_constraints hinside
  cases h with
  | listed _ hproperties hfields =>
    refine everywhere_object.mpr ⟨hvalues, fun field hfield => ?_⟩
    obtain ⟨property, hproperty, hform⟩ := exists_left_of_forall₂ hfields hfield
    exact hform.2.2 (((Inside.of_get? hproperties).trans (.value hproperty)).forall_inside hinside)
  | closed => exact everywhere_object.mpr ⟨hvalues, by simp⟩
  | values _ hadditional hnode =>
    exact everywhere_record.mpr
      ⟨hvalues, hnode ((Inside.of_get? hadditional).forall_inside hinside)⟩
  | anyValues =>
    exact everywhere_record.mpr ⟨hvalues, everywhere_any.mpr (List.forall_mem_nil _)⟩

theorem writes_of_arrayForm (hinside : ∀ v, Inside (.obj schema) v → q v)
    (hnote : note.constraints = constraints schema)
    (h : ArrayForm (KeepsValues q) schema note node) : node.Writes q := by
  have hvalues : ∀ v ∈ note.constraints.map Prod.snd, q v := hnote ▸ forall_constraints hinside
  cases h with
  | items hitems hnode =>
    exact everywhere_array.mpr ⟨hvalues, hnode ((Inside.of_get? hitems).forall_inside hinside)⟩
  | anyItems => exact everywhere_array.mpr ⟨hvalues, everywhere_any.mpr (List.forall_mem_nil _)⟩

theorem writes_of_typedForm {type : Json} (htrue : q (.bool true))
    (hinside : ∀ v, Inside (.obj schema) v → q v) (h : TypedForm (KeepsValues q) schema type node) :
    node.Writes q := by
  have hvalues : ∀ {note : Note}, note.constraints = constraints schema →
      ∀ v ∈ note.constraints.map Prod.snd, q v := fun hnote => hnote ▸ forall_constraints hinside
  induction h with
  | untyped hnote => exact everywhere_any.mpr (hvalues hnote)
  | impliedObject _ hnode hnote => exact writes_of_objectForm hinside hnote hnode
  | impliedArray _ _ hnode hnote => exact writes_of_arrayForm hinside hnote hnode
  | object hnode hnote => exact writes_of_objectForm hinside hnote hnode
  | array hnode hnote => exact writes_of_arrayForm hinside hnote hnode
  | primitive hnode hnote => exact writes_primitiveNode htrue (hvalues hnote) hnode
  | sole _ ih => exact ih
  | objectOrNull _ hnode hnote => exact writes_withNull (writes_of_objectForm hinside hnote hnode)
  | arrayOrNull _ hnode hnote => exact writes_withNull (writes_of_arrayForm hinside hnote hnode)
  | primitives _ hnodes hnote =>
    refine everywhere_union.mpr ⟨List.forall_mem_nil _, fun n hn => ?_⟩
    obtain ⟨type, -, hnode⟩ := exists_left_of_forall₂ (forall₂_primitiveNodes hnodes) hn
    exact writes_primitiveNode htrue (hvalues hnote) hnode

theorem writes_of_entriesForm (htrue : q (.bool true)) (hinside : ∀ v, Inside (.obj schema) v → q v)
    (h : EntriesForm (KeepsValues q) schema node) : node.Writes q := by
  have hlist : ∀ {keyword : String} {schemas : List Json} {nodes : List SchemaNode},
      schema.get? keyword = some (.arr schemas) → List.Forall₂ (KeepsValues q) schemas nodes →
      ∀ n ∈ nodes, n.Writes q := by
    intro keyword schemas nodes hget hnodes n hn
    obtain ⟨part, hpart, hform⟩ := exists_left_of_forall₂ hnodes hn
    exact hform (((Inside.of_get? hget).trans (.item hpart)).forall_inside hinside)
  cases h with
  | const hvalue hnode => exact writes_literalNode (hinside _ (.of_get? hvalue)) hnode
  | enum hvalues hnode =>
    refine writes_enumNode (fun items heq v hv => ?_) hnode
    exact hinside v ((Inside.of_get? (heq ▸ hvalues)).trans (.item hv))
  | union _ hoptions _ hnodes => exact writes_unionOf (hlist hoptions hnodes)
  | intersection hparts _ hnodes hnode => exact writes_intersectionOf hnode (hlist hparts hnodes)
  | typed hnode => exact writes_of_typedForm htrue hinside hnode

theorem writes_withNullable (h : node.Writes q) : (withNullable schema node).Writes q := by
  unfold withNullable
  split
  · exact writes_withNull h
  · exact h

theorem keepsValues_of_form {schema : Json} (htrue : q (.bool true))
    (h : Form (KeepsValues q) (fun _ n => n.Writes q) schema node) : KeepsValues q schema node := by
  intro hinside
  cases h with
  | everything => exact everywhere_any.mpr (List.forall_mem_nil _)
  | reference _ hnode hdescribed =>
    apply writes_withNullable
    rcases hdescribed with rfl | ⟨description, rfl⟩
    · exact hnode
    · exact writes_withDescription _ hnode
  | entries _ hnode => exact writes_withNullable (writes_of_entriesForm htrue hinside hnode)

/-! ## Conversions -/

theorem keepsValues_of_convertWith {follow : Json → Location → Result} (htrue : q (.bool true))
    (hfollow : ∀ reference l n, follow reference l = .ok n → n.Writes q)
    {schema : Json} (h : convertWith follow schema location = .ok node) :
    KeepsValues q schema node := by
  induction hsize : sizeOf schema using Nat.strongRecOn generalizing schema location node with
  | ind size ih =>
    refine keepsValues_of_form htrue ((form_of_convertWith h).imp ?_ ?_)
    · rintro part n ⟨hlt, _, hn⟩
      exact ih (sizeOf part) (by omega) hn rfl
    · rintro reference n ⟨_, hn⟩
      exact hfollow _ _ _ hn

/-- What holds inside a schema and inside all that references lead to holds of the values that are
written for its node. -/
theorem writes_of_convert {sources : Sources} {stop : Json → Location → ConversionError}
    {budget : Nat} {schema : Json} (htrue : q (.bool true))
    (htargets : ∀ reference l target, sources.target reference l = .ok target →
      ∀ v, Inside target v → q v)
    (hinside : ∀ v, Inside schema v → q v)
    (h : convert sources stop budget schema location = .ok node) : node.Writes q := by
  -- Along the budget, each of the conversions by the size of the schema.
  induction budget generalizing schema location node with
  | zero =>
    rw [convert_eq_convertWith] at h
    refine keepsValues_of_convertWith htrue (fun _ _ _ hn => ?_) h hinside
    cases hn
  | succ budget ih =>
    rw [convert_eq_convertWith] at h
    refine keepsValues_of_convertWith htrue (fun reference l n hn => ?_) h hinside
    obtain ⟨rest, target, hbudget, htarget, hconvert⟩ := exists_of_follower_eq_ok hn
    cases hbudget
    exact ih (htargets reference l target htarget) hconvert

end
end Schema
end SchemaTypings
