/-
  SchemaTypings.Proofs.Schema.Leaves

  The nodes of literals, of enumerations and of primitive types: all that they can be, and what each
  of them comes from.  The conversions of these schemas are opened here only.
-/
import SchemaTypings.Schema.Convert
import SchemaTypings.Proofs.Rows

namespace SchemaTypings.Schema

section
variable {location : Location} {node : SchemaNode} {nodes : List SchemaNode}

/-! ## Literals -/

/-- The node of a literal is that of null or has the value in it. -/
theorem literalNode_cases {value description : Json}
    (h : literalNode value location description = .ok node) :
    value = .null ∧ node = .null { description } ∨
      value ≠ .null ∧ node = .literal value { description } := by
  unfold literalNode at h
  split at h
  · cases h
    exact .inl ⟨rfl, rfl⟩
  · cases h
  · cases h
  · next hnull _ _ =>
    cases h
    exact .inr ⟨hnull, rfl⟩

theorem forall₂_literalNodes {index : Nat} {values : List Json}
    (h : literalNodes location index values = .ok nodes) :
    List.Forall₂ (fun value node => ∃ l, literalNode value l = .ok node) values nodes := by
  induction values generalizing index nodes with
  | nil =>
    cases h
    exact .nil
  | cons value rest ih =>
    rw [literalNodes] at h
    split at h
    · cases h
    · next node hnode =>
      obtain ⟨more, hrest, rfl⟩ := exists_of_map_eq_ok h
      exact .cons ⟨_, hnode⟩ (ih hrest)

/-- The node of an enumeration is the literal of its sole value or the union of those of its
values. -/
theorem enumNode_cases {values description : Json}
    (h : enumNode values location description = .ok node) :
    (∃ value, values = .arr [value] ∧ node = .literal value { description }) ∨
      ∃ items nodes, values = .arr items ∧ 2 ≤ items.length ∧
        List.Forall₂ (fun value node => ∃ l, literalNode value l = .ok node) items nodes ∧
        node = .union nodes { description } := by
  unfold enumNode at h
  split at h
  · next first rest =>
    split at h
    · cases h
    · next hnodes =>
      cases h
      have hlength := (forall₂_literalNodes hnodes).length_eq
      obtain rfl : rest = [] := by simpa using hlength
      exact .inl ⟨first, rfl, rfl⟩
    · next nodes hmany hnodes =>
      cases h
      have hrow := forall₂_literalNodes hnodes
      refine .inr ⟨_, nodes, rfl, ?_, hrow, rfl⟩
      -- the node of a sole value is told apart before
      cases rest with
      | nil =>
        rcases hrow with _ | ⟨_, _ | _⟩
        exact absurd rfl (hmany _)
      | cons => exact Nat.le_add_left 2 _
  · cases h

/-! ## Primitive types -/

/-- The note of a primitive type, where an integer is marked as such. -/
def markedNote (name : String) (note : Note) : Note :=
  if name = "integer" then
    { note with constraints := note.constraints.insert "integer" (.bool true) } else note

@[simp] theorem description_markedNote (name : String) (note : Note) :
    (markedNote name note).description = note.description := by
  unfold markedNote
  split <;> rfl

theorem mem_keys_markedNote {name keyword : String} {note : Note}
    (h : keyword ∈ (markedNote name note).constraints.keys) :
    keyword = "integer" ∨ keyword ∈ note.constraints.keys := by
  unfold markedNote at h
  split at h
  · rw [Entries.keys_insert] at h
    split at h
    · exact .inr h
    · exact (List.mem_append.mp h).symm.imp_left List.mem_singleton.mp
  · exact .inr h

/-- A primitive type makes a leaf of a note. -/
theorem primitive?_cases {name : String} {make : Note → SchemaNode}
    (h : primitive? name = some make) : (∃ kind, make = .primitive kind) ∨ make = .null := by
  unfold primitive? at h
  split at h
  · exact .inl ⟨_, (Option.some.inj h).symm⟩
  · exact .inl ⟨_, (Option.some.inj h).symm⟩
  · exact .inl ⟨_, (Option.some.inj h).symm⟩
  · exact .inl ⟨_, (Option.some.inj h).symm⟩
  · exact .inr (Option.some.inj h).symm
  · cases h

theorem primitiveNode_eq_ok_iff {type : Json} {note : Note} :
    primitiveNode type note location = .ok node ↔
      ∃ name make, type = .str name ∧ primitive? name = some make ∧
        make (markedNote name note) = node := by
  constructor
  · intro h
    unfold primitiveNode at h
    split at h
    · next name =>
      split at h
      · next make hmake =>
        cases h
        exact ⟨name, make, rfl, hmake, rfl⟩
      · cases h
    · cases h
    · cases h
    · cases h
  · rintro ⟨name, make, rfl, hmake, rfl⟩
    rewrite [primitiveNode, hmake]
    rfl

theorem forall₂_primitiveNodes {types : List Json} {note : Note}
    (h : primitiveNodes note location types = .ok nodes) :
    List.Forall₂ (fun type node => primitiveNode type note location = .ok node) types nodes := by
  induction types generalizing nodes with
  | nil =>
    cases h
    exact .nil
  | cons type rest ih =>
    rw [primitiveNodes] at h
    split at h
    · cases h
    · next node hnode =>
      obtain ⟨more, hrest, rfl⟩ := exists_of_map_eq_ok h
      exact .cons hnode (ih hrest)

end

end SchemaTypings.Schema
