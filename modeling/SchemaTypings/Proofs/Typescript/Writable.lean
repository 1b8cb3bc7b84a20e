/-
  SchemaTypings.Proofs.Typescript.Writable

  When the source for a node can be written.  What can be in the way are a description that is no
  text, a literal or constraint with an integer of too many digits, and the indent.
-/
import SchemaTypings.Proofs.Schema.Values
import SchemaTypings.Proofs.Typescript.Notes

namespace SchemaTypings.Typescript

open SchemaNode

/-! ## Literals -/

/-- A literal type is written as JSON text. -/
theorem formatLiteral_eq_written (value : Json) : formatLiteral value = value.written := by
  cases value with
  | bool b => cases b <;> rfl
  | _ => rfl

theorem checkLiteral_eq_error_iff {value : Json} {fault : Fault} :
    checkLiteral value = .error fault ↔ fault = .numeralTooLong ∧ value.isWritable = false := by
  rw [checkLiteral, formatLiteral_eq_written, Json.written]
  cases hwritable : value.isWritable with
  | true => simp [Except.map]
  | false => simp [Except.map, eq_comm]

/-! ## Nodes -/

section
variable {config : Config} {fault : Fault}

/-- Whether a fault is met where a node's own parts are written: its note has a description that is
no text, or one of its values has an integer of too many digits. -/
def FailsAt (config : Config) (fault : Fault) (n : SchemaNode) : Prop :=
  noteLines config n.note = .error fault ∨
    fault = .numeralTooLong ∧ ∃ v ∈ n.values, v.isWritable = false

theorem failsAt_of_checkNote {node : SchemaNode} (h : checkNote config node.note = .error fault) :
    FailsAt config fault node := by
  rw [checkNote] at h
  split at h
  · next hlines =>
    cases h
    exact .inl hlines
  · split at h
    · next hlong =>
      cases h
      rw [Bool.and_eq_true, Bool.not_eq_true', List.all_eq_false] at hlong
      -- The lines are there, so it is one of the constraints that cannot be shown.
      obtain ⟨-, constraint, hmem, hwritable⟩ := hlong
      refine .inr ⟨rfl, constraint.2, ?_, by simpa using hwritable⟩
      have hvalue := List.mem_map_of_mem (f := Prod.snd) hmem
      cases node with
      | literal value note => exact List.mem_cons_of_mem _ hvalue
      | _ => exact hvalue
    · cases h

mutual
/-- A failure in a node is one of a node inside it. -/
theorem failsAt_of_checkNode (node : SchemaNode) (h : checkNode config node = .error fault) :
    ∃ n ∈ node.subnodes, FailsAt config fault n := by
  match node with
  | .literal value note =>
    obtain ⟨hfault, hwritable⟩ := checkLiteral_eq_error_iff.mp h
    exact ⟨_, List.mem_singleton_self _, .inr ⟨hfault, value, List.mem_cons_self, hwritable⟩⟩
  | .object fields isOpen note =>
    obtain ⟨n, hn, hfails⟩ := failsAt_of_checkFields fields h
    exact ⟨n, List.mem_cons_of_mem _ hn, hfails⟩
  | .array items note =>
    obtain ⟨n, hn, hfails⟩ := failsAt_of_checkNode items h
    exact ⟨n, List.mem_cons_of_mem _ hn, hfails⟩
  | .record values note =>
    obtain ⟨n, hn, hfails⟩ := failsAt_of_checkNode values h
    exact ⟨n, List.mem_cons_of_mem _ hn, hfails⟩
  | .union members note =>
    obtain ⟨n, hn, hfails⟩ := failsAt_of_checkMembers members h
    exact ⟨n, List.mem_cons_of_mem _ hn, hfails⟩
  | .any _ | .null _ | .primitive _ _ => cases h

theorem failsAt_of_checkFields (fields : List (Member SchemaNode))
    (h : checkFields config fields = .error fault) :
    ∃ n ∈ subnodesOfFields fields, FailsAt config fault n := by
  match fields with
  | [] => cases h
  | field :: rest =>
    rw [checkFields] at h
    split at h
    · next hfails =>
      cases h
      obtain ⟨n, hn, hfails⟩ := failsAt_of_checkField field hfails
      exact ⟨n, List.mem_append_left _ hn, hfails⟩
    · obtain ⟨n, hn, hfails⟩ := failsAt_of_checkFields rest h
      exact ⟨n, List.mem_append_right _ hn, hfails⟩

theorem failsAt_of_checkField (field : Member SchemaNode)
    (h : checkField config field = .error fault) :
    ∃ n ∈ subnodesOfField field, FailsAt config fault n := by
  match field with
  | ⟨_, _, node⟩ =>
    rw [checkField] at h
    split at h
    · next hfails =>
      cases h
      exact failsAt_of_checkNode node hfails
    · exact ⟨node, self_mem_subnodes node, failsAt_of_checkNote h⟩

theorem failsAt_of_checkMembers (members : List SchemaNode)
    (h : checkMembers config members = .error fault) :
    ∃ n ∈ subnodesOfMembers members, FailsAt config fault n := by
  match members with
  | [] => cases h
  | member :: rest =>
    rw [checkMembers] at h
    split at h
    · next hfails =>
      cases h
      obtain ⟨n, hn, hfails⟩ := failsAt_of_checkNode member hfails
      exact ⟨n, List.mem_append_left _ hn, hfails⟩
    · obtain ⟨n, hn, hfails⟩ := failsAt_of_checkMembers rest h
      exact ⟨n, List.mem_append_right _ hn, hfails⟩
end

/-! ## Sources -/

/-- Where no source is written for a node, one of the nodes inside it fails, if it is not the indent
that cannot be written. -/
theorem exists_of_typeSource_error {node : SchemaNode} {name : String} {doc : List String}
    (h : typeSource config node name doc = .error fault) :
    config.indent = .error fault ∨ ∃ n ∈ node.subnodes, FailsAt config fault n := by
  rw [typeSource] at h
  split at h
  · next hfails =>
    cases h
    exact .inr ⟨node, self_mem_subnodes node, failsAt_of_checkNote hfails⟩
  · split at h
    · next hfails =>
      cases h
      exact .inr (failsAt_of_checkNode node hfails)
    · rcases exists_of_nodeSource_error h with hindent | ⟨n, hn, hfails⟩
      · exact .inl hindent
      · exact .inr ⟨n, hn, .inl hfails⟩

/-- The source for a node is written where all descriptions in it are texts and no value has an
integer of too many digits. -/
theorem exists_typeSource {indent : Line} (hindent : config.indent = .ok indent) {node : SchemaNode}
    (hdescriptions : node.Everywhere fun n =>
      n.note.description.isTruthy = true → ∃ s, n.note.description = .str s)
    (hvalues : node.Writes fun v => v.isWritable = true) (name : String) (doc : List String) :
    ∃ source, typeSource config node name doc = .ok source := by
  cases hsource : typeSource config node name doc with
  | ok source => exact ⟨source, rfl⟩
  | error fault =>
    rcases exists_of_typeSource_error hsource with hfails | ⟨n, hn, hfails | ⟨-, v, hv, hlong⟩⟩
    · rw [hindent] at hfails
      cases hfails
    · obtain ⟨-, htruthy, hnot⟩ := eq_of_noteLines_error hfails
      obtain ⟨s, hs⟩ := hdescriptions n hn htruthy
      exact absurd hs (hnot s)
    · rw [hvalues n hn v hv] at hlong
      cases hlong

end

end SchemaTypings.Typescript
