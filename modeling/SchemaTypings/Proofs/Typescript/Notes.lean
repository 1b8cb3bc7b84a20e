/-
  SchemaTypings.Proofs.Typescript.Notes

  Where the notes in declarations come from.  Every property that is declared for a node carries the
  note of one of the nodes inside it, so that writing the source can fail at one of their
  descriptions only.
-/
import SchemaTypings.Proofs.Typescript.Hoisting
import SchemaTypings.Typescript.Printer

namespace SchemaTypings.Typescript

open Naming (Sanitizer)
open SchemaNode

/-- The notes of the properties that a declaration lists. -/
def DeclarationBody.notes : DeclarationBody → List Note
  | .interface properties _ => properties.map (·.note)
  | .alias _ => []

/-- Whether something holds of all notes in the declarations that a result uses. -/
def AllNoted {α : Type} (q : Note → Prop) (h : Hoisted α) : Prop :=
  ∀ d ∈ h.declarations, ∀ note ∈ d.body.notes, q note

section
variable {α β : Type} {q : Note → Prop} {names : Sanitizer}

theorem allNoted_plain (a : α) : AllNoted q (.plain a names) := List.forall_mem_nil _

theorem AllNoted.map {h : Hoisted α} (hh : AllNoted q h) (f : α → β) : AllNoted q (h.map f) := hh

theorem AllNoted.andThen {h : Hoisted α} (hh : AllNoted q h) {f : α → Sanitizer → Hoisted β}
    (hf : AllNoted q (f h.result h.names)) : AllNoted q (h.andThen f) := by
  intro d hd
  rcases List.mem_append.mp hd with hd | hd
  · exact hh d hd
  · exact hf d hd

theorem AllNoted.declare {body : Hoisted DeclarationBody} (h : AllNoted q body)
    (hbody : ∀ note ∈ body.result.notes, q note) (name : String) :
    AllNoted q (body.declare name) :=
  List.forall_mem_cons.mpr ⟨hbody, h⟩

end

/-! ## Along a node -/

theorem notes_referFields (fields : List (Member SchemaNode)) (parent : String)
    (names : Sanitizer) :
    (referFields fields parent names).result.map (·.note) = fields.map (·.type.note) := by
  induction fields generalizing names with
  | nil => rw [referFields]; rfl
  | cons field rest ih =>
    obtain ⟨name, optional, node⟩ := field
    rw [referFields, List.map_cons, ← ih (refer node (fieldHint parent name) names).names]
    rfl

section
variable {q : Note → Prop}

theorem forall_notes_referFields {fields : List (Member SchemaNode)}
    (hfields : ∀ field ∈ fields, field.type.Everywhere fun n => q n.note) (parent : String)
    (names : Sanitizer) (isOpen : Bool) :
    ∀ note ∈ ((referFields fields parent names).map
      (DeclarationBody.interface · isOpen)).result.notes, q note := by
  intro note hnote
  have hmem : note ∈ fields.map (·.type.note) := notes_referFields fields parent names ▸ hnote
  obtain ⟨field, hfield, rfl⟩ := List.mem_map.mp hmem
  exact hfields field hfield _ (self_mem_subnodes _)

-- Only an object lists properties; all other declarations pass on what is declared inside.
mutual
theorem allNoted_refer (node : SchemaNode) (hint : String) (names : Sanitizer)
    (hnode : node.Everywhere fun n => q n.note) : AllNoted q (refer node hint names) := by
  match node with
  | .object fields isOpen note =>
    by_cases hempty : fields = [] ∧ isOpen = false
    · obtain ⟨rfl, rfl⟩ := hempty
      rw [refer]
      exact allNoted_plain _
    · rw [refer]
      · have hfields := (everywhere_object.mp hnode).2
        have hnotes := forall_notes_referFields hfields (names.claim hint).1
          (names.claim hint).2 isOpen
        exact ((allNoted_referFields fields _ _ hfields).map _).declare hnotes _
      · rintro rfl rfl
        exact hempty ⟨rfl, rfl⟩
  | .union members note =>
    have hmembers := (everywhere_union.mp hnode).2
    rw [refer]
    split
    · next only honly =>
      have hlt := sizeOf_lt_of_nullableMember? honly
      exact (allNoted_refer only hint names (hmembers only (mem_of_nullableMember? honly))).map _
    · split
      · have hparts := allNoted_referMembers members (names.claim hint).1 1
          (names.claim hint).2 hmembers
        exact (hparts.map _).declare (List.forall_mem_nil _) _
      · exact (allNoted_referMembers members hint 1 names hmembers).map _
  | .array items note =>
    have hitems := (everywhere_array.mp hnode).2
    rw [refer]
    split
    · exact ((allNoted_refer items _ _ hitems).map _).declare (List.forall_mem_nil _) _
    · exact (allNoted_refer items _ names hitems).map _
  | .record values note =>
    have hvalues := (everywhere_record.mp hnode).2
    rw [refer]
    split
    · exact ((allNoted_refer values _ _ hvalues).map _).declare (List.forall_mem_nil _) _
    · exact (allNoted_refer values _ names hvalues).map _
  | .any _ | .null _ | .primitive _ _ | .literal _ _ =>
    rw [refer]
    exact allNoted_plain _
termination_by sizeOf node

theorem allNoted_referFields (fields : List (Member SchemaNode)) (parent : String)
    (names : Sanitizer) (hfields : ∀ field ∈ fields, field.type.Everywhere fun n => q n.note) :
    AllNoted q (referFields fields parent names) := by
  match fields with
  | [] =>
    rw [referFields]
    exact allNoted_plain _
  | ⟨name, optional, node⟩ :: rest =>
    rw [List.forall_mem_cons] at hfields
    rw [referFields]
    exact (allNoted_refer node _ names hfields.1).andThen
      ((allNoted_referFields rest parent _ hfields.2).map _)
termination_by sizeOf fields

theorem allNoted_referMembers (members : List SchemaNode) (name : String) (number : Nat)
    (names : Sanitizer) (hmembers : ∀ member ∈ members, member.Everywhere fun n => q n.note) :
    AllNoted q (referMembers members name number names) := by
  match members with
  | [] =>
    rw [referMembers]
    exact allNoted_plain _
  | member :: rest =>
    rw [List.forall_mem_cons] at hmembers
    rw [referMembers]
    exact (allNoted_refer member _ names hmembers.1).andThen
      ((allNoted_referMembers rest name (number + 1) _ hmembers.2).map _)
termination_by sizeOf members
end

theorem allNoted_bodyOf {node : SchemaNode} (hnode : node.Everywhere fun n => q n.note)
    (name : String) (names : Sanitizer) : AllNoted q (bodyOf node name names) := by
  cases node with
  | object fields isOpen note =>
    exact (allNoted_referFields fields name names (everywhere_object.mp hnode).2).map _
  | union members note =>
    exact (allNoted_referMembers members name 1 names (everywhere_union.mp hnode).2).map _
  | array items note => exact (allNoted_refer items _ names (everywhere_array.mp hnode).2).map _
  | record values note => exact (allNoted_refer values _ names (everywhere_record.mp hnode).2).map _
  | _ => exact allNoted_plain _

theorem forall_notes_bodyOf {node : SchemaNode} (hnode : node.Everywhere fun n => q n.note)
    (name : String) (names : Sanitizer) :
    ∀ note ∈ (bodyOf node name names).result.notes, q note := by
  cases node with
  | object fields isOpen note =>
    exact forall_notes_referFields (everywhere_object.mp hnode).2 name names isOpen
  | _ => exact List.forall_mem_nil _

/-- All notes in the declarations for a node are notes of nodes inside it. -/
theorem forall_notes_declarations {node : SchemaNode} (hnode : node.Everywhere fun n => q n.note)
    (name : String) : ∀ d ∈ declarations node name, ∀ note ∈ d.body.notes, q note :=
  (allNoted_bodyOf hnode _ _).declare (forall_notes_bodyOf hnode _ _) _

end

/-! ## Texts -/

section
variable {config : Config} {fault : Fault}

theorem exists_of_propertyTexts_error {properties : List Property}
    (h : propertyTexts config properties = .error fault) :
    ∃ p ∈ properties, noteLines config p.note = .error fault := by
  induction properties with
  | nil => cases h
  | cons p rest ih =>
    rw [propertyTexts] at h
    cases hdoc : noteLines config p.note with
    | error e =>
      rw [hdoc] at h
      cases h
      exact ⟨p, List.mem_cons_self, hdoc⟩
    | ok doc =>
      rw [hdoc] at h
      obtain ⟨p', hp', hfails⟩ := ih (eq_error_of_map_eq_error h)
      exact ⟨p', List.mem_cons_of_mem _ hp', hfails⟩

theorem exists_of_declarationText_error {doc : List Line} {d : Declaration}
    (h : declarationText config doc d = .error fault) :
    ∃ note ∈ d.body.notes, noteLines config note = .error fault := by
  rw [declarationText] at h
  split at h
  · next properties isOpen hbody =>
    obtain ⟨p, hp, hfails⟩ := exists_of_propertyTexts_error (eq_error_of_map_eq_error h)
    exact ⟨p.note, by rw [hbody]; exact List.mem_map_of_mem hp, hfails⟩
  · cases h

theorem exists_of_declarationTexts_error {doc : List Line} {ds : List Declaration}
    (h : declarationTexts config doc ds = .error fault) :
    ∃ d ∈ ds, ∃ note ∈ d.body.notes, noteLines config note = .error fault := by
  induction ds generalizing doc with
  | nil => cases h
  | cons d rest ih =>
    rw [declarationTexts] at h
    cases htext : declarationText config doc d with
    | error e =>
      rw [htext] at h
      cases h
      exact ⟨d, List.mem_cons_self, exists_of_declarationText_error htext⟩
    | ok text =>
      rw [htext] at h
      obtain ⟨d', hd', hfails⟩ := ih (eq_error_of_map_eq_error h)
      exact ⟨d', List.mem_cons_of_mem _ hd', hfails⟩

/-- Where no source can be written for a node, one of the nodes inside it has a description that is
no text, if it is not the indent that cannot be written. -/
theorem exists_of_nodeSource_error {node : SchemaNode} {name : String} {doc : List String}
    (h : nodeSource config node name doc = .error fault) :
    config.indent = .error fault ∨ ∃ n ∈ node.subnodes, noteLines config n.note = .error fault := by
  rw [nodeSource] at h
  cases hlines : noteLines config node.note with
  | error e =>
    rw [hlines] at h
    cases h
    exact .inr ⟨node, self_mem_subnodes node, hlines⟩
  | ok lines =>
    rw [hlines] at h
    dsimp only at h
    cases htexts : declarationTexts config (lines ++ extraLines config doc)
        (declarations node name) with
    | error e =>
      rw [htexts] at h
      cases h
      obtain ⟨d, hd, note, hnote, hfails⟩ := exists_of_declarationTexts_error htexts
      obtain ⟨n, hn, rfl⟩ := forall_notes_declarations
        (q := fun note => ∃ n ∈ node.subnodes, n.note = note) (fun n hn => ⟨n, hn, rfl⟩) name d hd
        note hnote
      exact .inr ⟨n, hn, hfails⟩
    | ok texts =>
      rw [htexts] at h
      exact .inl (eq_error_of_map_eq_error h)

/-- Documentation cannot be written where a description is there that is no text. -/
theorem eq_of_noteLines_error {note : Note} (h : noteLines config note = .error fault) :
    fault = .noSuchOperation ∧ note.description.isTruthy = true ∧
      ∀ s, note.description ≠ .str s := by
  rw [noteLines] at h
  split at h
  · have hlines := eq_error_of_map_eq_error h
    unfold descriptionLines at hlines
    split at hlines
    · next htruthy =>
      split at hlines
      · cases hlines
      · next hnot =>
        cases hlines
        exact ⟨rfl, htruthy, hnot⟩
    · cases hlines
  · cases h

/-- The source of a node is written where all descriptions in it are texts. -/
theorem exists_nodeSource {indent : Line} (hindent : config.indent = .ok indent)
    {node : SchemaNode} (hdescriptions : node.Everywhere fun n =>
      n.note.description.isTruthy = true → ∃ s, n.note.description = .str s) (name : String)
    (doc : List String) : ∃ source, nodeSource config node name doc = .ok source := by
  cases hsource : nodeSource config node name doc with
  | ok source => exact ⟨source, rfl⟩
  | error fault =>
    rcases exists_of_nodeSource_error hsource with hfails | ⟨n, hn, hfails⟩
    · rw [hindent] at hfails
      cases hfails
    · obtain ⟨-, htruthy, hnot⟩ := eq_of_noteLines_error hfails
      obtain ⟨s, hs⟩ := hdescriptions n hn htruthy
      exact absurd hs (hnot s)

end

end SchemaTypings.Typescript
